import SchemaGen.Proofs.Page
import SchemaGen.Proofs.Readable
import SchemaGen.Proofs.Walk
/-!
# Messages inside messages

A message that holds another directly is followed along single fields and oneof members. The search from a
message finds exactly what such a path leads to, so a field is boxed exactly when its message leads back to the
one that holds it. Unboxed fields alone never lead around in a circle: every generated type has a finite size.
-/
namespace SchemaGen
open Relation Code Output

/-- A field whose value a message holds itself: a single field, or a member of a oneof. -/
def Message.Stores (m : Message) (x : Field) : Prop :=
  (x ∈ m.fields ∧ x.label = .singular) ∨ ∃ o ∈ m.oneofs, x ∈ o.fields

theorem Message.Stores.mem_allFields {m : Message} {x : Field} (h : m.Stores x) : x ∈ m.allFields := by
  rcases h with ⟨h, _⟩ | ⟨o, ho, h⟩
  · exact List.mem_append_left _ h
  · exact List.mem_append_right _ (List.mem_flatMap.mpr ⟨o, ho, h⟩)

theorem Message.Stores.singular {m : Message} {x : Field} (formed : m.WellFormed) (h : m.Stores x) :
    x.label = .singular := by
  rcases h with ⟨_, label⟩ | ⟨o, ho, h⟩
  · exact label
  · exact ((formed.oneofs o ho).fields x h).singular

namespace Registry

/-- The type of a field, as written, means the message `t` at a place. -/
def Means (r : Registry) (p : Place) (x : Field) (t : Symbol) : Prop :=
  ∃ name, x.type = .named name ∧ r.resolve? p name = some (.message t)

/-- A registered message stores a field whose type means another. -/
def Contains (r : Registry) (s t : Symbol) : Prop :=
  ∃ f ∈ r.files, ∃ n ∈ f.everyMessage, s = f.messageSymbol n ∧
    ∃ x, n.message.Stores x ∧ r.Means (f.placeAt n) x t

theorem held?_eq_some {r : Registry} {p : Place} {x : Field} {t : Symbol} :
    r.held? p x = some t ↔ x.label = .singular ∧ r.Means p x t := by
  unfold held? Means
  constructor
  · intro h
    split at h
    · rename_i name label type
      split at h
      · rename_i target resolved
        cases h
        exact ⟨label, name, type, resolved⟩
      · cases h
    · cases h
  · rintro ⟨label, name, type, resolved⟩
    rw [label, type]
    simp [resolved]

theorem Means.mem_table {r : Registry} {p : Place} {x : Field} {t : Symbol} (h : r.Means p x t) :
    t ∈ r.table.map (·.2) := by
  obtain ⟨_, _, resolved⟩ := h
  exact mem_table_of_resolve? resolved (.inl rfl)

section parsed
variable {r : Registry} (c : r.Consistent)
include c

/-- The search for what can be reached follows the fields that hold messages. -/
theorem Consistent.reaches_iff {start target : Symbol} (hs : start ∈ r.table.map (·.2)) :
    r.reaches start target ↔ TransGen (fun a b => b ∈ r.holds a) start target := by
  have visited : ∀ a, a ∈ r.messageWalk.places .depthFirst [start] [] ↔
      ReflTransGen (fun a b => b ∈ r.holds a) start a := by
    intro a
    -- The keys are full names, which tell apart what is registered.
    rw [Walk.mem_places_iff (S := (· ∈ r.table.map (·.2)))]
    · simp only [List.mem_singleton, exists_eq_left]
      rfl
    · simpa using hs
    · exact fun _ _ _ step => mem_table_of_holds step
    · exact fun _ _ ha hb same => c.eq_of_fullName ha hb same
  rw [reaches, Walk.run_eq_map_places, List.any_map, List.any_eq_true, TransGen.tail'_iff]
  constructor
  · rintro ⟨a, ha, found⟩
    exact ⟨a, (visited a).mp ha, by simpa [messageWalk] using found⟩
  · rintro ⟨a, path, step⟩
    exact ⟨a, (visited a).mpr path, by simpa [messageWalk] using step⟩

variable (formed : ∀ f ∈ r.files, f.toSchema.WellFormed)
include formed

theorem Consistent.mem_holds_iff {s t : Symbol} (hs : s ∈ r.table.map (·.2)) :
    t ∈ r.holds s ↔ r.Contains s t := by
  constructor
  · intro h
    have kind : s.kind = .message := by
      cases kind : s.kind with
      | message => rfl
      | enum => simp [holds, message?, kind] at h
    obtain ⟨f, hf, inFile⟩ := c.mem_table_iff.mp hs
    obtain ⟨n, hn, rfl⟩ := SchemaFile.exists_of_message_mem inFile kind
    rw [holds, c.message?_eq hf hn] at h
    obtain ⟨x, hx, held⟩ := List.mem_filterMap.mp h
    obtain ⟨label, means⟩ := held?_eq_some.mp held
    refine ⟨f, hf, n, hn, rfl, x, ?_, means⟩
    rcases List.mem_append.mp hx with hx | hx
    · exact .inl ⟨hx, label⟩
    · exact .inr (List.mem_flatMap.mp hx)
  · rintro ⟨f, hf, n, hn, rfl, x, stored, means⟩
    rw [holds, c.message?_eq hf hn]
    have label := stored.singular ((formed f hf).messages n hn)
    exact List.mem_filterMap.mpr ⟨x, stored.mem_allFields, held?_eq_some.mpr ⟨label, means⟩⟩

theorem Consistent.reflTransGen_holds_iff {s t : Symbol} (hs : s ∈ r.table.map (·.2)) :
    ReflTransGen (fun a b => b ∈ r.holds a) s t ↔ ReflTransGen r.Contains s t := by
  constructor
  · intro path
    have inTable : t ∈ r.table.map (·.2) ∧ ReflTransGen r.Contains s t := by
      induction path with
      | refl => exact ⟨hs, .refl⟩
      | tail _ step ih =>
        exact ⟨mem_table_of_holds step, ih.2.tail ((c.mem_holds_iff formed ih.1).mp step)⟩
    exact inTable.2
  · intro path
    refine ReflTransGen.mono ?_ _ _ path
    intro a b edge
    obtain ⟨f, hf, n, hn, rfl, _⟩ := id edge
    have ha := c.mem_table_iff.mpr ⟨f, hf, SchemaFile.messageSymbol_mem hn⟩
    exact (c.mem_holds_iff formed ha).mpr edge

theorem Consistent.needsBox_iff (config : Config) {f : SchemaFile} {n : Nested} {t : Symbol}
    (hf : f ∈ r.files) (hn : n ∈ f.everyMessage) (ht : t ∈ r.table.map (·.2)) :
    (within (.top r config f) n.inner).needsBox (some t) ↔ ReflTransGen r.Contains t (f.messageSymbol n) := by
  have owner : (within (.top r config f) n.inner).registry.messageSymbol?
      (within (.top r config f) n.inner).file.package (within (.top r config f) n.inner).scope =
        some (f.messageSymbol n) := c.messageSymbol?_eq hf hn
  rw [← c.reflTransGen_holds_iff formed ht, reflTransGen_iff_eq_or_transGen, ← c.reaches_iff ht]
  unfold Site.needsBox
  rw [owner]
  simp only [Bool.or_eq_true, beq_iff_eq]
  rw [eq_comm]
  rfl

end parsed

end Registry

/-- The entry of a record or a union is written for the field `x` as a message of the type `path`, in a box or not. -/
def Code.Entry.Holds (e : Entry) (x : Field) (form : Form) (path : String) (boxed : Bool) : Prop :=
  e.Writes x path "message" "message" false boxed form

/-- The words of an attribute tell whether a single message is boxed. -/
theorem Code.Entry.Holds.boxed_eq {e : Entry} {x : Field} (label : x.label = .singular)
    (noMap : ∀ key value, x.type ≠ .map key value) {form : Form} {path path' : String} {boxed boxed' : Bool}
    (h : e.Holds x form path boxed) (h' : e.Holds x form path' boxed') : boxed = boxed' := by
  have words : ∀ {path : String} {boxed : Bool}, e.Holds x form path boxed →
      e.content = "message" ++ (if form = .record then ", optional" else "") ++ (if boxed then ", boxed" else "") ++
        ", tag = \"" ++ toString x.number ++ "\"" := by
    intro path boxed h
    cases h with
    | map key value map => exact absurd map (noMap key value)
    | repeated repeated => cases label.symm.trans repeated
    | optional _ content => exact content
    | single content => exact content
  have same := (words h).symm.trans (words h')
  simp only [String.append_assoc, String.append_right_inj] at same
  cases boxed <;> cases boxed' <;> simp [← String.toList_inj] at same ⊢

theorem Code.Emits.holds {r : Registry} {config : Config} {f : SchemaFile} {n : Nested} {x : Field} {t : Symbol}
    {form : Form} {e : Member} (means : r.Means (f.placeAt n) x t)
    (h : Emits (within (.top r config f) n.scope) n.message x form e) :
    e.entry.Holds x form ((within (.top r config f) n.inner).symbolReference t)
      ((within (.top r config f) n.inner).needsBox (some t)) := by
  obtain ⟨name, type, resolved⟩ := means
  obtain ⟨_, found, writes⟩ := h.writes (.inl type)
  cases resolved.symm.trans found
  exact writes

namespace Registry

def HoldsUnboxed (r : Registry) (config : Config) (s t : Symbol) : Prop :=
  ∃ f ∈ r.files, ∃ n ∈ f.everyMessage, s = f.messageSymbol n ∧
    ∃ x, n.message.Stores x ∧ r.Means (f.placeAt n) x t ∧
      ∃ form e, Emits (within (.top r config f) n.scope) n.message x form e ∧ ∀ path, ¬ e.entry.Holds x form path true

theorem HoldsUnboxed.contains {r : Registry} {config : Config} {s t : Symbol} (h : r.HoldsUnboxed config s t) :
    r.Contains s t := by
  obtain ⟨f, hf, n, hn, same, x, stored, means, _⟩ := h
  exact ⟨f, hf, n, hn, same, x, stored, means⟩

/-- A message held without a box does not lead back to its holder. -/
theorem HoldsUnboxed.not_leads_back {r : Registry} {config : Config} {s t : Symbol} (c : r.Consistent)
    (formed : ∀ f ∈ r.files, f.toSchema.WellFormed) (h : r.HoldsUnboxed config s t) :
    ¬ ReflTransGen r.Contains t s := by
  intro path
  obtain ⟨f, hf, n, hn, rfl, x, _, means, form, e, emits, unboxed⟩ := h
  have boxed := (c.needsBox_iff formed config hf hn means.mem_table).mpr path
  have written := emits.holds means
  rw [boxed] at written
  exact unboxed _ written

end Registry

/-- In a registry of files that were read, a field that stores a message is boxed exactly when that message leads
back to the one with the field. What is left unboxed goes around in no circle. Records and unions are written with the
words and the types of their members. -/
theorem boxed_iff_leads_back {files : List SchemaFile} {r : Registry} (parsed : ∀ f ∈ files, f.Parsed)
    (registered : Registry.registerAll {} files = .ok r) (config : Config) :
    (∀ f ∈ r.files, ∀ n ∈ f.everyMessage,
      (∃ d, (within (.top r config f) n.scope).record n.message = .ok d) →
      (∀ o ∈ n.message.oneofs, ∃ d, (within (.top r config f) n.inner).union o = .ok d) →
      ∀ x t, n.message.Stores x → r.Means (f.placeAt n) x t →
        (∃ form e, Emits (within (.top r config f) n.scope) n.message x form e) ∧
        ∀ form e, Emits (within (.top r config f) n.scope) n.message x form e →
          (e.entry.Holds x form ((within (.top r config f) n.inner).symbolReference t) true ↔
            ReflTransGen r.Contains t (f.messageSymbol n)) ∧
          (e.entry.Holds x form ((within (.top r config f) n.inner).symbolReference t) false ↔
            ¬ ReflTransGen r.Contains t (f.messageSymbol n))) ∧
    (∀ s, ¬ TransGen (r.HoldsUnboxed config) s s) ∧
    (∀ name members, (Declaration.record name members).render = recordLayout name members) ∧
    ∀ name variants, (Declaration.union name variants).render = unionLayout name variants := by
  obtain ⟨c, formed⟩ := Registry.registerAll_parsed parsed registered
  refine ⟨?_, ?_, render_record, render_union⟩
  · intro f hf n hn record unions x t stored means
    refine ⟨exists_emits record unions stored.mem_allFields, ?_⟩
    intro form e emits
    have written := emits.holds means
    have needed := c.needsBox_iff formed config hf hn means.mem_table
    have label := stored.singular ((formed f hf).messages n hn)
    have noMap : ∀ key value, x.type ≠ .map key value := by
      obtain ⟨name, type, _⟩ := means
      simp [type]
    have boxed : ∀ b, e.entry.Holds x form ((within (.top r config f) n.inner).symbolReference t) b ↔
        (within (.top r config f) n.inner).needsBox (some t) = b := by
      intro b
      constructor
      · exact written.boxed_eq label noMap
      · rintro rfl
        exact written
    rw [boxed, boxed, ← needed, Bool.not_eq_true]
    exact ⟨.rfl, .rfl⟩
  · intro s circle
    obtain ⟨t, first, rest⟩ := TransGen.head'_iff.mp circle
    have back : ReflTransGen r.Contains t s :=
      ReflTransGen.mono (fun _ _ edge => edge.contains) _ _ rest
    exact first.not_leads_back c formed back

/-- Two messages that store each other, one of them in a oneof. -/
def circle : SchemaFile :=
  .ofText "circle" "message Sum\x7bTerm term=1;\x7dmessage Term\x7boneof kind\x7bSum sum=1;\x7d\x7d"

theorem boxed_iff_leads_back_circle :
    circle.Parsed ∧ ∃ r, Registry.registerAll {} [circle] = .ok r ∧
      ∃ n ∈ circle.everyMessage, ∃ x, n.message.Stores x ∧
        ∃ form e, Emits (within (.top r {} circle) n.scope) n.message x form e ∧ e.entry.Holds x form "Term" true := by
  have parsed : circle.Parsed := SchemaFile.parsed_ofText (by decide +kernel)
  have facts : ∃ n ∈ circle.everyMessage, ∃ k ∈ circle.everyMessage, ∃ x ∈ n.message.fields,
      ∃ o ∈ k.message.oneofs, ∃ y ∈ o.fields,
        n.message.allFields = [x] ∧ n.message.oneofs = [] ∧ x.label = .singular ∧
        x.type = .named "Term" ∧ y.type = .named "Sum" ∧
        ((Registry.registerAll {} [circle]).toOption.bind (·.resolve? (circle.placeAt n) "Term")) =
          some (.message (circle.messageSymbol k)) ∧
        ((Registry.registerAll {} [circle]).toOption.bind (·.resolve? (circle.placeAt k) "Sum")) =
          some (.message (circle.messageSymbol n)) ∧
        (within (.top {} {} circle) n.inner).symbolReference (circle.messageSymbol k) = "Term" := by
    decide +kernel
  obtain ⟨n, hn, k, hk, x, hx, o, ho, y, hy, only, noOneof, label, term, sum, inSum, inTerm, spelled⟩ := facts
  cases registered : Registry.registerAll {} [circle] with
  | error e => simp [registered, Except.toOption] at inSum
  | ok r =>
    simp only [registered, Except.toOption, Option.bind_some] at inSum inTerm
    have here : circle ∈ r.files := by
      rw [Registry.consistent_empty.files_of_registerAll (by simp) registered]
      simp
    have record : ∃ d, (within (.top r {} circle) n.scope).record n.message = .ok d := by
      refine Site.exists_record (parsed.wellFormed.messages n hn) ?_
      intro z hz name names
      obtain rfl : z = x := by simpa [only] using hz
      rcases names with named | ⟨key, map⟩
      · cases term.symm.trans named
        exact Option.isSome_iff_exists.mpr ⟨_, inSum⟩
      · cases term.symm.trans map
    have back : r.Contains (circle.messageSymbol k) (circle.messageSymbol n) :=
      ⟨circle, here, k, hk, rfl, y, .inr ⟨o, ho, hy⟩, "Sum", sum, inTerm⟩
    have stores : n.message.Stores x := .inl ⟨hx, label⟩
    obtain ⟨⟨form, e, emits⟩, boxed⟩ := (boxed_iff_leads_back (by simpa using parsed) registered {}).1 circle here n hn
      record (by simp [noOneof]) x _ stores ⟨"Term", term, inSum⟩
    have holds := (boxed form e emits).1.mpr (.single back)
    have path : (within (.top r {} circle) n.inner).symbolReference (circle.messageSymbol k) = "Term" := spelled
    rw [path] at holds
    exact ⟨parsed, r, rfl, n, hn, x, stores, form, e, emits, holds⟩

end SchemaGen
