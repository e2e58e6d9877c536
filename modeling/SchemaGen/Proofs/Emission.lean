import SchemaGen.Proofs.Scan
import SchemaGen.Proofs.Sketch
import SchemaGen.Proofs.WellFormed
/-!
# The members that a message is written with

A field of a message has its member in the record of the message, or in the union of the oneof that holds it.
Both are found at the position of the field. They can be written if the type names of the message have a meaning.
-/
namespace SchemaGen

theorem Field.WellFormed.plain {x : Field} (h : x.WellFormed)
    (notMap : ∀ key value, x.type = .map key value → False) : x.type.Plain := by
  refine FieldType.plain_of_not_isMap h.type ?_
  intro isMap
  cases type : x.type with
  | scalar kind => simp [type, FieldType.isMap] at isMap
  | named name => simp [type, FieldType.isMap] at isMap
  | map key value => exact notMap key value type

namespace Code
open Output

theorem getElem?_of_mapM {ε α β : Type} {f : α → Except ε β} {as : List α} {bs : List β}
    (h : as.mapM f = .ok bs) {i : Nat} {a : α} {b : β} (ha : as[i]? = some a) (hb : bs[i]? = some b) :
    f a = .ok b := by
  have aligned := mapM_eq_ok.mp h
  obtain ⟨hi, rfl⟩ := List.getElem?_eq_some_iff.mp ha
  obtain ⟨hj, rfl⟩ := List.getElem?_eq_some_iff.mp hb
  exact List.Forall₂.get aligned hi hj

/-- The code of the message `m` at the site `s` has the member `e` for its field `x`, in its record or in a union. -/
inductive Emits (s : Site) (m : Message) (x : Field) : Form → Member → Prop
  | record {e : Member} (name : String) (members : List Member) (i : Nat)
      (written : s.record m = .ok (.record name members)) (field : m.fields[i]? = some x)
      (member : members[i]? = some e) : Emits s m x .record e
  | union {e : Member} (o : Oneof) (name : String) (variants : List Member) (i : Nat) (oneof : o ∈ m.oneofs)
      (written : (s.inside m.name).union o = .ok (.union name variants))
      (field : o.fields[i]? = some x) (variant : variants[i]? = some e) : Emits s m x .union e

namespace Site

theorem record_eq_ok {s : Site} {m : Message} {d : Declaration} (h : s.record m = .ok d) :
    (m.isEmpty ∧ d = .marker (Naming.typeName s.scope m.name)) ∨
    (¬ m.isEmpty ∧ ∃ members, m.fields.mapM (s.inside m.name).member = .ok members ∧
      d = .record (Naming.typeName s.scope m.name) (members ++ m.oneofs.map (s.inside m.name).oneofMember)) := by
  unfold record at h
  split at h
  · rename_i empty
    cases h
    exact .inl ⟨empty, rfl⟩
  · rename_i nonempty
    obtain ⟨members, read, h⟩ := except_bind_ok.mp h
    cases h
    exact .inr ⟨nonempty, members, read, rfl⟩

theorem union_eq_ok {s : Site} {o : Oneof} {d : Declaration} (h : s.union o = .ok d) :
    ∃ variants, o.fields.mapM s.variant = .ok variants ∧ d = .union (Naming.unionName s.scope o.name) variants := by
  obtain ⟨variants, read, h⟩ := except_bind_ok.mp h
  cases h
  exact ⟨variants, read, rfl⟩

variable {s : Site} {x : Field} {e : Member}

/-- A member is written as a map, as a vector or as an option around the shape of its type. -/
theorem member_eq_ok (h : s.member x = .ok e) :
    (∃ key value resolved, x.type = .map key value ∧ s.meaning x value = .ok resolved ∧
      e.encoding = .map key.keyword (s.shape resolved).mapKind x.number ∧
      e.type = mapOf (scalarType key) (s.shape resolved).type) ∨
    ∃ resolved, s.meaning x x.type = .ok resolved ∧
      ((x.label = .repeated ∧ e.encoding = .repeated (s.shape resolved).kind (s.shape resolved).packable x.number ∧
        e.type = vectorOf (s.shape resolved).type) ∨
      (x.label = .singular ∧
        e.encoding = .optional (s.shape resolved).kind (s.needsBox (s.shape resolved).target) x.number ∧
        e.type = optionOf (if s.needsBox (s.shape resolved).target then boxOf (s.shape resolved).type
          else (s.shape resolved).type))) := by
  unfold member at h
  dsimp only at h
  split at h
  · rename_i key value map
    obtain ⟨resolved, meaning, h⟩ := except_bind_ok.mp h
    cases h
    exact .inl ⟨key, value, resolved, map, meaning, rfl, rfl⟩
  · obtain ⟨resolved, meaning, h⟩ := except_bind_ok.mp h
    right
    refine ⟨resolved, meaning, ?_⟩
    split at h
    · rename_i label
      cases h
      exact .inl ⟨label, rfl, rfl⟩
    · rename_i label
      cases h
      exact .inr ⟨label, rfl, rfl⟩

theorem variant_eq_ok (h : s.variant x = .ok e) :
    ∃ resolved, s.meaning x x.type = .ok resolved ∧
      e.encoding = .single (s.shape resolved).kind (s.needsBox (s.shape resolved).target) x.number ∧
      e.type = if s.needsBox (s.shape resolved).target then boxOf (s.shape resolved).type
        else (s.shape resolved).type := by
  obtain ⟨resolved, meaning, h⟩ := except_bind_ok.mp h
  cases h
  exact ⟨resolved, meaning, rfl, rfl⟩

theorem member_name (h : s.member x = .ok e) : e.name = Naming.fieldName x.name := by
  unfold member at h
  dsimp only at h
  split at h
  · obtain ⟨_, _, h⟩ := except_bind_ok.mp h
    cases h
    rfl
  · obtain ⟨_, _, h⟩ := except_bind_ok.mp h
    split at h
    · cases h
      rfl
    · cases h
      rfl

theorem variant_name (h : s.variant x = .ok e) : e.name = Naming.variantName x.name := by
  obtain ⟨_, _, h⟩ := except_bind_ok.mp h
  cases h
  rfl

theorem meaning_named {name : String} {resolved : Resolved} (h : s.meaning x (.named name) = .ok resolved) :
    s.registry.resolve? s.place name = some resolved := by
  rw [meaning] at h
  split at h
  · rename_i found
    cases h
    exact found
  · cases h

theorem meaning_of_resolve? {name : String} {resolved : Resolved}
    (h : s.registry.resolve? s.place name = some resolved) : s.meaning x (.named name) = .ok resolved := by
  rw [meaning, h]

theorem meaning_of_names {name : String} {resolved : Resolved} (names : x.Names name)
    (h : s.meaning x x.type = .ok resolved) : s.registry.resolve? s.place name = some resolved := by
  rcases names with named | ⟨key, map⟩
  · rw [named] at h
    exact meaning_named h
  · rw [map] at h
    cases h

end Site

/-- What is written for a field is its member, or its variant if a oneof holds it. -/
theorem Emits.written {s : Site} {m : Message} {x : Field} {form : Form} {e : Member} (h : Emits s m x form e) :
    (form = .record ∧ x ∈ m.fields ∧ (s.inside m.name).member x = .ok e) ∨
    (form = .union ∧ ∃ o ∈ m.oneofs, x ∈ o.fields ∧ (s.inside m.name).variant x = .ok e) := by
  cases h with
  | record name members i written field member =>
    rcases Site.record_eq_ok written with ⟨_, other⟩ | ⟨_, members', read, same⟩
    · cases other
    · cases same
      obtain ⟨hi, _⟩ := List.getElem?_eq_some_iff.mp field
      have aligned := (mapM_eq_ok.mp read).length_eq
      rw [List.getElem?_append_left (by omega)] at member
      exact .inl ⟨rfl, List.mem_of_getElem? field, getElem?_of_mapM read field member⟩
  | union o name variants i oneof written field variant =>
    obtain ⟨variants', read, same⟩ := Site.union_eq_ok written
    cases same
    exact .inr ⟨rfl, o, oneof, List.mem_of_getElem? field, getElem?_of_mapM read field variant⟩

/-- The entry is written for the field `x` with a type and with the words that an attribute has for it. A box is around
the type where a single value is held, in a record as an option and in a union as it is. -/
inductive Entry.Writes (e : Entry) (x : Field) (type kind mapKind : String) (packed boxed : Bool) : Form → Prop
  | map (key : Scalar) (value : FieldType) (declared : x.type = .map key value)
      (content : e.content =
        "map = \"" ++ key.keyword ++ ", " ++ mapKind ++ "\", tag = \"" ++ toString x.number ++ "\"")
      (written : e.type = "::std::collections::HashMap<" ++ scalarType key ++ ", " ++ type ++ ">") :
      e.Writes x type kind mapKind packed boxed .record
  | repeated (label : x.label = .repeated)
      (content : e.content = kind ++ ", repeated" ++ (if packed then ", packed = \"true\"" else "") ++
        ", tag = \"" ++ toString x.number ++ "\"")
      (written : e.type = "::prost::alloc::vec::Vec<" ++ type ++ ">") :
      e.Writes x type kind mapKind packed boxed .record
  | optional (label : x.label = .singular)
      (content : e.content = kind ++ ", optional" ++ (if boxed then ", boxed" else "") ++
        ", tag = \"" ++ toString x.number ++ "\"")
      (written : e.type = "::core::option::Option<" ++
        (if boxed then "::prost::alloc::boxed::Box<" ++ type ++ ">" else type) ++ ">") :
      e.Writes x type kind mapKind packed boxed .record
  | single
      (content : e.content = kind ++ (if boxed then ", boxed" else "") ++ ", tag = \"" ++ toString x.number ++ "\"")
      (written : e.type = if boxed then "::prost::alloc::boxed::Box<" ++ type ++ ">" else type) :
      e.Writes x type kind mapKind packed boxed .union

/-- What is written for a field whose type is a name has the shape of what the name means. -/
theorem Emits.writes {s : Site} {m : Message} {x : Field} {form : Form} {e : Member} {name : String}
    (names : x.Names name) (h : Emits s m x form e) :
    ∃ resolved, s.registry.resolve? (s.inside m.name).place name = some resolved ∧
      e.entry.Writes x ((s.inside m.name).shape resolved).type ((s.inside m.name).shape resolved).kind
        ((s.inside m.name).shape resolved).mapKind ((s.inside m.name).shape resolved).packable
        ((s.inside m.name).needsBox ((s.inside m.name).shape resolved).target) form := by
  rcases h.written with ⟨rfl, _, written⟩ | ⟨rfl, _, _, _, written⟩
  · rcases Site.member_eq_ok written with ⟨key, value, resolved, map, read, encoding, type⟩ | ⟨resolved, read, rest⟩
    · have value : value = .named name := by
        rcases names with named | ⟨key', map'⟩
        · rw [map] at named
          cases named
        · rw [map] at map'
          cases map'
          rfl
      rw [value] at read
      exact ⟨resolved, Site.meaning_named read, .map key _ map (congrArg Encoding.content encoding) type⟩
    · refine ⟨resolved, Site.meaning_of_names names read, ?_⟩
      rcases rest with ⟨label, encoding, type⟩ | ⟨label, encoding, type⟩
      · exact .repeated label (congrArg Encoding.content encoding) type
      · exact .optional label (congrArg Encoding.content encoding) type
  · obtain ⟨resolved, read, encoding, type⟩ := Site.variant_eq_ok written
    exact ⟨resolved, Site.meaning_of_names names read, .single (congrArg Encoding.content encoding) type⟩

theorem exists_emits_record {s : Site} {m : Message} {d : Declaration} (written : s.record m = .ok d) {x : Field}
    (hx : x ∈ m.fields) :
    ∃ members e, d = .record (Naming.typeName s.scope m.name) members ∧ e ∈ members ∧ Emits s m x .record e := by
  obtain ⟨i, hi⟩ := List.mem_iff_getElem?.mp hx
  rcases Site.record_eq_ok written with ⟨empty, _⟩ | ⟨_, members, read, rfl⟩
  · simp only [Message.isEmpty, Bool.and_eq_true, List.isEmpty_iff] at empty
    simp [empty.1] at hx
  · have aligned := (mapM_eq_ok.mp read).length_eq
    have bound := (List.getElem?_eq_some_iff.mp hi).1
    have found : (members ++ m.oneofs.map (s.inside m.name).oneofMember)[i]? = some members[i] := by
      rw [List.getElem?_append_left (by omega), List.getElem?_eq_getElem]
    exact ⟨_, _, rfl, List.mem_of_getElem? found, .record _ _ i written hi found⟩

theorem exists_emits_union {s : Site} {m : Message} {o : Oneof} (ho : o ∈ m.oneofs) {d : Declaration}
    (written : (s.inside m.name).union o = .ok d) {x : Field} (hx : x ∈ o.fields) :
    ∃ variants e, d = .union (Naming.unionName (s.inside m.name).scope o.name) variants ∧ e ∈ variants ∧
      Emits s m x .union e := by
  obtain ⟨i, hi⟩ := List.mem_iff_getElem?.mp hx
  obtain ⟨variants, read, rfl⟩ := Site.union_eq_ok written
  have aligned := (mapM_eq_ok.mp read).length_eq
  have bound := (List.getElem?_eq_some_iff.mp hi).1
  have found : variants[i]? = some variants[i] := List.getElem?_eq_getElem (by omega)
  exact ⟨_, _, rfl, List.mem_of_getElem? found, .union o _ _ i ho written hi found⟩

theorem exists_emits {s : Site} {m : Message} (record : ∃ d, s.record m = .ok d)
    (unions : ∀ o ∈ m.oneofs, ∃ d, (s.inside m.name).union o = .ok d) {x : Field} (hx : x ∈ m.allFields) :
    ∃ form e, Emits s m x form e := by
  rcases List.mem_append.mp hx with hx | hx
  · obtain ⟨d, written⟩ := record
    obtain ⟨_, e, _, _, emits⟩ := exists_emits_record written hx
    exact ⟨_, e, emits⟩
  · obtain ⟨o, ho, hx⟩ := List.mem_flatMap.mp hx
    obtain ⟨d, written⟩ := unions o ho
    obtain ⟨_, e, _, _, emits⟩ := exists_emits_union ho written hx
    exact ⟨_, e, emits⟩

namespace Site
variable {s : Site} {x : Field}

theorem exists_meaning {type : FieldType} (plain : type.Plain)
    (resolves : ∀ name, type = .named name → (s.registry.resolve? s.place name).isSome) :
    ∃ resolved, s.meaning x type = .ok resolved := by
  cases type with
  | scalar kind => exact ⟨_, rfl⟩
  | named name =>
    obtain ⟨resolved, found⟩ := Option.isSome_iff_exists.mp (resolves name rfl)
    exact ⟨resolved, meaning_of_resolve? found⟩
  | map key value => exact plain.elim

theorem exists_member (formed : x.WellFormed)
    (resolves : ∀ name, x.Names name → (s.registry.resolve? s.place name).isSome) : ∃ e, s.member x = .ok e := by
  unfold member
  dsimp only
  split
  · rename_i key value map
    have type := formed.type
    rw [map] at type
    obtain ⟨resolved, read⟩ := exists_meaning (s := s) (x := x) type.2
      fun name named => resolves name (.inr ⟨key, by rw [map, named]⟩)
    rw [read]
    exact ⟨_, rfl⟩
  · rename_i notMap
    have plain := formed.plain notMap
    obtain ⟨resolved, read⟩ := exists_meaning (s := s) (x := x) plain fun name named => resolves name (.inl named)
    rw [read]
    cases x.label with
    | singular => exact ⟨_, rfl⟩
    | repeated => exact ⟨_, rfl⟩

theorem exists_variant (formed : x.Alternative)
    (resolves : ∀ name, x.Names name → (s.registry.resolve? s.place name).isSome) : ∃ e, s.variant x = .ok e := by
  obtain ⟨resolved, read⟩ := exists_meaning (s := s) (x := x) formed.plain fun name named => resolves name (.inl named)
  exact ⟨_, except_bind_ok.mpr ⟨resolved, read, rfl⟩⟩

theorem exists_record {m : Message} (formed : m.WellFormed)
    (resolves : ∀ x ∈ m.allFields, ∀ name, x.Names name →
      (s.registry.resolve? (s.inside m.name).place name).isSome) : ∃ d, s.record m = .ok d := by
  unfold record
  split
  · exact ⟨_, rfl⟩
  · obtain ⟨members, read⟩ := mapM_exists_ok (f := (s.inside m.name).member) fun x hx =>
      exists_member (formed.fields x hx) (resolves x (List.mem_append_left _ hx))
    exact ⟨_, except_bind_ok.mpr ⟨members, read, rfl⟩⟩

theorem exists_union {o : Oneof} (formed : o.WellFormed)
    (resolves : ∀ x ∈ o.fields, ∀ name, x.Names name → (s.registry.resolve? s.place name).isSome) :
    ∃ d, s.union o = .ok d := by
  obtain ⟨variants, read⟩ := mapM_exists_ok (f := s.variant) fun x hx =>
    exists_variant (formed.fields x hx) (resolves x hx)
  exact ⟨_, except_bind_ok.mpr ⟨variants, read, rfl⟩⟩

end Site

end Code

end SchemaGen
