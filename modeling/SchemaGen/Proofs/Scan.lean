import SchemaGen.Output.Schedule
import SchemaGen.Proofs.Catalog
import SchemaGen.Proofs.Nesting
/-!
# The scan for built-in types

The scan keeps the names around a message on a stack of its own. What a message puts there it takes away again, so
every field is looked at in the scope of its message, and the types that are found are those of all fields together.
-/
namespace SchemaGen

def Field.Names (x : Field) (name : String) : Prop :=
  x.type = .named name ∨ ∃ key, x.type = .map key (.named name)

namespace WellKnown

instance : IsStrictTotalOrder WellKnown (· < ·) where
  irrefl t := Nat.lt_irrefl t.ctorIdx
  trans _ _ _ := Nat.lt_trans
  trichotomous t u := by
    cases t <;> cases u <;> decide

end WellKnown

namespace Output
variable {r : Registry} {p : Place} {x : Field}

theorem typeUsed?_eq_some {name : String} : typeUsed? x = some name ↔ x.Names name := by
  unfold typeUsed? Field.Names
  cases x.type with
  | scalar kind => simp
  | named other => simp
  | map key value => cases value <;> simp

theorem compositeAt?_eq_some {t : WellKnown} :
    compositeAt? r p x = some t ↔
      t.isComposite ∧ ∃ name, x.Names name ∧ r.resolve? p name = some (.wellKnown t) := by
  simp only [compositeAt?, Option.bind_eq_bind, Option.bind_eq_some_iff, typeUsed?_eq_some]
  constructor
  · rintro ⟨name, names, found⟩
    split at found
    · rename_i u meaning
      simp only [Option.ite_none_right_eq_some, Option.some.injEq] at found
      obtain ⟨composite, rfl⟩ := found
      exact ⟨composite, name, names, meaning⟩
    · cases found
  · rintro ⟨composite, name, names, meaning⟩
    refine ⟨name, names, ?_⟩
    rw [meaning]
    exact if_pos composite

/-- The types that the fields of some messages have, each field in the scope of its message. -/
def compositesOf (r : Registry) (file : SchemaFile) (messages : List Nested) : List WellKnown :=
  messages.flatMap fun n => n.message.allFields.filterMap (compositeAt? r (file.placeAt n))

def Scan.gain (scan : Scan) (types : List WellKnown) : Scan :=
  { scan with found := types.foldl (fun found t => found.insert t ()) scan.found }

theorem Scan.gain_append (scan : Scan) (types more : List WellKnown) :
    scan.gain (types ++ more) = (scan.gain types).gain more := by
  simp [gain]

section run
variable (r : Registry) (file : SchemaFile)

theorem run_scanField (x : Field) (scan : Scan) :
    (scanField r file x).run scan =
      ((), scan.gain (compositeAt? r ⟨file.name, file.package, scan.scope⟩ x).toList) := by
  simp only [scanField, modify, modifyGet, MonadStateOf.modifyGet, StateT.modifyGet, StateT.run]
  cases compositeAt? r ⟨file.name, file.package, scan.scope⟩ x <;> rfl

theorem run_scanFields (xs : List Field) (scan : Scan) :
    (xs.forM (scanField r file)).run scan =
      ((), scan.gain (xs.filterMap (compositeAt? r ⟨file.name, file.package, scan.scope⟩))) := by
  induction xs generalizing scan with
  | nil => rfl
  | cons x xs ih =>
    change (xs.forM (scanField r file)).run ((scanField r file x).run scan).2 = _
    rw [run_scanField, ih, ← List.singleton_append, List.filterMap_append, Scan.gain_append]
    cases found : compositeAt? r ⟨file.name, file.package, scan.scope⟩ x <;> simp [found, Scan.gain]

theorem scanMessage_eq (m : Message) :
    scanMessage r file m = (do
      modify fun scan => { scan with scope := scan.scope ++ [m.name] }
      m.allFields.forM (scanField r file)
      scanMessages r file m.messages
      modify fun scan => { scan with scope := scan.scope.dropLast }) := by
  cases m
  rw [scanMessage]

/-- A message is scanned under its own name, which is gone from the scope afterwards. -/
theorem run_scanMessage {m : Message} (inside : ∀ scan, (scanMessages r file m.messages).run scan =
      ((), scan.gain (compositesOf r file (Message.nestedAll scan.scope m.messages)))) (scan : Scan) :
    (scanMessage r file m).run scan = ((), scan.gain (compositesOf r file (m.nested scan.scope))) := by
  let entered : Scan := { scan with scope := scan.scope ++ [m.name] }
  let leave : Scan → Scan := fun scan => { scan with scope := scan.scope.dropLast }
  rw [scanMessage_eq]
  change ((), leave ((scanMessages r file m.messages).run ((m.allFields.forM (scanField r file)).run entered).2).2) = _
  rw [run_scanFields, inside, Message.nested_eq, compositesOf, compositesOf, List.flatMap_cons, Scan.gain_append]
  simp [leave, entered, Scan.gain, SchemaFile.placeAt, Nested.inner]

theorem run_scanMessages (ms : List Message) (scan : Scan) :
    (scanMessages r file ms).run scan = ((), scan.gain (compositesOf r file (Message.nestedAll scan.scope ms))) := by
  induction ms using Message.forestInduction generalizing scan with
  | nil => rfl
  | cons m ms inside rest =>
    change (scanMessages r file ms).run ((scanMessage r file m).run scan).2 = _
    rw [run_scanMessage r file inside, rest, Message.nestedAll]
    simp [Scan.gain, compositesOf]

end run

namespace Schedule
variable {s : Schedule} {t : WellKnown}

/-- A field of some file has a built-in type. -/
def Mentions (s : Schedule) (t : WellKnown) : Prop :=
  ∃ f ∈ s.files, ∃ n ∈ f.everyMessage, ∃ x ∈ n.message.allFields, ∃ name, x.Names name ∧
    s.registry.resolve? (f.placeAt n) name = some (.wellKnown t)

def composites (s : Schedule) : List WellKnown :=
  s.files.flatMap fun f => compositesOf s.registry f f.everyMessage

theorem mem_composites_iff : t ∈ s.composites ↔ t.isComposite ∧ s.Mentions t := by
  simp only [composites, compositesOf, List.mem_flatMap, List.mem_filterMap, compositeAt?_eq_some, Mentions]
  constructor
  · rintro ⟨f, hf, n, hn, x, hx, composite, found⟩
    exact ⟨composite, f, hf, n, hn, x, hx, found⟩
  · rintro ⟨composite, f, hf, n, hn, x, hx, found⟩
    exact ⟨f, hf, n, hn, x, hx, composite, found⟩

theorem scanFile_eq (found : Catalog WellKnown Unit) (f : SchemaFile) :
    s.scanFile found f =
      (compositesOf s.registry f f.everyMessage).foldl (fun found t => found.insert t ()) found := by
  rw [scanFile, run_scanMessages]
  rfl

theorem builtIns_eq_sorted (s : Schedule) : s.builtIns = Catalog.sorted s.composites := by
  have all : s.files.foldl s.scanFile .empty = s.composites.foldl (fun found t => found.insert t ()) .empty := by
    rw [composites, List.foldl_flatMap]
    simp only [funext fun found => funext (scanFile_eq (s := s) found)]
  rw [builtIns, all, Catalog.sorted, Catalog.ofList, List.foldl_map]

theorem mem_builtIns_iff : t ∈ s.builtIns ↔ t.isComposite ∧ s.Mentions t := by
  rw [builtIns_eq_sorted, Catalog.mem_sorted, mem_composites_iff]

theorem isComposite_of_mem_builtIns (h : t ∈ s.builtIns) : t.isComposite :=
  (mem_builtIns_iff.mp h).1

/-- No type is found twice: the types with a record are listed as far as some field has them. -/
theorem builtIns_eq_filter (s : Schedule) :
    s.builtIns = [.timestamp, .duration, .any, .fieldMask].filter (· ∈ s.composites) := by
  rw [builtIns_eq_sorted]
  apply Catalog.sorted_eq_filter
  · decide
  · intro t listed
    have composite := (mem_composites_iff.mp listed).1
    revert composite
    cases t <;> decide

end Schedule

end Output

end SchemaGen
