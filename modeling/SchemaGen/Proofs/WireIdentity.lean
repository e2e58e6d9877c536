import SchemaGen.Proofs.Readable
import SchemaGen.Proofs.Registration
/-!
# What meets the wire

The record and the unions generated from a message carry the field numbers of the schema: one member for each field
and one for each oneof, in their order, each with the numbers that the schema gives. All numbers of a message are
distinct. The generated text says the same.
-/
namespace SchemaGen
open Text Lexeme Code Output

/-- A record and the unions beside it carry the field numbers of a message. -/
structure Message.Faithful (m : Message) (record : Sketch) (unions : List Sketch) : Prop where
  marker : record.form = .marker ↔ m.fields = [] ∧ m.oneofs = []
  other : ¬ (m.fields = [] ∧ m.oneofs = []) → record.form = .record
  count : record.entries.length = m.fields.length + m.oneofs.length
  members : record.entries.map Entry.label = m.fields.map (fun x => (Naming.fieldName x.name, .tag x.number)) ++
    List.zipWith (fun o u => (Naming.fieldName o.name, .oneof u.name (o.fields.map (·.number)))) m.oneofs unions
  types : (record.entries.drop m.fields.length).map (·.type) = unions.map fun u => optionOf u.name
  variants : List.Forall₂ (fun o u => u.form = .union ∧
    u.entries.map Entry.label = o.fields.map fun x => (Naming.variantName x.name, .tag x.number)) m.oneofs unions
  numbers : record.tags ++ unions.flatMap (·.tags) = m.allFields.map (·.number)
  distinct : (record.tags ++ unions.flatMap (·.tags)).Nodup

section faithful
variable {s : Site} {os : List Oneof} {vs : List Sketch} (sketched : List.Forall₂ s.SketchesUnion os vs)
include sketched

theorem Code.Site.zipWith_sketches :
    List.zipWith (fun o (u : Sketch) => (Naming.fieldName o.name, Wire.oneof u.name (o.fields.map (·.number)))) os vs =
      os.map fun o => (Naming.fieldName o.name, .oneof (Naming.unionName s.scope o.name) (o.fields.map (·.number))) := by
  induction sketched with
  | nil => rfl
  | cons first rest ih => rw [List.zipWith_cons_cons, ih, List.map_cons, first.name]

theorem Code.Site.types_sketches :
    vs.map (fun u => optionOf u.name) = os.map fun o => optionOf (Naming.unionName s.scope o.name) := by
  induction sketched with
  | nil => rfl
  | cons first rest ih => rw [List.map_cons, ih, List.map_cons, first.name]

theorem Code.Site.tags_sketches : vs.flatMap (·.tags) = (os.flatMap (·.fields)).map (·.number) := by
  induction sketched with
  | nil => rfl
  | cons first rest ih =>
    rw [List.flatMap_cons, ih, List.flatMap_cons, List.map_append, Sketch.tags_eq, first.variants,
      List.filterMap_map]
    congr 1
    exact congrFun (List.filterMap_eq_map (f := Field.number)) _

end faithful

theorem Message.faithful_of_emitted {s : Site} {m : Message} {d : Declaration} {us : List Declaration}
    (written : s.record m = .ok d) (unions : m.oneofs.mapM (s.inside m.name).union = .ok us)
    (distinct : (m.allFields.map (·.number)).Nodup) :
    ∃ (v : Sketch) (vs : List Sketch), d.sketch? = some v ∧ us.map (·.sketch?) = vs.map some ∧ m.Faithful v vs := by
  obtain ⟨v, sketch, form, _, labels, types⟩ := Site.exists_sketch_record written
  obtain ⟨vs, sketches, sketched⟩ := Site.exists_sketches unions
  have empty : m.isEmpty ↔ m.fields = [] ∧ m.oneofs = [] := by
    simp [Message.isEmpty]
  have tags : v.tags = m.fields.map (·.number) := by
    rw [Sketch.tags_eq, labels, List.filterMap_append, List.filterMap_map, List.filterMap_map]
    simp [Function.comp_def, Wire.tag?]
  have numbers : v.tags ++ vs.flatMap (·.tags) = m.allFields.map (·.number) := by
    rw [tags, Site.tags_sketches sketched, Message.allFields, List.map_append]
  refine ⟨v, vs, sketch, sketches, ?_, ?_, ?_, ?_, ?_, ?_, numbers, ?_⟩
  · rw [form, ← empty]
    split <;> simp_all
  · intro holds
    rw [form, if_neg (by rwa [empty])]
  · simpa using congrArg List.length labels
  · rw [labels, Site.zipWith_sketches sketched]
  · rw [types, Site.types_sketches sketched]
  · exact sketched.imp fun _ _ h => ⟨h.form, h.variants⟩
  · rw [numbers]
    exact distinct

/-- What is generated from a message of a file that was read carries the numbers of the message, and with settings
that are accepted its text reads the same. -/
theorem text_keeps_wire_identity {files : List SchemaFile} {r : Registry} (parsed : ∀ f ∈ files, f.Parsed)
    (registered : Registry.registerAll {} files = .ok r) (config : Config) {f : SchemaFile} (hf : f ∈ r.files)
    {n : Nested} (hn : n ∈ f.everyMessage) {d : Declaration} {us : List Declaration}
    (record : (within (.top r config f) n.scope).record n.message = .ok d)
    (unions : n.message.oneofs.mapM (within (.top r config f) n.inner).union = .ok us) :
    ∃ (v : Sketch) (vs : List Sketch), d.sketch? = some v ∧ us.map (·.sketch?) = vs.map some ∧
      n.message.Faithful v vs ∧
      (config.check = .ok () → Sketch.read? d.render = some v ∧ us.map (Sketch.read? ·.render) = vs.map some) := by
  obtain ⟨c, formed⟩ := Registry.registerAll_parsed parsed registered
  have distinct : (n.message.allFields.map (·.number)).Nodup :=
    Registry.distinctNumbers_of_registerAll registered (by simp) f hf n hn
  obtain ⟨v, vs, sketch, sketches, faithful⟩ := Message.faithful_of_emitted record unions distinct
  refine ⟨v, vs, sketch, sketches, faithful, ?_⟩
  intro checked
  have message := (formed f hf).messages n hn
  have scope := SchemaFile.isName_of_mem_scope (formed f hf) hn
  have inner := SchemaFile.isName_of_mem_inner (formed f hf) hn
  refine ⟨?_, ?_⟩
  · have readable : d.Readable :=
      Site.readable_record (s := within (.top r config f) n.scope) checked c formed scope message record
    rw [← sketch, Sketch.read?_render readable]
  · rw [← sketches]
    apply List.map_congr_left
    intro u hu
    obtain ⟨o, ho, written⟩ := exists_of_mem_mapM unions hu
    have readable : u.Readable :=
      Site.readable_union (s := within (.top r config f) n.inner) checked c formed inner (message.oneofs o ho) written
    rw [Sketch.read?_render readable]

def orderFile : SchemaFile :=
  .ofText "order" ("message Order\x7bmap<string,bytes> notes=3;oneof pay\x7bstring card=9;int64 cash=4;\x7d" ++
    "repeated int32 codes=1[deprecated=true];\x7d")

theorem text_keeps_wire_identity_order :
    ∃ r, Registry.registerAll {} [orderFile] = .ok r ∧ ∃ n ∈ orderFile.everyMessage, ∃ d us v vs,
      (within (.top r {} orderFile) n.scope).record n.message = .ok d ∧
      n.message.oneofs.mapM (within (.top r {} orderFile) n.inner).union = .ok us ∧
      Sketch.read? d.render = some v ∧ us.map (Sketch.read? ·.render) = vs.map some ∧ n.message.Faithful v vs ∧
      v.tags ++ vs.flatMap (·.tags) = [3, 1, 9, 4] := by
  have parsed : orderFile.Parsed := SchemaFile.parsed_ofText (by decide +kernel)
  have facts : ∃ n ∈ orderFile.everyMessage, n.message.allFields.map (·.number) = [3, 1, 9, 4] ∧
      ((Registry.registerAll {} [orderFile]).toOption.bind fun r =>
        ((within (.top r {} orderFile) n.scope).record n.message).toOption).isSome ∧
      ((Registry.registerAll {} [orderFile]).toOption.bind fun r =>
        (n.message.oneofs.mapM (within (.top r {} orderFile) n.inner).union).toOption).isSome := by
    decide +kernel
  obtain ⟨n, hn, numbers, writes, unites⟩ := facts
  cases registered : Registry.registerAll {} [orderFile] with
  | error e => simp [registered, Except.toOption] at writes
  | ok r =>
    simp only [registered, Except.toOption, Option.bind_some] at writes unites
    have here : orderFile ∈ r.files := by
      rw [Registry.consistent_empty.files_of_registerAll (by simp) registered]
      simp
    cases record : (within (.top r {} orderFile) n.scope).record n.message with
    | error e => simp [record] at writes
    | ok d =>
      cases unions : n.message.oneofs.mapM (within (.top r {} orderFile) n.inner).union with
      | error e => simp [unions] at unites
      | ok us =>
        obtain ⟨v, vs, _, _, faithful, text⟩ :=
          text_keeps_wire_identity (by simpa using parsed) registered {} here hn record unions
        obtain ⟨read, reads⟩ := text (if_pos (by decide))
        refine ⟨r, rfl, n, hn, d, us, v, vs, record, unions, read, reads, faithful, ?_⟩
        rw [faithful.numbers, numbers]

end SchemaGen
