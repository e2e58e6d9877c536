import SchemaGen.Proofs.Emission
import SchemaGen.Proofs.ModuleTree
import SchemaGen.Proofs.Registry
import SchemaGen.Proofs.Sketch
/-!
# Generated text that can be read back

With settings that are accepted, no word of a record or a union breaks a line: paths are made of the base path, the
directory of a package and a type name. So what is generated from the messages of files that were read can be cut
into lines again, and these tell the members of a message with their numbers.
-/
namespace SchemaGen
open Text Lexeme Code Output

namespace Registry
variable {r : Registry} {t : Symbol}

theorem registerAll_parsed {files : List SchemaFile} {r : Registry} (parsed : ∀ f ∈ files, f.Parsed)
    (registered : registerAll {} files = .ok r) : r.Consistent ∧ ∀ f ∈ r.files, f.toSchema.WellFormed := by
  refine ⟨consistent_empty.registerAll registered, ?_⟩
  intro f hf
  rcases mem_files_of_registerAll registered hf with none | hf
  · cases none
  · exact (parsed f hf).wellFormed

theorem Consistent.dotted_package (c : r.Consistent) (formed : ∀ f ∈ r.files, f.toSchema.WellFormed)
    (ht : t ∈ r.table.map (·.2)) : ∀ p ∈ t.package, dottedChars p.toList := by
  obtain ⟨f, hf, inFile⟩ := c.mem_table_iff.mp ht
  rw [(SchemaFile.file_of_mem_symbols inFile).2]
  exact (formed f hf).package

end Registry

section lines

theorem mem_pathPieces {cs : List Char} {c : Char} (h : c ∈ cs) : c = ':' ∨ ∃ piece ∈ pathPieces cs, c ∈ piece := by
  fun_induction pathPieces cs with
  | case1 => cases h
  | case2 cs ih =>
    simp only [List.mem_cons] at h ⊢
    rcases h with rfl | rfl | h
    · exact .inl rfl
    · exact .inl rfl
    · rcases ih h with colon | ⟨piece, hp, hc⟩
      · exact .inl colon
      · exact .inr ⟨piece, .inr hp, hc⟩
  | case3 d cs _ none ih =>
    rcases List.mem_cons.mp h with rfl | h
    · exact .inr ⟨_, List.mem_cons_self, List.mem_cons_self⟩
    · exact .inl (by simpa [none] using ih h)
  | case4 d cs _ piece pieces cut ih =>
    rcases List.mem_cons.mp h with rfl | h
    · exact .inr ⟨_, List.mem_cons_self, by simp⟩
    · rcases ih h with colon | ⟨other, ho, hc⟩
      · exact .inl colon
      · rw [cut] at ho
        rcases List.mem_cons.mp ho with rfl | ho
        · exact .inr ⟨_, List.mem_cons_self, List.mem_cons_of_mem _ hc⟩
        · exact .inr ⟨other, List.mem_cons_of_mem _ ho, hc⟩

theorem Config.notMem_basePath {config : Config} (checked : config.check = .ok ()) :
    '\n' ∉ config.basePath.toList := by
  have modules : isModulePath config.basePath := by
    unfold check at checked
    split at checked
    · assumption
    · cases checked
  intro h
  rcases mem_pathPieces h with colon | ⟨piece, hp, hc⟩
  · cases colon
  · have identifier := List.all_eq_true.mp modules piece hp
    have isName : IsName (.ofList piece) := by
      apply isName_of_isIdentifier
      rw [isIdentifier, String.toList_ofList]
      exact identifier
    exact isName.notMem (c := '\n') (by decide) (by simpa using hc)

theorem Config.notMem_packagePath {config : Config} (checked : config.check = .ok ()) {package : Option String}
    (dotted : ∀ p ∈ package, dottedChars p.toList) : '\n' ∉ (config.packagePath package).toList := by
  intro h
  rw [packagePath, toList_modulePath] at h
  rcases List.mem_append.mp h with h | h
  · exact notMem_basePath checked h
  · obtain ⟨part, hp, h⟩ := List.mem_flatMap.mp h
    have isName : IsName part := isName_of_mem_directory dotted hp
    exact isName.notMem (c := '\n') (by decide) (by simpa using h)

/-- No word that the shape gives breaks a line. -/
structure Code.Shape.OneLine (shape : Shape) : Prop where
  type : '\n' ∉ shape.type.toList
  kind : '\n' ∉ shape.kind.toList
  mapKind : '\n' ∉ shape.mapKind.toList

theorem Registry.Consistent.isName_typeName {r : Registry} (c : r.Consistent)
    (formed : ∀ f ∈ r.files, f.toSchema.WellFormed) {t : Symbol} (ht : t ∈ r.table.map (·.2)) :
    IsName (Naming.typeName t.parents t.name) := by
  obtain ⟨f, hf, inFile⟩ := c.mem_table_iff.mp ht
  have formed := formed f hf
  cases kind : t.kind with
  | message =>
    obtain ⟨n, hn, rfl⟩ := SchemaFile.exists_of_message_mem inFile kind
    exact Naming.isName_typeName (SchemaFile.isName_of_mem_scope formed hn)
      (isName_of_isIdentifier (formed.messages n hn).name)
  | enum =>
    rcases SchemaFile.exists_of_enum_mem inFile kind with ⟨n, hn, e, he, rfl⟩ | ⟨e, he, rfl⟩
    · exact Naming.isName_typeName (SchemaFile.isName_of_mem_inner formed hn)
        (isName_of_isIdentifier ((formed.messages n hn).enums e he).name)
    · exact Naming.isName_typeName (by rintro _ ⟨⟩) (isName_of_isIdentifier (formed.enums e he).name)

theorem Code.notMem_optionOf {type : String} (h : '\n' ∉ type.toList) : '\n' ∉ (optionOf type).toList :=
  notMem_append (notMem_append (by decide) h) (by decide)

theorem Code.notMem_boxOf {type : String} (h : '\n' ∉ type.toList) : '\n' ∉ (boxOf type).toList :=
  notMem_append (notMem_append (by decide) h) (by decide)

theorem Code.notMem_scalar (kind : Scalar) :
    '\n' ∉ (scalarType kind).toList ∧ '\n' ∉ (scalarKind kind).toList ∧ '\n' ∉ kind.keyword.toList := by
  cases kind <;> decide

namespace Code.Site
variable {s : Site}

theorem notMem_reference {path name : String} (hp : '\n' ∉ path.toList) (hn : '\n' ∉ name.toList) :
    '\n' ∉ (s.reference path name).toList := by
  unfold reference
  split
  · exact hn
  · simp [hp, hn]

variable (checked : s.config.check = .ok ()) (c : s.registry.Consistent)
  (formed : ∀ f ∈ s.registry.files, f.toSchema.WellFormed)
include checked c formed

theorem notMem_symbolReference {t : Symbol} (ht : t ∈ s.registry.table.map (·.2)) :
    '\n' ∉ (s.symbolReference t).toList := by
  apply notMem_reference (Config.notMem_packagePath checked (c.dotted_package formed ht))
  exact (c.isName_typeName formed ht).notMem (by decide)

theorem oneLine_shape {x : Field} {type : FieldType} {resolved : Resolved} (h : s.meaning x type = .ok resolved) :
    (s.shape resolved).OneLine := by
  -- A path is made of the base path, the directory of a package and a type name; each of them is one line.
  have declared : ∀ {t}, resolved = .message t ∨ resolved = .enum t → '\n' ∉ (s.symbolReference t).toList := by
    intro t declared
    apply notMem_symbolReference checked c formed
    cases type with
    | scalar kind =>
      cases h
      rcases declared with other | other <;> cases other
    | named name =>
      have found := meaning_named h
      rcases declared with rfl | rfl
      · exact Registry.mem_table_of_resolve? found (.inl rfl)
      · exact Registry.mem_table_of_resolve? found (.inr rfl)
    | map key value => cases h
  have message : '\n' ∉ "message".toList := by decide
  cases resolved with
  | scalar kind =>
    obtain ⟨type, kind, mapKind⟩ := notMem_scalar kind
    exact ⟨type, kind, mapKind⟩
  | wrapper kind => exact ⟨(notMem_scalar kind).1, message, message⟩
  | wellKnown t =>
    have name : '\n' ∉ t.simpleName.toList := by cases t <;> decide
    have path : '\n' ∉ (s.config.packagePath (some WellKnown.package)).toList :=
      Config.notMem_packagePath checked (by rintro _ ⟨⟩; decide)
    refine ⟨?_, message, message⟩
    dsimp only [shape, messageShape]
    split
    · exact notMem_reference path name
    · decide
  | message t => exact ⟨declared (.inl rfl), message, message⟩
  | enum t =>
    have path := declared (.inr rfl)
    have number : '\n' ∉ "i32".toList := by decide
    exact ⟨number, by simpa [shape] using path, by simpa [shape] using path⟩

theorem readable_member {x : Field} {e : Member} (formed' : x.WellFormed) (h : s.member x = .ok e) : e.Readable := by
  have name : IsName e.name := by
    rw [member_name h]
    exact Naming.isName_fieldName (isName_of_isIdentifier formed'.name)
  rcases member_eq_ok h with ⟨key, value, resolved, _, read, encoding, type⟩ | ⟨resolved, read, rest⟩
  · have shape := oneLine_shape checked c formed read
    obtain ⟨keyType, _, keyword⟩ := notMem_scalar key
    have words : ∀ w ∈ e.encoding.words, '\n' ∉ w.toList := by
      rw [encoding]
      simpa [Encoding.words] using ⟨keyword, shape.mapKind⟩
    refine ⟨name, ?_, Encoding.notMem_render words⟩
    rw [type]
    exact notMem_append (notMem_append (notMem_append (notMem_append (by decide) keyType) (by decide)) shape.type)
      (by decide)
  · have shape := oneLine_shape checked c formed read
    have words : ∀ w ∈ e.encoding.words, '\n' ∉ w.toList := by
      rcases rest with ⟨_, encoding, _⟩ | ⟨_, encoding, _⟩
      · rw [encoding]
        simpa [Encoding.words] using shape.kind
      · rw [encoding]
        simpa [Encoding.words] using shape.kind
    refine ⟨name, ?_, Encoding.notMem_render words⟩
    rcases rest with ⟨_, _, type⟩ | ⟨_, _, type⟩
    · rw [type]
      exact notMem_append (notMem_append (by decide) shape.type) (by decide)
    · rw [type]
      refine notMem_optionOf ?_
      split
      · exact notMem_boxOf shape.type
      · exact shape.type

theorem readable_variant {x : Field} {e : Member} (formed' : x.WellFormed) (h : s.variant x = .ok e) :
    e.Readable := by
  have name : IsName e.name := by
    rw [variant_name h]
    exact Naming.isName_escape (Naming.isName_pascal (isName_of_isIdentifier formed'.name))
  obtain ⟨resolved, read, encoding, type⟩ := variant_eq_ok h
  have shape := oneLine_shape checked c formed read
  have words : ∀ w ∈ e.encoding.words, '\n' ∉ w.toList := by
    rw [encoding]
    simpa [Encoding.words] using shape.kind
  refine ⟨name, ?_, Encoding.notMem_render words⟩
  rw [type]
  split
  · exact notMem_boxOf shape.type
  · exact shape.type

omit checked c formed in
theorem readable_oneofMember {o : Oneof} (scope : ∀ x ∈ s.scope, IsName x) (formed : o.WellFormed) :
    (s.oneofMember o).Readable := by
  have isName := isName_of_isIdentifier formed.name
  have union : '\n' ∉ (Naming.unionName s.scope o.name).toList :=
    (Naming.isName_unionName scope isName).notMem (by decide)
  have words : ∀ w ∈ (s.oneofMember o).encoding.words, '\n' ∉ w.toList := by
    simpa [oneofMember, Encoding.words] using union
  exact ⟨Naming.isName_fieldName isName, notMem_optionOf union, Encoding.notMem_render words⟩

theorem readable_record {m : Message} {d : Declaration} (scope : ∀ x ∈ s.scope, IsName x) (formed' : m.WellFormed)
    (h : s.record m = .ok d) : d.Readable := by
  have name := isName_of_isIdentifier formed'.name
  have typeName := Naming.isName_typeName scope name
  rcases record_eq_ok h with ⟨_, rfl⟩ | ⟨some, members, read, rfl⟩
  · exact typeName
  · refine ⟨typeName, ?_, ?_⟩
    · intro none
      rw [List.append_eq_nil_iff, List.map_eq_nil_iff] at none
      have fields := (mapM_eq_ok.mp read).length_eq
      rw [none.1, List.length_nil, List.length_eq_zero_iff] at fields
      simp [Message.isEmpty, fields, none.2] at some
    · intro e he
      rcases List.mem_append.mp he with he | he
      · obtain ⟨x, hx, written⟩ := exists_of_mem_mapM read he
        exact readable_member (s := s.inside m.name) checked c formed (formed'.fields x hx) written
      · obtain ⟨o, ho, rfl⟩ := List.mem_map.mp he
        refine readable_oneofMember ?_ (formed'.oneofs o ho)
        intro x hx
        rcases List.mem_append.mp hx with hx | hx
        · exact scope x hx
        · obtain rfl : x = m.name := by simpa using hx
          exact name

theorem readable_union {o : Oneof} {d : Declaration} (scope : ∀ x ∈ s.scope, IsName x) (formed' : o.WellFormed)
    (h : s.union o = .ok d) : d.Readable := by
  obtain ⟨variants, read, rfl⟩ := union_eq_ok h
  refine ⟨Naming.isName_unionName scope (isName_of_isIdentifier formed'.name), ?_, ?_⟩
  · intro none
    have fields := (mapM_eq_ok.mp read).length_eq
    rw [none, List.length_nil, List.length_eq_zero_iff] at fields
    exact formed'.nonempty fields
  · intro e he
    obtain ⟨x, hx, written⟩ := exists_of_mem_mapM read he
    exact readable_variant checked c formed (formed'.fields x hx).wellFormed written

end Code.Site

end lines

section sketches

def Code.Entry.label (e : Entry) : String × Wire := (e.name, e.wire)

def Code.Wire.tag? : Wire → Option Int
  | .tag number => some number
  | .oneof _ _ => none

def Code.Sketch.tags (v : Sketch) : List Int :=
  v.entries.filterMap (·.wire.tag?)

theorem Code.Sketch.tags_eq (v : Sketch) : v.tags = (v.entries.map Entry.label).filterMap (·.2.tag?) := by
  rw [tags, List.filterMap_map]
  rfl

namespace Code.Site
variable {s : Site}

theorem label_member {x : Field} {e : Member} (h : s.member x = .ok e) :
    e.entry.label = (Naming.fieldName x.name, .tag x.number) := by
  have wire : e.encoding.wire = .tag x.number := by
    rcases member_eq_ok h with ⟨_, _, _, _, _, encoding, _⟩ | ⟨_, _, ⟨_, encoding, _⟩ | ⟨_, encoding, _⟩⟩ <;>
      rw [encoding] <;> rfl
  rw [← member_name h, ← wire]
  rfl

theorem label_variant {x : Field} {e : Member} (h : s.variant x = .ok e) :
    e.entry.label = (Naming.variantName x.name, .tag x.number) := by
  obtain ⟨_, _, encoding, _⟩ := variant_eq_ok h
  have wire : e.encoding.wire = .tag x.number := by
    rw [encoding]
    rfl
  rw [← variant_name h, ← wire]
  rfl

/-- The sketch of a message: a marker if it holds nothing, and a record with its fields and then its oneofs if it
holds anything. -/
structure SketchesRecord (s : Site) (m : Message) (v : Sketch) : Prop where
  form : v.form = if m.isEmpty then .marker else .record
  name : v.name = Naming.typeName s.scope m.name
  members : v.entries.map Entry.label = m.fields.map (fun x => (Naming.fieldName x.name, .tag x.number)) ++
    m.oneofs.map (fun o => (Naming.fieldName o.name,
      .oneof (Naming.unionName (s.inside m.name).scope o.name) (o.fields.map (·.number))))
  types : (v.entries.drop m.fields.length).map (·.type) =
    m.oneofs.map (fun o => optionOf (Naming.unionName (s.inside m.name).scope o.name))

theorem exists_sketch_record {m : Message} {d : Declaration} (h : s.record m = .ok d) :
    ∃ v, d.sketch? = some v ∧ s.SketchesRecord m v := by
  rcases record_eq_ok h with ⟨empty, rfl⟩ | ⟨nonempty, members, read, rfl⟩
  · simp only [Message.isEmpty, Bool.and_eq_true, List.isEmpty_iff] at empty
    exact ⟨_, rfl, by simp [Message.isEmpty, empty], rfl, by simp [empty], by simp [empty]⟩
  · have labels : members.map (·.entry.label) = m.fields.map fun x => (Naming.fieldName x.name, .tag x.number) :=
      map_eq_of_mapM (fun _ _ => label_member) read
    have length : (members.map (·.entry)).length = m.fields.length := by
      rw [List.length_map]
      exact (mapM_eq_ok.mp read).length_eq.symm
    refine ⟨_, rfl, (if_neg nonempty).symm, rfl, ?_, ?_⟩
    · rw [← labels]
      simp [oneofMember, Member.entry, Entry.label, Encoding.wire, Function.comp_def]
    · rw [List.map_append, List.drop_left' length, List.map_map, List.map_map]
      rfl

structure SketchesUnion (s : Site) (o : Oneof) (v : Sketch) : Prop where
  form : v.form = .union
  name : v.name = Naming.unionName s.scope o.name
  variants : v.entries.map Entry.label = o.fields.map fun x => (Naming.variantName x.name, .tag x.number)

theorem exists_sketch_union {o : Oneof} {d : Declaration} (h : s.union o = .ok d) :
    ∃ v, d.sketch? = some v ∧ s.SketchesUnion o v := by
  obtain ⟨variants, read, rfl⟩ := union_eq_ok h
  refine ⟨_, rfl, rfl, rfl, ?_⟩
  rw [List.map_map]
  exact map_eq_of_mapM (fun _ _ => label_variant) read

theorem exists_sketches {os : List Oneof} {us : List Declaration} (h : os.mapM s.union = .ok us) :
    ∃ vs : List Sketch, us.map (·.sketch?) = vs.map some ∧ List.Forall₂ s.SketchesUnion os vs := by
  have aligned := mapM_eq_ok.mp h
  clear h
  induction aligned with
  | nil => exact ⟨[], rfl, .nil⟩
  | cons first rest ih =>
    obtain ⟨v, sketch, sketches⟩ := exists_sketch_union first
    obtain ⟨vs, tail, all⟩ := ih
    refine ⟨v :: vs, ?_, .cons sketches all⟩
    rw [List.map_cons, List.map_cons, sketch, tail]

end Code.Site

end sketches

end SchemaGen
