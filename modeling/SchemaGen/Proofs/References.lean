import SchemaGen.Proofs.Inventory
import SchemaGen.Proofs.Loading
/-!
# References to generated types

A session that loads and generates everything leaves no reference open. Each type name that a field uses has a
meaning, and the path written for it leads to the one declaration that was generated from what the name means. Both the
path and the declaration are read from the files of the session.
-/
namespace SchemaGen
open Code Output

def Code.Entry.SpellsMessage (e : Entry) (x : Field) (form : Form) (path : String) : Prop :=
  ∃ boxed, e.Writes x path "message" "message" false boxed form

/-- The entry is written as a number, and its attribute with the path of an enumeration. -/
def Code.Entry.SpellsEnum (e : Entry) (x : Field) (form : Form) (path : String) : Prop :=
  ∃ boxed, e.Writes x "i32" ("enumeration = \"" ++ path ++ "\"") ("enumeration(" ++ path ++ ")") true boxed form

/-- A type name of the package `there`, written from the package `here`. -/
def Config.pathFrom (config : Config) (here there : Option String) (name : String) : String :=
  if config.directory there = config.directory here then name
  else config.modulePath (config.directory there) ++ "::" ++ name

/-- A type of another module is written with the path of the module, one of the same module without. -/
theorem Code.Site.reference_eq {s : Site} {package : Option String} (here : ∀ p ∈ s.file.package, dottedChars p.toList)
    (there : ∀ p ∈ package, dottedChars p.toList) (name : String) :
    s.reference (s.config.packagePath package) name = s.config.pathFrom s.file.package package name := by
  have same : s.config.packagePath package = s.modulePath ↔
      s.config.directory package = s.config.directory s.file.package := by
    constructor
    · exact Config.modulePath_inj (fun _ => Config.isName_of_mem_directory there)
        (fun _ => Config.isName_of_mem_directory here)
    · intro h
      rw [modulePath, Config.packagePath, Config.packagePath, h]
  unfold reference Config.pathFrom
  simp only [beq_iff_eq, same]
  rfl

/-- The declaration with the member for a field: the record of the message, or the union of the oneof with the field. -/
inductive Nested.Holds (n : Nested) (x : Field) : Form → String → Prop
  | record (field : x ∈ n.message.fields) : n.Holds x .record (Naming.typeName n.scope n.message.name)
  | union {o : Oneof} (oneof : o ∈ n.message.oneofs) (field : x ∈ o.fields) :
      n.Holds x .union (Naming.unionName n.inner o.name)

theorem Nested.Holds.mem_allFields {n : Nested} {x : Field} {form : Form} {holder : String} (h : n.Holds x form holder) :
    x ∈ n.message.allFields := by
  cases h with
  | record field => exact List.mem_append_left _ field
  | union oneof field => exact List.mem_append_right _ (List.mem_flatMap.mpr ⟨_, oneof, field⟩)

namespace Code.Site
variable {s : Site}

theorem exists_entry {write : Field → Except SchemaError Member} {fields : List Field} {members : List Member}
    (wire : ∀ x e, write x = .ok e → e.entry.wire = .tag x.number) (read : fields.mapM write = .ok members)
    (distinct : (fields.map (·.number)).Nodup) {i : Nat} {x : Field} (field : fields[i]? = some x) :
    ∃ e, members[i]? = some e ∧ (members.map (·.entry)).filter (·.wire = .tag x.number) = [e.entry] := by
  have aligned := (mapM_eq_ok.mp read).length_eq
  have bound := (List.getElem?_eq_some_iff.mp field).1
  have found : members[i]? = some members[i] := List.getElem?_eq_getElem (by omega)
  have own : members[i].entry.wire = .tag x.number := wire x _ (getElem?_of_mapM read field found)
  have wires : (members.map (·.entry)).map (·.wire) = (fields.map (·.number)).map .tag := by
    rw [List.map_map, List.map_map]
    exact map_eq_of_mapM wire read
  have apart : ((members.map (·.entry)).map (·.wire)).Nodup := by
    rw [wires]
    exact distinct.map fun _ _ => Wire.tag.inj
  refine ⟨members[i], found, ?_⟩
  rw [← own]
  exact filter_eq_singleton apart (List.mem_map_of_mem (List.getElem_mem _))

theorem exists_entry_record {m : Message} (distinct : (m.fields.map (·.number)).Nodup) {d : Declaration}
    (h : s.record m = .ok d) {x : Field} (hx : x ∈ m.fields) :
    ∃ e v, Emits s m x .record e ∧ d.sketch? = some v ∧ v.form = .record ∧
      v.entries.filter (·.wire = .tag x.number) = [e.entry] := by
  obtain ⟨i, field⟩ := List.mem_iff_getElem?.mp hx
  rcases record_eq_ok h with ⟨empty, _⟩ | ⟨_, members, read, rfl⟩
  · simp only [Message.isEmpty, Bool.and_eq_true, List.isEmpty_iff] at empty
    simp [empty.1] at hx
  · obtain ⟨e, member, only⟩ :=
      exists_entry (fun _ _ written => congrArg Prod.snd (label_member written)) read distinct field
    have none : ((m.oneofs.map (s.inside m.name).oneofMember).map (·.entry)).filter (·.wire = .tag x.number) = [] := by
      simp [List.filter_eq_nil_iff, oneofMember, Member.entry, Encoding.wire]
    refine ⟨e, _, .record _ _ i h field ?_, rfl, rfl, ?_⟩
    · rw [List.getElem?_append_left (List.getElem?_eq_some_iff.mp member).1, member]
    · rw [List.map_append, List.filter_append, none, List.append_nil, only]

theorem exists_entry_union {m : Message} {o : Oneof} (ho : o ∈ m.oneofs) (distinct : (o.fields.map (·.number)).Nodup)
    {d : Declaration} (h : (s.inside m.name).union o = .ok d) {x : Field} (hx : x ∈ o.fields) :
    ∃ e v, Emits s m x .union e ∧ d.sketch? = some v ∧ v.form = .union ∧
      v.entries.filter (·.wire = .tag x.number) = [e.entry] := by
  obtain ⟨i, field⟩ := List.mem_iff_getElem?.mp hx
  obtain ⟨variants, read, rfl⟩ := union_eq_ok h
  obtain ⟨e, variant, only⟩ :=
    exists_entry (fun _ _ written => congrArg Prod.snd (label_variant written)) read distinct field
  exact ⟨e, _, .union o _ _ i ho h field variant, rfl, rfl, only⟩

end Code.Site

namespace Output

/-- The entry with a field number, read from the one declaration of its holder. -/
def EntryAt (out : Files) (directory : List String) (form : Form) (holder : String) (number : Int) (e : Entry) : Prop :=
  ∃ text v, DeclaresOnce out directory holder text ∧ Sketch.read? text = some v ∧ v.form = form ∧ v.name = holder ∧
    v.entries.filter (·.wire = .tag number) = [e]

/-- The type name of a piece is declared once in its module, by a text that reads as the piece, and the schema name of
the piece is on record. -/
structure Schedule.Declares (s : Schedule) (out : Files) (directory : List String) (p : Piece) : Prop where
  listed : p ∈ s.pieces directory
  declared : ∃ text, DeclaresOnce out directory p.name text ∧ p.Reads text
  recorded : ∃ folders, s.folders.result = .ok folders ∧
    (((folders.find? directory).getD {}).names.map (·.1)).count p.name = 1 ∧
    List.lookup p.name ((folders.find? directory).getD {}).names = some p.origin

namespace Schedule
variable {s : Schedule} {out : Files} (generated : s.generate.result = .ok out)
include generated

theorem exists_code_of_generate {f : SchemaFile} (hf : f ∈ s.files) {n : Nested} (hn : n ∈ f.everyMessage) {d : Declared}
    (hd : d ∈ declaredAt (s.siteOf f) n) : ∃ code, d.declaration.result = .ok code := by
  have hp := mem_pieces_of_file hf (mem_declared_of_message hn hd)
  have compatible := (exists_generate_iff.mp ⟨out, generated⟩).1 (s.directoryOf f)
  obtain ⟨text, written⟩ := Option.isSome_iff_exists.mp (compatible.texts _ hp)
  obtain ⟨code, written, _⟩ := Folder.text?_declared.mp written
  exact ⟨code, written⟩

theorem exists_emits_of_generate {f : SchemaFile} (hf : f ∈ s.files) {n : Nested} (hn : n ∈ f.everyMessage) {x : Field}
    (hx : x ∈ n.message.allFields) : ∃ form e, Emits (within (s.siteOf f) n.scope) n.message x form e := by
  refine exists_emits (exists_code_of_generate generated hf hn (message_mem_declaredAt _ n)) ?_ hx
  intro o ho
  exact exists_code_of_generate generated hf hn (oneof_mem_declaredAt _ ho)

variable (h : s.Sound)
include h

/-- What is generated into a module is declared there once. -/
theorem Sound.declares {directory : List String} {p : Piece} (hp : p ∈ s.pieces directory) :
    s.Declares out directory p := by
  obtain ⟨folders, done, _⟩ := generate_eq_ok.mp generated
  have held : ((folders.find? directory).getD {}).Holds (s.sourcesAt directory) (s.pieces directory) :=
    (filled_of_folders done).holds directory
  obtain ⟨text, written⟩ := Option.isSome_iff_exists.mp (held.compatible.texts p hp)
  have once : (((folders.find? directory).getD {}).names.map (·.1)).count p.name = 1 := by
    rw [held.names, List.map_reverse, List.map_map, List.count_reverse]
    exact List.count_eq_one_of_mem held.compatible.names (List.mem_map_of_mem hp)
  exact ⟨hp, ⟨text, h.declaresOnce generated hp written, (h.legible hp written).reads⟩, folders, done, once,
    held.lookup_name hp⟩

theorem Sound.entryAt {directory : List String} {d : Declared} (hp : .declared d ∈ s.pieces directory)
    {code : Declaration} (emitted : d.declaration.result = .ok code) (readable : code.Readable) {v : Sketch}
    (sketch : code.sketch? = some v) {number : Int} {e : Entry} (only : v.entries.filter (·.wire = .tag number) = [e]) :
    EntryAt out directory v.form d.typeName number e := by
  have written : (Piece.declared d).text? = some code.render := Folder.text?_declared.mpr ⟨code, emitted, rfl⟩
  have read : Sketch.read? code.render = some v := (Sketch.read?_render readable).trans sketch
  have legible := h.legible hp written
  have name := legible.block.declaredName?_eq read
  rw [legible.name, Option.some.injEq] at name
  exact ⟨code.render, v, h.declaresOnce generated hp written, read, rfl, name.symm, only⟩

/-- The member of a field is found in the output, in the declaration that holds it and by its number. -/
theorem Sound.exists_entry {f : SchemaFile} (hf : f ∈ s.files) {n : Nested} (hn : n ∈ f.everyMessage) {x : Field}
    {form : Form} {holder : String} (held : n.Holds x form holder) :
    ∃ e, Emits (within (s.siteOf f) n.scope) n.message x form e ∧
      EntryAt out (s.directoryOf f) form holder x.number e.entry := by
  have formed := h.formed f hf
  have numbers : (n.message.allFields.map (·.number)).Nodup := h.numbers f (h.scheduled f hf) n hn
  rw [Message.allFields, List.map_append] at numbers
  have listed : ∀ d ∈ declaredAt (s.siteOf f) n, .declared d ∈ s.pieces (s.directoryOf f) :=
    fun d hd => mem_pieces_of_file hf (mem_declared_of_message hn hd)
  cases held with
  | record field =>
    have here := message_mem_declaredAt (s.siteOf f) n
    obtain ⟨code, emitted⟩ := exists_code_of_generate generated hf hn here
    have readable : code.Readable := Site.readable_record (s := within (s.siteOf f) n.scope) h.checked h.consistent
      h.registered (SchemaFile.isName_of_mem_scope formed hn) (formed.messages n hn) emitted
    obtain ⟨e, v, emits, sketch, form, only⟩ := Site.exists_entry_record numbers.of_append_left emitted field
    exact ⟨e, emits, form ▸ h.entryAt generated (listed _ here) emitted readable sketch only⟩
  | @union o oneof field =>
    have here := oneof_mem_declaredAt (s.siteOf f) oneof
    obtain ⟨code, emitted⟩ := exists_code_of_generate generated hf hn here
    have readable : code.Readable := Site.readable_union (s := within (s.siteOf f) n.inner) h.checked h.consistent
      h.registered (SchemaFile.isName_of_mem_inner formed hn) ((formed.messages n hn).oneofs o oneof) emitted
    have distinct : (o.fields.map (·.number)).Nodup := by
      have all := numbers.of_append_right
      rw [List.map_flatMap, List.nodup_flatMap] at all
      exact all.1 o oneof
    have union : ((within (s.siteOf f) n.scope).inside n.message.name).union o = .ok code := emitted
    obtain ⟨e, v, emits, sketch, form, only⟩ := Site.exists_entry_union oneof distinct union field
    exact ⟨e, emits, form ▸ h.entryAt generated (listed _ here) emitted readable sketch only⟩

end Schedule

end Output

inductive Registry.Emitted (r : Registry) (config : Config) : Symbol → Piece → Prop
  | message {f : SchemaFile} {n : Nested} (file : f ∈ r.files) (listed : n ∈ f.everyMessage) :
      r.Emitted config (f.messageSymbol n) (.declared ⟨within (.top r config f) n.scope, .message n.message⟩)
  | nested {f : SchemaFile} {n : Nested} {e : EnumDef} (file : f ∈ r.files) (listed : n ∈ f.everyMessage)
      (inside : e ∈ n.message.enums) :
      r.Emitted config (f.symbol n.inner .enum e.name) (.declared ⟨within (.top r config f) n.inner, .enum e⟩)
  | enum {f : SchemaFile} {e : EnumDef} (file : f ∈ r.files) (listed : e ∈ f.enums) :
      r.Emitted config (f.symbol [] .enum e.name) (.declared ⟨.top r config f, .enum e⟩)

namespace Registry
variable {r : Registry} {config : Config} {t : Symbol} {p : Piece}

theorem Emitted.name_eq (h : r.Emitted config t p) : p.name = Naming.typeName t.parents t.name := by
  cases h <;> rfl

theorem Emitted.origin_eq (h : r.Emitted config t p) : p.origin = t.fullName := by
  cases h <;> rfl

theorem Consistent.exists_emitted (c : r.Consistent) (config : Config) (ht : t ∈ r.table.map (·.2)) :
    ∃ p, r.Emitted config t p := by
  obtain ⟨f, hf, inFile⟩ := c.mem_table_iff.mp ht
  cases kind : t.kind with
  | message =>
    obtain ⟨n, hn, rfl⟩ := SchemaFile.exists_of_message_mem inFile kind
    exact ⟨_, .message hf hn⟩
  | enum =>
    rcases SchemaFile.exists_of_enum_mem inFile kind with ⟨n, hn, e, he, rfl⟩ | ⟨e, he, rfl⟩
    · exact ⟨_, .nested hf hn he⟩
    · exact ⟨_, .enum hf he⟩

theorem Emitted.mem_pieces {s : Schedule} (all : ∀ f ∈ s.registry.files, f ∈ s.files)
    (h : s.registry.Emitted s.config t p) : p ∈ s.pieces (s.config.directory t.package) := by
  cases h with
  | message file listed =>
    exact Schedule.mem_pieces_of_file (all _ file) (mem_declared_of_message listed (message_mem_declaredAt _ _))
  | nested file listed inside =>
    exact Schedule.mem_pieces_of_file (all _ file) (mem_declared_of_message listed (enum_mem_declaredAt _ inside))
  | enum file listed =>
    exact Schedule.mem_pieces_of_file (all _ file) (List.mem_append_right _ (List.mem_map.mpr ⟨_, listed, rfl⟩))

end Registry

namespace Output.Schedule

/-- What is generated from a symbol is declared once in the module of its package, under the type name that the
symbol has and with its full name recorded. -/
def DeclaresSymbol (s : Schedule) (out : Files) (t : Symbol) : Prop :=
  ∃ p, s.registry.Emitted s.config t p ∧ p.name = Naming.typeName t.parents t.name ∧ p.origin = t.fullName ∧
    s.Declares out (s.config.directory t.package) p

/-- The entry written for a field of a file leads to what its type name means: to the one declaration generated
from a message or an enum, to the record of a built-in type, or to a type that needs no declaration. -/
def Refers (s : Schedule) (out : Files) (f : SchemaFile) (x : Field) (form : Form) (e : Entry) : Resolved → Prop
  | .message t =>
    e.SpellsMessage x form (s.config.pathFrom f.package t.package (Naming.typeName t.parents t.name)) ∧
      s.DeclaresSymbol out t
  | .enum t =>
    e.SpellsEnum x form (s.config.pathFrom f.package t.package (Naming.typeName t.parents t.name)) ∧
      s.DeclaresSymbol out t
  | .wellKnown t =>
    if t.isComposite then
      e.SpellsMessage x form (s.config.pathFrom f.package (some WellKnown.package) t.simpleName) ∧
        s.Declares out s.builtInDirectory (.builtIn t)
    else e.SpellsMessage x form "()"
  | .scalar kind => ∃ boxed, e.Writes x (scalarType kind) (scalarKind kind) kind.keyword kind.packable boxed form
  | .wrapper kind => e.SpellsMessage x form (scalarType kind)

variable {s : Schedule} (h : s.Sound) (all : ∀ f ∈ s.registry.files, f ∈ s.files) {out : Files}
  (generated : s.generate.result = .ok out)
include h all generated

theorem Sound.declaresSymbol {t : Symbol} (ht : t ∈ s.registry.table.map (·.2)) : s.DeclaresSymbol out t := by
  obtain ⟨p, emitted⟩ := h.consistent.exists_emitted s.config ht
  exact ⟨p, emitted, emitted.name_eq, emitted.origin_eq, h.declares generated (emitted.mem_pieces all)⟩

theorem Sound.refers {f : SchemaFile} (hf : f ∈ s.files) {n : Nested} (hn : n ∈ f.everyMessage) {x : Field}
    (hx : x ∈ n.message.allFields) {name : String} (names : x.Names name) {form : Form} {e : Code.Member}
    (emits : Emits (within (s.siteOf f) n.scope) n.message x form e) :
    ∃ resolved, s.registry.resolve? (f.placeAt n) name = some resolved ∧ s.Refers out f x form e.entry resolved := by
  obtain ⟨resolved, found, writes⟩ := emits.writes names
  refine ⟨resolved, found, ?_⟩
  -- The site compares module paths; for dotted packages that is to compare directories.
  have spelled : ∀ {package : Option String}, (∀ p ∈ package, dottedChars p.toList) → ∀ name,
      ((within (s.siteOf f) n.scope).inside n.message.name).reference (s.config.packagePath package) name =
        s.config.pathFrom f.package package name :=
    fun there name => Site.reference_eq (h.formed f hf).package there name
  cases resolved with
  | scalar kind => exact ⟨_, writes⟩
  | wrapper kind => exact ⟨_, writes⟩
  | message t =>
    have ht := Registry.mem_table_of_resolve? found (.inl rfl)
    refine ⟨?_, h.declaresSymbol all generated ht⟩
    unfold Code.Entry.SpellsMessage
    rw [← spelled (h.consistent.dotted_package h.registered ht)]
    exact ⟨_, writes⟩
  | enum t =>
    have ht := Registry.mem_table_of_resolve? found (.inr rfl)
    refine ⟨?_, h.declaresSymbol all generated ht⟩
    unfold Code.Entry.SpellsEnum
    rw [← spelled (h.consistent.dotted_package h.registered ht)]
    exact ⟨_, writes⟩
  | wellKnown t =>
    dsimp only [Refers, Code.Entry.SpellsMessage]
    by_cases composite : t.isComposite
    · have known : t ∈ s.builtIns := mem_builtIns_iff.mpr ⟨composite, f, hf, n, hn, x, hx, name, names, found⟩
      have listed : Piece.builtIn t ∈ s.pieces s.builtInDirectory := by
        refine List.mem_append_right _ ?_
        rw [if_pos rfl]
        exact List.mem_map_of_mem known
      rw [if_pos composite, ← spelled (by rintro _ ⟨⟩; decide)]
      refine ⟨?_, h.declares generated listed⟩
      simp only [Site.shape, if_pos composite] at writes
      exact ⟨_, writes⟩
    · rw [if_neg composite]
      simp only [Site.shape, if_neg composite] at writes
      exact ⟨_, writes⟩

end Output.Schedule

namespace Session
variable {config : Config} {source : Source} {inputs : List String} {r : Registry}

def schedule (config : Config) (r : Registry) (inputs : List String) : Schedule :=
  Schedule.addAll { registry := r, config } (r.closure inputs)

theorem schedule_registry : (schedule config r inputs).registry = r :=
  (Schedule.addAll_settings _ _).1

theorem schedule_config : (schedule config r inputs).config = config :=
  (Schedule.addAll_settings _ _).2

theorem mem_schedule_iff (loaded : (load config source inputs).result = .ok r) {f : SchemaFile} :
    f ∈ (schedule config r inputs).files ↔ f ∈ r.files := by
  have scheduled : ∀ g ∈ (schedule config r inputs).files, g ∈ r.files := by
    intro g hg
    rcases Schedule.mem_of_mem_addAll hg with none | hg
    · cases none
    · exact Registry.mem_files_of_mem_closure hg
  refine ⟨scheduled f, ?_⟩
  intro hf
  obtain ⟨g, hg, same⟩ := Schedule.exists_mem_addAll (s := { registry := r, config })
    (mem_closure_of_mem_files loaded hf)
  rw [← List.inj_on_of_nodup_map (consistent_of_load loaded).names (scheduled g hg) hf same]
  exact hg

/-- What a session schedules was read and registered, and its settings were accepted. -/
theorem sound_schedule (loaded : (load config source inputs).result = .ok r) : (schedule config r inputs).Sound := by
  obtain ⟨files, _, registered⟩ := load_eq_ok loaded
  have registry : (schedule config r inputs).registry = r := schedule_registry
  refine ⟨?_, ?_, ?_, ?_, ?_⟩
  · rw [schedule_config]
    exact check_of_load loaded
  · rw [registry]
    exact consistent_of_load loaded
  · rw [registry]
    intro f hf
    exact ((mem_files_iff_loads loaded).mp hf).parsed.wellFormed
  · rw [registry]
    exact Registry.distinctNumbers_of_registerAll registered (by simp)
  · rw [registry]
    intro f hf
    exact (mem_schedule_iff loaded).mp hf

end Session

/-- A session that compiles with what its inputs import leaves no type name open: in every message of every file
loaded, each field that names a type has its entry in the output, and what the name means is where the entry leads. -/
theorem compile_references_closed {config : Config} {source : Source} {inputs : List String} {out : Files}
    (imports : config.includeImports = true) (compiled : (Session.compile config source inputs).result = .ok out) :
    ∃ r, (Session.load config source inputs).result = .ok r ∧
      ∀ f, Session.Loads source config.strictFields inputs f → ∀ n ∈ f.everyMessage, ∀ x form holder,
        n.Holds x form holder → ∀ name, x.Names name →
          ∃ resolved e, r.resolve? (f.placeAt n) name = some resolved ∧
            EntryAt out (config.directory f.package) form holder x.number e ∧
            (Session.schedule config r inputs).Refers out f x form e resolved := by
  obtain ⟨r, loaded, generated⟩ := Report.bind_result_ok.mp compiled
  refine ⟨r, loaded, ?_⟩
  unfold Session.generate at generated
  rw [if_pos imports] at generated
  have generated : (Session.schedule config r inputs).generate.result = .ok out := generated
  have registry : (Session.schedule config r inputs).registry = r := Session.schedule_registry
  have settings : (Session.schedule config r inputs).config = config := Session.schedule_config
  have sound := Session.sound_schedule loaded
  have all : ∀ f ∈ (Session.schedule config r inputs).registry.files, f ∈ (Session.schedule config r inputs).files := by
    intro f hf
    rw [registry] at hf
    exact (Session.mem_schedule_iff loaded).mpr hf
  intro f needed n hn x form holder held name names
  have hf := (Session.mem_schedule_iff loaded).mpr ((Session.mem_files_iff_loads loaded).mpr needed)
  obtain ⟨e, emits, here⟩ := sound.exists_entry generated hf hn held
  obtain ⟨resolved, found, refers⟩ := sound.refers all generated hf hn held.mem_allFields names emits
  rw [registry] at found
  rw [Schedule.directoryOf, settings] at here
  exact ⟨resolved, e.entry, found, here, refers⟩

/-- A message that refers to one of another package and to a built-in type. -/
def tradeText : String :=
  "package shop;import \"money\";message Order\x7brepeated .bank.Money paid=1;google.protobuf.Timestamp at=2;\x7d"

def moneyText : String :=
  "package bank;message Money\x7benum Unit\x7bCENT=0;\x7dUnit unit=1;\x7d"

def tradeSource : Source :=
  .ofList [("trade", tradeText), ("money", moneyText)]

def tradeConfig : Config := { layout := .nested, strictFields := true }

def trade : SchemaFile := .ofText "trade" tradeText

def money : Symbol :=
  { kind := .message, name := "Money", package := some "bank", parents := [], file := "money" }

theorem compile_references_closed_trade :
    ∃ out r, (Session.compile tradeConfig tradeSource ["trade"]).result = .ok out ∧
      (Session.load tradeConfig tradeSource ["trade"]).result = .ok r ∧
      ∃ e, EntryAt out ["shop"] .record "Order" 1 e ∧ e.type = "::prost::alloc::vec::Vec<crate::proto::bank::Money>" ∧
        (Session.schedule tradeConfig r ["trade"]).DeclaresSymbol out money := by
  have facts : (Session.compile tradeConfig tradeSource ["trade"]).result.toBool ∧
      (SchemaFile.parse true "trade" tradeText).result.toBool ∧ tradeConfig.directory trade.package = ["shop"] ∧
      tradeConfig.pathFrom trade.package money.package (Naming.typeName money.parents money.name) =
        "crate::proto::bank::Money" ∧
      ∃ n ∈ trade.everyMessage, Naming.typeName n.scope n.message.name = "Order" ∧
        ∃ x ∈ n.message.fields, x.type = .named ".bank.Money" ∧ x.label = .repeated ∧ x.number = 1 ∧
          ((Session.load tradeConfig tradeSource ["trade"]).result.toOption.bind
            (·.resolve? (trade.placeAt n) ".bank.Money")) = some (.message money) := by
    simp only [Session.compile, Session.load, Session.generate, Registry.closure, Walk.run_eq_runFor]
    decide +kernel
  obtain ⟨compiles, reads, directory, spelled, n, hn, order, x, hx, named, label, number, meaning⟩ := facts
  cases compiled : (Session.compile tradeConfig tradeSource ["trade"]).result with
  | error e => simp [compiled, Except.toBool] at compiles
  | ok out =>
    obtain ⟨r, loaded, closed⟩ := compile_references_closed rfl compiled
    have needed : Session.Loads tradeSource true ["trade"] trade :=
      .input (List.mem_singleton.mpr rfl) rfl (SchemaFile.parse_ofText reads)
    obtain ⟨resolved, e, found, here, refers⟩ := closed trade needed n hn x _ _ (.record hx) _ (.inl named)
    simp only [loaded, Except.toOption, Option.bind_some, found, Option.some.injEq] at meaning
    rw [order, number, directory] at here
    rw [meaning] at refers
    refine ⟨out, r, rfl, loaded, e, here, ?_, refers.2⟩
    obtain ⟨boxed, writes⟩ := refers.1
    rw [Session.schedule_config, spelled] at writes
    cases writes with
    | map _ _ map => cases named.symm.trans map
    | repeated _ _ written => rw [written]; rfl
    | optional single => cases label.symm.trans single

end SchemaGen
