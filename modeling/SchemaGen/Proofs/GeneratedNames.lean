import SchemaGen.Proofs.Identifiers
import SchemaGen.Proofs.MemberNames
import SchemaGen.Proofs.References
/-!
# The names in generated code

Every name that generated code declares or is stored under comes from a name of the schema. It is legal exactly if
that name can be spelled: an identifier of the schema can be short of letters, and then the case conversions leave
nothing, a digit in front or a lone underscore.
-/
namespace SchemaGen
open Text Code Output Naming

theorem Config.legal_directory_iff {config : Config} {package : Option String}
    (dotted : ∀ p ∈ package, dottedChars p.toList) :
    (∀ d ∈ config.directory package, Legal d) ↔
      (config.layout = .nested → ∀ p ∈ package, "_" ∉ partsOf '.' p) := by
  unfold directory
  split
  · rename_i p nested
    rw [legal_map_fieldName_iff fun _ => isIdentifier_of_mem_partsOf (dotted p rfl)]
    simp [nested]
  · rename_i other
    refine iff_of_true (by simp) ?_
    intro nested p hp
    exact absurd hp (other p nested)

namespace Code.Site
variable {s : Site} {code : Declaration}

theorem legal_record_iff {m : Message} (formed : m.WellFormed) (h : s.record m = .ok code) :
    (∀ name ∈ code.memberNames, Legal name) ↔ "_" ∉ m.memberSources := by
  have identifiers : ∀ name ∈ m.memberSources, isIdentifier name := by
    intro name hname
    rcases List.mem_append.mp hname with hname | hname
    · obtain ⟨x, hx, rfl⟩ := List.mem_map.mp hname
      exact (formed.fields x hx).name
    · obtain ⟨o, ho, rfl⟩ := List.mem_map.mp hname
      exact (formed.oneofs o ho).name
  rw [memberNames_record h]
  exact legal_map_fieldName_iff identifiers

theorem legal_union_iff {o : Oneof} (formed : o.WellFormed) (h : s.union o = .ok code) :
    (∀ name ∈ code.memberNames, Legal name) ↔ ∀ x ∈ o.fields, Begins x.name := by
  rw [memberNames_union h, List.forall_mem_map, List.forall_mem_map]
  refine forall₂_congr fun x hx => legal_variantName_iff ?_
  exact isName_of_isIdentifier (formed.fields x hx).wellFormed.name

theorem legal_enumeration_iff (s : Site) {e : EnumDef} (formed : e.WellFormed) :
    (∀ name ∈ (s.enumeration e).memberNames, Legal name) ↔
      ∀ w ∈ (Numbering.ofEnum e).variants, w.Spellable (enumStem e.name) := by
  rw [enumeration, Declaration.memberNames, List.forall_mem_map]
  refine forall₂_congr fun w hw => NumberedVariant.legal_iff (Numbering.ofEnum_namedAfter e w hw) ?_
  exact fun v hv => isName_of_isIdentifier (formed.values v hv)

end Code.Site

theorem Message.inner_of_mem_nestedAll {scope : List String} {ms : List Message} {n : Nested}
    (hn : n ∈ nestedAll scope ms) : ∃ m ∈ ms, ∃ rest, n.inner = scope ++ m.name :: rest := by
  induction ms using forestInduction generalizing scope with
  | nil => simp [nestedAll] at hn
  | cons m ms inside rest =>
    rw [nestedAll, nested_eq] at hn
    rcases List.mem_append.mp hn with hn | hn
    · refine ⟨m, List.mem_cons_self, ?_⟩
      rcases List.mem_cons.mp hn with rfl | hn
      · exact ⟨[], rfl⟩
      · obtain ⟨k, _, below, inner⟩ := inside hn
        exact ⟨k.name :: below, by simp [inner]⟩
    · obtain ⟨k, hk, below, inner⟩ := rest hn
      exact ⟨k, List.mem_cons_of_mem m hk, below, inner⟩

namespace Output

def Piece.LegalNames (p : Piece) : Prop :=
  Legal p.name ∧ ∀ code, p.code? = some code → ∀ name ∈ code.memberNames, Legal name

namespace Schedule

/-- The names that the code of a directory declares: of types, of members and of variants. -/
def declaredNames (s : Schedule) (directory : List String) : List String :=
  (s.pieces directory).flatMap fun p => p.code?.elim [] fun code => code.name :: code.memberNames

/-- The names in what is generated from a schedule: those of declarations, of files and of modules. -/
inductive Generated (s : Schedule) (name : String) : Prop
  | declared (directory : List String) (here : name ∈ s.declaredNames directory)
  | file (directory : List String) (here : name ∈ s.stems directory)
  | segment (directory : List String) (spans : s.Spans directory) (here : name ∈ directory)

/-- The scheduled files have names that legal code can be written with. -/
structure Spellable (s : Schedule) : Prop where
  packages : s.config.layout = .nested → ∀ f ∈ s.files, ∀ p ∈ f.package, "_" ∉ partsOf '.' p
  messages : ∀ f ∈ s.files, ∀ m ∈ f.messages, Begins m.name
  enums : ∀ f ∈ s.files, ∀ e ∈ f.enums, Begins e.name
  members : ∀ f ∈ s.files, ∀ n ∈ f.everyMessage, "_" ∉ n.message.memberSources
  alternatives : ∀ f ∈ s.files, ∀ o ∈ f.everyOneof, ∀ x ∈ o.fields, Begins x.name
  values : ∀ f ∈ s.files, ∀ e ∈ f.everyEnum, ∀ w ∈ (Numbering.ofEnum e).variants, w.Spellable (enumStem e.name)

instance (s : Schedule) : Decidable s.Spellable :=
  decidable_of_iff
    ((s.config.layout = .nested → ∀ f ∈ s.files, ∀ p ∈ f.package, "_" ∉ partsOf '.' p) ∧
      ∀ f ∈ s.files, (∀ m ∈ f.messages, Begins m.name) ∧ (∀ e ∈ f.enums, Begins e.name) ∧
        (∀ n ∈ f.everyMessage, "_" ∉ n.message.memberSources) ∧
        (∀ o ∈ f.everyOneof, ∀ x ∈ o.fields, Begins x.name) ∧
        ∀ e ∈ f.everyEnum, ∀ w ∈ (Numbering.ofEnum e).variants, w.Spellable (enumStem e.name))
    ⟨fun h => ⟨h.1, fun f hf => (h.2 f hf).1, fun f hf => (h.2 f hf).2.1, fun f hf => (h.2 f hf).2.2.1,
        fun f hf => (h.2 f hf).2.2.2.1, fun f hf => (h.2 f hf).2.2.2.2⟩,
      fun h => ⟨h.packages, fun f hf => ⟨h.messages f hf, h.enums f hf, h.members f hf, h.alternatives f hf,
        h.values f hf⟩⟩⟩

variable {s : Schedule}

theorem mem_declaredNames {directory : List String} {name : String} :
    name ∈ s.declaredNames directory ↔
      ∃ p ∈ s.pieces directory, ∃ code, p.code? = some code ∧ (name = code.name ∨ name ∈ code.memberNames) := by
  refine List.mem_flatMap.trans (exists_congr fun p => and_congr_right fun _ => ?_)
  cases p.code? with
  | none => simp
  | some code => simp

section spellable
variable (h : s.Spellable) (formed : ∀ f ∈ s.files, f.toSchema.WellFormed)
include h formed

theorem Spellable.legal_of_mem_piecesOfFile {f : SchemaFile} (hf : f ∈ s.files) {p : Piece}
    (hp : p ∈ s.piecesOfFile f) : p.LegalNames := by
  -- every name inside a message is read after that of a message of the file
  have scope : ∀ n ∈ f.everyMessage, ∃ first rest, n.inner = first :: rest ∧ (∀ p ∈ first :: rest, IsName p) ∧
      Begins first := by
    intro n hn
    obtain ⟨m, hm, rest, inner⟩ := Message.inner_of_mem_nestedAll hn
    rw [List.nil_append] at inner
    exact ⟨m.name, rest, inner, inner ▸ SchemaFile.isName_of_mem_inner (formed f hf) hn, h.messages f hf m hm⟩
  refine piecesOfFile_cases (P := Piece.LegalNames) ?_ ?_ ?_ ?_ hp
  · intro n hn
    obtain ⟨first, rest, inner, names, begins⟩ := scope n hn
    refine ⟨legal_typeName inner names begins, fun code written => ?_⟩
    refine (Site.legal_record_iff ((formed f hf).messages n hn) (Piece.code?_declared.mp written)).mpr ?_
    exact h.members f hf n hn
  · intro n hn o ho
    obtain ⟨first, rest, inner, names, begins⟩ := scope n hn
    have oneof := ((formed f hf).messages n hn).oneofs o ho
    refine ⟨legal_unionName inner names (isName_of_isIdentifier oneof.name) begins, fun code written => ?_⟩
    refine (Site.legal_union_iff oneof (Piece.code?_declared.mp written)).mpr ?_
    exact h.alternatives f hf o (List.mem_flatMap.mpr ⟨n, hn, ho⟩)
  · intro n hn e he
    obtain ⟨first, rest, inner, names, begins⟩ := scope n hn
    have enum := ((formed f hf).messages n hn).enums e he
    have whole : n.inner ++ [e.name] = first :: (rest ++ [e.name]) := by rw [inner, List.cons_append]
    have isName : ∀ p ∈ first :: (rest ++ [e.name]), IsName p := by
      rw [← List.cons_append]
      refine List.forall_mem_append.mpr ⟨names, ?_⟩
      simpa using isName_of_isIdentifier enum.name
    refine ⟨legal_typeName whole isName begins, ?_⟩
    rintro code ⟨⟩
    refine (Site.legal_enumeration_iff _ enum).mpr (h.values f hf e ?_)
    exact List.mem_append_left _ (List.mem_flatMap.mpr ⟨n, hn, he⟩)
  · intro e he
    have enum := (formed f hf).enums e he
    have type : Legal (typeName [] e.name) :=
      legal_typeName rfl (by simpa using isName_of_isIdentifier enum.name) (h.enums f hf e he)
    refine ⟨type, ?_⟩
    rintro code ⟨⟩
    exact (Site.legal_enumeration_iff _ enum).mpr (h.values f hf e (List.mem_append_right _ he))

theorem Spellable.legal_of_mem_pieces {directory : List String} {p : Piece} (hp : p ∈ s.pieces directory) :
    p.LegalNames := by
  refine pieces_cases (P := Piece.LegalNames) ?_ ?_ hp
  · intro f hf _ p hp
    exact h.legal_of_mem_piecesOfFile formed hf hp
  · intro t _ _
    refine ⟨by cases t <;> decide +kernel, ?_⟩
    rintro code ⟨⟩
    cases t <;> decide +kernel

theorem Spellable.legal_of_mem_stems {directory : List String} {stem : String} (hs : stem ∈ s.stems directory) :
    Legal stem := by
  rcases List.mem_append.mp hs with hs | hs
  · split at hs
    · cases hs
    · obtain rfl : stem = recordStem := by simpa using hs
      decide +kernel
  · obtain ⟨p, hp, own⟩ := List.mem_filterMap.mp hs
    have name := (h.legal_of_mem_pieces formed hp).1
    rw [Piece.stem?_eq_some own, legal_fieldName_iff (isIdentifier_iff.mpr name.identifier)]
    exact name.notBlank

theorem Spellable.legal_of_spans {directory : List String} (spans : s.Spans directory) : ∀ d ∈ directory, Legal d := by
  obtain ⟨used, uses, before⟩ := spans
  suffices legal : ∀ d ∈ used, Legal d from fun d hd => legal d (before.subset hd)
  rcases uses with rfl | ⟨f, hf, rfl⟩ | ⟨_, rfl⟩
  · simp
  · exact (Config.legal_directory_iff (formed f hf).package).mpr fun nested => h.packages nested f hf
  · refine (Config.legal_directory_iff (by rintro _ ⟨⟩; decide)).mpr ?_
    rintro _ _ ⟨⟩
    decide +kernel

end spellable

theorem exists_code_of_generated {out : Files} (generated : s.generate.result = .ok out)
    (legal : ∀ name, s.Generated name → Legal name) {f : SchemaFile} (hf : f ∈ s.files) {d : Declared}
    (hd : d ∈ f.everyMessage.flatMap (declaredAt (s.siteOf f)) ++ f.enums.map (Declared.mk (s.siteOf f) <| .enum ·)) :
    ∃ code, d.declaration.result = .ok code ∧ Legal d.typeName ∧ ∀ name ∈ code.memberNames, Legal name := by
  have piece := mem_pieces_of_file hf hd
  have compatible := (exists_generate_iff.mp ⟨out, generated⟩).1 (s.directoryOf f)
  obtain ⟨text, stands⟩ := Option.isSome_iff_exists.mp (compatible.texts _ piece)
  obtain ⟨code, _, written, _⟩ := Piece.exists_code stands
  have here : ∀ name, name = code.name ∨ name ∈ code.memberNames → Legal name := fun name h =>
    legal name (.declared _ (mem_declaredNames.mpr ⟨_, piece, code, written, h⟩))
  refine ⟨code, Piece.code?_declared.mp written, here _ (.inl ?_), fun name hn => here name (.inr hn)⟩
  exact (Piece.name_of_code? written).symm

theorem spellable_of_generated (formed : ∀ f ∈ s.files, f.toSchema.WellFormed) {out : Files}
    (generated : s.generate.result = .ok out) (legal : ∀ name, s.Generated name → Legal name) : s.Spellable where
  packages nested f hf := by
    refine (Config.legal_directory_iff (formed f hf).package).mp ?_ nested
    exact fun d hd => legal d (.segment (s.directoryOf f) ⟨_, .inr (.inl ⟨f, hf, rfl⟩), List.prefix_rfl⟩ hd)
  messages f hf m hm := by
    have hn : ⟨[], m⟩ ∈ f.everyMessage := Message.mem_nestedAll.mpr ⟨m, hm, Message.mem_nested.mpr (.inl rfl)⟩
    obtain ⟨_, _, type, _⟩ := exists_code_of_generated generated legal hf
      (mem_declared_of_message hn (message_mem_declaredAt _ _))
    exact (legal_variantName_iff (isName_of_isIdentifier ((formed f hf).messages _ hn).name)).mp type
  enums f hf e he := by
    obtain ⟨_, _, type, _⟩ := exists_code_of_generated generated legal hf
      (List.mem_append_right _ (List.mem_map_of_mem he))
    exact (legal_variantName_iff (isName_of_isIdentifier ((formed f hf).enums e he).name)).mp type
  members f hf n hn := by
    obtain ⟨code, written, _, members⟩ := exists_code_of_generated generated legal hf
      (mem_declared_of_message hn (message_mem_declaredAt _ n))
    exact (Site.legal_record_iff ((formed f hf).messages n hn) written).mp members
  alternatives f hf o ho := by
    obtain ⟨n, hn, ho⟩ := List.mem_flatMap.mp ho
    obtain ⟨code, written, _, variants⟩ := exists_code_of_generated generated legal hf
      (mem_declared_of_message hn (oneof_mem_declaredAt _ ho))
    exact (Site.legal_union_iff (((formed f hf).messages n hn).oneofs o ho) written).mp variants
  values f hf e he := by
    have enum := (formed f hf).enum he
    have declared : ∃ site, ⟨site, .enum e⟩ ∈ f.everyMessage.flatMap (declaredAt (s.siteOf f)) ++
        f.enums.map (Declared.mk (s.siteOf f) <| .enum ·) := by
      rcases List.mem_append.mp he with he | he
      · obtain ⟨n, hn, he⟩ := List.mem_flatMap.mp he
        exact ⟨_, mem_declared_of_message hn (enum_mem_declaredAt _ he)⟩
      · exact ⟨_, List.mem_append_right _ (List.mem_map_of_mem he)⟩
    obtain ⟨site, declared⟩ := declared
    obtain ⟨code, written, _, variants⟩ := exists_code_of_generated generated legal hf declared
    cases written
    exact (Site.legal_enumeration_iff site enum).mp variants

end Schedule

end Output

open Schedule

/-- Every path is made of generated names, the index apart, and all generated names are legal exactly if the names of
the scheduled files can be spelled. -/
theorem generated_names_legal_iff {s : Schedule} (parsed : ∀ f ∈ s.files, f.Parsed) {out : Files}
    (generated : s.generate.result = .ok out) :
    (∀ path ∈ out.keys, ∃ directory stem, path = filePath directory stem ∧ (∀ d ∈ directory, s.Generated d) ∧
      (stem = indexStem ∨ s.Generated stem)) ∧
    ((∀ name, s.Generated name → Legal name) ↔ s.Spellable) := by
  have formed : ∀ f ∈ s.files, f.toSchema.WellFormed := fun f hf => (parsed f hf).wellFormed
  refine ⟨?_, spellable_of_generated formed generated, ?_⟩
  · intro path hpath
    obtain ⟨folders, done, _, rfl⟩ := generate_eq_ok.mp generated
    obtain ⟨directory, spans, stem, here, rfl⟩ := (mem_keys_written (filled_of_folders done)).mp hpath
    refine ⟨directory, stem, rfl, fun d hd => .segment directory spans hd, ?_⟩
    rcases List.mem_append.mp here with here | index
    · exact .inr (.file directory here)
    · exact .inl (List.mem_singleton.mp index)
  · intro spellable name h
    cases h with
    | declared directory here =>
      obtain ⟨p, piece, code, written, type | member⟩ := mem_declaredNames.mp here
      · rw [type, Piece.name_of_code? written]
        exact (spellable.legal_of_mem_pieces formed piece).1
      · exact (spellable.legal_of_mem_pieces formed piece).2 code written name member
    | file directory here => exact spellable.legal_of_mem_stems formed here
    | segment directory spans here => exact spellable.legal_of_spans formed spans name here

/-- Reserved words in every place, and names with no more than a letter to them. -/
def crampedText : String :=
  "package as;message Self\x7bint32 type=1;int32 __=2;oneof _x\x7bbool self=3;\x7denum _1\x7b_1_A=0;_a1=1;\x7d\x7d"

def cramped : SchemaFile := .ofText "cramped" crampedText

def crampedSchedule : Schedule :=
  ⟨.attemptAll {} [cramped], { layout := .nested }, [cramped]⟩

theorem generated_names_legal_iff_cramped :
    cramped.Parsed ∧ crampedSchedule.Spellable ∧ ∃ out, crampedSchedule.generate.result = .ok out ∧
      crampedSchedule.declaredNames ["as_"] =
        ["Self_", "type_", "__", "_x", "Self_X", "Self_", "Self1", "A", "A1"] ∧
      ∀ name, crampedSchedule.Generated name → Legal name := by
  have facts : (SchemaFile.parse true "cramped" crampedText).result.toBool ∧
      crampedSchedule.generate.result.toBool ∧ crampedSchedule.Spellable ∧
      crampedSchedule.declaredNames ["as_"] =
        ["Self_", "type_", "__", "_x", "Self_X", "Self_", "Self1", "A", "A1"] := by
    decide +kernel
  obtain ⟨reads, generates, spellable, names⟩ := facts
  have parsed : cramped.Parsed := SchemaFile.parsed_ofText reads
  cases generated : crampedSchedule.generate.result with
  | error e => simp [generated, Except.toBool] at generates
  | ok out =>
    obtain ⟨_, legal⟩ := generated_names_legal_iff (by simpa [crampedSchedule] using parsed) generated
    exact ⟨parsed, spellable, out, rfl, names, legal.mpr spellable⟩

/-- Identifiers without a letter in every place. -/
def blankText : String :=
  "package _;message _\x7bint32 _=1;oneof o\x7bint32 _3=2;\x7d\x7denum _1\x7b_2=0;\x7d"

def blank : SchemaFile := .ofText "blank" blankText

def blankSchedule : Schedule :=
  ⟨.attemptAll {} [blank], { layout := .nested }, [blank]⟩

/-- The code is generated all the same, with names that are empty, a digit or a lone underscore. -/
theorem generated_names_blank :
    blank.Parsed ∧ ∃ out, blankSchedule.generate.result = .ok out ∧
      ∀ name ∈ ["", "_", "1", "2", "3"], blankSchedule.Generated name ∧ ¬ Legal name := by
  have facts : (SchemaFile.parse true "blank" blankText).result.toBool ∧ blankSchedule.generate.result.toBool ∧
      blankSchedule.declaredNames ["_"] = ["", "_", "o", "O", "3", "1", "2"] := by
    decide +kernel
  obtain ⟨reads, generates, names⟩ := facts
  cases generated : blankSchedule.generate.result with
  | error e => simp [generated, Except.toBool] at generates
  | ok out =>
    refine ⟨SchemaFile.parsed_ofText reads, out, rfl, ?_⟩
    intro name hname
    have listed : ∀ name ∈ ["", "_", "1", "2", "3"], name ∈ ["", "_", "o", "O", "3", "1", "2"] ∧ ¬ Legal name := by
      decide +kernel
    obtain ⟨here, illegal⟩ := listed name hname
    exact ⟨.declared ["_"] (names ▸ here), illegal⟩

end SchemaGen
