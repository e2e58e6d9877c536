import SchemaGen.Proofs.Dotted
import SchemaGen.Proofs.WellFormed
/-!
# Files in the grammar

What a text reads as keeps to the grammar of the language at every depth. The grammar is said without the tests
that reading makes: an identifier by its characters, a dotted name by the identifiers that it is joined from.
-/
namespace SchemaGen
open Text Lexeme

def Letter (c : Char) : Prop :=
  ('a' ≤ c ∧ c ≤ 'z') ∨ ('A' ≤ c ∧ c ≤ 'Z') ∨ c = '_'

def Digit (c : Char) : Prop :=
  '0' ≤ c ∧ c ≤ '9'

def Identifier (word : String) : Prop :=
  ∃ c cs, word.toList = c :: cs ∧ Letter c ∧ ∀ d ∈ cs, Letter d ∨ Digit d

/-- Identifiers, at least one, with a dot between each two. -/
def DottedName (word : String) : Prop :=
  ∃ parts, parts ≠ [] ∧ (∀ part ∈ parts, Identifier part) ∧ word = joinWith "." parts

def TypeName (word : String) : Prop :=
  DottedName word ∨ ∃ rest, DottedName rest ∧ word = "." ++ rest

section words

theorem isAlpha_iff {c : Char} : c.isAlpha ↔ ('a' ≤ c ∧ c ≤ 'z') ∨ ('A' ≤ c ∧ c ≤ 'Z') := by
  have upper : c.isUpper ↔ 'A' ≤ c ∧ c ≤ 'Z' := decide_eq_true_iff
  have lower : c.isLower ↔ 'a' ≤ c ∧ c ≤ 'z' := by
    change (decide ('a' ≤ c) && decide (c ≤ 'z')) = true ↔ _
    simp
  rw [or_comm, ← upper, ← lower]
  exact Bool.or_eq_true_iff

theorem isNameStart_iff {c : Char} : isNameStart c ↔ Letter c := by
  rw [isNameStart, Bool.or_eq_true, beq_iff_eq, isAlpha_iff, or_assoc, Letter]

theorem isNamePart_iff {c : Char} : isNamePart c ↔ Letter c ∨ Digit c := by
  have digit : c.isDigit ↔ Digit c := by
    change (decide ('0' ≤ c) && decide (c ≤ '9')) = true ↔ _
    simp [Digit]
  have split : isNamePart c = (isNameStart c || c.isDigit) := Bool.or_right_comm _ _ _
  rw [split, Bool.or_eq_true, isNameStart_iff, digit]

theorem identifierChars_iff {cs : List Char} : identifierChars cs ↔ Identifier (.ofList cs) := by
  cases cs with
  | nil => simp [identifierChars, Identifier]
  | cons c cs => simp [identifierChars, Identifier, isNameStart_iff, isNamePart_iff]

theorem isIdentifier_iff {word : String} : isIdentifier word ↔ Identifier word := by
  rw [isIdentifier, identifierChars_iff, String.ofList_toList]

theorem Identifier.notMem_dot {word : String} (h : Identifier word) : '.' ∉ word.toList := by
  obtain ⟨c, cs, written, first, others⟩ := h
  have start : '.' ≠ c := by
    rintro rfl
    exact absurd (isNameStart_iff.mpr first) (by decide)
  have rest : '.' ∉ cs := fun dot => absurd (isNamePart_iff.mpr (others _ dot)) (by decide)
  simp [written, start, rest]

theorem dottedChars_iff {word : String} : dottedChars word.toList ↔ DottedName word := by
  constructor
  · intro h
    refine ⟨(piecesOf '.' word.toList).map String.ofList, by simp [piecesOf_ne_nil], ?_, ?_⟩
    · intro part hpart
      obtain ⟨piece, hpiece, rfl⟩ := List.mem_map.mp hpart
      exact identifierChars_iff.mp (List.all_eq_true.mp h piece hpiece)
    · exact (joinWith_piecesOf '.' word).symm
  · rintro ⟨parts, nonempty, identifiers, rfl⟩
    have pieces := piecesOf_joinWith nonempty fun part hp => (identifiers part hp).notMem_dot
    rw [dottedChars, show "." = String.singleton '.' from rfl, pieces]
    refine List.all_eq_true.mpr fun piece hp => ?_
    obtain ⟨part, hpart, rfl⟩ := List.mem_map.mp hp
    exact isIdentifier_iff.mpr (identifiers part hpart)

theorem isTypeName_iff {word : String} : isTypeName word ↔ TypeName word := by
  unfold isTypeName
  split
  · rename_i cs written
    have word : word = "." ++ .ofList cs := by
      rw [← String.toList_inj, written]
      simp
    subst word
    constructor
    · intro h
      exact .inr ⟨.ofList cs, dottedChars_iff.mp (by rwa [String.toList_ofList]), rfl⟩
    · rintro (dotted | ⟨rest, dotted, same⟩)
      · -- A dotted name begins with a letter, so that the dot in front is not its own.
        have first := dottedChars_iff.mpr dotted
        rw [written, dottedChars, piecesOf_separator] at first
        simp [identifierChars] at first
      · have dotted := dottedChars_iff.mpr dotted
        obtain rfl : String.ofList cs = rest := by
          rw [← String.toList_inj] at same ⊢
          simpa using same
        rwa [String.toList_ofList] at dotted
  · rename_i noDot
    rw [dottedChars_iff]
    constructor
    · exact .inl
    · rintro (dotted | ⟨rest, _, same⟩)
      · exact dotted
      · exact absurd (by simp [same]) (noDot rest.toList)

instance (word : String) : Decidable (Identifier word) :=
  decidable_of_iff _ isIdentifier_iff

instance (word : String) : Decidable (DottedName word) :=
  decidable_of_iff _ dottedChars_iff

instance (word : String) : Decidable (TypeName word) :=
  decidable_of_iff _ isTypeName_iff

end words

/-- The names that a type is written with, keywords apart. -/
def FieldType.names : FieldType → List String
  | .scalar _ => []
  | .named name => [name]
  | .map _ value => value.names

namespace SchemaFile

def everyField (f : SchemaFile) : List Field :=
  f.everyMessage.flatMap (·.message.allFields)

def everyOneof (f : SchemaFile) : List Oneof :=
  f.everyMessage.flatMap (·.message.oneofs)

def everyEnum (f : SchemaFile) : List EnumDef :=
  f.everyMessage.flatMap (·.message.enums) ++ f.enums

/-- A file keeps to the grammar at every depth. -/
structure Grammatical (f : SchemaFile) : Prop where
  package : ∀ p ∈ f.package, DottedName p
  messages : ∀ n ∈ f.everyMessage, Identifier n.message.name
  fields : ∀ x ∈ f.everyField, Identifier x.name ∧ 1 ≤ x.number ∧ x.number ≤ 536870911
  types : ∀ x ∈ f.everyField, ∀ t ∈ x.type.names, TypeName t ∧ t ∉ Scalar.all.map Scalar.keyword
  maps : ∀ x ∈ f.everyField, ∀ key value, x.type = .map key value →
    x.label = .singular ∧ key ∉ [Scalar.double, .float, .bytes] ∧ ∀ key' value', value ≠ .map key' value'
  oneofs : ∀ o ∈ f.everyOneof, Identifier o.name ∧ o.fields ≠ [] ∧
    ∀ x ∈ o.fields, x.label = .singular ∧ ∀ key value, x.type ≠ .map key value
  enums : ∀ e ∈ f.everyEnum, Identifier e.name ∧ e.values ≠ [] ∧ ∀ v ∈ e.values, Identifier v.name
  services : ∀ s ∈ f.services, Identifier s.name ∧ ∀ m ∈ s.methods, Identifier m.name

end SchemaFile

section types

theorem Scalar.ofKeyword?_eq_none {word : String} : ofKeyword? word = none ↔ word ∉ all.map keyword := by
  simp [ofKeyword?]

theorem FieldType.Plain.names {type : FieldType} (h : type.Plain) :
    ∀ t ∈ type.names, TypeName t ∧ t ∉ Scalar.all.map Scalar.keyword := by
  cases type with
  | scalar kind => simp [FieldType.names]
  | named name =>
    intro t ht
    obtain rfl := List.mem_singleton.mp ht
    exact ⟨isTypeName_iff.mp h.1, Scalar.ofKeyword?_eq_none.mp h.2⟩
  | map key value => exact h.elim

theorem FieldType.WellFormed.names {type : FieldType} (h : type.WellFormed) :
    ∀ t ∈ type.names, TypeName t ∧ t ∉ Scalar.all.map Scalar.keyword := by
  cases type with
  | scalar kind => exact FieldType.Plain.names h
  | named name => exact FieldType.Plain.names h
  | map key value => simpa [FieldType.names] using FieldType.Plain.names h.2

theorem FieldType.Plain.ne_map {type : FieldType} (h : type.Plain) (key : Scalar) (value : FieldType) :
    type ≠ .map key value := by
  rintro rfl
  exact h

theorem FieldType.plain_of_names {type : FieldType}
    (names : ∀ t ∈ type.names, TypeName t ∧ t ∉ Scalar.all.map Scalar.keyword)
    (single : ∀ key value, type ≠ .map key value) : type.Plain := by
  cases type with
  | scalar kind => trivial
  | named name =>
    obtain ⟨typeName, keyword⟩ := names name (by simp [FieldType.names])
    exact ⟨isTypeName_iff.mpr typeName, Scalar.ofKeyword?_eq_none.mpr keyword⟩
  | map key value => exact single key value rfl

theorem Field.WellFormed.map {x : Field} (h : x.WellFormed) {key : Scalar} {value : FieldType}
    (map : x.type = .map key value) :
    x.label = .singular ∧ key ∉ [Scalar.double, .float, .bytes] ∧ ∀ key' value', value ≠ .map key' value' := by
  obtain ⟨valid, plain⟩ : key.validKey ∧ value.Plain := by
    have type := h.type
    rwa [map] at type
  refine ⟨h.map_singular (by rw [map]; rfl), ?_, plain.ne_map⟩
  cases key <;> simp_all [Scalar.validKey]

end types

namespace Schema.WellFormed
variable {f : SchemaFile}

theorem field (h : f.toSchema.WellFormed) {x : Field} (hx : x ∈ f.everyField) : x.WellFormed := by
  obtain ⟨n, hn, hx⟩ := List.mem_flatMap.mp hx
  have message := h.messages n hn
  rcases List.mem_append.mp hx with hx | hx
  · exact message.fields x hx
  · obtain ⟨o, ho, hx⟩ := List.mem_flatMap.mp hx
    exact ((message.oneofs o ho).fields x hx).wellFormed

theorem oneof (h : f.toSchema.WellFormed) {o : Oneof} (ho : o ∈ f.everyOneof) : o.WellFormed := by
  obtain ⟨n, hn, ho⟩ := List.mem_flatMap.mp ho
  exact (h.messages n hn).oneofs o ho

theorem enum (h : f.toSchema.WellFormed) {e : EnumDef} (he : e ∈ f.everyEnum) : e.WellFormed := by
  rcases List.mem_append.mp he with he | he
  · obtain ⟨n, hn, he⟩ := List.mem_flatMap.mp he
    exact (h.messages n hn).enums e he
  · exact h.enums e he

theorem grammatical (h : f.toSchema.WellFormed) : f.Grammatical where
  package p hp := dottedChars_iff.mp (h.package p hp)
  messages n hn := isIdentifier_iff.mp (h.messages n hn).name
  fields x hx := ⟨isIdentifier_iff.mp (h.field hx).name, (h.field hx).number⟩
  types x hx := (h.field hx).type.names
  maps x hx _ _ map := (h.field hx).map map
  oneofs o ho := by
    have formed := h.oneof ho
    refine ⟨isIdentifier_iff.mp formed.name, formed.nonempty, ?_⟩
    intro x hx
    exact ⟨(formed.fields x hx).singular, (formed.fields x hx).plain.ne_map⟩
  enums e he := by
    have formed := h.enum he
    exact ⟨isIdentifier_iff.mp formed.name, formed.nonempty, fun v hv => isIdentifier_iff.mp (formed.values v hv)⟩
  services s hs := by
    have formed := h.services s hs
    exact ⟨isIdentifier_iff.mp formed.name, fun m hm => isIdentifier_iff.mp (formed.methods m hm)⟩

end Schema.WellFormed

namespace SchemaFile.Grammatical
variable {f : SchemaFile}

theorem field (h : f.Grammatical) {x : Field} (hx : x ∈ f.everyField) : x.WellFormed := by
  obtain ⟨name, number⟩ := h.fields x hx
  have names := h.types x hx
  refine ⟨isIdentifier_iff.mpr name, number, ?_, ?_⟩
  · cases type : x.type with
    | scalar kind => trivial
    | named word =>
      rw [type] at names
      exact FieldType.plain_of_names names (by simp)
    | map key value =>
      obtain ⟨_, valid, single⟩ := h.maps x hx key value type
      rw [type] at names
      refine ⟨?_, FieldType.plain_of_names (by simpa [FieldType.names] using names) single⟩
      cases key <;> simp_all [Scalar.validKey]
  · intro isMap
    cases type : x.type with
    | scalar kind => simp [type, FieldType.isMap] at isMap
    | named word => simp [type, FieldType.isMap] at isMap
    | map key value => exact (h.maps x hx key value type).1

theorem oneof (h : f.Grammatical) {o : Oneof} (ho : o ∈ f.everyOneof) : o.WellFormed := by
  obtain ⟨name, nonempty, members⟩ := h.oneofs o ho
  refine ⟨isIdentifier_iff.mpr name, nonempty, ?_⟩
  intro x hx
  obtain ⟨singular, single⟩ := members x hx
  have everywhere : x ∈ f.everyField := by
    obtain ⟨n, hn, ho⟩ := List.mem_flatMap.mp ho
    exact List.mem_flatMap.mpr ⟨n, hn, List.mem_append_right _ (List.mem_flatMap.mpr ⟨o, ho, hx⟩)⟩
  exact ⟨h.field everywhere, singular, FieldType.plain_of_names (h.types x everywhere) single⟩

theorem enum (h : f.Grammatical) {e : EnumDef} (he : e ∈ f.everyEnum) : e.WellFormed := by
  obtain ⟨name, nonempty, values⟩ := h.enums e he
  exact ⟨isIdentifier_iff.mpr name, nonempty, fun v hv => isIdentifier_iff.mpr (values v hv)⟩

/-- The tests that reading makes are all that the grammar asks. -/
theorem wellFormed (h : f.Grammatical) : f.toSchema.WellFormed where
  package p hp := dottedChars_iff.mpr (h.package p hp)
  messages n hn := {
    name := isIdentifier_iff.mpr (h.messages n hn)
    fields := fun _ hx => h.field (List.mem_flatMap.mpr ⟨n, hn, List.mem_append_left _ hx⟩)
    oneofs := fun _ ho => h.oneof (List.mem_flatMap.mpr ⟨n, hn, ho⟩)
    enums := fun _ he => h.enum (List.mem_append_left _ (List.mem_flatMap.mpr ⟨n, hn, he⟩)) }
  enums _ he := h.enum (List.mem_append_right _ he)
  services s hs := {
    name := isIdentifier_iff.mpr (h.services s hs).1
    methods := fun m hm => isIdentifier_iff.mpr ((h.services s hs).2 m hm) }

end SchemaFile.Grammatical

/-- Whatever a text holds, and whether or not statements of it are skipped, the file it reads as keeps to the
grammar. -/
theorem SchemaFile.parse_grammatical {strict : Bool} {name text : String} {f : SchemaFile}
    (h : (SchemaFile.parse strict name text).result = .ok f) : f.Grammatical :=
  (parsed_of_parse h).wellFormed.grammatical

theorem SchemaFile.exists_of_parse (strict : Bool) (name text : String) (test : SchemaFile → Bool)
    (h : (SchemaFile.parse strict name text).result.toOption.any test) :
    ∃ f, (SchemaFile.parse strict name text).result = .ok f ∧ test f := by
  cases read : (SchemaFile.parse strict name text).result with
  | error e => simp [read, Except.toOption] at h
  | ok f => exact ⟨f, rfl, by simpa [read, Except.toOption] using h⟩

/-- A text with nested messages, in which the last statement is skipped. -/
def SchemaFile.nestedText : String :=
  "package .a.b; message M \x7b map<string, .x.Y> m = 1; message N \x7b oneof o \x7b N n = 2; \x7d " ++
    "enum E \x7b A = 0; \x7d \x7d repeated bad; \x7d"

theorem SchemaFile.parse_grammatical_skipping :
    ∃ f, (SchemaFile.parse false "n.proto" nestedText).result = .ok f ∧
      (f.package, f.everyField.map (·.name), f.everyEnum.map (·.name)) = (some "a.b", ["m", "n"], ["E"]) ∧
      f.Grammatical := by
  obtain ⟨f, parsed, parts⟩ := exists_of_parse false "n.proto" nestedText
    (fun f => (f.package, f.everyField.map (·.name), f.everyEnum.map (·.name)) == (some "a.b", ["m", "n"], ["E"]))
    (by decide +kernel)
  exact ⟨f, parsed, eq_of_beq parts, parse_grammatical parsed⟩

end SchemaGen
