import SchemaGen.Proofs.FieldOptions
import SchemaGen.Proofs.Grammar
/-!
# The grammar of a field statement

A field statement is read exactly if its words before the options are a label or none, a type, a name, `=` and a number
in range. The field that is read has what these words say, and is deprecated if the options say so.
-/
namespace SchemaGen
open Text Lexeme

section cut
variable {statement rest body options : List Token}

/-- A statement cut into its body, its options from the first bracket on, and one semicolon at its end, if it has
one. -/
structure Cut (statement body options : List Token) : Prop where
  plain : ∀ t ∈ body, t.text ≠ "["
  opens : ∀ t ∈ options.head?, t.text = "["
  mark : (∃ t, t.text = ";" ∧ statement = body ++ options ++ [t]) ∨
    (statement = body ++ options ∧ ∀ t ∈ statement.getLast?, t.text ≠ ";")

theorem withoutMark_eq_iff : withoutMark statement = rest ↔
    (∃ t, t.text = ";" ∧ statement = rest ++ [t]) ∨ (statement = rest ∧ ∀ t ∈ statement.getLast?, t.text ≠ ";") := by
  rcases List.eq_nil_or_concat statement with rfl | ⟨front, t, rfl⟩
  · simp [withoutMark]
  · by_cases mark : t.text = ";"
    · simp [withoutMark, mark, List.append_singleton_inj]
    · simp [withoutMark, mark, List.append_singleton_inj]

theorem takeWhile_dropWhile_eq_iff :
    (rest.takeWhile (·.text != "[") = body ∧ rest.dropWhile (·.text != "[") = options) ↔
      rest = body ++ options ∧ (∀ t ∈ body, t.text ≠ "[") ∧ ∀ t ∈ options.head?, t.text = "[" := by
  constructor
  · rintro ⟨rfl, rfl⟩
    refine ⟨List.takeWhile_append_dropWhile.symm, ?_, ?_⟩
    · intro t ht
      simpa using List.mem_takeWhile_imp ht
    · intro t ht
      have first := List.head?_dropWhile_not (fun t : Token => t.text != "[") rest
      rw [ht] at first
      simpa using first
  · rintro ⟨rfl, plain, opens⟩
    have all : ∀ t ∈ body, (t.text != "[") = true := by simpa using plain
    rw [List.takeWhile_append_of_pos all, List.dropWhile_append_of_pos all]
    cases options with
    | nil => simp
    | cons t options => simp [opens t rfl]

/-- A statement is cut in one way. -/
theorem cut_iff : Cut statement body options ↔ bodyOf statement = body ∧ optionsOf statement = options := by
  rw [bodyOf, optionsOf, takeWhile_dropWhile_eq_iff, withoutMark_eq_iff]
  constructor
  · intro cut
    exact ⟨cut.mark, cut.plain, cut.opens⟩
  · rintro ⟨mark, plain, opens⟩
    exact ⟨plain, opens, mark⟩

end cut

theorem marksDeprecated_iff_infix (options : List Token) :
    marksDeprecated options ↔ ["deprecated", "=", "true"] <:+: options.map (·.text) := by
  rw [← marksDeprecated_map, ← marksDeprecated_iff, List.map_map]
  rfl

structure FieldParts where
  label : Option Token
  type : List Token
  name : Token
  equals : Token
  number : Token

def FieldParts.tokens (p : FieldParts) : List Token :=
  p.label.toList ++ (p.type ++ [p.name, p.equals, p.number])

def labelWords : List String := ["repeated", "optional", "required"]

/-- The words of a map type, with a scalar that may be a key. -/
def MapWords (words : List String) : Prop :=
  ∃ key : Scalar, ∃ value, words = ["map", "<", key.keyword, ",", value, ">"] ∧ key.validKey ∧
    TypeName value ∧ value ≠ "map"

namespace FieldParts

/-- The grammar of a field. A first word that may be a label is one. -/
structure Grammatical (inOneof : Bool) (p : FieldParts) : Prop where
  label : ∀ t ∈ p.label, t.text ∈ labelWords
  unlabelled : p.label = none → ∀ t ∈ p.tokens.head?, t.text ∉ labelWords
  member : inOneof → p.label = none
  type : (∃ word, p.type.map (·.text) = [word] ∧ TypeName word) ∨ MapWords (p.type.map (·.text))
  single : MapWords (p.type.map (·.text)) → inOneof = false ∧ ∀ t ∈ p.label, t.text ≠ "repeated"
  name : Identifier p.name.text
  equals : p.equals.text = "="
  number : ∃ n, integer? p.number.text = some n ∧ 1 ≤ n ∧ n ≤ 536870911

end FieldParts

/-- The type that words stand for: a scalar if they are its keyword, else a reference by the name as it is written. -/
inductive Denotes : List String → FieldType → Prop
  | scalar (kind : Scalar) : Denotes [kind.keyword] (.scalar kind)
  | named {word : String} (other : ∀ kind : Scalar, word ≠ kind.keyword) : Denotes [word] (.named word)
  | map {key : Scalar} {word : String} {value : FieldType} (h : Denotes [word] value) :
    Denotes ["map", "<", key.keyword, ",", word, ">"] (.map key value)

structure FieldParts.Gives (p : FieldParts) (options : List Token) (x : Field) : Prop where
  name : x.name = p.name.text
  position : x.position = p.name.position
  label : x.label = .repeated ↔ ∃ t ∈ p.label, t.text = "repeated"
  number : integer? p.number.text = some x.number
  fits : (Int32.ofInt x.number).toInt = x.number
  type : Denotes (p.type.map (·.text)) x.type
  deprecated : x.deprecated ↔ ["deprecated", "=", "true"] <:+: options.map (·.text)

section types
variable {t : Token} {ts rest : List Token} {type : FieldType}

theorem Scalar.ofKeyword?_eq_some {word : String} {kind : Scalar} :
    ofKeyword? word = some kind ↔ word = kind.keyword := by
  constructor
  · intro found
    have same := List.find?_some found
    exact (beq_iff_eq.mp same).symm
  · rintro rfl
    cases kind <;> decide

theorem denotes_ofWord (word : String) : Denotes [word] (.ofWord word) := by
  unfold FieldType.ofWord
  cases found : Scalar.ofKeyword? word with
  | none =>
    apply Denotes.named
    intro kind same
    rw [Scalar.ofKeyword?_eq_some.mpr same] at found
    cases found
  | some kind =>
    rw [Scalar.ofKeyword?_eq_some.mp found]
    exact .scalar kind

theorem not_isMap_ofWord (word : String) : (FieldType.ofWord word).isMap = false := by
  unfold FieldType.ofWord
  cases Scalar.ofKeyword? word <;> rfl

theorem fieldType_word (typeName : TypeName t.text) (next : ∀ u ∈ rest.head?, u.text ≠ "<") :
    fieldType (t :: rest) = .ok (.ofWord t.text, rest) := by
  have noMap : (t.text == "map" && rest.head?.any (·.text == "<")) = false := by
    cases rest with
    | nil => simp
    | cons u rest => simp [next u rfl]
  rw [fieldType, noMap, isTypeName_iff.mpr typeName]
  rfl

theorem fieldType_mapWords {front : List Token} (h : MapWords (front.map (·.text))) (rest : List Token) :
    ∃ type, Denotes (front.map (·.text)) type ∧ type.isMap ∧ fieldType (front ++ rest) = .ok (type, rest) := by
  obtain ⟨key, value, words, valid, typeName, other⟩ := h
  refine ⟨.map key (.ofWord value), ?_, rfl, ?_⟩
  · rw [words]
    exact .map (denotes_ofWord value)
  · have keyword := Scalar.ofKeyword?_eq_some.mpr (rfl : key.keyword = key.keyword)
    have named := isTypeName_iff.mpr typeName
    simp only [List.map_eq_cons_iff, List.map_eq_nil_iff] at words
    obtain ⟨m, _, rfl, first, o, _, rfl, opening, k, _, rfl, third, c, _, rfl, comma, v, _, rfl, fifth, g, _, rfl,
      closing, rfl⟩ := words
    subst fifth
    simp [fieldType, mapType, first, opening, third, comma, closing, keyword, Option.filter, valid, other, named]

theorem mapType_front (first : t.text = "map") (h : mapType (t :: ts) = .ok (type, rest)) :
    ∃ front, t :: ts = front ++ rest ∧ MapWords (front.map (·.text)) ∧ type.isMap := by
  rcases ts with _ | ⟨opening, _ | ⟨key, _ | ⟨comma, _ | ⟨value, _ | ⟨closing, ts⟩⟩⟩⟩⟩
  iterate 5 cases h
  rw [mapType] at h
  split at h
  · rename_i signs
    split at h
    · cases h
    · rename_i kind found
      split at h
      · cases h
      · rename_i named
        cases h
        obtain ⟨keyword, valid⟩ := Option.filter_eq_some_iff.mp found
        simp only [Bool.or_eq_true, beq_iff_eq, Bool.not_eq_true', not_or, Bool.not_eq_false] at named
        simp only [Bool.and_eq_true, beq_iff_eq] at signs
        refine ⟨[t, opening, key, comma, value, closing], rfl, ?_, rfl⟩
        refine ⟨kind, value.text, ?_, valid, isTypeName_iff.mp named.2, named.1⟩
        simp [first, signs, Scalar.ofKeyword?_eq_some.mp keyword]
  · cases h

theorem fieldType_front (h : fieldType ts = .ok (type, rest)) : ∃ front, ts = front ++ rest ∧
    ((∃ word, front.map (·.text) = [word] ∧ TypeName word) ∨ MapWords (front.map (·.text)) ∧ type.isMap) := by
  cases ts with
  | nil => cases h
  | cons t ts =>
    rw [fieldType] at h
    split at h
    · rename_i map
      simp only [Bool.and_eq_true, beq_iff_eq] at map
      obtain ⟨front, same, words, isMap⟩ := mapType_front map.1 h
      exact ⟨front, same, .inr ⟨words, isMap⟩⟩
    · split at h
      · rename_i typeName
        cases h
        exact ⟨[t], rfl, .inl ⟨t.text, rfl, isTypeName_iff.mp typeName⟩⟩
      · cases h

end types

theorem nameAndNumber_eq_ok_iff {ts : List Token} {name : Token} {n : Int} : nameAndNumber ts = .ok (name, n) ↔
    ∃ equals number, ts = [name, equals, number] ∧ Identifier name.text ∧ equals.text = "=" ∧
      integer? number.text = some n ∧ 1 ≤ n ∧ n ≤ 536870911 := by
  constructor
  · intro h
    obtain ⟨identifier, low, high⟩ := nameAndNumber_eq_ok h
    rcases ts with _ | ⟨first, _ | ⟨equals, _ | ⟨number, _ | ⟨_, _⟩⟩⟩⟩
    iterate 3 cases h
    · rw [nameAndNumber] at h
      split at h
      · cases h
      · rename_i sign
        split at h
        · cases h
        · split at h
          · cases h
          · rename_i value read
            split at h
            · cases h
              exact ⟨equals, number, rfl, isIdentifier_iff.mp identifier, by simpa using sign, read, low, high⟩
            · cases h
    · cases h
  · rintro ⟨equals, number, rfl, identifier, sign, value, low, high⟩
    simp [nameAndNumber, sign, isIdentifier_iff.mpr identifier, value, maxFieldNumber, low, high]

section label
variable {t : Token} {ts : List Token}

def labelOf (t : Token) : Label :=
  if t.text = "repeated" then .repeated else .singular

theorem splitLabel_of_mem (h : t.text ∈ labelWords) : splitLabel (t :: ts) = (some (labelOf t), ts) := by
  simp only [labelWords, List.mem_cons, List.not_mem_nil, or_false] at h
  rcases h with h | h | h
  · simp [splitLabel, labelOf, h]
  · simp [splitLabel, labelOf, h]
  · simp [splitLabel, labelOf, h]

theorem splitLabel_of_notMem (h : ∀ t ∈ ts.head?, t.text ∉ labelWords) : splitLabel ts = (none, ts) := by
  cases ts with
  | nil => rfl
  | cons t ts =>
    have other := h t rfl
    simp only [labelWords, List.mem_cons, List.not_mem_nil, or_false, not_or] at other
    rw [splitLabel]
    split
    · exact absurd ‹_› other.1
    · exact absurd ‹_› other.2.1
    · exact absurd ‹_› other.2.2
    · rfl

theorem splitLabel_cases (ts : List Token) : ∃ label : Option Token, ts = label.toList ++ (splitLabel ts).2 ∧
    (splitLabel ts).1 = label.map labelOf ∧ (∀ t ∈ label, t.text ∈ labelWords) ∧
    (label = none → ∀ t ∈ ts.head?, t.text ∉ labelWords) := by
  by_cases labelled : ∃ t ∈ ts.head?, t.text ∈ labelWords
  · obtain ⟨t, first, listed⟩ := labelled
    obtain ⟨ts, rfl⟩ := List.head?_eq_some_iff.mp first
    rw [splitLabel_of_mem listed]
    exact ⟨some t, rfl, rfl, by simpa using listed, by simp⟩
  · have other : ∀ t ∈ ts.head?, t.text ∉ labelWords := fun t first listed => labelled ⟨t, first, listed⟩
    rw [splitLabel_of_notMem other]
    exact ⟨none, rfl, rfl, by simp, fun _ => other⟩

end label

theorem fieldAfterLabel_eq_ok_iff {inOneof deprecated : Bool} {label : Option Label} {typed : FieldType × List Token}
    {x : Field} : fieldAfterLabel inOneof label deprecated typed = .ok x ↔
      (typed.1.isMap → inOneof = false ∧ label ≠ some .repeated) ∧ ∃ name n, nameAndNumber typed.2 = .ok (name, n) ∧
        x = ⟨name.text, name.position, typed.1, n, label.getD .singular, deprecated⟩ := by
  unfold fieldAfterLabel
  split_ifs with repeated inside
  · simp only [Bool.and_eq_true, beq_iff_eq] at repeated
    simp [repeated]
  · simp only [Bool.and_eq_true] at inside
    simp [inside]
  · have allowed : typed.1.isMap → inOneof = false ∧ label ≠ some .repeated := by
      intro map
      exact ⟨by simpa [map] using inside, by simpa [map] using repeated⟩
    rw [except_map_ok, Prod.exists, and_iff_right allowed]

namespace FieldParts
variable {p : FieldParts} {inOneof : Bool} {statement : List Token}

theorem Grammatical.splitLabel_tokens (h : p.Grammatical inOneof) :
    splitLabel p.tokens = (p.label.map labelOf, p.type ++ [p.name, p.equals, p.number]) := by
  cases label : p.label with
  | none =>
    have whole : p.tokens = p.type ++ [p.name, p.equals, p.number] := by rw [tokens, label]; rfl
    rw [← whole]
    exact splitLabel_of_notMem (h.unlabelled label)
  | some t =>
    rw [tokens, label]
    exact splitLabel_of_mem (h.label t label)

theorem Grammatical.fieldType_eq (h : p.Grammatical inOneof) : ∃ type, Denotes (p.type.map (·.text)) type ∧
    (type.isMap → inOneof = false ∧ p.label.map labelOf ≠ some .repeated) ∧
    fieldType (p.type ++ [p.name, p.equals, p.number]) = .ok (type, [p.name, p.equals, p.number]) := by
  rcases h.type with ⟨word, words, typeName⟩ | words
  · obtain ⟨t, type, rfl⟩ := List.map_eq_singleton_iff.mp words
    refine ⟨.ofWord t.text, ?_, ?_, ?_⟩
    · rw [words]
      exact denotes_ofWord t.text
    · simp [not_isMap_ofWord]
    · -- The word may be `map` itself: an identifier follows, so nothing opens the brackets of a map.
      rw [type]
      apply fieldType_word typeName
      intro u first bracket
      have same : u = p.name := by simpa using first.symm
      have name := h.name
      rw [← same, bracket] at name
      exact absurd name (by decide)
  · obtain ⟨type, denotes, _, read⟩ := fieldType_mapWords words [p.name, p.equals, p.number]
    refine ⟨type, denotes, ?_, read⟩
    intro _
    obtain ⟨outside, single⟩ := h.single words
    refine ⟨outside, ?_⟩
    intro repeated
    obtain ⟨t, label, same⟩ := Option.map_eq_some_iff.mp repeated
    simp [labelOf, single t label] at same

theorem Grammatical.exists_field (h : p.Grammatical inOneof) (body : bodyOf statement = p.tokens) :
    ∃ x, Field.ofTokens inOneof statement = .ok x ∧ p.Gives (optionsOf statement) x := by
  obtain ⟨type, denotes, single, typed⟩ := h.fieldType_eq
  obtain ⟨n, value, low, high⟩ := h.number
  have enough : ¬ p.tokens.length < 3 := by
    simp only [tokens, List.length_append, List.length_cons, List.length_nil]
    omega
  have placed : (inOneof && (p.label.map labelOf).isSome) = false := by
    cases inside : inOneof with
    | false => rfl
    | true => simp [h.member inside]
  let x : Field := ⟨p.name.text, p.name.position, type, n, (p.label.map labelOf).getD .singular,
    marksDeprecated (optionsOf statement)⟩
  have read : fieldAfterLabel inOneof (p.label.map labelOf) (marksDeprecated (optionsOf statement))
      (type, [p.name, p.equals, p.number]) = .ok x :=
    fieldAfterLabel_eq_ok_iff.mpr ⟨single, p.name, n,
      nameAndNumber_eq_ok_iff.mpr ⟨p.equals, p.number, rfl, h.name, h.equals, value, low, high⟩, rfl⟩
  refine ⟨x, ?_, ?_⟩
  · rw [Field.ofTokens_eq, body]
    dsimp only
    rw [if_neg enough, h.splitLabel_tokens, placed, if_neg (by simp), typed]
    exact read
  · refine ⟨rfl, rfl, ?_, value, ?_, denotes, marksDeprecated_iff_infix _⟩
    · cases label : p.label with
      | none => simp [x, label]
      | some t => simp [x, label, labelOf]
    · show (Int32.ofInt n).toInt = n
      exact Int32.toInt_ofInt_of_le (by omega) (by omega)

theorem exists_grammatical {x : Field} (h : Field.ofTokens inOneof statement = .ok x) :
    ∃ p : FieldParts, bodyOf statement = p.tokens ∧ p.Grammatical inOneof := by
  rw [Field.ofTokens_eq] at h
  dsimp only at h
  split_ifs at h with _ placed
  obtain ⟨⟨type, rest⟩, typed, h⟩ := except_bind_ok.mp h
  obtain ⟨single, name, n, named, _⟩ := fieldAfterLabel_eq_ok_iff.mp h
  obtain ⟨equals, number, ending, identifier, sign, value⟩ := nameAndNumber_eq_ok_iff.mp named
  obtain ⟨front, words, kind⟩ := fieldType_front typed
  obtain ⟨label, whole, labelled, listed, unlabelled⟩ := splitLabel_cases (bodyOf statement)
  -- Each stage of the reader took one of the parts from the front of what was left.
  let p : FieldParts := ⟨label, front, name, equals, number⟩
  have tokens : bodyOf statement = p.tokens := by
    rw [words, show rest = [name, equals, number] from ending] at whole
    exact whole
  rw [labelled] at placed single
  refine ⟨p, tokens, listed, ?_, ?_, ?_, ?_, identifier, sign, n, value⟩
  · intro none
    rw [← tokens]
    exact unlabelled none
  · intro inside
    simpa [inside] using placed
  · exact kind.imp_right And.left
  · intro map
    have isMap : type.isMap := by
      rcases kind with ⟨word, one, _⟩ | ⟨_, isMap⟩
      · obtain ⟨key, value, six, _⟩ := map
        rw [show p.type = front from rfl, one] at six
        cases six
      · exact isMap
    obtain ⟨outside, single⟩ := single isMap
    refine ⟨outside, ?_⟩
    intro t ht repeated
    apply single
    rw [show label = some t from ht, Option.map_some, labelOf, if_pos repeated]

end FieldParts

/-- A field statement is read exactly if it is grammatical, cut before its options in the one way there is, and then
the field is the one that its parts and its options give. -/
theorem Field.ofTokens_ok_iff_grammatical (inOneof : Bool) (statement : List Token) :
    (∃! cut : List Token × List Token, Cut statement cut.1 cut.2) ∧
    ((∃ x, Field.ofTokens inOneof statement = .ok x) ↔
      ∃ (p : FieldParts) (options : List Token), Cut statement p.tokens options ∧ p.Grammatical inOneof) ∧
    ∀ (p : FieldParts) (options : List Token), Cut statement p.tokens options → p.Grammatical inOneof →
      ∃ x, Field.ofTokens inOneof statement = .ok x ∧ p.Gives options x := by
  have gives : ∀ (p : FieldParts) (options : List Token), Cut statement p.tokens options → p.Grammatical inOneof →
      ∃ x, Field.ofTokens inOneof statement = .ok x ∧ p.Gives options x := by
    intro p options cut grammatical
    obtain ⟨body, rfl⟩ := cut_iff.mp cut
    exact grammatical.exists_field body
  refine ⟨⟨(bodyOf statement, optionsOf statement), cut_iff.mpr ⟨rfl, rfl⟩, ?_⟩, ⟨?_, ?_⟩, gives⟩
  · intro cut h
    obtain ⟨body, options⟩ := cut_iff.mp h
    exact Prod.ext body.symm options.symm
  · intro ⟨x, read⟩
    obtain ⟨p, body, grammatical⟩ := FieldParts.exists_grammatical read
    exact ⟨p, optionsOf statement, cut_iff.mpr ⟨body, rfl⟩, grammatical⟩
  · intro ⟨p, options, cut, grammatical⟩
    obtain ⟨x, read, _⟩ := gives p options cut grammatical
    exact ⟨x, read⟩

def mapParts : FieldParts where
  label := some (.ofWord "optional")
  type := ["map", "<", "string", ",", "Kind", ">"].map .ofWord
  name := ⟨"kinds", ⟨3, 32⟩⟩
  equals := .ofWord "="
  number := .ofWord "0x10"

def markOptions : List Token :=
  ["[", "deprecated", "=", "true", "]"].map .ofWord

theorem Field.ofTokens_ok_iff_grammatical_map :
    Cut (mapParts.tokens ++ markOptions ++ [.ofWord ";"]) mapParts.tokens markOptions ∧ mapParts.Grammatical false ∧
      mapParts.Gives markOptions ⟨"kinds", ⟨3, 32⟩, .map .string (.named "Kind"), 16, .singular, true⟩ := by
  have cut : Cut (mapParts.tokens ++ markOptions ++ [.ofWord ";"]) mapParts.tokens markOptions :=
    cut_iff.mpr (by decide +kernel)
  have grammatical : mapParts.Grammatical false := by
    refine ⟨by decide, by decide, by decide, .inr ?_, fun _ => ⟨rfl, by decide⟩, by decide, rfl, 16, by decide⟩
    exact ⟨.string, "Kind", rfl, rfl, by decide, by decide⟩
  obtain ⟨x, read, gives⟩ := (ofTokens_ok_iff_grammatical false _).2.2 mapParts markOptions cut grammatical
  have value : Field.ofTokens false (mapParts.tokens ++ markOptions ++ [.ofWord ";"]) =
      .ok ⟨"kinds", ⟨3, 32⟩, .map .string (.named "Kind"), 16, .singular, true⟩ := by
    decide +kernel
  cases value.symm.trans read
  exact ⟨cut, grammatical, gives⟩

end SchemaGen
