import SchemaGen.Proofs.RoundTrip
import Mathlib.Data.List.Infix
/-!
# Fields with options

A field statement ends with its semicolon, whatever words its options hold, but a brace that closes ends a statement
as well. What follows a value in braces is then a statement of its own, which begins with a comma or with the bracket
that closes the options and is no field. So a message of fields is read strictly exactly if no options hold braces.
-/
namespace SchemaGen
open Text Lexeme

section groups

/-- Words in which every brace that opens is closed. -/
inductive Balanced : List String → Prop
  | nil : Balanced []
  | word {word : String} {rest : List String} (opening : word ≠ "\x7b") (closing : word ≠ "\x7d")
      (after : Balanced rest) : Balanced (word :: rest)
  | group {inner rest : List String} (inside : Balanced inner) (after : Balanced rest) :
      Balanced ("\x7b" :: (inner ++ "\x7d" :: rest))

/-- The words between the brackets of an option list: a value in braces ends its option, and semicolons stand only
inside such a value. -/
inductive OptionWords : List String → Prop
  | nil : OptionWords []
  | word {word : String} {rest : List String} (free : word ∉ [";", "\x7b", "\x7d"]) (after : OptionWords rest) :
      OptionWords (word :: rest)
  | group {inner rest : List String} (inside : Balanced inner) (after : OptionWords rest)
      (next : ∀ word ∈ rest.head?, word = "," ∨ word = "]") : OptionWords ("\x7b" :: (inner ++ "\x7d" :: rest))

theorem OptionWords.of_free {words : List String} (free : ∀ word ∈ words, word ∉ [";", "\x7b", "\x7d"]) :
    OptionWords words := by
  induction words with
  | nil => exact .nil
  | cons word words ih =>
    obtain ⟨first, rest⟩ := List.forall_mem_cons.mp free
    exact .word first (ih rest)

theorem OptionWords.free {words : List String} (h : OptionWords words) (flat : "\x7b" ∉ words) :
    ∀ word ∈ words, word ∉ [";", "\x7b", "\x7d"] := by
  induction h with
  | nil => simp
  | word free _ ih =>
    rw [List.mem_cons, not_or] at flat
    exact List.forall_mem_cons.mpr ⟨free, ih flat.2⟩
  | group _ _ _ _ => simp at flat

/-- A clause that begins with what follows a value in braces. -/
def Clause.Stray (c : Clause) : Prop :=
  c.first.text = "," ∨ c.first.text = "]"

theorem Clause.head?_lead (c : Clause) : c.lead.head? = some c.first := by
  rw [lead, first, List.head?_append]
  cases c.words.head? <;> rfl

namespace Outline
variable (stack : List Frame)

theorem readFrom_balanced {words : List String} (h : Balanced words) (clauses : List Clause) (before ts : List Token) :
    ∃ clauses' before', readFrom stack clauses before (words.map .ofWord ++ ts) =
      readFrom stack clauses' before' ts := by
  induction h generalizing stack clauses before ts with
  | nil => exact ⟨clauses, before, rfl⟩
  | @word word rest opening closing _ ih =>
    rw [List.map_cons, List.cons_append]
    by_cases semicolon : word = ";"
    · rw [readFrom_semicolon semicolon]
      exact ih stack _ _ ts
    · rw [readFrom_word semicolon opening closing]
      exact ih stack _ _ ts
  | group _ _ inside after =>
    simp only [List.map_cons, List.map_append, List.cons_append, List.append_assoc]
    rw [readFrom_open rfl]
    obtain ⟨clauses', before', read⟩ := inside (_ :: stack) [] [] _
    rw [read, readFrom_close rfl]
    exact after stack _ _ ts

theorem readFrom_group {inner : List String} (inside : Balanced inner) (clauses : List Clause)
    (before ts : List Token) :
    ∃ body, readFrom stack clauses before (("\x7b" :: (inner ++ ["\x7d"])).map .ofWord ++ ts) =
      readFrom stack (.block before.reverse (.ofWord "\x7b") body (.ofWord "\x7d") :: clauses) [] ts := by
  simp only [List.map_cons, List.map_append, List.map_nil, List.cons_append, List.append_assoc, List.nil_append]
  obtain ⟨clauses', before', enclosed⟩ := readFrom_balanced (⟨before.reverse, .ofWord "\x7b", clauses⟩ :: stack)
    inside [] [] (.ofWord "\x7d" :: ts)
  rw [readFrom_open rfl, enclosed, readFrom_close rfl]
  exact ⟨_, rfl⟩

/-- What is left of a statement with options is read as clauses. The first begins where the statement begins, and
after a value in braces there is a stray one. -/
theorem readFrom_options {words : List String} (h : OptionWords words) (clauses : List Clause)
    (before ts : List Token) :
    ∃ cs : List Clause, readFrom stack clauses before ((words ++ ["]", ";"]).map .ofWord ++ ts) =
        readFrom stack (cs.reverse ++ clauses) [] ts ∧
      cs.head?.map Clause.first = (before.reverse ++ (words ++ ["]"]).map Token.ofWord).head? ∧
      ("\x7b" ∈ words → ∃ c ∈ cs, c.Stray) := by
  induction h generalizing stack clauses before ts with
  | nil =>
    refine ⟨[.plain (before.reverse ++ [.ofWord "]"]) (.ofWord ";")], ?_, ?_, by simp⟩
    · simp only [List.nil_append, List.map_cons, List.map_nil, List.cons_append]
      rw [readFrom_word (by decide) (by decide) (by decide), readFrom_semicolon rfl]
      simp
    · simp only [List.head?_cons, Option.map_some, ← Clause.head?_lead, Clause.lead, Clause.words, Clause.finish]
      simp
  | @word word rest free _ ih =>
    simp only [List.mem_cons, List.not_mem_nil, or_false, not_or] at free
    obtain ⟨cs, read, first, stray⟩ := ih stack clauses (.ofWord word :: before) ts
    refine ⟨cs, ?_, ?_, ?_⟩
    · rw [List.cons_append, List.map_cons, List.cons_append, readFrom_word free.1 free.2.1 free.2.2, read]
    · simpa using first
    · intro braced
      rcases List.mem_cons.mp braced with opening | braced
      · exact absurd opening.symm free.2.1
      · exact stray braced
  | @group inner rest inside _ next ih =>
    obtain ⟨body, enclosed⟩ := readFrom_group stack inside clauses before ((rest ++ ["]", ";"]).map .ofWord ++ ts)
    obtain ⟨cs, read, first, _⟩ := ih stack
      (.block before.reverse (.ofWord "\x7b") body (.ofWord "\x7d") :: clauses) [] ts
    refine ⟨.block before.reverse (.ofWord "\x7b") body (.ofWord "\x7d") :: cs, ?_, ?_, fun _ => ?_⟩
    · rw [read] at enclosed
      simpa using enclosed
    · simp only [List.head?_cons, Option.map_some, ← Clause.head?_lead, Clause.lead, Clause.words, Clause.finish]
      cases before.reverse <;> rfl
    · cases cs with
      | nil => simp at first
      | cons c cs =>
        refine ⟨c, by simp, ?_⟩
        cases rest with
        | nil =>
          have same : c.first = .ofWord "]" := by simpa using first
          rw [Clause.Stray, same]
          exact .inr rfl
        | cons word rest =>
          have same : c.first = .ofWord word := by simpa using first
          rw [Clause.Stray, same]
          exact next word rfl

end Outline

end groups

section deprecation

theorem marksDeprecated_iff (words : List String) :
    marksDeprecated (words.map .ofWord) ↔ ["deprecated", "=", "true"] <:+: words := by
  induction words with
  | nil => simp [marksDeprecated]
  | cons a words ih =>
    rcases words with _ | ⟨b, _ | ⟨c, words⟩⟩
    · simp [marksDeprecated, List.infix_cons_iff]
    · simp [marksDeprecated, List.infix_cons_iff]
    · rw [List.infix_cons_iff, ← ih]
      simp [marksDeprecated, Token.ofWord, and_assoc, eq_comm (a := "deprecated"), eq_comm (a := "="),
        eq_comm (a := "true")]

theorem infix_brackets (words : List String) :
    ["deprecated", "=", "true"] <:+: "[" :: (words ++ ["]"]) ↔ ["deprecated", "=", "true"] <:+: words := by
  constructor
  · intro h
    rcases List.infix_cons_iff.mp h with start | h
    · simp at start
    · rcases List.infix_concat_iff.mp h with ⟨before, ending⟩ | h
      · have last := congrArg List.getLast? ending
        simp at last
      · exact h
  · rintro ⟨before, after, rfl⟩
    exact ⟨"[" :: before, after ++ ["]"], by simp⟩

end deprecation

/-- A field statement as it is written: a label or none, the type, the name, the numeral, and what stands between the
brackets of its options, if it has any. -/
structure FieldLine where
  label : Option String
  type : FieldType
  name : String
  number : String
  options : Option (List String)

namespace FieldLine

def front (s : FieldLine) : List String :=
  s.label.toList ++ (s.type.written ++ [s.name, "=", s.number])

def bracketed (s : FieldLine) : List String :=
  s.options.elim [] fun words => "[" :: (words ++ ["]"])

def words (s : FieldLine) : List String :=
  s.front ++ s.bracketed

def Braced (s : FieldLine) : Prop :=
  ∃ words ∈ s.options, "\x7b" ∈ words

/-- What stands before the options has the shape of a field. Without a label, the type is not taken for one or for the
keyword of another statement. -/
structure Shaped (s : FieldLine) : Prop where
  label : ∀ word ∈ s.label, word ∈ ["repeated", "optional", "required"]
  type : s.type.WellFormed
  mapValue : ∀ key, s.type ≠ .map key (.named "map")
  unlabelled_map : s.type.isMap → s.label = none
  start : s.label = none → ∀ name, s.type = .named name →
    name ∉ ["repeated", "optional", "required", "option", "reserved", "extensions", "extend"]
  name : isIdentifier s.name
  number : ∃ n, integer? s.number = some n ∧ 1 ≤ n ∧ n ≤ maxFieldNumber

def field (s : FieldLine) : Field where
  name := s.name
  position := .start
  type := s.type
  number := (integer? s.number).getD 0
  label := if s.label = some "repeated" then .repeated else .singular
  deprecated := s.options.any fun words => decide (["deprecated", "=", "true"] <:+: words)

theorem marksDeprecated_bracketed (s : FieldLine) : marksDeprecated (s.bracketed.map .ofWord) = s.field.deprecated := by
  rw [Bool.eq_iff_iff, marksDeprecated_iff]
  cases options : s.options with
  | none => simp [bracketed, field, options]
  | some words => simp [bracketed, field, options, infix_brackets]

section shaped
variable {s : FieldLine} (shaped : s.Shaped)
include shaped

theorem Shaped.number_inner : s.number ∉ ["[", ";", "\x7b", "\x7d"] := by
  obtain ⟨n, value, _⟩ := shaped.number
  intro listed
  have none : ∀ word ∈ ["[", ";", "\x7b", "\x7d"], integer? word = none := by decide
  rw [none _ listed] at value
  cases value

theorem Shaped.front_inner : ∀ word ∈ s.front, word ∉ ["[", ";", "\x7b", "\x7d"] := by
  have inner : ∀ word, isInner word → word ≠ "[" → word ∉ ["[", ";", "\x7b", "\x7d"] := by
    intro word inner bracket
    exact List.not_mem_cons_of_ne_of_not_mem bracket (free_of_isInner inner)
  have type := FieldType.WellFormed.notMem_written shaped.type
  have name := isTypeName_of_isIdentifier shaped.name
  simp only [front, List.forall_mem_append, List.forall_mem_cons]
  refine ⟨?_, ?_, ?_, by decide, shaped.number_inner, by simp⟩
  · intro word hword
    have labels : ∀ word ∈ ["repeated", "optional", "required"], word ∉ ["[", ";", "\x7b", "\x7d"] := by decide
    exact labels word (shaped.label word (Option.mem_toList.mp hword))
  · intro word hword
    exact inner word (FieldType.WellFormed.written_inner shaped.type word hword) (by rintro rfl; exact type hword)
  · exact inner s.name (isInner_of_isTypeName name) (bracket_ne_of_isTypeName name).symm

theorem Shaped.front_free : ∀ word ∈ s.front, word ∉ [";", "\x7b", "\x7d"] :=
  fun word hword mark => shaped.front_inner word hword (List.mem_cons_of_mem _ mark)

theorem Shaped.nameAndNumber_eq :
    nameAndNumber ([s.name, "=", s.number].map .ofWord) = .ok (.ofWord s.name, s.field.number) := by
  obtain ⟨n, value, low, high⟩ := shaped.number
  simp [nameAndNumber, Token.ofWord, shaped.name, value, low, high, field]

theorem Shaped.head_type (unlabelled : s.label = none) : ∃ word rest, s.type.written = word :: rest ∧
    isTypeName word ∧ word ∉ ["repeated", "optional", "required", "option", "reserved", "extensions", "extend"] := by
  have free := shaped.start unlabelled
  cases type : s.type with
  | scalar kind =>
    refine ⟨kind.keyword, [], rfl, kind.isTypeName_keyword, ?_⟩
    cases kind <;> decide
  | named name =>
    have formed := shaped.type
    rw [type] at formed
    exact ⟨name, [], rfl, formed.1, free name type⟩
  | map key value => exact ⟨"map", _, rfl, by decide, by decide⟩

theorem Shaped.splitLabel_eq : ∃ label, splitLabel (s.front.map .ofWord) =
      (label, (s.type.written ++ [s.name, "=", s.number]).map .ofWord) ∧
    label.getD .singular = s.field.label ∧ (s.label = none → label = none) := by
  cases label : s.label with
  | none =>
    obtain ⟨word, rest, written, _, free⟩ := shaped.head_type label
    simp only [List.mem_cons, not_or] at free
    refine ⟨none, ?_, by simp [field, label], fun _ => rfl⟩
    rw [front, label, written]
    simp only [Option.toList_none, List.nil_append, List.cons_append, List.map_cons, splitLabel]
    split
    · exact absurd ‹_› free.1
    · exact absurd ‹_› free.2.1
    · exact absurd ‹_› free.2.2.1
    · rfl
  | some word =>
    have listed := shaped.label word label
    simp only [List.mem_cons, List.not_mem_nil, or_false] at listed
    rcases listed with rfl | rfl | rfl
    · exact ⟨some .repeated, by rw [front, label]; rfl, by simp [field, label], by simp⟩
    · exact ⟨some .singular, by rw [front, label]; rfl, by simp [field, label], by simp⟩
    · exact ⟨some .singular, by rw [front, label]; rfl, by simp [field, label], by simp⟩

/-- The words of a statement are read as its field, whatever its options hold. -/
theorem Shaped.ofTokens_eq : Field.ofTokens false (Clause.line s.words).tokens = .ok s.field := by
  have plain : "[" ∉ s.front := fun h => shaped.front_inner "[" h (by simp)
  have bracket : ∀ word ∈ s.bracketed.head?, word = "[" := by
    cases options : s.options <;> simp [bracketed, options]
  obtain ⟨body, options⟩ := split_line plain bracket
  obtain ⟨label, labelled, same, unlabelled⟩ := shaped.splitLabel_eq
  have enough : ¬ (s.front.map Token.ofWord).length < 3 := by
    simp only [front, List.length_map, List.length_append, List.length_cons, List.length_nil]
    omega
  have notRepeated : (s.type.isMap && label == some .repeated) = false := by
    by_contra both
    simp only [Bool.not_eq_false, Bool.and_eq_true, beq_iff_eq] at both
    rw [unlabelled (shaped.unlabelled_map both.1)] at both
    cases both.2
  rw [words, Field.ofTokens_eq, body, options]
  dsimp only
  rw [if_neg enough, labelled, marksDeprecated_bracketed, Bool.false_and, if_neg (by simp),
    fieldType_before_name shaped.type shaped.mapValue shaped.name]
  simp only [Except.bind, fieldAfterLabel, notRepeated, shaped.nameAndNumber_eq]
  simp [Except.map, Token.ofWord, same, field]

theorem Shaped.first_free : ∃ word, (Clause.line s.words).first.text = word ∧
    word ∉ [";", "option", "reserved", "extensions", "extend"] := by
  cases label : s.label with
  | none =>
    obtain ⟨word, rest, written, typeName, free⟩ := shaped.head_type label
    refine ⟨word, by rw [words, front, label, written]; rfl, ?_⟩
    simp only [List.mem_cons, List.not_mem_nil, or_false, not_or] at free ⊢
    have semicolon : word ≠ ";" := by
      rintro rfl
      exact absurd typeName (by decide)
    exact ⟨semicolon, free.2.2.2⟩
  | some word =>
    refine ⟨word, by rw [words, front, label]; rfl, ?_⟩
    have labels : ∀ word ∈ ["repeated", "optional", "required"],
        word ∉ [";", "option", "reserved", "extensions", "extend"] := by decide
    exact labels word (shaped.label word label)

theorem Shaped.member_eq (r : Reading) : r.member (Clause.line s.words) = pure [.field s.field] := by
  have read : r.field false (Clause.line s.words) = pure [s.field] := by rw [Reading.field, shaped.ofTokens_eq]
  obtain ⟨word, first, free⟩ := shaped.first_free
  simp only [List.mem_cons, List.not_mem_nil, or_false, not_or] at free
  have statement : r.member (Clause.line s.words) = r.statement (Clause.line s.words) := by
    rw [Clause.line, Reading.member]
    simp
  rw [statement, Reading.statement, first]
  split
  · exact absurd rfl free.1
  · exact absurd rfl free.2.1
  · exact absurd rfl free.2.2.1
  · exact absurd rfl free.2.2.2.1
  · exact absurd rfl free.2.2.2.2
  · rw [read]
    rfl

end shaped

def Legal (s : FieldLine) : Prop :=
  ∀ words ∈ s.options, OptionWords words

/-- The clauses of a statement: itself, if no options hold braces, and otherwise a stray one among others. -/
structure Clauses (s : FieldLine) (cs : List Clause) : Prop where
  flat : ¬ s.Braced → cs = [Clause.line s.words]
  braced : s.Braced → ∃ c ∈ cs, c.Stray

theorem Shaped.words_free {s : FieldLine} (shaped : s.Shaped) (legal : s.Legal) (flat : ¬ s.Braced) :
    ∀ word ∈ s.words, word ∉ [";", "\x7b", "\x7d"] := by
  refine List.forall_mem_append.mpr ⟨shaped.front_free, ?_⟩
  cases options : s.options with
  | none => simp [bracketed, options]
  | some words =>
    have free := (legal words options).free fun braced => flat ⟨words, options, braced⟩
    simp only [bracketed, options, Option.elim_some, List.forall_mem_cons, List.forall_mem_append]
    exact ⟨by decide, free, by decide, by simp⟩

/-- A statement is read as its clauses, wherever it stands. -/
theorem Shaped.readFrom_words {s : FieldLine} (shaped : s.Shaped) (legal : s.Legal) (stack : List Outline.Frame)
    (clauses : List Clause) (ts : List Token) :
    ∃ cs, s.Clauses cs ∧ Outline.readFrom stack clauses [] ((s.words ++ [";"]).map .ofWord ++ ts) =
      Outline.readFrom stack (cs.reverse ++ clauses) [] ts := by
  by_cases braced : s.Braced
  · obtain ⟨words, options, opening⟩ := braced
    have front : ∀ word ∈ s.front ++ ["["], word ∉ [";", "\x7b", "\x7d"] :=
      List.forall_mem_append.mpr ⟨shaped.front_free, by decide⟩
    have split : (s.words ++ [";"]).map Token.ofWord ++ ts =
        (s.front ++ ["["]).map .ofWord ++ ((words ++ ["]", ";"]).map .ofWord ++ ts) := by
      have bracketed : s.bracketed = "[" :: (words ++ ["]"]) := by rw [bracketed, options, Option.elim_some]
      simp [FieldLine.words, bracketed]
    obtain ⟨cs, read, _, stray⟩ := Outline.readFrom_options stack (legal words options) clauses
      (((s.front ++ ["["]).map .ofWord).reverse ++ []) ts
    refine ⟨cs, ⟨fun flat => absurd ⟨words, options, opening⟩ flat, fun _ => stray opening⟩, ?_⟩
    rw [split, Outline.readFrom_free front, read]
  · refine ⟨[Clause.line s.words], ⟨fun _ => rfl, fun h => absurd h braced⟩, ?_⟩
    rw [List.map_append, List.append_assoc, Outline.readFrom_free (shaped.words_free legal braced), List.map_singleton,
      List.singleton_append, Outline.readFrom_semicolon rfl]
    simp [Clause.line]

theorem readFrom_all {statements : List FieldLine} (shaped : ∀ s ∈ statements, s.Shaped)
    (legal : ∀ s ∈ statements, s.Legal) (stack : List Outline.Frame) (clauses : List Clause) (ts : List Token) :
    ∃ cs, ((∀ s ∈ statements, ¬ s.Braced) → cs = statements.map (Clause.line ·.words)) ∧
      ((∃ s ∈ statements, s.Braced) → ∃ c ∈ cs, c.Stray) ∧
      Outline.readFrom stack clauses [] ((statements.flatMap (·.words ++ [";"])).map .ofWord ++ ts) =
        Outline.readFrom stack (cs.reverse ++ clauses) [] ts := by
  induction statements generalizing clauses with
  | nil => exact ⟨[], fun _ => rfl, by simp, rfl⟩
  | cons s statements ih =>
    obtain ⟨first, own, read⟩ := (shaped s List.mem_cons_self).readFrom_words (legal s List.mem_cons_self) stack clauses
      ((statements.flatMap (·.words ++ [";"])).map .ofWord ++ ts)
    obtain ⟨rest, flat, stray, readRest⟩ := ih (fun t ht => shaped t (List.mem_cons_of_mem s ht))
      (fun t ht => legal t (List.mem_cons_of_mem s ht)) (first.reverse ++ clauses)
    refine ⟨first ++ rest, ?_, ?_, ?_⟩
    · intro none
      obtain ⟨head, tail⟩ := List.forall_mem_cons.mp none
      rw [own.flat head, flat tail]
      rfl
    · rintro ⟨t, ht, braced⟩
      rcases List.mem_cons.mp ht with rfl | ht
      · obtain ⟨c, hc, is⟩ := own.braced braced
        exact ⟨c, List.mem_append_left _ hc, is⟩
      · obtain ⟨c, hc, is⟩ := stray ⟨t, ht, braced⟩
        exact ⟨c, List.mem_append_right _ hc, is⟩
    · rw [List.flatMap_cons, List.map_append, List.append_assoc, read, readRest]
      simp

end FieldLine

section stray

theorem ofTokens_stray {statement : List Token} (stray : ∀ t ∈ statement.head?, t.text = "," ∨ t.text = "]") :
    ∃ e, Field.ofTokens false statement = .error e := by
  have start : bodyOf statement <+: statement := by
    refine (List.takeWhile_prefix _).trans ?_
    unfold withoutMark
    split
    · exact List.dropLast_prefix statement
    · exact List.prefix_refl statement
  rw [Field.ofTokens_eq]
  dsimp only
  cases body : bodyOf statement with
  | nil => exact ⟨_, rfl⟩
  | cons t ts =>
    by_cases short : (t :: ts).length < 3
    · rw [if_pos short]
      exact ⟨_, rfl⟩
    · obtain ⟨rest, whole⟩ := start
      have first : t.text = "," ∨ t.text = "]" := stray t (by rw [← whole, body]; rfl)
      have refused : splitLabel (t :: ts) = (none, t :: ts) ∧ fieldType (t :: ts) = .error (.typeName t.text) := by
        rw [splitLabel, fieldType]
        rcases first with text | text
        · rw [text]
          exact ⟨rfl, rfl⟩
        · rw [text]
          exact ⟨rfl, rfl⟩
      rw [if_neg short, refused.1]
      dsimp only
      rw [refused.2]
      exact ⟨_, rfl⟩

theorem Clause.Stray.head_tokens {c : Clause} (stray : c.Stray) :
    ∀ t ∈ c.tokens.head?, t.text = "," ∨ t.text = "]" := by
  have first : ∀ t ∈ c.tokens.head?, t = c.first := by
    intro t ht
    cases c with
    | plain words mark => cases words <;> simp_all [tokens, Clause.first, Clause.words, finish]
    | block words opening body closing => cases words <;> simp_all [tokens, Clause.first, Clause.words, finish]
    | bare words next => cases words <;> simp_all [tokens, Clause.first, Clause.words]
  intro t ht
  rw [first t ht]
  exact stray

theorem Clause.Stray.blockHead?_eq_none {words : List Token} {opening closing : Token} {body : List Clause}
    (stray : (Clause.block words opening body closing).Stray) :
    blockHead? [.message, .enum, .oneof] words = none := by
  rcases words with _ | ⟨keyword, _ | ⟨name, _ | ⟨_, _⟩⟩⟩
  iterate 2 rfl
  · have text : keyword.text = "," ∨ keyword.text = "]" := stray
    rcases text with text | text
    · simp [blockHead?, text, BlockKind.keyword]
    · simp [blockHead?, text, BlockKind.keyword]
  · rfl

theorem Reading.member_stray {r : Reading} (strict : r.strict) {c : Clause} (stray : c.Stray) (ms : List Member) :
    (r.member c).result ≠ .ok ms := by
  obtain ⟨e, refused⟩ := ofTokens_stray stray.head_tokens
  have field : r.field false c = faultAt c.first.position
      (.malformedField (joinWith " " (c.tokens.map (·.text))) e) := by
    rw [Reading.field, refused]
    simp [strict]
  have statement : (r.statement c).result ≠ .ok ms := by
    unfold Reading.statement
    rcases stray with text | text
    · rw [text, field]
      rintro ⟨⟩
    · rw [text, field]
      rintro ⟨⟩
  have member : r.member c = r.statement c := by
    cases c with
    | plain words mark =>
      rw [Reading.member]
      simp
    | block words opening body closing => rw [Reading.member, stray.blockHead?_eq_none]
    | bare words next =>
      rw [Reading.member]
      simp
  rw [member]
  exact statement

end stray

section message

def messageWords (name : String) (statements : List FieldLine) : List String :=
  ["message", name] ++ "\x7b" :: (statements.flatMap (·.words ++ [";"]) ++ ["\x7d"])

theorem Report.unplaced_result_ok {α β : Type} {f : α → β} {r : Parsed α} {b : β} :
    (r.unplaced f).result = .ok b ↔ ∃ a, r.result = .ok a ∧ f a = b := by
  unfold unplaced
  cases r.result <;> simp

theorem Outline.read_message {name : String} (identifier : isIdentifier name) {statements : List FieldLine}
    (shaped : ∀ s ∈ statements, s.Shaped) (legal : ∀ s ∈ statements, s.Legal) :
    ∃ cs, ((∀ s ∈ statements, ¬ s.Braced) → cs = statements.map (Clause.line ·.words)) ∧
      ((∃ s ∈ statements, s.Braced) → ∃ c ∈ cs, c.Stray) ∧
      read ((messageWords name statements).map .ofWord) = ⟨[Clause.braces ["message", name] cs], .ended .nothing⟩ := by
  obtain ⟨cs, flat, stray, inside⟩ := FieldLine.readFrom_all shaped legal
    [⟨["message", name].map .ofWord, .ofWord "\x7b", []⟩] [] [.ofWord "\x7d"]
  refine ⟨cs, flat, stray, ?_⟩
  have head : ∀ word ∈ ["message", name], isInner word := head_inner (by decide) identifier
  have tokens : (messageWords name statements).map Token.ofWord = ["message", name].map .ofWord ++
      .ofWord "\x7b" :: ((statements.flatMap (·.words ++ [";"])).map .ofWord ++ [.ofWord "\x7d"]) := by
    simp [messageWords]
  rw [read, tokens, readFrom_words head, List.append_nil, readFrom_open rfl, List.reverse_reverse, inside,
    readFrom_close rfl, readFrom_nil]
  simp [close, leftOver, bodyBefore, Clause.braces]

/-- A message is read as its members, and a file with nothing else in it as the message. -/
theorem Reading.file_result_ok {r : Reading} {name : String} (identifier : isIdentifier name) {ts : List Token}
    {cs : List Clause} (outline : Outline.read ts = ⟨[Clause.braces ["message", name] cs], .ended .nothing⟩)
    {schema : Schema} :
    (r.file ts).result = .ok schema ↔
      ∃ ms, (r.members cs).result = .ok ms ∧ schema = { messages := [.ofMembers (.ofWord name) ms] } := by
  have head : blockHead? [.message, .enum, .service] (["message", name].map .ofWord) = some (.message, .ofWord name) :=
    blockHead?_written _ .message (by decide) identifier
  have clause : r.clause {} (Clause.braces ["message", name] cs) =
      r.members cs >>= fun ms => pure { messages := [.ofMembers (.ofWord name) ms] } := by
    rw [Clause.braces, Reading.clause]
    simp only [head]
    rfl
  rw [Reading.file, outline]
  constructor
  · intro read
    obtain ⟨read', clauses, ended⟩ := Report.bind_result_ok.mp read
    obtain ⟨single, first, none⟩ := Report.bind_result_ok.mp clauses
    rw [clause] at first
    obtain ⟨ms, members, made⟩ := Report.bind_result_ok.mp first
    cases made
    cases none
    cases ended
    exact ⟨ms, members, rfl⟩
  · rintro ⟨ms, members, rfl⟩
    have first : (r.clause {} (Clause.braces ["message", name] cs)).result =
        .ok { messages := [.ofMembers (.ofWord name) ms] } := by
      rw [clause]
      exact Report.bind_result_ok.mpr ⟨ms, members, rfl⟩
    exact Report.bind_result_ok.mpr ⟨_, Report.bind_result_ok.mpr ⟨_, first, rfl⟩, rfl⟩

end message

/-- A message of field statements with legal options is read strictly exactly if no options hold braces. It then has
one field for each statement, in order and deprecated as the options say. -/
theorem fields_with_options_read_iff {name : String} (identifier : isIdentifier name) {statements : List FieldLine}
    (shaped : ∀ s ∈ statements, s.Shaped) (legal : ∀ s ∈ statements, s.Legal) {text : String} {ts : Tokens}
    (scan : Tokens.scan text = .ok ts) (written : ts.texts = messageWords name statements) (file : String) :
    ((∃ f, (SchemaFile.parse true file text).result = .ok f) ↔ ∀ s ∈ statements, ¬ s.Braced) ∧
    ∀ f, (SchemaFile.parse true file text).result = .ok f →
      f.unplaced = { name := file, messages := [⟨name, .start, statements.map FieldLine.field, [], [], []⟩] } := by
  obtain ⟨cs, flat, stray, outline⟩ := Outline.read_message identifier shaped legal
  have read := Schema.read_unplaced scan true
  rw [written] at read
  have result (schema : Schema) : (∃ s, (Schema.read true text).result = .ok s ∧ s.unplaced = schema) ↔
      ∃ ms, ((Reading.mk true .start).members cs).result = .ok ms ∧
        schema = { messages := [.ofMembers (.ofWord name) ms] } := by
    rw [← Report.unplaced_result_ok, read]
    exact Reading.file_result_ok identifier outline
  have fields (none : ∀ s ∈ statements, ¬ s.Braced) : (Reading.mk true .start).members cs =
      pure (statements.map fun s => .field s.field) := by
    rw [flat none]
    exact Reading.members_map _ fun s hs => (shaped s hs).member_eq _
  have refused (f : SchemaFile) (parsed : (SchemaFile.parse true file text).result = .ok f) :
      ∀ s ∈ statements, ¬ s.Braced := by
    obtain ⟨ms, members, _⟩ := (result _).mp ⟨_, (SchemaFile.parse_result_ok.mp parsed).1, rfl⟩
    intro s hs braced
    obtain ⟨c, hc, is⟩ := stray ⟨s, hs, braced⟩
    rw [Reading.members_eq] at members
    obtain ⟨found, member⟩ := Report.gather_result_each members hc
    exact Reading.member_stray rfl is found member
  refine ⟨⟨fun ⟨f, parsed⟩ => refused f parsed, ?_⟩, ?_⟩
  · intro none
    obtain ⟨schema, ok, _⟩ := (result _).mpr ⟨_, congrArg Report.result (fields none), rfl⟩
    exact ⟨⟨schema, file⟩, SchemaFile.parse_result_ok.mpr ⟨ok, rfl⟩⟩
  · intro f parsed
    obtain ⟨ok, named⟩ := SchemaFile.parse_result_ok.mp parsed
    obtain ⟨ms, members, schema⟩ := (result _).mp ⟨_, ok, rfl⟩
    rw [fields (refused f parsed)] at members
    cases members
    rw [SchemaFile.unplaced, schema, named]
    simp [Message.ofMembers, Token.ofWord, List.filterMap_map]

/-- Options with lists inside lists, and a map without options. -/
def crateLines : List FieldLine :=
  [⟨some "repeated", .named ".lib.Box", "boxes", "0x10",
      some ["(", "limits", ")", "=", "[", "1", ",", "[", "2", "]", "]", ",", "deprecated", "=", "true"]⟩,
    ⟨none, .map .string (.scalar .int32), "map", "2", none⟩]

def crateText : String :=
  "message Crate \x7b repeated .lib.Box boxes = 0x10 [(limits) = [1, [2]], deprecated = true];
    map<string, int32> map = 2; \x7d"

theorem fields_with_options_read_iff_crate :
    ∃ f, (SchemaFile.parse true "crate" crateText).result = .ok f ∧
      f.unplaced = { name := "crate", messages := [⟨"Crate", .start,
        [⟨"boxes", .start, .named ".lib.Box", 16, .repeated, true⟩,
          ⟨"map", .start, .map .string (.scalar .int32), 2, .singular, false⟩], [], [], []⟩] } := by
  have scans : (Tokens.scan crateText).toOption.map (·.texts) = some (messageWords "Crate" crateLines) := by
    decide +kernel
  obtain ⟨ts, scan, written⟩ := toOption_map_eq_some.mp scans
  have shaped : ∀ s ∈ crateLines, s.Shaped := by
    simp only [crateLines, List.forall_mem_cons]
    refine ⟨?_, ?_, by simp⟩
    · exact {
        label := by simp, type := ⟨by decide, by decide⟩, mapValue := by simp, unlabelled_map := by decide
        start := by simp, name := by decide, number := ⟨16, by decide, by decide, by decide⟩ }
    · exact {
        label := by simp, type := ⟨by decide, trivial⟩, mapValue := by simp, unlabelled_map := by simp
        start := by simp, name := by decide, number := ⟨2, by decide, by decide, by decide⟩ }
  have legal : ∀ s ∈ crateLines, s.Legal := by
    simp only [crateLines, List.forall_mem_cons]
    refine ⟨?_, by simp [FieldLine.Legal], by simp⟩
    rintro _ ⟨⟩
    exact .of_free (by decide)
  have flat : ∀ s ∈ crateLines, ¬ s.Braced := by
    simp [crateLines, FieldLine.Braced]
  obtain ⟨reads, fields⟩ := fields_with_options_read_iff (by decide) shaped legal scan written "crate"
  obtain ⟨f, parsed⟩ := reads.mpr flat
  exact ⟨f, parsed, fields f parsed⟩

/-- A value in braces, and another field with options. -/
def limitLines : List FieldLine :=
  [⟨none, .scalar .int32, "a", "1", some ["(", "v", ")", "=", "\x7b", "min", ":", "1", "\x7d"]⟩,
    ⟨none, .scalar .int32, "b", "2", some ["deprecated", "=", "true"]⟩]

def limitText : String :=
  "message M \x7b int32 a = 1 [(v) = \x7b min : 1 \x7d]; int32 b = 2 [deprecated = true]; \x7d"

/-- Field statements with legal options that strict reading refuses. -/
theorem fields_with_braces_refused :
    (∃ ts, Tokens.scan limitText = .ok ts ∧ ts.texts = messageWords "M" limitLines) ∧
      (∀ s ∈ limitLines, s.Shaped ∧ s.Legal) ∧
      ∀ f, (SchemaFile.parse true "a.proto" limitText).result ≠ .ok f := by
  have facts : (Tokens.scan limitText).toOption.map (·.texts) = some (messageWords "M" limitLines) ∧
      (SchemaFile.parse true "a.proto" limitText).result.toBool = false := by
    decide +kernel
  obtain ⟨scans, refused⟩ := facts
  refine ⟨toOption_map_eq_some.mp scans, ?_, ?_⟩
  · simp only [limitLines, List.forall_mem_cons]
    refine ⟨⟨?_, ?_⟩, ⟨?_, ?_⟩, by simp⟩
    · exact {
        label := by simp, type := trivial, mapValue := by simp, unlabelled_map := by simp
        start := by simp, name := by decide, number := ⟨1, by decide, by decide, by decide⟩ }
    · rintro _ ⟨⟩
      have inside : Balanced ["min", ":", "1"] :=
        .word (by decide) (by decide) (.word (by decide) (by decide) (.word (by decide) (by decide) .nil))
      exact .word (by decide) (.word (by decide) (.word (by decide) (.word (by decide) (.group inside .nil (by simp)))))
    · exact {
        label := by simp, type := trivial, mapValue := by simp, unlabelled_map := by simp
        start := by simp, name := by decide, number := ⟨2, by decide, by decide, by decide⟩ }
    · rintro _ ⟨⟩
      exact .of_free (by decide)
  · intro f read
    rw [read] at refused
    cases refused

end SchemaGen
