import SchemaGen.Json.Read
import SchemaGen.Proofs.Lexical
import SchemaGen.Proofs.RoundTrip
/-!
# Quoted text as a literal

Text is quoted by the rules of JSON, and literals of schema text are read by rules of their own. Every quoted text is
a single literal all the same, wherever it stands. The rules agree on all characters but the control characters: of
these, literals know newline and tab only, and other characters are read in place of the rest. So a text is read back
from the literal exactly if it has no other control characters.
-/
namespace SchemaGen
open Text Lexeme

section json
open Json

theorem unit?_hexPair (n : Fin 32) :
    unit? '0' '0' (Nat.digitChar (n.val / 16)) (Nat.digitChar (n.val % 16)) = some n.val := by
  revert n
  decide

/-- The ways JSON writes a character: a backslash before a double quote or a backslash, five escapes with a letter, the
code of the other control characters in small hexadecimal digits, and all else as it is. -/
inductive Escapes : Char → List Char → Prop
  | marked {c : Char} (special : c ∈ ['"', '\\']) : Escapes c ['\\', c]
  | lettered {c e : Char} (known : (c, e) ∈ [('\x08', 'b'), ('\t', 't'), ('\n', 'n'), ('\x0c', 'f'), ('\r', 'r')]) :
      Escapes c ['\\', e]
  | coded {c high low : Char} (control : c.toNat < 32) (other : c ∉ ['\x08', '\t', '\n', '\x0c', '\r'])
      (digits : [high, low] ⊆ "0123456789abcdef".toList) (code : unit? '0' '0' high low = some c.toNat) :
      Escapes c ['\\', 'u', '0', '0', high, low]
  | plain {c : Char} (large : 32 ≤ c.toNat) (other : c ∉ ['"', '\\']) : Escapes c [c]

theorem hexPair_subset (n : Fin 32) : hexPair n.val ⊆ "0123456789abcdef".toList := by
  revert n
  decide

theorem escapes_quotedChar (c : Char) : Escapes c (quotedChar c) := by
  unfold quotedChar
  split
  iterate 2 exact .marked (by decide)
  iterate 5 exact .lettered (by decide)
  rename_i double backslash backspace tab newline feed return_
  split
  · rename_i control
    have digits := hexPair_subset ⟨c.toNat, control⟩
    have code := unit?_hexPair ⟨c.toNat, control⟩
    exact .coded control (by simpa using ⟨backspace, tab, newline, feed, return_⟩) digits code
  · rename_i large
    exact .plain (Nat.le_of_not_lt large) (by simpa using ⟨double, backslash⟩)

theorem quote_escapes (text : String) :
    ∃ escapes, List.Forall₂ Escapes text.toList escapes ∧ (quote text).toList = '"' :: (escapes.flatten ++ ['"']) := by
  refine ⟨text.toList.map quotedChar, ?_, ?_⟩
  · rw [List.forall₂_map_right_iff, List.forall₂_same]
    exact fun c _ => escapes_quotedChar c
  · rw [quote, String.toList_ofList, List.flatMap_def, List.cons_append]

theorem stringChars?_plain {c : Char} (double : c ≠ '"') (backslash : c ≠ '\\') (large : ¬ c.toNat < 32)
    (rest : List Char) : stringChars? (c :: rest) = (stringChars? rest).map fun read => (c :: read.1, read.2) := by
  rw [stringChars?]
  · rw [if_neg (by simp [large, backslash])]
    cases stringChars? rest <;> rfl
  all_goals simp_all

theorem stringChars?_quotedChar (c : Char) (rest : List Char) :
    stringChars? (quotedChar c ++ rest) = (stringChars? rest).map fun read => (c :: read.1, read.2) := by
  unfold quotedChar
  split
  iterate 7
    rw [List.cons_append, List.singleton_append, stringChars?]
    · cases stringChars? rest <;> rfl
    · simp
  rename_i double backslash _ _ _ _ _
  split
  · rename_i control
    have code := unit?_hexPair ⟨c.toNat, control⟩
    have low : ¬ 0xDC00 ≤ c.toNat ∧ ¬ 0xD800 ≤ c.toNat := by omega
    simp only [hexPair, List.cons_append, List.nil_append, stringChars?, code, Option.bind_eq_bind, Option.bind_some]
    simp only [low.1, low.2, decide_false, Bool.false_and, Bool.false_eq_true, if_false, Char.ofNat_toNat]
    cases stringChars? rest <;> rfl
  · rename_i large
    exact stringChars?_plain double backslash large rest

theorem json_quote (text : String) : Json.string? (quote text).toList = some (text, []) := by
  have chars : ∀ cs : List Char, stringChars? (cs.flatMap quotedChar ++ ['"']) = some (cs, []) := by
    intro cs
    induction cs with
    | nil => rfl
    | cons c cs ih =>
      rw [List.flatMap_cons, List.append_assoc, stringChars?_quotedChar, ih]
      rfl
  have opening : Json.expect? '"' (quote text).toList = some (text.toList.flatMap quotedChar ++ ['"']) := by
    simp [quote, Json.expect?, skipBlanks]
  rw [Json.string?, opening]
  simp only [Option.bind_eq_bind, Option.bind_some, chars, Option.pure_def, String.ofList_toList]

end json

section unquote

theorem unescape_plain {cs : List Char} (plain : '\\' ∉ cs) (rest : List Char) :
    unescape (cs ++ rest) = cs ++ unescape rest := by
  induction cs with
  | nil => rfl
  | cons c cs ih =>
    rw [List.mem_cons, not_or] at plain
    obtain ⟨first, others⟩ := plain
    have other : c ≠ '\\' := Ne.symm first
    rw [List.cons_append, unescape, ih others, List.cons_append]
    all_goals simp [other]

/-- What stands for a control character that literals do not know: a backslash before a letter that means itself,
and perhaps more characters that mean themselves. -/
theorem quotedChar_control {c : Char} (control : c.toNat < 32) (newline : c ≠ '\n') (tab : c ≠ '\t') :
    ∃ e more, quotedChar c = '\\' :: e :: more ∧ e ≠ 'n' ∧ e ≠ 't' ∧ '\\' ∉ more ∧ ∀ d ∈ e :: more, 32 ≤ d.toNat := by
  have each : ∀ n : Fin 32, Char.ofNat n ≠ '\n' → Char.ofNat n ≠ '\t' →
      (quotedChar (Char.ofNat n)).head? = some '\\' ∧
      ((quotedChar (Char.ofNat n)).drop 1).head?.any (fun e => e != 'n' && e != 't') ∧
      '\\' ∉ (quotedChar (Char.ofNat n)).drop 2 ∧
      ((quotedChar (Char.ofNat n)).drop 1).all fun d => 32 ≤ d.toNat := by
    decide
  have found := each ⟨c.toNat, control⟩
  rw [Char.ofNat_toNat] at found
  obtain ⟨backslash, letter, plain, shown⟩ := found newline tab
  rcases written : quotedChar c with _ | ⟨b, _ | ⟨e, more⟩⟩
  · simp [written] at backslash
  · simp [written] at letter
  · simp only [written, List.head?_cons, Option.some.injEq, List.drop_succ_cons, List.drop_zero, Option.any_some,
      Bool.and_eq_true, bne_iff_ne, List.all_eq_true, decide_eq_true_eq] at backslash letter plain shown
    exact ⟨e, more, by rw [backslash], letter.1, letter.2, plain, shown⟩

theorem unescape_control {c : Char} (control : c.toNat < 32) (newline : c ≠ '\n') (tab : c ≠ '\t') (rest : List Char) :
    ∃ shown, unescape (quotedChar c ++ rest) = shown ++ unescape rest ∧ ∀ d ∈ shown, 32 ≤ d.toNat := by
  obtain ⟨e, more, written, notN, notT, plain, shown⟩ := quotedChar_control control newline tab
  refine ⟨e :: more, ?_, shown⟩
  rw [written, List.cons_append, List.cons_append, unescape, unescape_plain plain, List.cons_append]
  all_goals simp [notN, notT]

/-- What is read back from a quoted text has no control characters but newline and tab, whatever the text has. -/
theorem quotable_unquote_quote (text : String) : Quotable (unquote (quote text)) := by
  have chars : ∀ cs : List Char, ∀ d ∈ unescape (cs.flatMap quotedChar), 32 ≤ d.toNat ∨ d = '\n' ∨ d = '\t' := by
    intro cs
    induction cs with
    | nil => simp [unescape]
    | cons c cs ih =>
      rw [List.flatMap_cons]
      by_cases known : 32 ≤ c.toNat ∨ c = '\n' ∨ c = '\t'
      · rw [unescape_quotedChar known]
        exact List.forall_mem_cons.mpr ⟨known, ih⟩
      · simp only [not_or, Nat.not_le] at known
        obtain ⟨shown, read, printable⟩ := unescape_control known.1 known.2.1 known.2.2 (cs.flatMap quotedChar)
        rw [read]
        intro d hd
        rcases List.mem_append.mp hd with hd | hd
        · exact .inl (printable d hd)
        · exact ih d hd
  intro d hd
  rw [unquote, String.toList_ofList, inside_quote] at hd
  exact chars text.toList d hd

theorem unquote_quote_iff (text : String) : unquote (quote text) = text ↔ Quotable text := by
  constructor
  · intro same
    rw [← same]
    exact quotable_unquote_quote text
  · exact unquote_quote

end unquote

section scan

theorem toList_quote (text : String) : (quote text).toList = '"' :: (text.toList.flatMap quotedChar ++ ['"']) := by
  rw [quote, String.toList_ofList, List.cons_append]

theorem scanFrom_quote (text : String) (here : Position) (rest : List Char) :
    Tokens.scanFrom here ((quote text).toList ++ rest) =
      (Tokens.scanFrom (here.after (quote text).toList) rest).map (Tokens.cons ⟨quote text, here⟩) := by
  obtain ⟨body, chars, width⟩ : ∃ body, (quote text).toList = '"' :: body ∧
      stringRest? '"' (body ++ rest) = some body.length := by
    refine ⟨_, toList_quote text, ?_⟩
    apply stringRest?_append (by decide)
    rw [stringRest?_quoted, List.length_append, List.length_singleton]
  have token : lexeme? ('"' :: (body ++ rest)) = some ⟨.token, body.length⟩ := by
    refine lexeme?_eq_token.mpr ⟨by simp [comment?], blanks?_cons.mpr (by decide), ?_⟩
    rw [token?_quote (.inl rfl), width]
  have whole : String.ofList ('"' :: body) = quote text := by rw [← chars, String.ofList_toList]
  rw [chars, List.cons_append, Tokens.scanFrom_token token, List.take_left, List.drop_left, whole]

theorem scan_quote (text : String) :
    Tokens.scan (quote text) = .ok ⟨[⟨quote text, .start⟩], Position.start.after (quote text).toList⟩ := by
  have alone := scanFrom_quote text .start []
  rw [List.append_nil] at alone
  rw [Tokens.scan, alone, Tokens.scanFrom]
  simp only [Except.map, Tokens.cons]

theorem quote_mem_string (text : String) : (quote text).toList ∈ Lexical.string := by
  have width : Lexeme.string? ('"' :: (text.toList.flatMap quotedChar ++ ['"'])) =
      some (text.toList.flatMap quotedChar ++ ['"']).length := by
    simp [Lexeme.string?, stringRest?_quoted]
  have found := Lexical.string?_mem width
  rwa [List.take_length, ← toList_quote] at found

theorem scan_import (text : String) : ∃ here there stop,
    Tokens.scan ("import " ++ quote text ++ ";") =
      .ok ⟨[⟨"import", .start⟩, ⟨quote text, here⟩, ⟨";", there⟩], stop⟩ := by
  have chars : ("import " ++ quote text ++ ";").toList =
      "import".toList ++ ([' '] ++ ((quote text).toList ++ [';'])) := by simp
  have keyword : isToken "import" := (isInner_iff.mp (isInner_fixed "import" (by decide))).1
  have blank : ∀ d ∈ [' '], isBlank d := List.forall_mem_singleton.mpr (by decide)
  have stop : ∀ d ∈ ((quote text).toList ++ [';']).head?, isBlank d = false := by
    rw [toList_quote]
    rintro d ⟨⟩
    decide
  have mark : lexeme? [';'] = some ⟨.token, 0⟩ := by decide +kernel
  rw [Tokens.scan, chars, Tokens.scanFrom_word keyword (by simpa using blank),
    Tokens.scanFrom_blanks (by simp) blank stop,
    scanFrom_quote, Tokens.scanFrom_token mark, List.drop_nil, Tokens.scanFrom]
  exact ⟨_, _, _, rfl⟩

end scan

section imports
open Report

theorem Reading.importPath_literal (r : Reading) (schema : Schema) {keyword literal mark : Token}
    (path : isStringLiteral literal.text) (semicolon : mark.text = ";") :
    r.importPath schema [keyword, literal, mark] =
      pure { schema with imports := schema.imports ++ [⟨unquote literal.text, false⟩] } := by
  have other {word : String} (plain : isStringLiteral word = false) : (literal.text == word) = false := by
    rw [beq_eq_false_iff_ne]
    rintro rfl
    simp [path] at plain
  have notPublic : (literal.text == "public") = false := other (by decide)
  have notWeak : (literal.text == "weak") = false := other (by decide)
  have read : r.expect .importPath isStringLiteral [literal, mark] = pure (literal, [mark]) := if_pos path
  have closed : r.expectText ";" [mark] = pure [] := by
    simp [expectText, expect, semicolon, pure_bind]
  simp only [importPath, List.drop_succ_cons, List.drop_zero, List.head?_cons, Option.any_some, notPublic, notWeak,
    Bool.or_self, Bool.false_eq_true, if_false]
  rw [read, pure_bind]
  dsimp only
  rw [closed, pure_bind]

theorem Schema.read_import (strict : Bool) (text : String) :
    Schema.read strict ("import " ++ quote text ++ ";") = pure { imports := [⟨unquote (quote text), false⟩] } := by
  obtain ⟨here, there, stop, scanned⟩ := scan_import text
  have free := free_of_isInner (isInner_quote text)
  simp only [List.mem_cons, List.not_mem_nil, or_false, not_or] at free
  have outline : Outline.read [⟨"import", .start⟩, ⟨quote text, here⟩, ⟨";", there⟩] =
      ⟨[.plain [⟨"import", .start⟩, ⟨quote text, here⟩] ⟨";", there⟩], .ended .nothing⟩ := by
    rw [Outline.read, Outline.readFrom_word (by decide) (by decide) (by decide),
      Outline.readFrom_word free.1 free.2.1 free.2.2, Outline.readFrom_semicolon rfl]
    rfl
  have clause : (Reading.mk strict stop).clause {} (.plain [⟨"import", .start⟩, ⟨quote text, here⟩] ⟨";", there⟩) =
      pure { imports := [⟨unquote (quote text), false⟩] } :=
    (Reading.mk strict stop).importPath_literal {} (isStringLiteral_quote text) rfl
  rw [Schema.read, scanned]
  dsimp only
  rw [outline]
  simp only [Reading.clauses, clause, pure_bind, Reading.ending]

end imports

/-- Every text, quoted by the rules of JSON, is a single literal. An import of the literal is read as one import, and
its path is the text exactly if the text has no control characters other than newline and tab. -/
theorem quoted_text_is_literal (text : String) :
    (∃ escapes, List.Forall₂ Escapes text.toList escapes ∧
        (quote text).toList = '"' :: (escapes.flatten ++ ['"'])) ∧
      Json.string? (quote text).toList = some (text, []) ∧
      (Tokens.scan (quote text)).map Tokens.withEnd =
        .ok [⟨quote text, .start⟩, ⟨"", Position.start.after (quote text).toList⟩] ∧
      (quote text).toList ∈ Lexical.string ∧
      (∀ (strict : Bool) (name : String), SchemaFile.parse strict name ("import " ++ quote text ++ ";") =
        ⟨[], .ok { name, imports := [⟨unquote (quote text), false⟩] }⟩) ∧
      (unquote (quote text) = text ↔ ∀ c ∈ text.toList, c.toNat < 32 → c = '\n' ∨ c = '\t') := by
  refine ⟨quote_escapes text, json_quote text, ?_, quote_mem_string text, ?_, ?_⟩
  · simp only [scan_quote, Except.map, Tokens.withEnd, List.singleton_append]
  · intro strict name
    rw [SchemaFile.parse, Schema.read_import]
    rfl
  · rw [unquote_quote_iff, Quotable]
    refine forall₂_congr fun c _ => ?_
    rw [← Nat.not_lt, ← imp_iff_not_or]

end SchemaGen
