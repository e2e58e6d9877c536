import SchemaGen.Proofs.Layout
import SchemaGen.Proofs.Naming
import SchemaGen.Proofs.Numeral
import SchemaGen.Text.Quoted
import SchemaGen.Token.Lexeme
/-!
# Words that are tokens

A dotted name, a number in decimal and a quoted text are each a token of its own. Words that are tokens, written with
a space between each two, are cut into just these words again.
-/
namespace SchemaGen
open Text Lexeme

def isToken (word : String) : Bool :=
  lexeme? word.toList == some ⟨.token, word.toList.length - 1⟩

theorem isToken_iff {word : String} : isToken word ↔
    ∃ c cs, word.toList = c :: cs ∧ comment? (c :: cs) = none ∧ isBlank c = false ∧
      token? (c :: cs) = some cs.length := by
  rw [isToken, beq_iff_eq, lexeme?_eq_token]
  cases word.toList with
  | nil => simp [token?, string?, number?, name?, punctuation?]
  | cons c cs => simp [blanks?_cons]

section names

structure BeginsName (c : Char) : Prop where
  blank : isBlank c = false
  decimal : isDecimal c = false
  mark : c ∉ ['/', '"', '\x27', '+', '-', '.']

instance (c : Char) : Decidable (BeginsName c) :=
  decidable_of_iff (isBlank c = false ∧ isDecimal c = false ∧ c ∉ ['/', '"', '\x27', '+', '-', '.'])
    ⟨fun ⟨a, b, c⟩ => ⟨a, b, c⟩, fun ⟨a, b, c⟩ => ⟨a, b, c⟩⟩

theorem isNamePart_of_isNameStart {c : Char} (h : isNameStart c) : isNamePart c := by
  change (c.isAlpha || c.isDigit || c == '_') = true
  rcases Bool.or_eq_true _ _ ▸ h with alpha | underscore
  · simp [alpha]
  · simp [underscore]

theorem beginsName {c : Char} (h : isNameStart c) : BeginsName c :=
  isNamePart_induction (P := fun c => isNameStart c → BeginsName c) (by decide +kernel) (isNamePart_of_isNameStart h) h

theorem identifierChars_cons {c : Char} {cs : List Char} (h : identifierChars (c :: cs)) :
    isNameStart c ∧ ∀ d ∈ cs, isNamePart d := by
  simpa [identifierChars] using h

theorem nameRun_pieces {cs piece : List Char} {pieces : List (List Char)} (cut : piecesOf '.' cs = piece :: pieces)
    (first : ∀ c ∈ piece, isNamePart c) (others : ∀ p ∈ pieces, identifierChars p) : nameRun cs = cs.length := by
  induction cs generalizing piece pieces with
  | nil => rfl
  | cons c cs ih =>
    obtain ⟨next, rest, cutRest⟩ := List.exists_cons_of_ne_nil (piecesOf_ne_nil cs : piecesOf '.' cs ≠ [])
    by_cases dot : c = '.'
    · subst dot
      rw [piecesOf_separator, cutRest] at cut
      obtain ⟨rfl, rfl⟩ := List.cons.inj cut
      have identifier := others next List.mem_cons_self
      cases next with
      | nil => cases identifier
      | cons d ds =>
        obtain ⟨start, parts⟩ := identifierChars_cons identifier
        have follows : cs.head?.any isNameStart := by simp [head?_of_piecesOf cutRest, start]
        have all : ∀ c ∈ d :: ds, isNamePart c := by
          intro c hc
          rcases List.mem_cons.mp hc with rfl | hc
          · exact isNamePart_of_isNameStart start
          · exact parts c hc
        have run := ih cutRest all fun p hp => others p (List.mem_cons_of_mem _ hp)
        simp [nameRun, follows, run]
    · have other : (c == '.') = false := by simpa using dot
      rw [piecesOf, other, cutRest] at cut
      obtain ⟨rfl, rfl⟩ := List.cons.inj cut
      have run := ih cutRest (fun c hc => first c (List.mem_cons_of_mem _ hc)) others
      simp [nameRun, first c List.mem_cons_self, run]

theorem nameRun_dotted {cs : List Char} (h : dottedChars cs) :
    cs.head?.any isNameStart ∧ nameRun cs = cs.length := by
  obtain ⟨piece, pieces, cut⟩ := List.exists_cons_of_ne_nil (piecesOf_ne_nil cs : piecesOf '.' cs ≠ [])
  simp only [dottedChars, cut, List.all_cons, Bool.and_eq_true, List.all_eq_true] at h
  obtain ⟨identifier, others⟩ := h
  cases piece with
  | nil => cases identifier
  | cons d ds =>
    obtain ⟨start, parts⟩ := identifierChars_cons identifier
    refine ⟨by simp [head?_of_piecesOf cut, start], nameRun_pieces cut ?_ others⟩
    intro c hc
    rcases List.mem_cons.mp hc with rfl | hc
    · exact isNamePart_of_isNameStart start
    · exact parts c hc

theorem token?_name {c : Char} {cs : List Char} (start : isNameStart c) : token? (c :: cs) = some (nameRun cs) := by
  obtain ⟨_, decimal, mark⟩ := beginsName start
  simp only [List.mem_cons, List.not_mem_nil, not_or, or_false] at mark
  obtain ⟨_, double, single, plus, minus, point⟩ := mark
  have unsigned := unsigned?_eq_none decimal point cs
  simp [token?, string?, double, single, number?, plus, minus, unsigned, name?, start]

/-- A dot before a name is no point of a number. -/
theorem token?_dot {c : Char} {cs : List Char} (start : isNameStart c) :
    token? ('.' :: c :: cs) = some (nameRun (c :: cs)) := by
  have whole : digitRun ('.' :: c :: cs) = 0 := by simp [digitRun, show isDecimal '.' = false by decide]
  have fraction : digitRun (c :: cs) = 0 := by simp [digitRun, (beginsName start).decimal]
  have unsigned : unsigned? ('.' :: c :: cs) = none := by
    simp [unsigned?, hexReading, decimalReadings_eq, whole, fraction]
  simp [token?, string?, number?, unsigned, name?, start]

theorem isToken_of_isTypeName {word : String} (h : isTypeName word) : isToken word := by
  rw [isToken_iff]
  unfold isTypeName at h
  split at h
  · rename_i cs written
    obtain ⟨follows, run⟩ := nameRun_dotted h
    cases cs with
    | nil => cases follows
    | cons c cs =>
      have start : isNameStart c := by simpa using follows
      exact ⟨_, _, written, by simp [comment?], by decide, by rw [token?_dot start, run]⟩
  · obtain ⟨follows, run⟩ := nameRun_dotted h
    cases written : word.toList with
    | nil => simp [written] at follows
    | cons c cs =>
      rw [written] at follows run
      have start : isNameStart c := by simpa using follows
      obtain ⟨blank, _, mark⟩ := beginsName start
      have slash : c ≠ '/' := fun same => mark (by simp [same])
      refine ⟨c, cs, rfl, by simp [comment?, slash], blank, ?_⟩
      have rest : nameRun cs = cs.length := by simpa [nameRun, isNamePart_of_isNameStart start] using run
      rw [token?_name start, rest]

theorem isTypeName_of_isIdentifier {word : String} (h : isIdentifier word) : isTypeName word := by
  have noDot : '.' ∉ word.toList := (isName_of_isIdentifier h).notMem (by decide)
  have single : dottedChars word.toList := by
    rw [dottedChars, piecesOf_single noDot, List.all_cons, List.all_nil, Bool.and_true]
    exact h
  unfold isTypeName
  split
  · rename_i cs written
    exact absurd (by simp [written]) noDot
  · exact single

end names

section numbers

theorem digit_plain {c : Char} (h : c.isDigit) : isDecimal c ∧ isWord c ∧ isBlank c = false ∧
    c ∉ ['/', '"', '\x27', '+', '-', 'x', 'X'] := by
  have part : isNamePart c := by
    change (c.isAlpha || c.isDigit || c == '_') = true
    simp [h]
  exact isNamePart_induction (P := fun c => c.isDigit → isDecimal c ∧ isWord c ∧ isBlank c = false ∧
    c ∉ ['/', '"', '\x27', '+', '-', 'x', 'X']) (by decide +kernel) part h

theorem unsigned?_digits {c : Char} {cs : List Char} (h : ∀ d ∈ c :: cs, d.isDigit) :
    unsigned? (c :: cs) = some (cs.length + 1) := by
  have hex : hexReading (c :: cs) = [] := by
    cases cs with
    | nil => simp [hexReading]
    | cons d cs =>
      have plain := (digit_plain (h d (by simp))).2.2.2
      simp only [List.mem_cons, List.not_mem_nil, not_or, or_false] at plain
      by_cases zero : c = '0'
      · simp [hexReading, zero, plain]
      · simp [hexReading, zero]
  have whole : digitRun (c :: cs) = cs.length + 1 := by
    have all : (c :: cs).takeWhile isDecimal = c :: cs :=
      List.takeWhile_eq_self_iff.mpr fun d hd => (digit_plain (h d hd)).1
    rw [digitRun, all, List.length_cons]
  have ends : endsAtBoundary (c :: cs) (cs.length + 1) = true := by
    have last : isWord ((c :: cs).getLast (by simp)) := (digit_plain (h _ (List.getLast_mem _))).2.1
    rw [endsAtBoundary, List.take_of_length_le (by simp), List.drop_of_length_le (by simp),
      List.getLast?_eq_getLast_of_ne_nil (by simp), Option.any_some, atWordBoundary, last]
    rfl
  have readings : decimalReadings (c :: cs) = [cs.length + 1, cs.length + 1] := by
    simp [decimalReadings_eq, whole, exponentLength]
  rw [unsigned?, hex, readings]
  simp [ends]

theorem isToken_repr (n : Int) : isToken n.repr := by
  have digits (n : Nat) : ∃ c cs, n.repr.toList = c :: cs ∧ ∀ d ∈ c :: cs, d.isDigit := by
    have value := numeral?_repr n
    have all : ∀ d ∈ n.repr.toList, d.isDigit := fun d hd => isDigit_of_mem_repr hd
    cases written : n.repr.toList with
    | nil => simp [written, numeral?] at value
    | cons c cs => exact ⟨c, cs, rfl, by rwa [written] at all⟩
  rw [isToken_iff]
  cases n with
  | ofNat n =>
    obtain ⟨c, cs, written, all⟩ := digits n
    obtain ⟨_, _, blank, plain⟩ := digit_plain (all c List.mem_cons_self)
    simp only [List.mem_cons, List.not_mem_nil, not_or, or_false] at plain
    obtain ⟨slash, double, single, plus, minus, _⟩ := plain
    refine ⟨c, cs, written, by simp [comment?, slash], blank, ?_⟩
    simp [token?, string?, double, single, number?, plus, minus, unsigned?_digits all]
  | negSucc n =>
    obtain ⟨c, cs, written, all⟩ := digits (n + 1)
    refine ⟨'-', c :: cs, by rw [toList_repr_negSucc, written], by simp [comment?], by decide, ?_⟩
    simp [token?, string?, number?, unsigned?_digits all]

end numbers

section quoted

theorem quotedChar_cases (c : Char) :
    (quotedChar c = [c] ∧ c ∉ ['"', '\\', '\n']) ∨
      ∃ e more, quotedChar c = '\\' :: e :: more ∧ e ≠ '\n' ∧ ∀ d ∈ more, d ∉ ['"', '\\', '\n'] := by
  have hexDigit : ∀ k : Fin 16, Nat.digitChar k ∉ ['"', '\\', '\n'] := by decide
  unfold quotedChar
  split
  iterate 7 exact .inr ⟨_, [], rfl, by decide, by simp⟩
  rename_i double backslash _ _ newline _ _
  split
  · rename_i control
    refine .inr ⟨'u', '0' :: '0' :: hexPair c.toNat, rfl, by decide, ?_⟩
    intro d hd
    simp only [hexPair, List.mem_cons, List.not_mem_nil, or_false] at hd
    rcases hd with rfl | rfl | rfl | rfl
    · decide
    · decide
    · exact hexDigit ⟨c.toNat / 16, by omega⟩
    · exact hexDigit ⟨c.toNat % 16, by omega⟩
  · refine .inl ⟨rfl, ?_⟩
    simp only [List.mem_cons, List.not_mem_nil, not_or, or_false]
    exact ⟨double, backslash, newline⟩

theorem stringRest?_run {cs : List Char} (h : ∀ d ∈ cs, d ∉ ['"', '\\', '\n']) (rest : List Char) :
    stringRest? '"' (cs ++ rest) = (stringRest? '"' rest).map (· + cs.length) := by
  induction cs with
  | nil => simp
  | cons c cs ih =>
    have plain := h c List.mem_cons_self
    simp only [List.mem_cons, List.not_mem_nil, not_or, or_false] at plain
    obtain ⟨double, backslash, newline⟩ := plain
    rw [List.cons_append, stringRest?_plain backslash, ih fun d hd => h d (List.mem_cons_of_mem c hd)]
    simp [double, newline, Function.comp_def, Nat.add_assoc]

theorem stringRest?_quoted (cs : List Char) :
    stringRest? '"' (cs.flatMap quotedChar ++ ['"']) = some ((cs.flatMap quotedChar).length + 1) := by
  induction cs with
  | nil => rfl
  | cons c cs ih =>
    rw [List.flatMap_cons, List.append_assoc, List.length_append]
    rcases quotedChar_cases c with ⟨itself, plain⟩ | ⟨e, more, escaped, newline, plain⟩
    · rw [itself, stringRest?_run (by simpa using plain), ih]
      simp
      omega
    · rw [escaped, List.cons_append, List.cons_append, stringRest?, stringRest?_run plain, ih]
      simp [newline]
      omega

theorem isToken_quote (text : String) : isToken (quote text) := by
  refine isToken_iff.mpr ⟨'"', text.toList.flatMap quotedChar ++ ['"'], ?_, by simp [comment?], by decide, ?_⟩
  · rw [quote, String.toList_ofList, List.cons_append]
  · rw [token?_quote (.inl rfl), stringRest?_quoted]
    simp

/-- A text without control characters, those that begin a line or set a tab apart. -/
def Quotable (text : String) : Prop :=
  ∀ c ∈ text.toList, 32 ≤ c.toNat ∨ c = '\n' ∨ c = '\t'

instance (text : String) : Decidable (Quotable text) :=
  decidable_of_iff (text.toList.all fun c => 32 ≤ c.toNat ∨ c = '\n' ∨ c = '\t') (by simp [Quotable])

theorem isStringLiteral_quote (text : String) : isStringLiteral (quote text) := by
  have oneLine : '\n' ∉ text.toList.flatMap quotedChar := by
    intro newline
    obtain ⟨c, _, hc⟩ := List.mem_flatMap.mp newline
    rcases quotedChar_cases c with ⟨itself, plain⟩ | ⟨e, more, escaped, other, plain⟩
    · rw [itself, List.mem_singleton] at hc
      exact plain (by simp [← hc])
    · rw [escaped] at hc
      rcases List.mem_cons.mp hc with hc | hc
      · cases hc
      rcases List.mem_cons.mp hc with hc | hc
      · exact other hc.symm
      · exact plain _ hc (by simp)
  simp [isStringLiteral, quote, oneLine]

theorem unescape_quotedChar {c : Char} (h : 32 ≤ c.toNat ∨ c = '\n' ∨ c = '\t') (rest : List Char) :
    unescape (quotedChar c ++ rest) = c :: unescape rest := by
  unfold quotedChar
  split
  · simp [unescape]
  · simp [unescape]
  · exact absurd h (by decide)
  · simp [unescape]
  · simp [unescape]
  · exact absurd h (by decide)
  · exact absurd h (by decide)
  · rename_i _ backslash _ tab newline _ _
    split
    · rename_i control
      rcases h with large | same | same
      · omega
      · exact absurd same newline
      · exact absurd same tab
    · rw [List.singleton_append, unescape]
      · exact fun same _ => backslash same
      · exact fun _ same _ => backslash same
      · exact fun _ same _ => backslash same
      · exact fun _ _ same _ => backslash same

theorem inside_quote (text : String) : inside (quote text).toList = text.toList.flatMap quotedChar := by
  rw [quote, String.toList_ofList, List.cons_append]
  cases text.toList.flatMap quotedChar with
  | nil => rfl
  | cons d ds => rw [List.cons_append, inside, ← List.cons_append, List.dropLast_concat]

theorem unquote_quote {text : String} (h : Quotable text) : unquote (quote text) = text := by
  have chars : ∀ cs : List Char, (∀ c ∈ cs, 32 ≤ c.toNat ∨ c = '\n' ∨ c = '\t') →
      unescape (cs.flatMap quotedChar) = cs := by
    intro cs h
    induction cs with
    | nil => rfl
    | cons c cs ih =>
      rw [List.flatMap_cons, unescape_quotedChar (h c List.mem_cons_self),
        ih fun d hd => h d (List.mem_cons_of_mem c hd)]
  rw [unquote, inside_quote, chars _ h, String.ofList_toList]

end quoted

namespace Tokens

theorem scanFrom_word {word : String} (h : isToken word) {rest : List Char} (blank : ∀ d ∈ rest.head?, isBlank d)
    (here : Position) :
    scanFrom here (word.toList ++ rest) = (scanFrom (here.after word.toList) rest).map (cons ⟨word, here⟩) := by
  obtain ⟨c, cs, written, comment, notBlank, token⟩ := isToken_iff.mp h
  have alone : lexeme? (c :: cs) = some ⟨.token, cs.length⟩ :=
    lexeme?_eq_token.mpr ⟨comment, blanks?_cons.mpr notBlank, token⟩
  have noBlock : ∀ ds, c :: cs ≠ '/' :: '*' :: ds := by
    rintro ds ⟨⟩
    simp [token?_slash] at token
  have followed : lexeme? (c :: (cs ++ rest)) = some ⟨.token, cs.length⟩ := lexeme?_append alone noBlock blank
  have whole : word = .ofList (c :: cs) := by rw [← written, String.ofList_toList]
  rw [written, List.cons_append, scanFrom_token followed, List.take_left, List.drop_left, ← whole]

theorem scan_joinWith {words : List String} (h : ∀ word ∈ words, isToken word) :
    ∃ ts, scan (joinWith " " words) = .ok ts ∧ ts.texts = words := by
  suffices all : ∀ here, ∃ ts, scanFrom here (joinWith " " words).toList = .ok ts ∧ ts.texts = words from all .start
  induction words with
  | nil => exact fun here => ⟨⟨[], here⟩, by simp [joinWith, scanFrom], rfl⟩
  | cons word words ih =>
    intro here
    have first := h word List.mem_cons_self
    have others := fun w hw => h w (List.mem_cons_of_mem word hw)
    cases words with
    | nil =>
      refine ⟨cons ⟨word, here⟩ ⟨[], here.after word.toList⟩, ?_, rfl⟩
      have alone := scanFrom_word first (by simp : ∀ d ∈ ([] : List Char).head?, isBlank d) here
      rw [List.append_nil] at alone
      rw [joinWith, alone, scanFrom]
      rfl
    | cons next words =>
      obtain ⟨c, cs, written, _, notBlank, _⟩ := isToken_iff.mp (others next List.mem_cons_self)
      have stop : ∀ d ∈ (joinWith " " (next :: words)).toList.head?, isBlank d = false := by
        rw [joinWith_cons, String.toList_append, written]
        rintro d ⟨⟩
        exact notBlank
      obtain ⟨ts, scanned, same⟩ := ih others ((here.after word.toList).after [' '])
      refine ⟨cons ⟨word, here⟩ ts, ?_, by rw [texts_cons, same]⟩
      have text : (joinWith " " (word :: next :: words)).toList =
          word.toList ++ ([' '] ++ (joinWith " " (next :: words)).toList) := by
        simp [joinWith]
      have blank : ∀ d ∈ [' '], isBlank d := List.forall_mem_singleton.mpr (by decide)
      rw [text, scanFrom_word first (by simpa using blank), scanFrom_blanks (by simp) blank stop, scanned]
      rfl

end Tokens

end SchemaGen
