import SchemaGen.Proofs.Spelling
import Mathlib.Computability.Language
/-!
# The lexical grammar

The pieces of schema text as languages over characters. A lexeme that is found at the start of a text is a word of
its language, and where none is found no word of any of these languages stands.
-/
namespace SchemaGen.Lexical
open Text Lexeme Computability

def one (p : Char → Bool) : Language Char :=
  {w | ∃ c, p c ∧ w = [c]}

def literal (text : String) : Language Char :=
  {text.toList}

def optional (l : Language Char) : Language Char :=
  1 + l

def several (l : Language Char) : Language Char :=
  l * l∗

def blanks : Language Char :=
  several (one isBlank)

def blockComment : Language Char :=
  literal "/*" * (one fun _ => true)∗ * literal "*/"

def lineComment : Language Char :=
  literal "//" * (one (· != '\n'))∗

/-- What a string is made of between its marks: characters of one line, and any of them after a backslash. -/
def stringItem (mark : Char) : Language Char :=
  one (fun c => c != mark && c != '\\' && c != '\n') + literal "\\" * one (· != '\n')

def quoted (mark : Char) : Language Char :=
  literal (.singleton mark) * (stringItem mark)∗ * literal (.singleton mark)

def string : Language Char :=
  quoted '"' + quoted '\x27'

def sign : Language Char :=
  one fun c => c == '+' || c == '-'

def digits : Language Char :=
  several (one isDecimal)

def exponent : Language Char :=
  one (fun c => c == 'e' || c == 'E') * optional sign * digits

def hexNumeral : Language Char :=
  literal "0" * one (fun c => c == 'x' || c == 'X') * several (one isHexDigit)

def decimalNumeral : Language Char :=
  digits * optional (literal "." * (one isDecimal)∗) * optional exponent +
    literal "." * digits * optional exponent

def numeral : Language Char :=
  optional sign * (hexNumeral + decimalNumeral)

def identifier : Language Char :=
  one isNameStart * (one isNamePart)∗

def name : Language Char :=
  optional (literal ".") * identifier * (literal "." * identifier)∗

def punctuation : Language Char :=
  one isPunctuation

def WordBreak (w rest : List Char) : Prop :=
  w.getLast?.any fun last => atWordBoundary last rest

/-- The text `w` is a token if `rest` follows it. -/
inductive IsToken (w rest : List Char) : Prop
  | string (word : w ∈ string)
  | numeral (word : w ∈ numeral) (stop : WordBreak w rest)
  | name (word : w ∈ name)
  | punctuation (word : w ∈ punctuation)

/-- The text `w`, with `rest` after it, is a run of blanks or a comment from its beginning to its end: a block comment
goes to the first end mark and a line comment to the end of its line. -/
inductive IsGap (w rest : List Char) : Prop
  | blanks (word : w ∈ blanks)
  | blockComment (word : w ∈ blockComment) (first : ∀ v ∈ blockComment, v <+: w → v = w)
  | lineComment (word : w ∈ lineComment) (stop : ∀ c ∈ rest.head?, c = '\n')

def Matches (w rest : List Char) : Prop :=
  w ∈ blanks + blockComment + lineComment ∨ IsToken w rest

section languages
variable {l : Language Char} {p : Char → Bool} {c : Char} {w v cs : List Char}

theorem mem_optional : w ∈ optional l ↔ w = [] ∨ w ∈ l := Iff.rfl

theorem append_mem_star (h : w ∈ l) (more : v ∈ l∗) : w ++ v ∈ l∗ := by
  rw [← Language.one_add_self_mul_kstar_eq_kstar]
  exact .inr (Language.append_mem_mul h more)

@[simp] theorem mem_star_one : w ∈ (one p)∗ ↔ ∀ c ∈ w, p c := by
  constructor
  · rintro ⟨pieces, rfl, all⟩ c hc
    obtain ⟨piece, hp, hc⟩ := List.mem_flatten.mp hc
    obtain ⟨d, passed, rfl⟩ := all piece hp
    obtain rfl := List.mem_singleton.mp hc
    exact passed
  · intro all
    induction w with
    | nil => exact Language.nil_mem_kstar _
    | cons c w ih =>
      refine append_mem_star (w := [c]) ⟨c, all c List.mem_cons_self, rfl⟩ (ih fun d hd => ?_)
      exact all d (List.mem_cons_of_mem c hd)

@[simp] theorem mem_one_mul : w ∈ one p * l ↔ ∃ c v, p c ∧ v ∈ l ∧ w = c :: v := by
  rw [Language.mem_mul]
  constructor
  · rintro ⟨_, ⟨c, passed, rfl⟩, v, hv, rfl⟩
    exact ⟨c, v, passed, hv, rfl⟩
  · rintro ⟨c, v, passed, hv, rfl⟩
    exact ⟨[c], ⟨c, passed, rfl⟩, v, hv, rfl⟩

@[simp] theorem mem_several_one : w ∈ several (one p) ↔ w ≠ [] ∧ ∀ c ∈ w, p c := by
  rw [several, mem_one_mul]
  constructor
  · rintro ⟨c, v, passed, hv, rfl⟩
    exact ⟨by simp, List.forall_mem_cons.mpr ⟨passed, mem_star_one.mp hv⟩⟩
  · rintro ⟨nonempty, all⟩
    cases w with
    | nil => exact absurd rfl nonempty
    | cons c v =>
      rw [List.forall_mem_cons] at all
      exact ⟨c, v, all.1, mem_star_one.mpr all.2, rfl⟩

@[simp] theorem mem_literal_mul {text : String} : w ∈ literal text * l ↔ ∃ v ∈ l, w = text.toList ++ v := by
  rw [Language.mem_mul]
  constructor
  · rintro ⟨_, rfl, v, hv, rfl⟩
    exact ⟨v, hv, rfl⟩
  · rintro ⟨v, hv, rfl⟩
    exact ⟨_, rfl, v, hv, rfl⟩

@[simp] theorem mem_mul_literal {text : String} : w ∈ l * literal text ↔ ∃ v ∈ l, w = v ++ text.toList := by
  rw [Language.mem_mul]
  constructor
  · rintro ⟨v, hv, _, rfl, rfl⟩
    exact ⟨v, hv, rfl⟩
  · rintro ⟨v, hv, rfl⟩
    exact ⟨v, hv, _, rfl, rfl⟩

theorem mem_blockComment : w ∈ blockComment ↔ ∃ body, w = '/' :: '*' :: (body ++ ['*', '/']) := by
  rw [blockComment, mul_assoc, mem_literal_mul]
  constructor
  · rintro ⟨_, ending, rfl⟩
    obtain ⟨body, _, rfl⟩ := mem_mul_literal.mp ending
    exact ⟨body, rfl⟩
  · rintro ⟨body, rfl⟩
    exact ⟨_, mem_mul_literal.mpr ⟨body, mem_star_one.mpr fun _ _ => rfl, rfl⟩, rfl⟩

theorem mem_lineComment : w ∈ lineComment ↔ ∃ body, '\n' ∉ body ∧ w = '/' :: '/' :: body := by
  rw [lineComment, mem_literal_mul]
  constructor
  · rintro ⟨body, all, rfl⟩
    exact ⟨body, fun newline => absurd (mem_star_one.mp all _ newline) (by decide), rfl⟩
  · rintro ⟨body, oneLine, rfl⟩
    refine ⟨body, mem_star_one.mpr fun c hc => ?_, rfl⟩
    rw [bne_iff_ne]
    rintro rfl
    exact oneLine hc

theorem mem_exponent : w ∈ exponent ↔ ∃ e s ds, (e = 'e' ∨ e = 'E') ∧ s ∈ optional sign ∧ ds ≠ [] ∧
    (∀ c ∈ ds, isDecimal c) ∧ w = e :: (s ++ ds) := by
  rw [exponent, mul_assoc, mem_one_mul]
  simp only [Language.mem_mul, digits, mem_several_one, Bool.or_eq_true, beq_iff_eq]
  constructor
  · rintro ⟨e, _, mark, ⟨s, hs, ds, ⟨nonempty, all⟩, rfl⟩, rfl⟩
    exact ⟨e, s, ds, mark, hs, nonempty, all, rfl⟩
  · rintro ⟨e, s, ds, mark, hs, nonempty, all, rfl⟩
    exact ⟨e, _, mark, ⟨s, hs, ds, ⟨nonempty, all⟩, rfl⟩, rfl⟩

theorem mem_hexNumeral : w ∈ hexNumeral ↔ ∃ x ds, (x = 'x' ∨ x = 'X') ∧ ds ≠ [] ∧ (∀ c ∈ ds, isHexDigit c) ∧
    w = '0' :: x :: ds := by
  rw [hexNumeral, mul_assoc, mem_literal_mul]
  simp only [mem_one_mul, mem_several_one, Bool.or_eq_true, beq_iff_eq]
  constructor
  · rintro ⟨_, ⟨x, ds, mark, ⟨nonempty, all⟩, rfl⟩, rfl⟩
    exact ⟨x, ds, mark, nonempty, all, rfl⟩
  · rintro ⟨x, ds, mark, nonempty, all, rfl⟩
    exact ⟨_, ⟨x, ds, mark, ⟨nonempty, all⟩, rfl⟩, rfl⟩

theorem mem_decimalNumeral : w ∈ decimalNumeral ↔ ∃ whole fraction power, (∀ c ∈ whole, isDecimal c) ∧
    power ∈ optional exponent ∧ w = whole ++ (fraction ++ power) ∧
    (fraction = [] ∧ whole ≠ [] ∨
      ∃ ds, fraction = '.' :: ds ∧ (∀ c ∈ ds, isDecimal c) ∧ (whole ≠ [] ∨ ds ≠ [])) := by
  rw [decimalNumeral, Language.mem_add, mul_assoc, mul_assoc, mem_literal_mul]
  simp only [Language.mem_mul, digits, mem_several_one]
  constructor
  · rintro (⟨whole, ⟨nonempty, all⟩, _, ⟨fraction, point, power, hp, rfl⟩, rfl⟩ |
      ⟨_, ⟨ds, ⟨nonempty, all⟩, power, hp, rfl⟩, rfl⟩)
    · refine ⟨whole, fraction, power, all, hp, rfl, ?_⟩
      rcases mem_optional.mp point with rfl | point
      · exact .inl ⟨rfl, nonempty⟩
      · obtain ⟨ds, hds, rfl⟩ := mem_literal_mul.mp point
        exact .inr ⟨ds, rfl, mem_star_one.mp hds, .inl nonempty⟩
    · exact ⟨[], '.' :: ds, power, by simp, hp, rfl, .inr ⟨ds, rfl, all, .inr nonempty⟩⟩
  · rintro ⟨whole, fraction, power, all, hp, rfl, ⟨rfl, nonempty⟩ | ⟨ds, rfl, hds, nonempty⟩⟩
    · exact .inl ⟨whole, ⟨nonempty, all⟩, _, ⟨[], mem_optional.mpr (.inl rfl), power, hp, rfl⟩, rfl⟩
    · by_cases empty : whole = []
      · subst empty
        exact .inr ⟨_, ⟨ds, ⟨nonempty.resolve_left (by simp), hds⟩, power, hp, rfl⟩, rfl⟩
      · have point : '.' :: ds ∈ optional (literal "." * (one isDecimal)∗) :=
          mem_optional.mpr (.inr (mem_literal_mul.mpr ⟨ds, mem_star_one.mpr hds, rfl⟩))
        exact .inl ⟨whole, ⟨empty, all⟩, _, ⟨_, point, power, hp, rfl⟩, rfl⟩

end languages

theorem take_run (p : Char → Bool) (cs : List Char) : cs.take (cs.takeWhile p).length = cs.takeWhile p :=
  (List.prefix_iff_eq_take.mp (List.takeWhile_prefix p)).symm

theorem drop_run (p : Char → Bool) (cs : List Char) : cs.drop (cs.takeWhile p).length = cs.dropWhile p := by
  have split := List.takeWhile_append_dropWhile (p := p) (l := cs)
  calc cs.drop (cs.takeWhile p).length
    _ = (cs.takeWhile p ++ cs.dropWhile p).drop (cs.takeWhile p).length := by rw [split]
    _ = cs.dropWhile p := List.drop_left

theorem takeWhile_run {p : Char → Bool} {ds rest : List Char} (all : ∀ c ∈ ds, p c)
    (stop : rest.head?.any p = false) : (ds ++ rest).takeWhile p = ds := by
  rw [List.takeWhile_append_of_pos all]
  cases rest with
  | nil => simp
  | cons c rest =>
    have other : p c = false := stop
    simp [other]

section comments
variable {c : Char} {cs rest : List Char} {n : Nat}

theorem exists_blockComment? (body rest : List Char) :
    ∃ n ≤ body.length + 2, blockComment? (body ++ '*' :: '/' :: rest) = some n := by
  induction body with
  | nil => exact ⟨2, Nat.le_refl 2, rfl⟩
  | cons c body ih =>
    obtain ⟨n, bound, found⟩ := ih
    rw [List.cons_append]
    unfold blockComment?
    split
    · exact ⟨2, by simp, rfl⟩
    · rename_i other
      obtain ⟨rfl, rfl⟩ := List.cons.inj other
      exact ⟨n + 1, by rw [List.length_cons]; omega, by rw [found]; rfl⟩
    · rename_i none
      cases none

theorem blockComment?_ends (h : blockComment? cs = some n) :
    n ≤ cs.length ∧ ∃ body, cs.take n = body ++ ['*', '/'] := by
  fun_induction blockComment? cs generalizing n with
  | case1 cs =>
    cases h
    exact ⟨by simp, [], by simp⟩
  | case2 c cs _ ih =>
    obtain ⟨k, found, rfl⟩ := Option.map_eq_some_iff.mp h
    obtain ⟨bound, body, ending⟩ := ih found
    exact ⟨Nat.succ_le_succ bound, c :: body, by rw [List.take_succ_cons, ending]; rfl⟩
  | case3 => cases h

theorem blockComment?_first (h : blockComment? cs = some n) :
    '/' :: '*' :: cs.take n ∈ blockComment ∧
      ∀ v ∈ blockComment, v <+: '/' :: '*' :: cs.take n → v = '/' :: '*' :: cs.take n := by
  obtain ⟨bound, body, ending⟩ := blockComment?_ends h
  refine ⟨mem_blockComment.mpr ⟨body, by rw [ending]⟩, fun v hv before => before.eq_of_length ?_⟩
  obtain ⟨inner, rfl⟩ := mem_blockComment.mp hv
  have inside : inner ++ ['*', '/'] <+: cs.take n := by simpa using before
  obtain ⟨rest, split⟩ := inside.trans (List.take_prefix n cs)
  obtain ⟨k, short, found⟩ := exists_blockComment? inner rest
  rw [List.append_assoc] at split
  obtain rfl : n = k := by
    have same : blockComment? (inner ++ '*' :: '/' :: rest) = some n := split ▸ h
    exact Option.some.inj (same.symm.trans found)
  have long := inside.length_le
  rw [List.length_take_of_le bound, List.length_append] at long
  simp only [List.length_cons, List.length_append, List.length_nil, List.length_take_of_le bound] at long ⊢
  omega

theorem isGap_of_comment? (h : comment? (c :: cs) = some n) : IsGap (c :: cs.take n) (cs.drop n) := by
  unfold comment? at h
  split at h
  · rename_i inside same
    obtain ⟨rfl, rfl⟩ := List.cons.inj same
    obtain ⟨k, found, rfl⟩ := Option.map_eq_some_iff.mp h
    obtain ⟨word, first⟩ := blockComment?_first found
    exact .blockComment word first
  · rename_i line same
    obtain ⟨rfl, rfl⟩ := List.cons.inj same
    cases h
    rw [List.take_succ_cons, List.drop_succ_cons, take_run, drop_run]
    refine .lineComment (mem_lineComment.mpr ⟨_, fun newline => ?_, rfl⟩) fun d hd => ?_
    · exact absurd (List.mem_takeWhile_imp newline) (by decide)
    · have stop := List.head?_dropWhile_not (fun c => c != '\n') line
      rw [hd] at stop
      simpa using stop
  · cases h

theorem isGap_of_blanks? (h : blanks? (c :: cs) = some n) : IsGap (c :: cs.take n) (cs.drop n) := by
  rw [blanks?] at h
  split at h
  · rename_i blank
    cases h
    rw [take_run]
    refine .blanks (mem_several_one.mpr ⟨by simp, List.forall_mem_cons.mpr ⟨blank, fun d hd => ?_⟩⟩)
    exact List.mem_takeWhile_imp hd
  · cases h

theorem isGap_of_lexeme? (h : lexeme? (c :: cs) = some ⟨.gap, n⟩) : IsGap (c :: cs.take n) (cs.drop n) := by
  rcases lexeme?_eq_gap.mp h with comment | ⟨_, blanks⟩
  · exact isGap_of_comment? comment
  · exact isGap_of_blanks? blanks

theorem comment?_isSome {w : List Char} (h : w ∈ blockComment + lineComment) (rest : List Char) :
    (comment? (w ++ rest)).isSome := by
  rcases h with block | line
  · obtain ⟨body, rfl⟩ := mem_blockComment.mp block
    obtain ⟨n, _, found⟩ := exists_blockComment? body rest
    simp [comment?, found]
  · obtain ⟨body, _, rfl⟩ := mem_lineComment.mp line
    simp [comment?]

theorem blanks?_isSome {w : List Char} (h : w ∈ blanks) (rest : List Char) : (blanks? (w ++ rest)).isSome := by
  obtain ⟨nonempty, all⟩ := mem_several_one.mp h
  cases w with
  | nil => exact absurd rfl nonempty
  | cons c w => simp [blanks?, all c List.mem_cons_self]

end comments

section strings
variable {mark : Char} {cs : List Char} {n : Nat}

theorem mem_quoted {w : List Char} :
    w ∈ quoted mark ↔ ∃ items ∈ (stringItem mark)∗, w = mark :: (items ++ [mark]) := by
  rw [quoted, mul_assoc, mem_literal_mul]
  constructor
  · rintro ⟨_, closed, rfl⟩
    obtain ⟨items, inside, rfl⟩ := mem_mul_literal.mp closed
    exact ⟨items, inside, by simp⟩
  · rintro ⟨items, inside, rfl⟩
    exact ⟨_, mem_mul_literal.mpr ⟨items, inside, rfl⟩, by simp⟩

theorem stringRest?_items (h : stringRest? mark cs = some n) :
    ∃ items ∈ (stringItem mark)∗, cs.take n = items ++ [mark] := by
  fun_induction stringRest? mark cs generalizing n with
  | case1 => cases h
  | case2 => cases h
  | case3 c cs plain ih =>
    obtain ⟨k, found, rfl⟩ := Option.map_eq_some_iff.mp h
    obtain ⟨items, inside, ending⟩ := ih found
    have escape : ['\\', c] ∈ stringItem mark :=
      .inr (mem_literal_mul.mpr ⟨[c], ⟨c, by simpa using plain, rfl⟩, rfl⟩)
    exact ⟨_, append_mem_star escape inside, by simp [ending]⟩
  | case4 c cs _ isMark =>
    cases h
    exact ⟨[], Language.nil_mem_kstar _, by simpa using isMark⟩
  | case5 => cases h
  | case6 c cs _ notMark plain ih =>
    obtain ⟨k, found, rfl⟩ := Option.map_eq_some_iff.mp h
    obtain ⟨items, inside, ending⟩ := ih found
    have item : [c] ∈ stringItem mark := .inl ⟨c, by simp_all, rfl⟩
    exact ⟨_, append_mem_star item inside, by simp [ending]⟩

theorem stringRest?_isSome (other : mark ≠ '\\') {items : List Char} (h : items ∈ (stringItem mark)∗)
    (rest : List Char) : (stringRest? mark (items ++ mark :: rest)).isSome := by
  obtain ⟨pieces, rfl, all⟩ := h
  induction pieces with
  | nil => simp [stringRest?_plain other]
  | cons piece pieces ih =>
    have more := ih fun w hw => all w (List.mem_cons_of_mem _ hw)
    rcases all piece List.mem_cons_self with ⟨c, plain, rfl⟩ | escaped
    · simp only [Bool.and_eq_true, bne_iff_ne] at plain
      simpa [stringRest?_plain plain.1.2, plain.1.1, plain.2] using more
    · obtain ⟨_, ⟨c, plain, rfl⟩, rfl⟩ := mem_literal_mul.mp escaped
      rw [bne_iff_ne] at plain
      simpa [stringRest?, plain] using more

theorem mem_string {w : List Char} : w ∈ string ↔ ∃ mark, (mark = '"' ∨ mark = '\x27') ∧ w ∈ quoted mark := by
  rw [string, Language.mem_add]
  simp

theorem string?_mem {c : Char} (h : string? (c :: cs) = some n) : c :: cs.take n ∈ string := by
  rw [string?] at h
  split at h
  · rename_i isMark
    obtain ⟨items, inside, ending⟩ := stringRest?_items h
    exact mem_string.mpr ⟨c, by simpa using isMark, mem_quoted.mpr ⟨items, inside, by rw [ending]⟩⟩
  · cases h

theorem string?_isSome {w : List Char} (h : w ∈ string) (rest : List Char) : (string? (w ++ rest)).isSome := by
  obtain ⟨mark, isMark, h⟩ := mem_string.mp h
  obtain ⟨items, inside, rfl⟩ := mem_quoted.mp h
  have other : mark ≠ '\\' := by rcases isMark with rfl | rfl <;> decide
  simpa [string?, isMark] using stringRest?_isSome other inside rest

end strings

section names
variable {c : Char} {cs : List Char} {n : Nat}

theorem takeWhile_mem_identifier (h : cs.head?.any isNameStart) : cs.takeWhile isNamePart ∈ identifier := by
  cases cs with
  | nil => cases h
  | cons c cs =>
    have start : isNameStart c := h
    rw [List.takeWhile_cons_of_pos (isNamePart_of_isNameStart start)]
    exact mem_one_mul.mpr ⟨c, _, start, mem_star_one.mpr fun d hd => List.mem_takeWhile_imp hd, rfl⟩

theorem take_nameRun (cs : List Char) :
    ∃ more ∈ (literal "." * identifier)∗, cs.take (nameRun cs) = cs.takeWhile isNamePart ++ more := by
  induction cs with
  | nil => exact ⟨[], Language.nil_mem_kstar _, rfl⟩
  | cons c cs ih =>
    obtain ⟨more, dotted, run⟩ := ih
    by_cases part : isNamePart c
    · exact ⟨more, dotted, by simp [nameRun, part, run]⟩
    by_cases dot : c = '.' ∧ cs.head?.any isNameStart
    · obtain ⟨rfl, start⟩ := dot
      have next : '.' :: cs.takeWhile isNamePart ∈ literal "." * identifier :=
        mem_literal_mul.mpr ⟨_, takeWhile_mem_identifier start, rfl⟩
      exact ⟨_, append_mem_star next dotted, by simp [nameRun, part, start, run]⟩
    · exact ⟨[], Language.nil_mem_kstar _, by simp [nameRun, part, dot]⟩

theorem mem_name {w : List Char} : w ∈ name ↔ ∃ dot first more, dot ∈ optional (literal ".") ∧ first ∈ identifier ∧
    more ∈ (literal "." * identifier)∗ ∧ w = dot ++ (first ++ more) := by
  rw [name, mul_assoc]
  simp only [Language.mem_mul]
  constructor
  · rintro ⟨dot, hdot, _, ⟨first, hfirst, more, hmore, rfl⟩, rfl⟩
    exact ⟨dot, first, more, hdot, hfirst, hmore, rfl⟩
  · rintro ⟨dot, first, more, hdot, hfirst, hmore, rfl⟩
    exact ⟨dot, hdot, _, ⟨first, hfirst, more, hmore, rfl⟩, rfl⟩

theorem name?_mem (h : name? (c :: cs) = some n) : c :: cs.take n ∈ name := by
  rw [name?] at h
  split at h
  · rename_i start
    cases h
    simp only [Bool.or_eq_true, Bool.and_eq_true, beq_iff_eq] at start
    rcases start with start | ⟨rfl, start⟩
    · have part := isNamePart_of_isNameStart start
      obtain ⟨more, dotted, run⟩ := take_nameRun (c :: cs)
      have first : (c :: cs).takeWhile isNamePart ∈ identifier := takeWhile_mem_identifier start
      refine mem_name.mpr ⟨[], _, more, .inl rfl, first, dotted, ?_⟩
      rw [List.nil_append, ← run]
      simp [nameRun, part]
    · obtain ⟨more, dotted, run⟩ := take_nameRun cs
      exact mem_name.mpr ⟨['.'], _, more, .inr rfl, takeWhile_mem_identifier start, dotted, by rw [run]; rfl⟩
  · cases h

theorem name?_isSome {w : List Char} (h : w ∈ name) (rest : List Char) : (name? (w ++ rest)).isSome := by
  obtain ⟨dot, first, more, hdot, hfirst, _, rfl⟩ := mem_name.mp h
  obtain ⟨c, cs, start, _, rfl⟩ := mem_one_mul.mp hfirst
  rcases mem_optional.mp hdot with rfl | rfl
  · simp [name?, start]
  · simp [name?, start]

end names

section numbers
variable {c : Char} {w cs rest : List Char} {n : Nat}

theorem isWord_of_isDecimal (h : isDecimal c) : isWord c := by
  unfold isDecimal at h
  unfold isWord
  split at h
  · rename_i ascii
    rw [if_pos ascii]
    change (c.isAlpha || c.isDigit || c == '_') = true
    simp [h]
  · rename_i far
    rw [if_neg far]
    -- The table of words has a range around each range of digits.
    have covered : decimalRanges.all fun r => wordRanges.any fun q => q.1.ble r.1 && r.2.ble q.2 := by decide +kernel
    obtain ⟨r, hr, inside⟩ := List.any_eq_true.mp h
    obtain ⟨q, hq, around⟩ := List.any_eq_true.mp (List.all_eq_true.mp covered r hr)
    refine List.any_eq_true.mpr ⟨q, hq, ?_⟩
    simp only [Bool.and_eq_true, decide_eq_true_eq, Nat.ble_eq] at inside around ⊢
    omega

theorem isNamePart_of_isHexDigit (h : isHexDigit c) : isNamePart c := by
  change (decide ('A' ≤ c ∧ c ≤ 'Z') || (decide ('a' ≤ c) && decide (c ≤ 'z')) || c.isDigit || c == '_') = true
  simp only [isHexDigit, Bool.or_eq_true, Bool.and_eq_true, decide_eq_true_eq] at h ⊢
  rcases h with (digit | lower) | upper
  · exact .inl (.inr digit)
  · exact .inl (.inl (.inr ⟨lower.1, Char.le_trans lower.2 (by decide)⟩))
  · exact .inl (.inl (.inl ⟨upper.1, Char.le_trans upper.2 (by decide)⟩))

theorem isWord_of_isHexDigit (h : isHexDigit c) : isWord c :=
  isNamePart_induction (P := fun c => isWord c) (by decide +kernel) (isNamePart_of_isHexDigit h)

/-- A number that ends with a word character stops where no further one follows, and so no further digit. -/
theorem WordBreak.stops {p : Char → Bool} (word : ∀ c, p c → isWord c) {ds : List Char} (nonempty : ds ≠ [])
    (all : ∀ c ∈ ds, p c) (h : WordBreak (w ++ ds) rest) : rest.head?.any p = false := by
  have last := word _ (all _ (List.getLast_mem nonempty))
  rw [WordBreak, List.getLast?_append_of_ne_nil _ nonempty, List.getLast?_eq_getLast_of_ne_nil nonempty,
    Option.any_some, atWordBoundary, last] at h
  cases rest with
  | nil => rfl
  | cons d rest =>
    have next : isWord d = false := by simpa using h
    by_contra passed
    exact absurd (word d (by simpa using passed)) (by simp [next])

theorem not_sign (first : isDecimal c ∨ c = '.') : c ≠ '+' ∧ c ≠ '-' := by
  constructor
  · rintro rfl
    exact absurd first (by decide)
  · rintro rfl
    exact absurd first (by decide)

theorem take_digitRun (cs : List Char) : ∀ c ∈ cs.take (digitRun cs), isDecimal c := by
  rw [digitRun, take_run]
  exact fun c hc => List.mem_takeWhile_imp hc

theorem digitRun_run {ds : List Char} (all : ∀ c ∈ ds, isDecimal c) (stop : rest.head?.any isDecimal = false) :
    digitRun (ds ++ rest) = ds.length := by
  rw [digitRun, takeWhile_run all stop]

theorem take_ne_nil_of_digitRun (h : digitRun cs ≠ 0) : cs.take (digitRun cs) ≠ [] := by
  have bound := digitRun_le cs
  rw [ne_eq, List.take_eq_nil_iff]
  rintro (zero | rfl)
  · exact h zero
  · exact h rfl

theorem take_signWidth (cs : List Char) : cs.take (signWidth cs) ∈ optional sign := by
  cases cs with
  | nil => exact .inl rfl
  | cons c cs =>
    by_cases isSign : c == '+' || c == '-'
    · exact .inr ⟨c, isSign, by simp [signWidth, isSign]⟩
    · rw [show signWidth (c :: cs) = 0 by simp [signWidth, isSign]]
      exact .inl rfl

theorem take_exponentLength (cs : List Char) : cs.take (exponentLength cs) ∈ optional exponent := by
  cases cs with
  | nil => exact .inl rfl
  | cons e cs =>
    rw [exponentLength_cons]
    dsimp only
    split
    · rename_i mark
      split
      · exact .inl rfl
      · rename_i run
        have nonempty := take_ne_nil_of_digitRun (by simpa using run)
        refine .inr (mem_exponent.mpr
          ⟨e, _, _, by simpa using mark, take_signWidth cs, nonempty, take_digitRun _, ?_⟩)
        rw [Nat.add_assoc, Nat.add_comm 1, List.take_succ_cons, List.take_add]
    · exact .inl rfl

theorem exponentLength_run (h : w ∈ exponent) (stop : rest.head?.any isDecimal = false) :
    exponentLength (w ++ rest) = w.length := by
  obtain ⟨e, s, ds, mark, hs, nonempty, all, rfl⟩ := mem_exponent.mp h
  have width : signWidth (s ++ ds ++ rest) = s.length := by
    rcases mem_optional.mp hs with rfl | ⟨c, isSign, rfl⟩
    · obtain ⟨d, ds, rfl⟩ := List.exists_cons_of_ne_nil nonempty
      have noSign := not_sign (.inl (all d List.mem_cons_self))
      simp [signWidth, noSign]
    · simp [signWidth, isSign]
  have run : digitRun ((s ++ ds ++ rest).drop s.length) = ds.length := by
    rw [List.append_assoc, List.drop_left, digitRun_run all stop]
  rw [List.cons_append, exponentLength_cons, width, run]
  simp [mark, nonempty]
  omega

theorem exponent_head (h : w ∈ exponent) : ∃ e v, w = e :: v ∧ isDecimal e = false ∧ e ≠ '.' := by
  obtain ⟨e, s, ds, mark, _, _, _, rfl⟩ := mem_exponent.mp h
  exact ⟨e, s ++ ds, rfl, by rcases mark with rfl | rfl <;> decide⟩

theorem WordBreak.stops_exponent {power : List Char} (h : power ∈ exponent) (stop : WordBreak (w ++ power) rest) :
    rest.head?.any isDecimal = false := by
  obtain ⟨e, s, ds, _, _, nonempty, all, rfl⟩ := mem_exponent.mp h
  refine WordBreak.stops (w := w ++ e :: s) (fun _ => isWord_of_isDecimal) nonempty all ?_
  rwa [List.append_assoc, List.cons_append]

theorem take_of_mem_hexReading (h : n ∈ hexReading cs) : cs.take n ∈ hexNumeral := by
  unfold hexReading at h
  split at h
  · rename_i x ds
    dsimp only at h
    split at h
    · rename_i found
      obtain rfl := List.mem_singleton.mp h
      simp only [Bool.and_eq_true, Bool.or_eq_true, beq_iff_eq, bne_iff_ne] at found
      refine mem_hexNumeral.mpr ⟨x, ds.takeWhile isHexDigit, found.1, ?_, fun c hc => List.mem_takeWhile_imp hc, ?_⟩
      · exact List.ne_nil_of_length_pos (Nat.pos_of_ne_zero found.2)
      · rw [List.take_succ_cons, List.take_succ_cons, take_run]
    · cases h
  · cases h

theorem take_bare (whole : digitRun cs ≠ 0) (power : (cs.drop (digitRun cs)).take n ∈ optional exponent) :
    cs.take (digitRun cs + n) ∈ decimalNumeral :=
  mem_decimalNumeral.mpr
    ⟨_, [], _, take_digitRun cs, power, List.take_add, .inl ⟨rfl, take_ne_nil_of_digitRun whole⟩⟩

theorem take_pointed {fs : List Char} (cut : cs.drop (digitRun cs) = '.' :: fs) {k j : Nat}
    (fraction : ∀ c ∈ fs.take k, isDecimal c) (power : (fs.drop k).take j ∈ optional exponent)
    (some : digitRun cs ≠ 0 ∨ fs.take k ≠ []) : cs.take (digitRun cs + 1 + k + j) ∈ decimalNumeral := by
  refine mem_decimalNumeral.mpr
    ⟨_, '.' :: fs.take k, _, take_digitRun cs, power, ?_, .inr ⟨_, rfl, fraction, some.imp take_ne_nil_of_digitRun id⟩⟩
  rw [Nat.add_assoc, Nat.add_assoc, List.take_add, cut, Nat.add_comm 1, List.take_succ_cons, List.take_add]
  rfl

theorem take_of_mem_decimalReadings (h : n ∈ decimalReadings cs) : cs.take n ∈ decimalNumeral := by
  rw [decimalReadings_eq] at h
  dsimp only at h
  split at h
  · rename_i found
    obtain ⟨fs, cut⟩ : ∃ fs, cs.drop (digitRun cs) = '.' :: fs := by
      cases cut : cs.drop (digitRun cs) with
      | nil => simp [cut] at found
      | cons c fs => exact ⟨fs, by simpa [cut] using found⟩
    have next : cs.drop (digitRun cs + 1) = fs := by rw [← List.drop_drop, cut, List.drop_one, List.tail_cons]
    have further : cs.drop (digitRun cs + 1 + digitRun fs) = fs.drop (digitRun fs) := by rw [← List.drop_drop, next]
    rw [next, further] at h
    have full := take_pointed cut (take_digitRun fs) (take_exponentLength _)
    have short := take_pointed cut (j := 0) (take_digitRun fs) (.inl rfl)
    split at h
    · split at h
      · cases h
      · rename_i fraction
        have some : fs.take (digitRun fs) ≠ [] := take_ne_nil_of_digitRun (by simpa using fraction)
        rcases List.mem_pair.mp h with rfl | rfl
        · exact full (.inr some)
        · exact short (.inr some)
    · rename_i whole
      have whole : digitRun cs ≠ 0 := by simpa using whole
      simp only [List.mem_cons, List.not_mem_nil, or_false] at h
      rcases h with rfl | rfl | rfl | rfl
      · exact full (.inl whole)
      · exact short (.inl whole)
      · exact take_pointed cut (k := 0) (j := 0) (by simp) (.inl rfl) (.inl whole)
      · exact take_bare (n := 0) whole (.inl rfl)
  · split at h
    · cases h
    · rename_i whole
      have whole : digitRun cs ≠ 0 := by simpa using whole
      rcases List.mem_pair.mp h with rfl | rfl
      · exact take_bare whole (take_exponentLength _)
      · exact take_bare (n := 0) whole (.inl rfl)

theorem length_mem_hexReading (h : w ∈ hexNumeral) (stop : WordBreak w rest) : w.length ∈ hexReading (w ++ rest) := by
  obtain ⟨x, ds, mark, nonempty, all, rfl⟩ := mem_hexNumeral.mp h
  have ended : rest.head?.any isHexDigit = false :=
    WordBreak.stops (w := ['0', x]) (fun _ => isWord_of_isHexDigit) nonempty all stop
  have run := takeWhile_run all ended
  simp [hexReading, run, mark, nonempty]

section readings
variable {whole t : List Char}

theorem mem_decimalReadings_bare (digits : ∀ c ∈ whole, isDecimal c) (nonempty : whole ≠ [])
    (stop : t.head?.any isDecimal = false) :
    whole.length ∈ decimalReadings (whole ++ t) ∧
      (t.head? ≠ some '.' → whole.length + exponentLength t ∈ decimalReadings (whole ++ t)) := by
  have run := digitRun_run digits stop
  rw [decimalReadings_eq]
  dsimp only
  rw [run, List.drop_left]
  constructor
  · split <;> simp [nonempty]
  · intro noPoint
    have point : t.head?.any (· == '.') = false := by
      cases t with
      | nil => rfl
      | cons c t => simpa using noPoint
    simp [point, nonempty]

theorem mem_decimalReadings_point (digits : ∀ c ∈ whole, isDecimal c) (ds : List Char) :
    (whole ≠ [] → whole.length + 1 ∈ decimalReadings (whole ++ '.' :: (ds ++ t))) ∧
      ((∀ c ∈ ds, isDecimal c) → t.head?.any isDecimal = false → whole ≠ [] ∨ ds ≠ [] →
        whole.length + 1 + ds.length ∈ decimalReadings (whole ++ '.' :: (ds ++ t)) ∧
        whole.length + 1 + ds.length + exponentLength t ∈ decimalReadings (whole ++ '.' :: (ds ++ t))) := by
  have run : digitRun (whole ++ '.' :: (ds ++ t)) = whole.length := digitRun_run digits (by simp; decide)
  have next : (whole ++ '.' :: (ds ++ t)).drop (whole.length + 1) = ds ++ t := by
    rw [← List.drop_drop, List.drop_left, List.drop_one, List.tail_cons]
  rw [decimalReadings_eq]
  dsimp only
  rw [run, List.drop_left, next, if_pos (by rfl)]
  constructor
  · intro nonempty
    simp [nonempty]
  · intro fraction stop nonempty
    rw [digitRun_run fraction stop, ← List.drop_drop, next, List.drop_left]
    by_cases empty : whole = []
    · have some : ds ≠ [] := nonempty.resolve_left (by simp [empty])
      simp [empty, some]
    · simp [empty]

end readings

theorem length_mem_decimalReadings (h : w ∈ decimalNumeral) (stop : WordBreak w rest) :
    w.length ∈ decimalReadings (w ++ rest) := by
  obtain ⟨whole, fraction, power, digits, hp, rfl, form⟩ := mem_decimalNumeral.mp h
  rcases form with ⟨rfl, nonempty⟩ | ⟨ds, rfl, all, nonempty⟩
  · rw [List.nil_append] at stop ⊢
    rcases mem_optional.mp hp with rfl | hp
    · rw [List.append_nil] at stop ⊢
      have ended := WordBreak.stops (w := []) (fun _ => isWord_of_isDecimal) nonempty digits stop
      exact (mem_decimalReadings_bare digits nonempty ended).1
    · have length := exponentLength_run hp (stop.stops_exponent hp)
      obtain ⟨e, v, rfl, notDecimal, notPoint⟩ := exponent_head hp
      have full := (mem_decimalReadings_bare (t := e :: v ++ rest) digits nonempty (by simpa using notDecimal)).2
        (by simpa using notPoint)
      rw [length] at full
      rwa [List.append_assoc, List.length_append]
  · rcases mem_optional.mp hp with rfl | hp
    · rw [List.append_nil] at stop ⊢
      by_cases empty : ds = []
      · subst empty
        have point := (mem_decimalReadings_point (t := rest) digits []).1 (nonempty.resolve_right (by simp))
        rwa [List.append_assoc, List.length_append]
      · have ended : rest.head?.any isDecimal = false :=
          WordBreak.stops (w := whole ++ ['.']) (fun _ => isWord_of_isDecimal) empty all (by simpa using stop)
        have short := ((mem_decimalReadings_point (t := rest) digits ds).2 all ended nonempty).1
        rw [List.append_assoc, List.length_append, List.length_cons, List.cons_append]
        rwa [Nat.add_assoc, Nat.add_comm 1] at short
    · rw [← List.append_assoc] at stop
      have length := exponentLength_run hp (stop.stops_exponent hp)
      obtain ⟨e, v, rfl, notDecimal, _⟩ := exponent_head hp
      have full := ((mem_decimalReadings_point (t := e :: v ++ rest) digits ds).2 all (by simpa using notDecimal)
        nonempty).2
      have text : whole ++ ('.' :: ds ++ e :: v) ++ rest = whole ++ '.' :: (ds ++ (e :: v ++ rest)) := by simp
      have size : (whole ++ ('.' :: ds ++ e :: v)).length = whole.length + 1 + ds.length + (e :: v).length := by
        simp only [List.length_append, List.length_cons]
        omega
      rwa [text, size, ← length]

theorem unsigned?_mem (h : unsigned? cs = some n) :
    cs.take n ∈ hexNumeral + decimalNumeral ∧ WordBreak (cs.take n) (cs.drop n) := by
  have ends : endsAtBoundary cs n := List.find?_some h
  refine ⟨?_, ends⟩
  rcases List.mem_append.mp (List.mem_of_find?_eq_some h) with hex | decimal
  · exact .inl (take_of_mem_hexReading hex)
  · exact .inr (take_of_mem_decimalReadings decimal)

theorem unsigned?_isSome (h : w ∈ hexNumeral + decimalNumeral) (stop : WordBreak w rest) :
    (unsigned? (w ++ rest)).isSome := by
  have ends : endsAtBoundary (w ++ rest) w.length := by
    rw [endsAtBoundary, List.take_left, List.drop_left]
    exact stop
  refine List.find?_isSome.mpr ⟨w.length, List.mem_append.mpr ?_, ends⟩
  exact h.imp (length_mem_hexReading · stop) (length_mem_decimalReadings · stop)

theorem unsigned_cons (h : w ∈ hexNumeral + decimalNumeral) : ∃ c v, w = c :: v ∧ (isDecimal c ∨ c = '.') := by
  rcases h with hex | decimal
  · obtain ⟨x, ds, _, _, _, rfl⟩ := mem_hexNumeral.mp hex
    exact ⟨'0', x :: ds, rfl, .inl (by decide)⟩
  · obtain ⟨whole, fraction, power, digits, _, rfl, form⟩ := mem_decimalNumeral.mp decimal
    cases whole with
    | cons c whole => exact ⟨c, _, rfl, .inl (digits c List.mem_cons_self)⟩
    | nil =>
      obtain ⟨ds, rfl, _⟩ := form.resolve_left (by simp)
      exact ⟨'.', _, rfl, .inr rfl⟩

theorem WordBreak.cons_iff (nonempty : w ≠ []) : WordBreak (c :: w) rest ↔ WordBreak w rest := by
  rw [WordBreak, WordBreak, ← List.singleton_append, List.getLast?_append_of_ne_nil _ nonempty]

theorem number?_mem (h : number? (c :: cs) = some n) :
    c :: cs.take n ∈ numeral ∧ WordBreak (c :: cs.take n) (cs.drop n) := by
  rw [number?] at h
  split at h
  · rename_i isSign
    obtain ⟨word, stop⟩ := unsigned?_mem h
    obtain ⟨d, v, first, _⟩ := unsigned_cons word
    exact ⟨Language.append_mem_mul (a := [c]) (.inr ⟨c, isSign, rfl⟩) word,
      (WordBreak.cons_iff (by simp [first])).mpr stop⟩
  · obtain ⟨k, found, rfl⟩ := Option.map_eq_some_iff.mp h
    obtain ⟨word, stop⟩ := unsigned?_mem found
    cases k with
    | zero =>
      obtain ⟨d, v, first, _⟩ := unsigned_cons word
      cases first
    | succ k => exact ⟨Language.append_mem_mul (a := []) (.inl rfl) word, stop⟩

theorem number?_isSome (h : w ∈ numeral) (stop : WordBreak w rest) : (number? (w ++ rest)).isSome := by
  obtain ⟨s, hs, u, word, rfl⟩ := Language.mem_mul.mp h
  obtain ⟨c, v, rfl, first⟩ := unsigned_cons word
  rcases mem_optional.mp hs with rfl | ⟨d, isSign, rfl⟩
  · have noSign := not_sign first
    have found : (unsigned? (c :: (v ++ rest))).isSome := unsigned?_isSome word stop
    simp [number?, noSign, found]
  · have found : (unsigned? (c :: (v ++ rest))).isSome :=
      unsigned?_isSome word ((WordBreak.cons_iff (by simp)).mp stop)
    simpa [number?, isSign] using found

end numbers

section tokens
variable {c : Char} {w cs rest : List Char} {n : Nat}

theorem isToken_of_lexeme? (h : lexeme? (c :: cs) = some ⟨.token, n⟩) : IsToken (c :: cs.take n) (cs.drop n) := by
  have token := (lexeme?_eq_token.mp h).2.2
  simp only [token?, Option.orElse_eq_orElse, Option.orElse_eq_or, Option.or_eq_some_iff] at token
  rcases token with found | ⟨_, found | ⟨_, found | ⟨_, found⟩⟩⟩
  · exact .string (string?_mem found)
  · obtain ⟨word, stop⟩ := number?_mem found
    exact .numeral word stop
  · exact .name (name?_mem found)
  · obtain rfl := punctuation?_eq_zero found
    rw [punctuation?] at found
    refine .punctuation ⟨c, ?_, rfl⟩
    by_contra other
    simp [other] at found

theorem lexeme?_isSome (h : Matches w rest) : (lexeme? (w ++ rest)).isSome := by
  have found : (comment? (w ++ rest)).isSome ∨ (blanks? (w ++ rest)).isSome ∨ (string? (w ++ rest)).isSome ∨
      (number? (w ++ rest)).isSome ∨ (name? (w ++ rest)).isSome ∨ (punctuation? (w ++ rest)).isSome := by
    rcases h with ((blank | block) | line) | (word | ⟨word, stop⟩ | word | word)
    · exact .inr (.inl (blanks?_isSome blank rest))
    · exact .inl (comment?_isSome (.inl block) rest)
    · exact .inl (comment?_isSome (.inr line) rest)
    · exact .inr (.inr (.inl (string?_isSome word rest)))
    · exact .inr (.inr (.inr (.inl (number?_isSome word stop))))
    · exact .inr (.inr (.inr (.inr (.inl (name?_isSome word rest)))))
    · obtain ⟨c, mark, rfl⟩ := word
      exact .inr (.inr (.inr (.inr (.inr (by simp [punctuation?, mark])))))
  simpa [lexeme?] using found

theorem IsGap.matches (h : IsGap w rest) : Matches w rest := by
  rcases h with word | ⟨word, _⟩ | ⟨word, _⟩
  · exact .inl (.inl (.inl word))
  · exact .inl (.inl (.inr word))
  · exact .inl (.inr word)

/-- No lexeme is found exactly where no word of the grammar stands. -/
theorem lexeme?_eq_none_iff : lexeme? cs = none ↔ ∀ w rest, cs = w ++ rest → ¬ Matches w rest := by
  constructor
  · rintro none w rest rfl stands
    have found := lexeme?_isSome stands
    simp [none] at found
  · intro nothing
    by_contra some
    obtain ⟨⟨kind, n⟩, found⟩ := Option.ne_none_iff_exists'.mp some
    cases cs with
    | nil => cases found
    | cons c cs =>
      refine nothing (c :: cs.take n) (cs.drop n) (by simp) ?_
      cases kind with
      | gap => exact (isGap_of_lexeme? found).matches
      | token => exact .inr (isToken_of_lexeme? found)

theorem IsToken.ne_nil (h : IsToken w rest) : w ≠ [] := by
  rintro rfl
  rcases h with word | ⟨_, stop⟩ | word | ⟨c, _, empty⟩
  · obtain ⟨mark, _, word⟩ := mem_string.mp word
    obtain ⟨items, _, empty⟩ := mem_quoted.mp word
    cases empty
  · cases stop
  · obtain ⟨dot, first, more, _, word, _, empty⟩ := mem_name.mp word
    obtain ⟨c, cs, _, _, rfl⟩ := mem_one_mul.mp word
    simp at empty
  · cases empty

end tokens

end SchemaGen.Lexical
