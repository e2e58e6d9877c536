import SchemaGen.Proofs.Coverage
import SchemaGen.Proofs.RoundTrip
import Mathlib.Data.Nat.Digits.Defs
/-!
# Integer literals

What an integer literal means is said by the value of its digits. A token that is one is read as its value, as long as
that fits in 64 bits with sign, and no other token is read as an integer.
-/
namespace SchemaGen
open Text Lexeme Lexical

def digitOf (c : Char) : Nat :=
  "0123456789abcdef".toList.idxOf c.toLower

/-- The number that a row of digits stands for; the last digit counts one. -/
def rowValue (radix : Nat) (ds : List Char) : Nat :=
  Nat.ofDigits radix (ds.reverse.map digitOf)

inductive UnsignedLiteral : List Char → Nat → Prop
  | hex {x : Char} {ds : List Char} (mark : x = 'x' ∨ x = 'X') (nonempty : ds ≠ []) (digits : ∀ d ∈ ds, isHexDigit d) :
    UnsignedLiteral ('0' :: x :: ds) (rowValue 16 ds)
  | octal {ds : List Char} (nonempty : ds ≠ []) (digits : ∀ d ∈ ds, '0' ≤ d ∧ d ≤ '7') :
    UnsignedLiteral ('0' :: ds) (rowValue 8 ds)
  | decimal {ds : List Char} (nonempty : ds ≠ []) (digits : ∀ d ∈ ds, '0' ≤ d ∧ d ≤ '9')
    (leading : ds.head? = some '0' → ds = ['0']) : UnsignedLiteral ds (rowValue 10 ds)

/-- A literal with a sign or without, and its value. -/
inductive IntegerLiteral : List Char → Int → Prop
  | plain {cs : List Char} {n : Nat} (literal : UnsignedLiteral cs n) : IntegerLiteral cs n
  | plus {cs : List Char} {n : Nat} (literal : UnsignedLiteral cs n) : IntegerLiteral ('+' :: cs) n
  | minus {cs : List Char} {n : Nat} (literal : UnsignedLiteral cs n) : IntegerLiteral ('-' :: cs) (-n)

theorem rowValue_cons (radix : Nat) (d : Char) (ds : List Char) :
    rowValue radix (d :: ds) = digitOf d * radix ^ ds.length + rowValue radix ds := by
  rw [rowValue, List.reverse_cons, List.map_append, Nat.ofDigits_append, List.length_map, List.length_reverse]
  simp [rowValue, Nat.ofDigits_singleton]
  ring

section digits
variable {radix n : Nat} {c : Char} {ds : List Char}

theorem isNamePart_of_digitValue? (h : digitValue? c = some n) : isNamePart c := by
  change (decide ('A' ≤ c ∧ c ≤ 'Z') || (decide ('a' ≤ c) && decide (c ≤ 'z')) ||
    (decide ('0' ≤ c) && decide (c ≤ '9')) || c == '_') = true
  unfold digitValue? at h
  split at h
  · rename_i digit
    simp_all
  · split at h
    · rename_i lower
      simp_all
    · split at h
      · rename_i upper
        simp_all
      · cases h

def IsDigit (radix : Nat) (c : Char) : Prop :=
  isHexDigit c ∧ digitOf c < radix

instance (radix : Nat) (c : Char) : Decidable (IsDigit radix c) :=
  inferInstanceAs (Decidable (_ ∧ _))

/-- All about digits that trying them one by one can tell. -/
structure DigitFacts (c : Char) : Prop where
  value : isHexDigit c → digitValue? c = some (digitOf c)
  below : ∀ n ∈ digitValue? c, n < 16 → isHexDigit c ∧ n = digitOf c
  octal : IsDigit 8 c ↔ '0' ≤ c ∧ c ≤ '7'
  decimal : IsDigit 10 c ↔ '0' ≤ c ∧ c ≤ '9'
  hex : IsDigit 16 c ↔ isHexDigit c

theorem digitFacts (c : Char) : DigitFacts c := by
  by_cases part : isNamePart c
  · obtain ⟨value, below, octal, decimal, hex⟩ := isNamePart_induction
      (P := fun c => (isHexDigit c → digitValue? c = some (digitOf c)) ∧
        (∀ n ∈ digitValue? c, n < 16 → isHexDigit c ∧ n = digitOf c) ∧
        (IsDigit 8 c ↔ '0' ≤ c ∧ c ≤ '7') ∧ (IsDigit 10 c ↔ '0' ≤ c ∧ c ≤ '9') ∧ (IsDigit 16 c ↔ isHexDigit c))
      (by decide +kernel) part
    exact ⟨value, below, octal, decimal, hex⟩
  · have noHex : ¬ isHexDigit c := fun h => part (isNamePart_of_isHexDigit h)
    have noDigit : ¬ ('0' ≤ c ∧ c ≤ '9') := by
      rintro ⟨low, high⟩
      have digit : c.isDigit := by
        change (decide ('0' ≤ c) && decide (c ≤ '9')) = true
        simp [low, high]
      exact noHex (by simp [isHexDigit, digit])
    refine ⟨fun h => absurd h noHex, fun n h => absurd (isNamePart_of_digitValue? h) part, ?_, ?_, ?_⟩
    · exact iff_of_false (fun h => noHex h.1) fun h => noDigit ⟨h.1, Char.le_trans h.2 (by decide)⟩
    · exact iff_of_false (fun h => noHex h.1) noDigit
    · exact iff_of_false (fun h => noHex h.1) noHex

theorem digits?_row (value : Nat) (h : ∀ d ∈ ds, IsDigit radix d) :
    digits? radix value ds = some (value * radix ^ ds.length + rowValue radix ds) := by
  induction ds generalizing value with
  | nil => simp [digits?, rowValue]
  | cons d ds ih =>
    obtain ⟨hex, small⟩ := h d List.mem_cons_self
    rw [digits?, (digitFacts d).value hex]
    dsimp only
    rw [if_pos small, ih _ fun e he => h e (List.mem_cons_of_mem d he), rowValue_cons, List.length_cons]
    congr 1
    ring

theorem isDigit_of_digits? (bound : radix ≤ 16) {value : Nat} (h : digits? radix value ds = some n) :
    ∀ d ∈ ds, IsDigit radix d := by
  induction ds generalizing value with
  | nil => simp
  | cons d ds ih =>
    rw [digits?] at h
    split at h
    · rename_i k found
      split at h
      · rename_i small
        obtain ⟨hex, rfl⟩ := (digitFacts d).below k found (by omega)
        exact List.forall_mem_cons.mpr ⟨⟨hex, small⟩, ih h⟩
      · cases h
    · cases h

theorem signedNumeral?_unsigned (noSign : ∀ d ∈ ds.head?, d ≠ '+' ∧ d ≠ '-') :
    signedNumeral? radix ds = ((numeral? radix ds).map fun n : Nat => (n : Int)).filter fitsInt64 := by
  unfold signedNumeral?
  split
  · exact absurd rfl (noSign '-' rfl).2
  · exact absurd rfl (noSign '+' rfl).1
  · cases numeral? radix ds <;> rfl

theorem signedNumeral?_row (nonempty : ds ≠ []) (h : ∀ d ∈ ds, IsDigit radix d) :
    signedNumeral? radix ds = if rowValue radix ds ≤ 2 ^ 63 - 1 then some (rowValue radix ds : Int) else none := by
  obtain ⟨d, ds, rfl⟩ := List.exists_cons_of_ne_nil nonempty
  have noSign : ∀ c ∈ (d :: ds).head?, c ≠ '+' ∧ c ≠ '-' := by
    rintro c ⟨⟩
    have digit := (h d List.mem_cons_self).1
    constructor
    · rintro rfl
      exact absurd digit (by decide)
    · rintro rfl
      exact absurd digit (by decide)
  rw [signedNumeral?_unsigned noSign, numeral?, digits?_row 0 h, Nat.zero_mul, Nat.zero_add, Option.map_some,
    Option.filter_some]
  have fits : fitsInt64 (rowValue radix (d :: ds)) ↔ rowValue radix (d :: ds) ≤ 2 ^ 63 - 1 := by
    simp only [fitsInt64, Bool.and_eq_true, decide_eq_true_eq]
    omega
  simp only [fits]

theorem isDigit_of_signedNumeral? (bound : radix ≤ 16) (noSign : ∀ d ∈ ds.head?, d ≠ '+' ∧ d ≠ '-') {v : Int}
    (h : signedNumeral? radix ds = some v) : ds ≠ [] ∧ ∀ d ∈ ds, IsDigit radix d := by
  rw [signedNumeral?_unsigned noSign] at h
  obtain ⟨n, value, -⟩ := Option.map_eq_some_iff.mp (Option.filter_eq_some_iff.mp h).1
  cases ds with
  | nil => cases value
  | cons d ds => exact ⟨by simp, isDigit_of_digits? bound value⟩

end digits

section literals
variable {cs : List Char} {n : Nat}

theorem UnsignedLiteral.reads (h : UnsignedLiteral cs n) :
    unsignedLiteral? cs = if n ≤ 2 ^ 63 - 1 then some (n : Int) else none := by
  cases h with
  | @hex x ds mark nonempty digits =>
    have row := signedNumeral?_row nonempty fun d hd => (digitFacts d).hex.mpr (digits d hd)
    rcases mark with rfl | rfl <;> rw [unsignedLiteral?, row]
  | @octal ds nonempty digits =>
    have row := signedNumeral?_row nonempty fun d hd => (digitFacts d).octal.mpr (digits d hd)
    obtain ⟨d, ds, rfl⟩ := List.exists_cons_of_ne_nil nonempty
    have noMark : d ≠ 'x' ∧ d ≠ 'X' := by
      have digit := digits d List.mem_cons_self
      constructor
      · rintro rfl
        exact absurd digit (by decide)
      · rintro rfl
        exact absurd digit (by decide)
    simpa [unsignedLiteral?, noMark] using row
  | decimal nonempty digits leading =>
    have row := signedNumeral?_row nonempty fun d hd => (digitFacts d).decimal.mpr (digits d hd)
    obtain ⟨d, ds, rfl⟩ := List.exists_cons_of_ne_nil nonempty
    by_cases zero : d = '0'
    · subst zero
      obtain rfl : ds = [] := (List.cons.inj (leading rfl)).2
      simpa [unsignedLiteral?] using row
    · simpa [unsignedLiteral?, zero] using row

theorem integer?_cons {text : String} {c : Char} (written : text.toList = c :: cs) :
    integer? text = if c = '-' then (unsignedLiteral? cs).map fun n => -n
      else if c = '+' then unsignedLiteral? cs else unsignedLiteral? (c :: cs) := by
  rw [integer?, written]
  by_cases minus : c = '-'
  · subst minus
    simp
  by_cases plus : c = '+'
  · subst plus
    simp
  · simp [minus, plus]

theorem UnsignedLiteral.head (h : UnsignedLiteral cs n) : ∃ c ds, cs = c :: ds ∧ c ≠ '-' ∧ c ≠ '+' := by
  cases h with
  | hex => exact ⟨_, _, rfl, by decide⟩
  | octal => exact ⟨_, _, rfl, by decide⟩
  | decimal nonempty digits _ =>
    obtain ⟨d, ds, rfl⟩ := List.exists_cons_of_ne_nil nonempty
    have digit := digits d List.mem_cons_self
    refine ⟨d, ds, rfl, ?_, ?_⟩
    · rintro rfl
      exact absurd digit (by decide)
    · rintro rfl
      exact absurd digit (by decide)

theorem IntegerLiteral.reads {text : String} {v : Int} (h : IntegerLiteral text.toList v) :
    integer? text = if v.natAbs ≤ 2 ^ 63 - 1 then some v else none := by
  generalize written : text.toList = cs at h
  cases h with
  | plain literal =>
    obtain ⟨c, ds, rfl, minus, plus⟩ := literal.head
    rw [integer?_cons written, if_neg minus, if_neg plus, literal.reads, Int.natAbs_natCast]
  | plus literal =>
    rw [integer?_cons written, if_neg (by decide), if_pos rfl, literal.reads, Int.natAbs_natCast]
  | minus literal =>
    rw [integer?_cons written, if_pos rfl, literal.reads, Int.natAbs_neg, Int.natAbs_natCast]
    split <;> rfl

theorem unsignedLiteral?_other {c : Char} (noDigit : ¬ ('0' ≤ c ∧ c ≤ '9')) (noSign : c ≠ '+' ∧ c ≠ '-') :
    unsignedLiteral? (c :: cs) = none := by
  have zero : c ≠ '0' := by
    rintro rfl
    exact noDigit (by decide)
  have decimal : unsignedLiteral? (c :: cs) = signedNumeral? 10 (c :: cs) := by simp [unsignedLiteral?, zero]
  rw [decimal]
  by_contra some
  obtain ⟨v, read⟩ := Option.ne_none_iff_exists'.mp some
  have digits := (isDigit_of_signedNumeral? (by decide) (by rintro _ ⟨⟩; exact noSign) read).2
  exact noDigit ((digitFacts c).decimal.mp (digits c List.mem_cons_self))

theorem decimalNumeral_second {c d : Char} {ds : List Char} (h : c :: d :: ds ∈ decimalNumeral) (point : c ≠ '.') :
    isDecimal d ∨ d = '.' ∨ d = 'e' ∨ d = 'E' := by
  obtain ⟨whole, fraction, power, digits, hp, split, form⟩ := mem_decimalNumeral.mp h
  rcases whole with _ | ⟨_, _ | ⟨e, whole⟩⟩
  · obtain ⟨fs, rfl, _⟩ := form.resolve_left (by simp)
    exact absurd (List.cons.inj split).1 point
  · have next : d :: ds = fraction ++ power := (List.cons.inj split).2
    rcases form with ⟨rfl, _⟩ | ⟨fs, rfl, _⟩
    · rcases mem_optional.mp hp with rfl | hp
      · cases next
      · obtain ⟨e, _, _, mark, _, _, _, rfl⟩ := mem_exponent.mp hp
        obtain ⟨rfl, _⟩ := List.cons.inj next
        exact .inr (.inr mark)
    · exact .inr (.inl (List.cons.inj next).1)
  · obtain ⟨rfl, _⟩ := List.cons.inj (List.cons.inj split).2
    exact .inl (digits d (by simp))

theorem decimalNumeral_second_ne {c d : Char} {ds : List Char} (h : c :: d :: ds ∈ decimalNumeral) (point : c ≠ '.') :
    d ≠ 'x' ∧ d ≠ 'X' ∧ d ≠ '+' ∧ d ≠ '-' := by
  rcases decimalNumeral_second h point with digit | rfl | rfl | rfl
  · refine ⟨?_, ?_, not_sign (.inl digit)⟩
    · rintro rfl
      exact absurd digit (by decide)
    · rintro rfl
      exact absurd digit (by decide)
  · decide
  · decide
  · decide

theorem exists_unsignedLiteral {w : List Char} (h : w ∈ hexNumeral + decimalNumeral) {v : Int}
    (read : unsignedLiteral? w = some v) : ∃ n, UnsignedLiteral w n := by
  rcases h with hex | decimal
  · obtain ⟨x, ds, mark, nonempty, digits, rfl⟩ := mem_hexNumeral.mp hex
    exact ⟨_, .hex mark nonempty digits⟩
  obtain ⟨c, ds, rfl, first⟩ := unsigned_cons (.inr decimal)
  by_cases zero : c = '0'
  · subst zero
    cases ds with
    | nil => exact ⟨_, .decimal (by simp) (List.forall_mem_singleton.mpr (by decide)) fun _ => rfl⟩
    | cons d ds =>
      obtain ⟨lower, upper, noSign⟩ := decimalNumeral_second_ne decimal (by decide)
      have octal : unsignedLiteral? ('0' :: d :: ds) = signedNumeral? 8 (d :: ds) := by
        rw [unsignedLiteral?]
        · exact lower
        · exact upper
      rw [octal] at read
      obtain ⟨nonempty, digits⟩ := isDigit_of_signedNumeral? (by decide) (by rintro _ ⟨⟩; exact noSign) read
      exact ⟨_, .octal nonempty fun d hd => (digitFacts d).octal.mp (digits d hd)⟩
  · have decimal : unsignedLiteral? (c :: ds) = signedNumeral? 10 (c :: ds) := by simp [unsignedLiteral?, zero]
    rw [decimal] at read
    obtain ⟨nonempty, digits⟩ := isDigit_of_signedNumeral? (by decide) (by rintro _ ⟨⟩; exact not_sign first) read
    exact ⟨_, .decimal nonempty (fun d hd => (digitFacts d).decimal.mp (digits d hd))
      fun first => absurd (Option.some.inj first) zero⟩

/-- A token is a number, a sign by itself, or begins with neither a digit nor a sign. -/
theorem Lexical.IsToken.number_or_other {w rest : List Char} (h : IsToken w rest) :
    (∃ s u, s ∈ optional sign ∧ u ∈ hexNumeral + decimalNumeral ∧ w = s ++ u) ∨ w = ['+'] ∨ w = ['-'] ∨
      ∃ c cs, w = c :: cs ∧ ¬ ('0' ≤ c ∧ c ≤ '9') ∧ c ≠ '+' ∧ c ≠ '-' := by
  have letters {c : Char} (part : isNamePart c) : ('0' ≤ c ∧ c ≤ '9' → ¬ isNameStart c ∧ ¬ isPunctuation c) ∧
      c ≠ '+' ∧ c ≠ '-' :=
    isNamePart_induction (P := fun c => ('0' ≤ c ∧ c ≤ '9' → ¬ isNameStart c ∧ ¬ isPunctuation c) ∧ c ≠ '+' ∧ c ≠ '-')
      (by decide +kernel) part
  rcases h with word | ⟨word, _⟩ | word | ⟨c, mark, rfl⟩
  · obtain ⟨mark, isMark, inside⟩ := mem_string.mp word
    obtain ⟨items, _, rfl⟩ := mem_quoted.mp inside
    exact .inr (.inr (.inr ⟨mark, _, rfl, by rcases isMark with rfl | rfl <;> decide⟩))
  · obtain ⟨s, hs, u, hu, rfl⟩ := Language.mem_mul.mp word
    exact .inl ⟨s, u, hs, hu, rfl⟩
  · obtain ⟨dot, first, more, hdot, hfirst, _, rfl⟩ := mem_name.mp word
    obtain ⟨c, cs, start, _, rfl⟩ := mem_one_mul.mp hfirst
    rcases mem_optional.mp hdot with rfl | rfl
    · obtain ⟨digit, other⟩ := letters (isNamePart_of_isNameStart start)
      exact .inr (.inr (.inr ⟨c, _, rfl, fun h => (digit h).1 start, other⟩))
    · exact .inr (.inr (.inr ⟨'.', _, rfl, by decide⟩))
  · by_cases plus : c = '+'
    · exact .inr (.inl (by rw [plus]))
    by_cases minus : c = '-'
    · exact .inr (.inr (.inl (by rw [minus])))
    refine .inr (.inr (.inr ⟨c, [], rfl, fun digit => ?_, plus, minus⟩))
    have part := isNamePart_of_isHexDigit ((digitFacts c).decimal.mpr digit).1
    exact ((letters part).1 digit).2 mark

theorem exists_unsignedLiteral_of_minus {rest : List Char} (token : IsToken ('-' :: cs) rest) {v : Int}
    (read : unsignedLiteral? cs = some v) : ∃ n, UnsignedLiteral cs n := by
  rcases token.number_or_other with ⟨s, u, hs, hu, split⟩ | split | split | ⟨c, ds, split, _, _, minus⟩
  · rcases mem_optional.mp hs with rfl | ⟨c, _, rfl⟩
    · obtain ⟨d, ds, rfl, first⟩ := unsigned_cons hu
      exact absurd (List.cons.inj split).1.symm (not_sign first).2
    · obtain ⟨_, rfl⟩ := List.cons.inj split
      exact exists_unsignedLiteral hu read
  · cases split
  · obtain ⟨_, rfl⟩ := List.cons.inj split
    cases read
  · exact absurd (List.cons.inj split).1.symm minus

theorem exists_integerLiteral {text : String} {rest : List Char} (token : IsToken text.toList rest) {v : Int}
    (read : integer? text = some v) : ∃ v, IntegerLiteral text.toList v := by
  rcases token.number_or_other with ⟨s, u, hs, hu, written⟩ | written | written | ⟨c, ds, written, noDigit, plus, minus⟩
  · rcases mem_optional.mp hs with rfl | ⟨c, isSign, rfl⟩
    · obtain ⟨d, ds, rfl, first⟩ := unsigned_cons hu
      obtain ⟨plus, minus⟩ := not_sign first
      rw [integer?_cons written, if_neg minus, if_neg plus] at read
      obtain ⟨n, literal⟩ := exists_unsignedLiteral hu read
      exact ⟨n, written ▸ .plain literal⟩
    · rw [List.singleton_append] at written
      rw [integer?_cons written] at read
      simp only [Bool.or_eq_true, beq_iff_eq] at isSign
      rcases isSign with rfl | rfl
      · obtain ⟨n, literal⟩ := exists_unsignedLiteral hu read
        exact ⟨n, written ▸ .plus literal⟩
      · obtain ⟨k, inner, _⟩ := Option.map_eq_some_iff.mp read
        obtain ⟨n, literal⟩ := exists_unsignedLiteral hu inner
        exact ⟨-n, written ▸ .minus literal⟩
  · rw [integer?_cons written] at read
    cases read
  · rw [integer?_cons written] at read
    cases read
  · rw [integer?_cons written, if_neg minus, if_neg plus, unsignedLiteral?_other noDigit ⟨plus, minus⟩] at read
    cases read

end literals

section enumValues
variable {name : String} {n : Int}

def numberWords (name : String) (n : Int) : List String :=
  [name, "=", n.repr, ";"]

theorem isToken_numberWords (named : isIdentifier name) : ∀ word ∈ numberWords name n, isToken word := by
  have marks : isToken "=" ∧ isToken ";" := by decide +kernel
  simp only [numberWords, List.forall_mem_cons]
  exact ⟨isToken_of_isTypeName (isTypeName_of_isIdentifier named), marks.1, isToken_repr n, marks.2, by simp⟩

theorem EnumValue.ofTokens?_numberWords {statement : List Token} (named : isIdentifier name) (fits : fitsInt32 n)
    (written : statement.map (·.text) = numberWords name n) : EnumValue.ofTokens? statement = some ⟨name, n⟩ := by
  have words : statement.map Token.unplaced = (EnumValue.clause ⟨name, n⟩).tokens := by
    calc statement.map Token.unplaced
      _ = (statement.map (·.text)).map Token.ofWord := by rw [List.map_map]; rfl
      _ = (numberWords name n).map Token.ofWord := by rw [written]
  rw [← EnumValue.ofTokens?_map, words]
  exact EnumValue.ofTokens?_clause named fits

end enumValues

/-- A token that is an integer literal is read as its value if that fits in 64 bits with sign, and otherwise not at all,
as every token that is none; what a minus sign negates is not the least number of 64 bits. A number of 32 bits that is
written in decimal as the number of an enum value is read as this number. -/
theorem integers_read_exactly :
    (∀ text ts, Tokens.scan text = .ok ts → ∀ t ∈ ts.withEnd,
      (∀ v, IntegerLiteral t.text.toList v → integer? t.text = if v.natAbs ≤ 2 ^ 63 - 1 then some v else none) ∧
      ((∀ v, ¬ IntegerLiteral t.text.toList v) → integer? t.text = none) ∧
      ∀ cs n, t.text.toList = '-' :: cs → unsignedLiteral? cs = some n → n ≠ -2 ^ 63) ∧
    ∀ (name : String) (n : Int32), Identifier name →
      (∃ ts, Tokens.scan (joinWith " " (numberWords name n.toInt)) = .ok ts ∧ ts.texts = numberWords name n.toInt) ∧
      ∀ ts : Tokens, ts.texts = numberWords name n.toInt → EnumValue.ofTokens? ts.list = some ⟨name, n.toInt⟩ := by
  constructor
  · intro text ts scanned t ht
    refine ⟨fun v literal => literal.reads, fun none => ?_, fun cs n written read => ?_⟩
    · rcases List.mem_append.mp ht with ht | ht
      · obtain ⟨rest, token⟩ := Tokens.isToken_of_scan scanned ht
        by_contra some
        obtain ⟨v, read⟩ := Option.ne_none_iff_exists'.mp some
        obtain ⟨w, literal⟩ := exists_integerLiteral token read
        exact none w literal
      · obtain rfl := List.mem_singleton.mp ht
        rfl
    · rcases List.mem_append.mp ht with ht | ht
      · obtain ⟨rest, token⟩ := Tokens.isToken_of_scan scanned ht
        rw [written] at token
        obtain ⟨k, literal⟩ := exists_unsignedLiteral_of_minus token read
        rw [literal.reads] at read
        split at read
        · cases read
          omega
        · cases read
      · obtain rfl := List.mem_singleton.mp ht
        cases written
  · intro name n named
    have identifier := isIdentifier_iff.mpr named
    have fits : fitsInt32 n.toInt := by
      have low := n.le_toInt
      have high := n.toInt_lt
      simp only [fitsInt32, Bool.and_eq_true, decide_eq_true_eq]
      omega
    refine ⟨Tokens.scan_joinWith (isToken_numberWords identifier), fun ts written => ?_⟩
    exact EnumValue.ofTokens?_numberWords identifier fits written

/-- The least number that is read, the first that is too large, and a row of digits that is no literal. -/
theorem integers_read_exactly_limits : integer? "-0x7fffffffffffffff" = some (-9223372036854775807) ∧
    integer? "9223372036854775808" = none ∧ integer? "08" = none := by
  have tokens : Tokens.scan "-0x7fffffffffffffff 9223372036854775808 08" =
      .ok ⟨[⟨"-0x7fffffffffffffff", ⟨1, 1⟩⟩, ⟨"9223372036854775808", ⟨1, 21⟩⟩, ⟨"08", ⟨1, 41⟩⟩], ⟨1, 43⟩⟩ := by
    decide +kernel
  have read := integers_read_exactly.1 _ _ tokens
  refine ⟨?_, ?_, ?_⟩
  · have literal : IntegerLiteral "-0x7fffffffffffffff".toList (-(rowValue 16 "7fffffffffffffff".toList : Nat)) :=
      .minus (.hex (.inl rfl) (by decide) (List.all_eq_true.mp (by decide)))
    exact (read ⟨"-0x7fffffffffffffff", ⟨1, 1⟩⟩ (by simp [Tokens.withEnd])).1 _ literal
  · have digits : "9223372036854775808".toList.all fun d => decide ('0' ≤ d ∧ d ≤ '9') := by decide
    have literal : IntegerLiteral "9223372036854775808".toList (rowValue 10 "9223372036854775808".toList : Nat) :=
      .plain (.decimal (by decide) (fun d hd => of_decide_eq_true (List.all_eq_true.mp digits d hd)) (by decide))
    exact (read ⟨"9223372036854775808", ⟨1, 21⟩⟩ (by simp [Tokens.withEnd])).1 _ literal
  · refine (read ⟨"08", ⟨1, 41⟩⟩ (by simp [Tokens.withEnd])).2.1 fun v literal => ?_
    replace literal : IntegerLiteral ['0', '8'] v := literal
    cases literal with
    | plain literal =>
      cases literal with
      | hex mark => exact absurd mark (by decide)
      | octal _ digits => exact absurd (digits '8' (by simp)) (by decide)
      | decimal _ _ leading => exact absurd (leading rfl) (by decide)

end SchemaGen
