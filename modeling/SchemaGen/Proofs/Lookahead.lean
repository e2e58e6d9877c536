import SchemaGen.Token.Scan
import Mathlib.Data.List.Find
import Mathlib.Data.List.TakeWhile
/-!
# How far a token looks ahead

A gap begins with a blank or with the slash of a comment. Neither can stand in a number or a name, so that a token
is read from the text before the next gap alone, whatever the gap is and whatever comes after it.
-/
namespace SchemaGen
open Text Lexeme

def blankCodes : List Nat :=
  blankRanges.flatMap fun r => List.range' r.1 (r.2 + 1 - r.1)

theorem mem_blankCodes {c : Char} (h : isBlank c) : c.toNat ∈ blankCodes := by
  obtain ⟨r, hr, inside⟩ := List.any_eq_true.mp h
  simp only [Bool.and_eq_true, decide_eq_true_eq] at inside
  refine List.mem_flatMap.mpr ⟨r, hr, ?_⟩
  rw [List.mem_range'_1]
  omega

theorem forall_blank (test : Char → Bool) (all : blankCodes.all fun n => test (Char.ofNat n)) {c : Char}
    (h : isBlank c) : test c := by
  have passed := List.all_eq_true.mp all _ (mem_blankCodes h)
  rwa [Char.ofNat_toNat] at passed

/-- The character begins a gap: it is a blank, or a slash as comments have it. -/
def isBreak (c : Char) : Bool :=
  isBlank c || c == '/'

/-- The character has no place in a number or a name, and neither opens a string nor a block comment. -/
structure StandsApart (c : Char) : Prop where
  word : isWord c = false
  decimal : isDecimal c = false
  hexDigit : isHexDigit c = false
  namePart : isNamePart c = false
  nameStart : isNameStart c = false
  mark : c ∉ ['.', 'e', 'E', 'x', 'X', '+', '-', '*', '"', '\x27']

instance (c : Char) : Decidable (StandsApart c) :=
  decidable_of_iff (isWord c = false ∧ isDecimal c = false ∧ isHexDigit c = false ∧ isNamePart c = false ∧
      isNameStart c = false ∧ c ∉ ['.', 'e', 'E', 'x', 'X', '+', '-', '*', '"', '\x27'])
    ⟨fun ⟨a, b, c, d, e, f⟩ => ⟨a, b, c, d, e, f⟩, fun ⟨a, b, c, d, e, f⟩ => ⟨a, b, c, d, e, f⟩⟩

theorem standsApart_of_isBreak {c : Char} (h : isBreak c) : StandsApart c := by
  rcases Bool.or_eq_true _ _ ▸ h with blank | slash
  · exact of_decide_eq_true (forall_blank (fun c => decide (StandsApart c)) (by decide +kernel) blank)
  · obtain rfl := eq_of_beq slash
    decide +kernel

/-- The text is over, or a gap may begin here. -/
def AtBreak (cs : List Char) : Prop :=
  ∀ c ∈ cs.head?, isBreak c

theorem AtBreak.head {c : Char} {cs : List Char} (h : AtBreak (c :: cs)) : StandsApart c :=
  standsApart_of_isBreak (h c rfl)

section lookahead
variable {u x : List Char}

theorem takeWhile_append_break {p : Char → Bool} (other : ∀ c, StandsApart c → p c = false) (h : AtBreak x) :
    (u ++ x).takeWhile p = u.takeWhile p := by
  induction u with
  | nil =>
    cases x with
    | nil => rfl
    | cons c cs => simp [other c h.head]
  | cons c u ih => simp only [List.cons_append, List.takeWhile_cons, ih]

theorem digitRun_append (h : AtBreak x) : digitRun (u ++ x) = digitRun u := by
  unfold digitRun
  rw [takeWhile_append_break (fun _ apart => apart.decimal) h]

theorem digitRun_le (cs : List Char) : digitRun cs ≤ cs.length :=
  (List.takeWhile_prefix _).length_le

theorem head?_any_append {p : Char → Bool} (other : ∀ c, StandsApart c → p c = false) (h : AtBreak x) :
    (u ++ x).head?.any p = u.head?.any p := by
  cases u with
  | nil =>
    cases x with
    | nil => rfl
    | cons c cs => simpa using other c h.head
  | cons c u => rfl

theorem drop_append_break {n : Nat} (h : n ≤ u.length) : (u ++ x).drop n = u.drop n ++ x :=
  List.drop_append_of_le_length h

def signWidth (cs : List Char) : Nat :=
  if cs.head?.any fun s => s == '+' || s == '-' then 1 else 0

theorem signWidth_append (h : AtBreak x) : signWidth (u ++ x) = signWidth u := by
  unfold signWidth
  rw [head?_any_append _ h]
  intro c apart
  have mark := apart.mark
  simp_all

theorem signWidth_le (cs : List Char) : signWidth cs ≤ cs.length := by
  cases cs with
  | nil => exact Nat.le_refl 0
  | cons c cs =>
    unfold signWidth
    split <;> simp

theorem exponentLength_cons (e : Char) (cs : List Char) :
    exponentLength (e :: cs) =
      if e == 'e' || e == 'E' then
        let run := digitRun (cs.drop (signWidth cs))
        if run == 0 then 0 else 1 + signWidth cs + run
      else 0 := by
  cases cs with
  | nil => rfl
  | cons s cs => rfl

theorem exponentLength_append (h : AtBreak x) : exponentLength (u ++ x) = exponentLength u := by
  cases u with
  | nil =>
    cases x with
    | nil => rfl
    | cons c cs =>
      have mark := h.head.mark
      rw [List.nil_append, exponentLength_cons, if_neg (by simp_all)]
      rfl
  | cons e cs =>
    rw [List.cons_append, exponentLength_cons, exponentLength_cons, signWidth_append h,
      drop_append_break (signWidth_le cs), digitRun_append h]

theorem exponentLength_le (cs : List Char) : exponentLength cs ≤ cs.length := by
  cases cs with
  | nil => exact Nat.le_refl 0
  | cons e cs =>
    have run := digitRun_le (cs.drop (signWidth cs))
    have sign := signWidth_le cs
    rw [List.length_drop] at run
    rw [exponentLength_cons, List.length_cons]
    dsimp only
    split
    · split <;> omega
    · omega

theorem hexReading_append (h : AtBreak x) : hexReading (u ++ x) = hexReading u := by
  match u with
  | [] =>
    cases x with
    | nil => rfl
    | cons c x =>
      have zero : c ≠ '0' := by
        rintro rfl
        exact absurd h.head.decimal (by decide)
      rw [List.nil_append, hexReading]
      · rfl
      · simp [zero]
  | [a] =>
    cases x with
    | nil => rfl
    | cons c x =>
      have mark := h.head.mark
      by_cases zero : a = '0'
      · subst zero
        simp_all [hexReading]
      · simp [hexReading, zero]
  | a :: b :: cs =>
    by_cases zero : a = '0'
    · subst zero
      simp only [List.cons_append, hexReading, takeWhile_append_break (fun _ apart => apart.hexDigit) h]
    · simp [hexReading, zero]

theorem decimalReadings_eq (cs : List Char) :
    decimalReadings cs =
      let whole := digitRun cs
      let fraction := digitRun (cs.drop (whole + 1))
      let width := whole + 1 + fraction
      let full := width + exponentLength (cs.drop width)
      if (cs.drop whole).head?.any (· == '.') then
        if whole == 0 then if fraction == 0 then [] else [full, width] else [full, width, whole + 1, whole]
      else if whole == 0 then [] else [whole + exponentLength (cs.drop whole), whole] := by
  unfold decimalReadings
  dsimp only
  split
  · rename_i fs cut
    have next : cs.drop (digitRun cs + 1) = fs := by
      rw [← List.drop_drop, cut, List.drop_one, List.tail_cons]
    simp [cut, next]
  · rename_i other
    have noPoint : (cs.drop (digitRun cs)).head?.any (· == '.') = false := by
      cases cut : cs.drop (digitRun cs) with
      | nil => rfl
      | cons c fs =>
        have different : c ≠ '.' := fun same => other fs (same ▸ cut)
        simpa using different
    rw [noPoint]
    rfl

theorem lt_length_of_head?_drop {cs : List Char} {n : Nat} {p : Char → Bool} (h : (cs.drop n).head?.any p) :
    n < cs.length := by
  by_contra short
  simp [List.drop_of_length_le (Nat.le_of_not_lt short)] at h

/-- The point of a number is followed by digits and an exponent, all before the break. -/
theorem decimalReadings_append (h : AtBreak x) : decimalReadings (u ++ x) = decimalReadings u := by
  rw [decimalReadings_eq, decimalReadings_eq]
  have point : ∀ c, StandsApart c → (c == '.') = false := by
    intro c apart
    have mark := apart.mark
    simp_all
  simp only [digitRun_append h, drop_append_break (digitRun_le u), head?_any_append point h, exponentLength_append h]
  split
  · rename_i found
    have here := lt_length_of_head?_drop found
    have fraction := digitRun_le (u.drop (digitRun u + 1))
    rw [List.length_drop] at fraction
    have width : digitRun u + 1 + digitRun (u.drop (digitRun u + 1)) ≤ u.length := by omega
    rw [drop_append_break here, digitRun_append h, drop_append_break width, exponentLength_append h]
  · rfl

theorem hexReading_le {n : Nat} (h : n ∈ hexReading u) : n ≤ u.length := by
  unfold hexReading at h
  split at h
  · rename_i mark cs
    have run := (cs.takeWhile_prefix isHexDigit).length_le
    dsimp only at h
    split at h
    · obtain rfl := List.mem_singleton.mp h
      simpa using run
    · cases h
  · cases h

theorem decimalReadings_le {n : Nat} (h : n ∈ decimalReadings u) : n ≤ u.length := by
  rw [decimalReadings_eq] at h
  dsimp only at h
  have whole := digitRun_le u
  split at h
  · rename_i found
    have here := lt_length_of_head?_drop found
    have fraction := digitRun_le (u.drop (digitRun u + 1))
    have exponent := exponentLength_le (u.drop (digitRun u + 1 + digitRun (u.drop (digitRun u + 1))))
    rw [List.length_drop] at fraction exponent
    split at h
    · split at h
      · cases h
      · simp only [List.mem_cons, List.not_mem_nil, or_false] at h
        omega
    · simp only [List.mem_cons, List.not_mem_nil, or_false] at h
      omega
  · have exponent := exponentLength_le (u.drop (digitRun u))
    rw [List.length_drop] at exponent
    split at h
    · cases h
    · simp only [List.mem_cons, List.not_mem_nil, or_false] at h
      omega

theorem endsAtBoundary_append {n : Nat} (h : AtBreak x) (bound : n ≤ u.length) :
    endsAtBoundary (u ++ x) n = endsAtBoundary u n := by
  unfold endsAtBoundary atWordBoundary
  rw [List.take_append_of_le_length bound, drop_append_break bound, head?_any_append (fun _ apart => apart.word) h]

theorem unsigned?_append (h : AtBreak x) : unsigned? (u ++ x) = unsigned? u := by
  unfold unsigned?
  rw [hexReading_append h, decimalReadings_append h]
  refine List.find?_congr fun n hn => endsAtBoundary_append h ?_
  rcases List.mem_append.mp hn with hn | hn
  · exact hexReading_le hn
  · exact decimalReadings_le hn

theorem number?_append {c : Char} (h : AtBreak x) : number? (c :: u ++ x) = number? (c :: u) := by
  have whole : unsigned? (c :: u ++ x) = unsigned? (c :: u) := unsigned?_append h
  rw [List.cons_append] at whole ⊢
  simp only [number?, unsigned?_append h, whole]

theorem nameRun_append (h : AtBreak x) : nameRun (u ++ x) = nameRun u := by
  induction u with
  | nil =>
    cases x with
    | nil => rfl
    | cons c x =>
      have mark := h.head.mark
      simp only [List.mem_cons, not_or] at mark
      simp [nameRun, h.head.namePart, mark]
  | cons c u ih =>
    rw [List.cons_append, nameRun, nameRun, ih, head?_any_append (fun _ apart => apart.nameStart) h]

theorem name?_append {c : Char} (h : AtBreak x) : name? (c :: u ++ x) = name? (c :: u) := by
  rw [List.cons_append, name?, name?, nameRun_append h, head?_any_append (fun _ apart => apart.nameStart) h]

theorem stringRest?_plain {mark c : Char} {cs : List Char} (h : c ≠ '\\') :
    stringRest? mark (c :: cs) =
      if c == mark then some 1 else if c == '\n' then none else (stringRest? mark cs).map (· + 1) := by
  simp [stringRest?, h]

theorem stringRest?_take {mark : Char} (other : mark ≠ '\\') {cs : List Char} {n : Nat}
    (h : stringRest? mark cs = some n) : n ≤ cs.length ∧ stringRest? mark (cs.take n) = some n := by
  fun_induction stringRest? mark cs generalizing n with
  | case1 => cases h
  | case2 => cases h
  | case3 c cs notNewline ih =>
    obtain ⟨k, rest, rfl⟩ := Option.map_eq_some_iff.mp h
    obtain ⟨bound, taken⟩ := ih rest
    simp [stringRest?, notNewline, taken, bound]
  | case4 c cs _ isMark =>
    obtain rfl := eq_of_beq isMark
    cases h
    simp [stringRest?_plain other]
  | case5 => cases h
  | case6 c cs _ notMark plain ih =>
    obtain ⟨k, rest, rfl⟩ := Option.map_eq_some_iff.mp h
    obtain ⟨bound, taken⟩ := ih rest
    simp only [Bool.or_eq_true, beq_iff_eq, not_or] at plain notMark
    simp [stringRest?_plain plain.2, notMark, plain.1, taken, bound]

theorem stringRest?_append {mark : Char} (other : mark ≠ '\\') {n : Nat} (h : stringRest? mark u = some n)
    (x : List Char) : stringRest? mark (u ++ x) = some n := by
  fun_induction stringRest? mark u generalizing n with
  | case1 => cases h
  | case2 => cases h
  | case3 c cs notNewline ih =>
    obtain ⟨k, rest, rfl⟩ := Option.map_eq_some_iff.mp h
    simp [stringRest?, notNewline, ih rest]
  | case4 c cs _ isMark =>
    obtain rfl := eq_of_beq isMark
    cases h
    simp [stringRest?_plain other]
  | case5 => cases h
  | case6 c cs _ notMark plain ih =>
    obtain ⟨k, rest, rfl⟩ := Option.map_eq_some_iff.mp h
    simp only [Bool.or_eq_true, beq_iff_eq, not_or] at plain notMark
    simp [stringRest?_plain plain.2, notMark, plain.1, ih rest]

/-- The token at the start of a text where neither a comment nor a blank stands. -/
def token? (cs : List Char) : Option Nat :=
  string? cs <|> number? cs <|> name? cs <|> punctuation? cs

theorem lexeme?_eq_token {cs : List Char} {n : Nat} :
    lexeme? cs = some ⟨.token, n⟩ ↔ comment? cs = none ∧ blanks? cs = none ∧ token? cs = some n := by
  unfold lexeme? token?
  cases comment? cs <;> cases blanks? cs <;> cases string? cs <;> cases number? cs <;> cases name? cs <;>
    cases punctuation? cs <;> simp

theorem unsigned?_eq_none {c : Char} (decimal : isDecimal c = false) (point : c ≠ '.') (cs : List Char) :
    unsigned? (c :: cs) = none := by
  have zero : c ≠ '0' := by
    rintro rfl
    exact absurd decimal (by decide)
  have hex : hexReading (c :: cs) = [] := by simp [hexReading, zero]
  have whole : digitRun (c :: cs) = 0 := by simp [digitRun, decimal]
  have readings : decimalReadings (c :: cs) = [] := by simp [decimalReadings_eq, whole, point]
  rw [unsigned?, hex, readings]
  rfl

theorem token?_quote {mark : Char} (h : mark = '"' ∨ mark = '\x27') (cs : List Char) :
    token? (mark :: cs) = stringRest? mark cs := by
  have number : number? (mark :: cs) = none := by
    have unsigned : unsigned? (mark :: cs) = none := by
      rcases h with rfl | rfl
      · exact unsigned?_eq_none (by decide) (by decide) cs
      · exact unsigned?_eq_none (by decide) (by decide) cs
    rcases h with rfl | rfl <;> simp [number?, unsigned]
  have name : name? (mark :: cs) = none := by
    have start : isNameStart mark = false := by rcases h with rfl | rfl <;> decide
    rcases h with rfl | rfl <;> simp [name?, start]
  have punctuation : punctuation? (mark :: cs) = none := by
    have other : isPunctuation mark = false := by rcases h with rfl | rfl <;> decide
    simp [punctuation?, other]
  unfold token?
  rw [number, name, punctuation]
  rcases h with rfl | rfl <;> simp [string?]

theorem token?_append {c : Char} (plain : ¬ (c = '"' ∨ c = '\x27')) (h : AtBreak x) :
    token? (c :: u ++ x) = token? (c :: u) := by
  unfold token?
  rw [number?_append h, name?_append h]
  simp [string?, punctuation?, plain]

theorem blockComment?_append {n : Nat} (h : blockComment? u = some n) (x : List Char) :
    blockComment? (u ++ x) = some n := by
  fun_induction blockComment? u generalizing n with
  | case1 cs => exact h
  | case2 c cs other ih =>
    obtain ⟨k, rest, rfl⟩ := Option.map_eq_some_iff.mp h
    have other : ∀ ds, c = '*' → cs ++ x = '/' :: ds → False := by
      intro ds star slash
      cases cs with
      | nil => cases rest
      | cons d cs =>
        rw [List.cons_append, List.cons.injEq] at slash
        exact other cs star (by rw [slash.1])
    rw [List.cons_append, blockComment?, ih rest]
    · rfl
    · exact other
  | case3 => cases h

theorem comment?_of_append (h : comment? (u ++ x) = none) : comment? u = none := by
  fun_cases comment? u with
  | case1 cs =>
    simp only [List.cons_append, comment?, Option.map_eq_none_iff] at h
    cases inside : blockComment? cs with
    | none => rfl
    | some n => simp [blockComment?_append inside x] at h
  | case2 cs => simp [comment?] at h
  | case3 => rfl

theorem comment?_eq_none {c d : Char} {cs : List Char} (h : c = '/' → d ≠ '*' ∧ d ≠ '/') :
    comment? (c :: d :: cs) = none := by
  by_cases slash : c = '/'
  · obtain ⟨star, second⟩ := h slash
    simp [comment?, star, second]
  · simp [comment?, slash]

/-- Only a slash before a star depends on what comes later, and a blank makes no comment of what was none. -/
theorem comment?_append {c : Char} (h : comment? (c :: u) = none) (noBlock : c = '/' → u.head? ≠ some '*')
    (blank : ∀ d ∈ x.head?, isBlank d) : comment? (c :: u ++ x) = none := by
  cases u with
  | nil =>
    cases x with
    | nil => exact h
    | cons d x =>
      have isBlank := blank d rfl
      refine comment?_eq_none fun _ => ⟨?_, ?_⟩
      · rintro rfl
        exact absurd isBlank (by decide)
      · rintro rfl
        exact absurd isBlank (by decide)
  | cons d u =>
    refine comment?_eq_none fun slash => ⟨?_, ?_⟩
    · rintro rfl
      exact noBlock slash rfl
    · rintro rfl
      subst slash
      simp [comment?] at h

theorem blanks?_cons {c : Char} {cs : List Char} : blanks? (c :: cs) = none ↔ isBlank c = false := by
  simp [blanks?]

/-- A token before a break is the same one when the text ends at the break. -/
theorem lexeme?_of_append {n : Nat} (h : lexeme? (u ++ x) = some ⟨.token, n⟩) (stop : AtBreak x)
    (inside : n < u.length) : lexeme? u = some ⟨.token, n⟩ := by
  obtain ⟨comment, blanks, token⟩ := lexeme?_eq_token.mp h
  cases u with
  | nil => cases inside
  | cons c u =>
    refine lexeme?_eq_token.mpr ⟨comment?_of_append comment, blanks?_cons.mpr (blanks?_cons.mp blanks), ?_⟩
    by_cases quote : c = '"' ∨ c = '\x27'
    · have other : c ≠ '\\' := by rcases quote with rfl | rfl <;> decide
      rw [List.cons_append, token?_quote quote] at token
      rw [token?_quote quote]
      have fits : n ≤ u.length := Nat.le_of_lt_succ inside
      have taken := (stringRest?_take other token).2
      rw [List.take_append_of_le_length fits] at taken
      have whole := stringRest?_append other taken (u.drop n)
      rwa [List.take_append_drop] at whole
    · rwa [token?_append quote stop] at token

theorem lexeme?_append {n : Nat} (h : lexeme? u = some ⟨.token, n⟩) (noBlock : ∀ cs, u ≠ '/' :: '*' :: cs)
    (blank : ∀ d ∈ x.head?, isBlank d) : lexeme? (u ++ x) = some ⟨.token, n⟩ := by
  obtain ⟨comment, blanks, token⟩ := lexeme?_eq_token.mp h
  have stop : AtBreak x := fun d hd => by simp [isBreak, blank d hd]
  cases u with
  | nil => cases token
  | cons c u =>
    refine lexeme?_eq_token.mpr ⟨comment?_append comment ?_ blank, blanks?_cons.mpr (blanks?_cons.mp blanks), ?_⟩
    · rintro rfl star
      cases u with
      | nil => cases star
      | cons d u =>
        cases star
        exact noBlock u rfl
    by_cases quote : c = '"' ∨ c = '\x27'
    · have other : c ≠ '\\' := by rcases quote with rfl | rfl <;> decide
      rw [token?_quote quote] at token
      rw [List.cons_append, token?_quote quote]
      exact stringRest?_append other token x
    · rwa [token?_append quote stop]

end lookahead

end SchemaGen
