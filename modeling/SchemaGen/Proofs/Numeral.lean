import SchemaGen.Text.Integer
import Mathlib.Data.List.Basic
/-!
# Numerals

A number that is written in decimal is read back from its digits, with its sign if it has one.
-/
namespace SchemaGen.Text

theorem digits?_append (radix value : Nat) (cs ds : List Char) :
    digits? radix value (cs ++ ds) = (digits? radix value cs).bind fun n => digits? radix n ds := by
  induction cs generalizing value with
  | nil => rfl
  | cons c cs ih =>
    rw [List.cons_append, digits?, digits?]
    cases digitValue? c with
    | none => rfl
    | some d =>
      dsimp only
      split
      · exact ih _
      · rfl

theorem digitValue?_digitChar {d : Nat} (h : d < 10) : digitValue? d.digitChar = some d := by
  have all : ∀ d : Fin 10, digitValue? (Nat.digitChar d) = some d.val := by decide
  exact all ⟨d, h⟩

theorem digits?_toDigits (n : Nat) : digits? 10 0 (Nat.toDigits 10 n) = some n := by
  induction n using Nat.strongRecOn with
  | ind n ih =>
    have digit : ∀ value, digits? 10 value [(n % 10).digitChar] = some (value * 10 + n % 10) := by
      intro value
      have small : n % 10 < 10 := Nat.mod_lt _ (by decide)
      rw [digits?, digitValue?_digitChar small]
      simp [small, digits?]
    by_cases small : n < 10
    · rw [Nat.toDigits_of_lt_base small]
      have same : n % 10 = n := Nat.mod_eq_of_lt small
      simpa [same] using digit 0
    · rw [Nat.toDigits_of_base_le (by decide) (by omega), digits?_append, ih (n / 10) (by omega), Option.bind_some,
        digit]
      congr 1
      omega

theorem numeral?_repr (n : Nat) : numeral? 10 n.repr.toList = some n := by
  rw [Nat.toList_repr]
  cases digits : Nat.toDigits 10 n with
  | nil => exact absurd digits Nat.toDigits_ne_nil
  | cons d ds =>
    rw [numeral?, ← digits]
    exact digits?_toDigits n

theorem isDigit_of_mem_repr {n : Nat} {c : Char} (h : c ∈ n.repr.toList) : c.isDigit := by
  rw [Nat.toList_repr] at h
  exact Nat.isDigit_of_mem_toDigits (by decide) (by decide) h

theorem toList_repr_negSucc (n : Nat) : (Int.negSucc n).repr.toList = '-' :: (n + 1).repr.toList := by
  change ("-" ++ (n + 1).repr).toList = _
  simp

theorem notMem_repr {c : Char} (n : Int) (sign : c ≠ '-') (digit : ¬ c.isDigit) : c ∉ n.repr.toList := by
  intro h
  cases n with
  | ofNat n => exact digit (isDigit_of_mem_repr h)
  | negSucc n =>
    rw [toList_repr_negSucc] at h
    rcases List.mem_cons.mp h with same | h
    · exact sign same
    · exact digit (isDigit_of_mem_repr h)

theorem toDigits_leadingZero {n : Nat} {ds : List Char} (h : Nat.toDigits 10 n = '0' :: ds) : ds = [] := by
  induction n using Nat.strongRecOn generalizing ds with
  | ind n ih =>
    by_cases small : n < 10
    · rw [Nat.toDigits_of_lt_base small] at h
      exact (List.cons.inj h).2.symm
    · rw [Nat.toDigits_of_base_le (by decide) (by omega)] at h
      cases front : Nat.toDigits 10 (n / 10) with
      | nil => exact absurd front Nat.toDigits_ne_nil
      | cons c cs =>
        rw [front, List.cons_append] at h
        obtain ⟨rfl, _⟩ := List.cons.inj h
        obtain rfl := ih (n / 10) (by omega) front
        have value := digits?_toDigits (n / 10)
        rw [front] at value
        have zero : 0 = n / 10 := Option.some.inj value
        omega

theorem signedNumeral?_repr {n : Nat} (h : n ≤ 9223372036854775807) : signedNumeral? 10 n.repr.toList = some n := by
  have sign : ∀ c ∈ n.repr.toList, c ≠ '-' ∧ c ≠ '+' := by
    intro c hc
    have digit := isDigit_of_mem_repr hc
    constructor
    · rintro rfl
      exact absurd digit (by decide)
    · rintro rfl
      exact absurd digit (by decide)
  have value := numeral?_repr n
  have fits : fitsInt64 n = true := by
    simp only [fitsInt64, Bool.and_eq_true, decide_eq_true_eq]
    omega
  cases written : n.repr.toList with
  | nil => simp [written, numeral?] at value
  | cons c cs =>
    rw [written] at sign value
    obtain ⟨minus, plus⟩ := sign c List.mem_cons_self
    simp [signedNumeral?, minus, plus, value, fits]

theorem unsignedLiteral?_repr {n : Nat} (h : n ≤ 9223372036854775807) : unsignedLiteral? n.repr.toList = some n := by
  have decimal := signedNumeral?_repr h
  cases written : n.repr.toList with
  | nil =>
    have value := numeral?_repr n
    simp [written, numeral?] at value
  | cons c cs =>
    rw [written] at decimal
    by_cases zero : c = '0'
    · subst zero
      rw [Nat.toList_repr] at written
      obtain rfl := toDigits_leadingZero written
      exact decimal
    · simpa [unsignedLiteral?, zero] using decimal

/-- What is written in decimal is read as the number it was written for. -/
theorem integer?_repr {n : Int} (h : n.natAbs ≤ 9223372036854775807) : integer? n.repr = some n := by
  cases n with
  | ofNat n =>
    have literal := unsignedLiteral?_repr h
    change integer? n.repr = _
    unfold integer?
    split
    · rename_i ds written
      have minus : '-'.isDigit := isDigit_of_mem_repr (n := n) (by simp [written])
      exact absurd minus (by decide)
    · rename_i ds written
      have plus : '+'.isDigit := isDigit_of_mem_repr (n := n) (by simp [written])
      exact absurd plus (by decide)
    · exact literal
  | negSucc n =>
    have literal : unsignedLiteral? (n + 1).repr.toList = some ((n + 1 : Nat) : Int) := unsignedLiteral?_repr h
    rw [integer?, toList_repr_negSucc]
    change (unsignedLiteral? (n + 1).repr.toList).map (fun n => -n) = _
    rw [literal]
    rfl

end SchemaGen.Text
