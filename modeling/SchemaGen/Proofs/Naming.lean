import SchemaGen.Config
import SchemaGen.Proofs.Dotted
/-!
# Names stay names

Every generated name is made of letters, digits and underscores if the names it comes from are. So neither a path
nor a module path runs two of its parts together: a path tells its directory and its file, and a module path its
directory. No file or module is called `mod`.
-/
namespace SchemaGen
open Text Lexeme

def IsName (word : String) : Prop :=
  ∀ c ∈ word.toList, isNamePart c

instance (word : String) : Decidable (IsName word) :=
  decidable_of_iff (word.toList.all isNamePart) List.all_eq_true

theorem IsName.notMem {word : String} (h : IsName word) {c : Char} (other : ¬ isNamePart c) : c ∉ word.toList :=
  fun hc => other (h c hc)

theorem isName_of_isIdentifier {word : String} (h : isIdentifier word) : IsName word := by
  intro c hc
  unfold isIdentifier identifierChars at h
  split at h
  · rename_i first cs chars
    simp only [Bool.and_eq_true, List.all_eq_true] at h
    rw [chars] at hc
    rcases List.mem_cons.mp hc with rfl | hc
    · simp only [isNameStart, Bool.or_eq_true] at h
      simp only [isNamePart, Char.isAlphanum, Bool.or_eq_true]
      tauto
    · exact h.2 c hc
  · cases h

theorem isIdentifier_of_mem_partsOf {package part : String} (dotted : dottedChars package.toList)
    (h : part ∈ partsOf '.' package) : isIdentifier part := by
  obtain ⟨piece, hp, rfl⟩ := List.mem_map.mp h
  rw [isIdentifier, String.toList_ofList]
  exact List.all_eq_true.mp dotted piece (List.mem_filter.mp hp).1

theorem lt_128_of_isNamePart {c : Char} (h : isNamePart c) : c.toNat < 128 := by
  have ranges : ((decide (c.val ≥ 'A'.val ∧ c.val ≤ 'Z'.val) || (decide (c.val ≥ 'a'.val) && decide (c.val ≤ 'z'.val))) ||
      (decide (c.val ≥ '0'.val) && decide (c.val ≤ '9'.val)) || c == '_') = true := h
  simp only [Bool.or_eq_true, Bool.and_eq_true, decide_eq_true_eq, beq_iff_eq, UInt32.le_iff_toNat_le,
    ge_iff_le] at ranges
  change (((65 ≤ c.toNat ∧ c.toNat ≤ 90) ∨ (97 ≤ c.toNat ∧ c.toNat ≤ 122)) ∨ (48 ≤ c.toNat ∧ c.toNat ≤ 57)) ∨
    c = '_' at ranges
  rcases ranges with ranges | rfl
  · omega
  · decide

/-- What holds of the letters, digits and underscores that are tried one by one holds of all. -/
theorem isNamePart_induction {P : Char → Prop} (each : ∀ n : Fin 128, isNamePart (Char.ofNat n) → P (Char.ofNat n))
    {c : Char} (h : isNamePart c) : P c := by
  have small := lt_128_of_isNamePart h
  have found := each ⟨c.toNat, small⟩
  simp only [Char.ofNat_toNat] at found
  exact found h

theorem isNamePart_of_mem_capital {c d : Char} (h : isNamePart c) (hd : d ∈ capital c) : isNamePart d := by
  rw [capital, if_pos (lt_128_of_isNamePart h), List.mem_singleton] at hd
  subst hd
  exact isNamePart_induction (P := fun c => isNamePart c.toUpper) (by decide) h

theorem isNamePart_of_mem_small {c d : Char} (h : isNamePart c) (hd : d ∈ small c) : isNamePart d := by
  rw [small, if_pos (lt_128_of_isNamePart h), List.mem_singleton] at hd
  subst hd
  exact isNamePart_induction (P := fun c => isNamePart c.toLower) (by decide) h

theorem isNamePart_of_mem_lowerFrom {before cs : List Char} (h : ∀ c ∈ cs, isNamePart c) {d : Char}
    (hd : d ∈ lowerFrom before cs) : isNamePart d := by
  induction cs generalizing before with
  | nil => simp [lowerFrom] at hd
  | cons c cs ih =>
    have noSigma : (c == 'Σ') = false :=
      isNamePart_induction (P := fun c => (c == 'Σ') = false) (by decide) (h c (by simp))
    rw [lowerFrom, noSigma] at hd
    rcases List.mem_append.mp hd with hd | hd
    · exact isNamePart_of_mem_small (h c (by simp)) hd
    · exact ih (fun c hc => h c (by simp [hc])) hd

namespace Naming

theorem isNamePart_of_mem_capitalized {cs : List Char} (h : ∀ c ∈ cs, isNamePart c) {d : Char}
    (hd : d ∈ capitalized cs) : isNamePart d := by
  cases cs with
  | nil => cases hd
  | cons c cs =>
    have rest : ∀ c ∈ cs, isNamePart c := fun c hc => h c (by simp [hc])
    rw [capitalized] at hd
    rcases List.mem_append.mp hd with hd | hd
    · exact isNamePart_of_mem_capital (h c (by simp)) hd
    · split at hd
      · exact isNamePart_of_mem_lowerFrom rest hd
      · exact rest d hd

theorem isName_pascal {name : String} (h : IsName name) : IsName (pascal name) := by
  intro d hd
  rw [pascal, String.toList_ofList, pascalChars] at hd
  obtain ⟨piece, hp, hd⟩ := List.mem_flatMap.mp hd
  exact isNamePart_of_mem_capitalized (fun c hc => h c (mem_of_mem_piecesOf hp hc)) hd

theorem isNamePart_of_mem_snakeFrom {before : Option Char} {cs : List Char} (h : ∀ c ∈ cs, isNamePart c) {d : Char}
    (hd : d ∈ snakeFrom before cs) : isNamePart d := by
  induction cs generalizing before with
  | nil => cases hd
  | cons c cs ih =>
    have first := h c (by simp)
    have rest : ∀ c ∈ cs, isNamePart c := fun c hc => h c (by simp [hc])
    unfold snakeFrom at hd
    split at hd
    · rcases List.mem_append.mp hd with hd | hd
      · rcases List.mem_append.mp hd with hd | hd
        · split at hd
          · obtain rfl : d = '_' := by simpa using hd
            decide
          · cases hd
        · exact isNamePart_of_mem_small first hd
      · exact ih rest hd
    · rcases List.mem_cons.mp hd with rfl | hd
      · exact first
      · exact ih rest hd

theorem isName_append {a b : String} (ha : IsName a) (hb : IsName b) : IsName (a ++ b) := by
  intro c hc
  rw [String.toList_append] at hc
  rcases List.mem_append.mp hc with hc | hc
  · exact ha c hc
  · exact hb c hc

theorem isName_escape {name : String} (h : IsName name) : IsName (escape name) := by
  unfold escape
  split
  · exact isName_append h (by decide)
  · exact h

theorem isName_fieldName {name : String} (h : IsName name) : IsName (fieldName name) := by
  apply isName_escape
  intro d hd
  rw [snake, String.toList_ofList] at hd
  exact isNamePart_of_mem_snakeFrom h hd

theorem isName_typeName {parents : List String} {name : String} (hp : ∀ p ∈ parents, IsName p) (h : IsName name) :
    IsName (typeName parents name) := by
  apply isName_escape
  intro d hd
  rw [toList_joinWith_empty] at hd
  obtain ⟨part, hpart, hd⟩ := List.mem_flatMap.mp hd
  obtain ⟨p, hmem, rfl⟩ := List.mem_map.mp hpart
  have isName : IsName p := by
    rcases List.mem_append.mp hmem with hmem | hmem
    · exact hp p hmem
    · obtain rfl : p = name := by simpa using hmem
      exact h
  exact isName_pascal isName d hd

theorem isName_unionName {scope : List String} {oneof : String} (hs : ∀ p ∈ scope, IsName p) (h : IsName oneof) :
    IsName (unionName scope oneof) := by
  apply isName_escape
  apply isName_append _ (isName_pascal h)
  split
  · rename_i last found
    refine isName_typeName (fun p hp => hs p (List.dropLast_subset _ hp)) (hs last ?_)
    exact List.mem_of_getLast? found
  · intro c hc
    cases hc

theorem escape_ne_mod (name : String) : escape name ≠ "mod" := by
  unfold escape
  split
  · intro h
    have last := congrArg (·.toList.getLast?) h
    simp at last
  · rintro rfl
    simp [reserved] at *

end Naming

namespace Config

/-- A package in dotted form maps to a directory of names. -/
theorem isName_of_mem_directory {config : Config} {package : Option String}
    (dotted : ∀ p ∈ package, dottedChars p.toList) {part : String} (h : part ∈ config.directory package) :
    IsName part := by
  unfold directory at h
  split at h
  · rename_i package _
    obtain ⟨name, hn, rfl⟩ := List.mem_map.mp h
    apply Naming.isName_fieldName
    apply isName_of_isIdentifier
    exact isIdentifier_of_mem_partsOf (dotted package rfl) hn
  · cases h

theorem toList_modulePath (config : Config) (directory : List String) :
    (config.modulePath directory).toList =
      config.basePath.toList ++ directory.flatMap fun d => ':' :: ':' :: d.toList := by
  rw [modulePath, joinWith_cons, String.toList_append, toList_joinWith_empty, List.flatMap_map]
  simp

/-- Every name of a directory is a piece between colons, with an empty piece before it. -/
theorem piecesOf_colons {directory : List String} (names : ∀ d ∈ directory, IsName d) {first : List Char}
    (h : ':' ∉ first) :
    piecesOf ':' (first ++ directory.flatMap fun d => ':' :: ':' :: d.toList) =
      first :: directory.flatMap fun d => [[], d.toList] := by
  induction directory generalizing first with
  | nil => simpa using piecesOf_single h
  | cons d directory ih =>
    have next := ih (fun p hp => names p (by simp [hp])) ((names d (by simp)).notMem (c := ':') (by decide))
    rw [List.flatMap_cons, List.cons_append, piecesOf_append h, List.cons_append, piecesOf_separator, next]
    rfl

theorem modulePath_inj {config : Config} {d d' : List String} (names : ∀ p ∈ d, IsName p)
    (names' : ∀ p ∈ d', IsName p) (h : config.modulePath d = config.modulePath d') : d = d' := by
  have chars := congrArg String.toList h
  rw [toList_modulePath, toList_modulePath, List.append_right_inj] at chars
  have pieces := congrArg (piecesOf ':') chars
  rw [← List.nil_append (d.flatMap _), ← List.nil_append (d'.flatMap _), piecesOf_colons names (by simp),
    piecesOf_colons names' (by simp), List.cons.injEq] at pieces
  have same := pieces.2
  clear h chars pieces names names'
  induction d generalizing d' with
  | nil =>
    cases d' with
    | nil => rfl
    | cons _ _ => simp at same
  | cons p d ih =>
    cases d' with
    | nil => simp at same
    | cons p' d' =>
      simp only [List.flatMap_cons, List.cons_append, List.nil_append, List.cons.injEq, true_and,
        String.toList_inj] at same
      rw [same.1, ih same.2]

end Config

end SchemaGen
