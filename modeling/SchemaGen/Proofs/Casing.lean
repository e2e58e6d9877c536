import SchemaGen.Proofs.Naming
/-!
# Letters, digits and underscores in the two cases

Pascal case keeps the letters and digits of a name and drops its underscores, so the result begins with the first
letter or digit. Snake case keeps the first character up to its case. Only names that agree in their case meet in
one written name, or a reserved word and the name that it is escaped to.
-/
namespace SchemaGen
open Text Lexeme

section characters
variable {c : Char}

theorem isNamePart_of_isAlphanum (h : c.isAlphanum) : isNamePart c :=
  Bool.or_eq_true_iff.mpr (.inl h)

theorem isAlphanum_of_isNamePart (h : isNamePart c) (other : c ≠ '_') : c.isAlphanum := by
  simpa [isNamePart, other] using h

theorem capital_of_isNamePart (h : isNamePart c) : capital c = [c.toUpper] :=
  if_pos (lt_128_of_isNamePart h)

theorem small_of_isNamePart (h : isNamePart c) : small c = [c.toLower] :=
  if_pos (lt_128_of_isNamePart h)

theorem isUpper_of_isNamePart (h : isNamePart c) : isUpper c = c.isUpper :=
  if_pos (lt_128_of_isNamePart h)

theorem isAlphanum_toUpper (h : c.isAlphanum) : c.toUpper.isAlphanum :=
  isNamePart_induction (P := fun c => c.isAlphanum → c.toUpper.isAlphanum) (by decide) (isNamePart_of_isAlphanum h) h

theorem isAlphanum_toLower (h : c.isAlphanum) : c.toLower.isAlphanum :=
  isNamePart_induction (P := fun c => c.isAlphanum → c.toLower.isAlphanum) (by decide) (isNamePart_of_isAlphanum h) h

theorem lowerFrom_of_isNamePart {before cs : List Char} (h : ∀ c ∈ cs, isNamePart c) :
    lowerFrom before cs = cs.map Char.toLower := by
  induction cs generalizing before with
  | nil => rfl
  | cons c cs ih =>
    obtain ⟨first, rest⟩ := List.forall_mem_cons.mp h
    have noSigma : (c == 'Σ') = false := isNamePart_induction (P := fun c => (c == 'Σ') = false) (by decide) first
    rw [lowerFrom, noSigma, ih rest]
    simp [small_of_isNamePart first]

end characters

namespace Naming

section pascal

theorem capitalized_cons {c : Char} {cs : List Char} (h : ∀ d ∈ c :: cs, isNamePart d) :
    capitalized (c :: cs) = c.toUpper :: if upper (c :: cs) == c :: cs then cs.map Char.toLower else cs := by
  obtain ⟨first, rest⟩ := List.forall_mem_cons.mp h
  rw [capitalized, capital_of_isNamePart first, lower, lowerFrom_of_isNamePart rest]
  rfl

theorem isAlphanum_of_mem_capitalized {cs : List Char} (h : ∀ c ∈ cs, c.isAlphanum) :
    ∀ d ∈ capitalized cs, d.isAlphanum := by
  cases cs with
  | nil => exact fun _ hd => nomatch hd
  | cons c cs =>
    rw [capitalized_cons fun d hd => isNamePart_of_isAlphanum (h d hd)]
    obtain ⟨first, rest⟩ := List.forall_mem_cons.mp h
    refine List.forall_mem_cons.mpr ⟨isAlphanum_toUpper first, ?_⟩
    split
    · exact List.forall_mem_map.mpr fun d hd => isAlphanum_toLower (rest d hd)
    · exact rest

theorem isAlphanum_of_mem_pascal {name : String} (h : IsName name) : ∀ c ∈ (pascal name).toList, c.isAlphanum := by
  intro c hc
  rw [pascal, String.toList_ofList, pascalChars] at hc
  obtain ⟨piece, hp, hc⟩ := List.mem_flatMap.mp hc
  refine isAlphanum_of_mem_capitalized ?_ c hc
  intro d hd
  refine isAlphanum_of_isNamePart (h d (mem_of_mem_piecesOf hp hd)) ?_
  rintro rfl
  exact notMem_of_mem_piecesOf hp hd

theorem underscore_notMem_pascal {name : String} (h : IsName name) : '_' ∉ (pascal name).toList :=
  fun line => absurd (isAlphanum_of_mem_pascal h '_' line) (by decide)

theorem head?_pascalChars {cs : List Char} (h : ∀ c ∈ cs, isNamePart c) :
    (pascalChars cs).head? = (cs.dropWhile (· == '_')).head?.map Char.toUpper := by
  induction cs with
  | nil => rfl
  | cons c cs ih =>
    obtain ⟨first, rest⟩ := List.forall_mem_cons.mp h
    by_cases line : c = '_'
    · rw [line, pascalChars, piecesOf_separator, List.flatMap_cons]
      exact ih rest
    · have other : (c == '_') = false := by simpa using line
      have nonempty : piecesOf '_' cs ≠ [] := piecesOf_ne_nil cs
      obtain ⟨piece, pieces, cut⟩ := List.exists_cons_of_ne_nil nonempty
      rw [List.dropWhile_cons_of_neg (by simpa using line), pascalChars, piecesOf, other, cut,
        if_neg Bool.false_ne_true, List.flatMap_cons, capitalized, capital_of_isNamePart first]
      rfl

end pascal

section snake

/-- No underscore goes before the first character, so it keeps its place. -/
theorem snakeChars_cons {c : Char} (h : isNamePart c) (cs : List Char) :
    snakeChars (c :: cs) = c.toLower :: snakeFrom (some c) cs := by
  rw [snakeChars, snakeFrom, isUpper_of_isNamePart h]
  split
  · rw [small_of_isNamePart h]
    rfl
  · rename_i notUpper
    have same : c.toLower = c :=
      isNamePart_induction (P := fun c => ¬ c.isUpper → c.toLower = c) (by decide) h notUpper
    rw [same]

theorem snakeFrom_of_not_isUpper {before : Option Char} {cs : List Char} (h : ∀ c ∈ cs, isUpper c = false) :
    snakeFrom before cs = cs := by
  induction cs generalizing before with
  | nil => rfl
  | cons c cs ih =>
    obtain ⟨first, rest⟩ := List.forall_mem_cons.mp h
    rw [snakeFrom, first, ih rest]
    rfl

end snake

section escape

theorem notMem_of_mem_reserved {word : String} (h : word ∈ reserved) : '_' ∉ word.toList := by
  revert word
  decide +kernel

theorem escape_of_mem {word : String} (h : word ∈ reserved) : escape word = word ++ "_" :=
  if_pos (by simpa using h)

theorem escape_of_notMem {word : String} (h : word ∉ reserved) : escape word = word :=
  if_neg (by simpa using h)

theorem append_underscore_notMem_reserved (word : String) : word ++ "_" ∉ reserved :=
  fun h => notMem_of_mem_reserved h (by simp)

/-- Escaping makes one name of two if one is a reserved word and the other is what it is escaped to. -/
theorem escape_eq_escape_iff {a b : String} :
    escape a = escape b ↔ a = b ∨ (a ∈ reserved ∧ b = a ++ "_") ∨ (b ∈ reserved ∧ a = b ++ "_") := by
  constructor
  · intro same
    by_cases ha : a ∈ reserved
    · by_cases hb : b ∈ reserved
      · rw [escape_of_mem ha, escape_of_mem hb] at same
        exact .inl (String.append_left_inj "_" |>.mp same)
      · rw [escape_of_mem ha, escape_of_notMem hb] at same
        exact .inr (.inl ⟨ha, same.symm⟩)
    · by_cases hb : b ∈ reserved
      · rw [escape_of_notMem ha, escape_of_mem hb] at same
        exact .inr (.inr ⟨hb, same⟩)
      · rw [escape_of_notMem ha, escape_of_notMem hb] at same
        exact .inl same
  · rintro (rfl | ⟨ha, rfl⟩ | ⟨hb, rfl⟩)
    · rfl
    · rw [escape_of_mem ha, escape_of_notMem (append_underscore_notMem_reserved a)]
    · rw [escape_of_mem hb, escape_of_notMem (append_underscore_notMem_reserved b)]

end escape

end Naming

end SchemaGen
