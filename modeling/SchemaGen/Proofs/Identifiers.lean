import SchemaGen.Code.Enumeration
import SchemaGen.Proofs.Casing
import SchemaGen.Proofs.Grammar
import SchemaGen.Proofs.Numeral
import Mathlib.Data.List.DropRight
/-!
# Legal names

A name is legal in the generated code if it is an identifier, more than a lone underscore and no reserved word.
Escaping takes care of the reserved words alone. So a name in snake case is legal unless it is the underscore, and
one in Pascal case only if its first character other than an underscore is a letter.
-/
namespace SchemaGen
open Text Lexeme

theorem isIdentifier_iff_cons {word : String} :
    isIdentifier word ↔ ∃ c cs, word.toList = c :: cs ∧ isNameStart c ∧ ∀ d ∈ cs, isNamePart d := by
  rw [isIdentifier]
  cases word.toList with
  | nil => simp [identifierChars]
  | cons c cs => simp [identifierChars]

namespace Naming

/-- A name that generated code may declare. -/
structure Legal (word : String) : Prop where
  identifier : Identifier word
  notBlank : word ≠ "_"
  notReserved : word ∉ reserved

instance (word : String) : Decidable (Legal word) :=
  decidable_of_iff (Identifier word ∧ word ≠ "_" ∧ word ∉ reserved)
    ⟨fun h => ⟨h.1, h.2.1, h.2.2⟩, fun h => ⟨h.identifier, h.notBlank, h.notReserved⟩⟩

/-- The first character that is no underscore is a letter. -/
def Begins (name : String) : Prop :=
  (name.toList.dropWhile (· == '_')).head?.any Char.isAlpha

instance (name : String) : Decidable (Begins name) :=
  inferInstanceAs (Decidable (_ = true))

def Lettered (word : String) : Prop :=
  ∃ c cs, word.toList = c :: cs ∧ c.isAlpha ∧ ∀ d ∈ cs, isNamePart d

section lettered
variable {a b word name : String}

theorem Lettered.isIdentifier (h : Lettered word) : isIdentifier word := by
  obtain ⟨c, cs, chars, letter, rest⟩ := h
  exact isIdentifier_iff_cons.mpr ⟨c, cs, chars, by simp [isNameStart, letter], rest⟩

theorem Lettered.ne_underscore (h : Lettered word) : word ≠ "_" := by
  rintro rfl
  obtain ⟨c, cs, chars, letter, _⟩ := h
  cases chars
  cases letter

theorem lettered_of_isIdentifier (h : isIdentifier word) (free : '_' ∉ word.toList) : Lettered word := by
  obtain ⟨c, cs, chars, first, rest⟩ := isIdentifier_iff_cons.mp h
  refine ⟨c, cs, chars, ?_, rest⟩
  have other : c ≠ '_' := by
    rintro rfl
    exact free (by simp [chars])
  simpa [isNameStart, other] using first

theorem Lettered.append (ha : Lettered a) (hb : IsName b) : Lettered (a ++ b) := by
  obtain ⟨c, cs, chars, letter, rest⟩ := ha
  refine ⟨c, cs ++ b.toList, by rw [String.toList_append, chars, List.cons_append], letter, ?_⟩
  intro d hd
  rcases List.mem_append.mp hd with hd | hd
  · exact rest d hd
  · exact hb d hd

theorem Lettered.escape (h : Lettered word) : Lettered (escape word) := by
  unfold Naming.escape
  split
  · exact h.append (by decide)
  · exact h

theorem isIdentifier_of_mem_reserved (h : word ∈ reserved) : SchemaGen.isIdentifier word ∧ word ≠ "_" := by
  revert word
  decide +kernel

/-- Escaping makes a legal name of every identifier but the underscore. -/
theorem legal_escape_iff : Legal (Naming.escape word) ↔ SchemaGen.isIdentifier word ∧ word ≠ "_" := by
  by_cases reserved : word ∈ reserved
  · rw [escape_of_mem reserved]
    have legal : Legal (word ++ "_") := by
      obtain ⟨c, cs, chars, first, rest⟩ := isIdentifier_iff_cons.mp (isIdentifier_of_mem_reserved reserved).1
      refine ⟨isIdentifier_iff.mp (isIdentifier_iff_cons.mpr ⟨c, cs ++ ['_'], by simp [chars], first, ?_⟩), ?_,
        append_underscore_notMem_reserved word⟩
      · intro d hd
        rcases List.mem_append.mp hd with hd | hd
        · exact rest d hd
        · obtain rfl : d = '_' := by simpa using hd
          decide
      · intro same
        have short := congrArg (·.toList.length) same
        simp [chars] at short
    exact iff_of_true legal (isIdentifier_of_mem_reserved reserved)
  · rw [escape_of_notMem reserved, isIdentifier_iff]
    exact ⟨fun h => ⟨h.identifier, h.notBlank⟩, fun h => ⟨h.1, h.2, reserved⟩⟩

theorem Lettered.legal_escape (h : Lettered word) : Legal (Naming.escape word) :=
  legal_escape_iff.mpr ⟨h.isIdentifier, h.ne_underscore⟩

end lettered

section cases
variable {name : String}

theorem begins_iff : Begins name ↔ ∃ c cs, name.toList.dropWhile (· == '_') = c :: cs ∧ c.isAlpha := by
  rw [Begins]
  cases name.toList.dropWhile (· == '_') with
  | nil => simp
  | cons c cs => simp

theorem lettered_pascal_iff (h : IsName name) : Lettered (pascal name) ↔ Begins name := by
  have head := head?_pascalChars h
  have raised : ∀ {c : Char}, isNamePart c → c.toUpper.isAlpha = c.isAlpha := fun hc =>
    isNamePart_induction (P := fun c => c.toUpper.isAlpha = c.isAlpha) (by decide) hc
  have part : ∀ {c : Char} {cs : List Char}, name.toList.dropWhile (· == '_') = c :: cs → isNamePart c := by
    intro c cs rest
    exact h c ((List.dropWhile_sublist _).subset (by rw [rest]; exact List.mem_cons_self))
  rw [begins_iff]
  constructor
  · rintro ⟨c, cs, chars, letter, _⟩
    rw [pascal, String.toList_ofList] at chars
    rw [chars, List.head?_cons] at head
    cases rest : name.toList.dropWhile (· == '_') with
    | nil => simp [rest] at head
    | cons d ds =>
      obtain rfl : c = d.toUpper := by simpa [rest] using head
      exact ⟨d, ds, rfl, raised (part rest) ▸ letter⟩
  · rintro ⟨d, ds, rest, letter⟩
    rw [rest, List.head?_cons, Option.map_some, List.head?_eq_some_iff] at head
    obtain ⟨cs, chars⟩ := head
    refine ⟨d.toUpper, cs, by rw [pascal, String.toList_ofList, chars], by rw [raised (part rest), letter], ?_⟩
    intro c hc
    have isName := isName_pascal h
    rw [IsName, pascal, String.toList_ofList, chars] at isName
    exact isName c (List.mem_cons_of_mem _ hc)

theorem legal_variantName_iff (h : IsName name) : Legal (variantName name) ↔ Begins name := by
  rw [variantName, legal_escape_iff, ← lettered_pascal_iff h]
  constructor
  · rintro ⟨identifier, _⟩
    exact lettered_of_isIdentifier identifier (underscore_notMem_pascal h)
  · intro lettered
    exact ⟨lettered.isIdentifier, lettered.ne_underscore⟩

theorem snakeFrom_ne_nil {before : Option Char} {c : Char} {cs : List Char} (h : isNamePart c) :
    snakeFrom before (c :: cs) ≠ [] := by
  rw [snakeFrom]
  split
  · simp [small_of_isNamePart h]
  · simp

theorem legal_fieldName_iff (h : isIdentifier name) : Legal (fieldName name) ↔ name ≠ "_" := by
  obtain ⟨c, cs, chars, first, rest⟩ := isIdentifier_iff_cons.mp h
  have part : isNamePart c := isName_of_isIdentifier h c (by simp [chars])
  have lowered : isNameStart c.toLower ∧ (c.toLower = '_' → c = '_') :=
    isNamePart_induction (P := fun c => isNameStart c → isNameStart c.toLower ∧ (c.toLower = '_' → c = '_'))
      (by decide) part first
  have written : (snake name).toList = c.toLower :: snakeFrom (some c) cs := by
    rw [snake, String.toList_ofList, chars, snakeChars_cons part]
  have identifier : isIdentifier (snake name) :=
    isIdentifier_iff_cons.mpr ⟨_, _, written, lowered.1, fun d hd => isNamePart_of_mem_snakeFrom rest hd⟩
  rw [fieldName, legal_escape_iff, and_iff_right identifier, not_iff_not]
  constructor
  · intro blank
    rw [blank] at written
    obtain ⟨line, short⟩ := List.cons.inj written
    cases cs with
    | nil => rw [← String.toList_inj, chars, lowered.2 line.symm]; rfl
    | cons d ds => exact absurd short.symm (snakeFrom_ne_nil (rest d List.mem_cons_self))
  · rintro rfl
    decide

theorem legal_map_fieldName_iff {names : List String} (identifiers : ∀ name ∈ names, isIdentifier name) :
    (∀ name ∈ names.map fieldName, Legal name) ↔ "_" ∉ names := by
  rw [List.forall_mem_map]
  constructor
  · intro legal blank
    exact (legal_fieldName_iff (identifiers "_" blank)).mp (legal "_" blank) rfl
  · intro free name hname
    rw [legal_fieldName_iff (identifiers name hname)]
    rintro rfl
    exact free hname

end cases

section types
variable {parents rest : List String} {name first : String}

theorem lettered_joinWith (names : ∀ p ∈ first :: rest, IsName p) (begins : Begins first) :
    Lettered (joinWith "" ((first :: rest).map pascal)) := by
  obtain ⟨isName, others⟩ := List.forall_mem_cons.mp names
  rw [List.map_cons, joinWith_cons]
  refine ((lettered_pascal_iff isName).mpr begins).append ?_
  intro c hc
  rw [toList_joinWith_empty, List.map_map] at hc
  obtain ⟨_, listed, hc⟩ := List.mem_flatMap.mp hc
  obtain ⟨p, hp, rfl⟩ := List.mem_map.mp listed
  exact isName_pascal (others p hp) c (by simpa using hc)

theorem legal_typeName (whole : parents ++ [name] = first :: rest) (names : ∀ p ∈ first :: rest, IsName p)
    (begins : Begins first) : Legal (typeName parents name) := by
  rw [typeName, whole]
  exact (lettered_joinWith names begins).legal_escape

theorem legal_unionName {scope : List String} {oneof : String} (whole : scope = first :: rest)
    (names : ∀ p ∈ first :: rest, IsName p) (isName : IsName oneof) (begins : Begins first) :
    Legal (unionName scope oneof) := by
  subst whole
  obtain ⟨last, found⟩ : ∃ last, (first :: rest).getLast? = some last := ⟨_, List.getLast?_cons⟩
  have whole : (first :: rest).dropLast ++ [last] = first :: rest := List.dropLast_append_getLast? last found
  have owner : Lettered (typeName (first :: rest).dropLast last) := by
    rw [typeName, whole]
    exact (lettered_joinWith names begins).escape
  rw [unionName, found]
  exact (owner.append (isName_pascal isName)).legal_escape

end types

end Naming

namespace Code
open Naming

section numbered
variable {value : String}

/-- The mark of an escaped name is dropped before a number is put behind it. -/
theorem withoutUnderscores_variantName (h : IsName value) : withoutUnderscores (variantName value) = pascal value := by
  have kept : (pascal value).toList.rdropWhile (· == '_') = (pascal value).toList := by
    rw [List.rdropWhile_eq_self_iff]
    intro nonempty line
    rw [beq_iff_eq] at line
    exact underscore_notMem_pascal h (line ▸ List.getLast_mem nonempty)
  have dropped : (variantName value).toList.rdropWhile (· == '_') = (pascal value).toList := by
    unfold variantName escape
    split
    · rw [String.toList_append]
      exact (List.rdropWhile_concat_pos _ _ _ rfl).trans kept
    · exact kept
  rw [withoutUnderscores]
  exact (congrArg String.ofList dropped).trans String.ofList_toList

theorem numbered_eq (taken : List String) (h : IsName value) :
    ∃ n : Nat, numbered taken (variantName value) = pascal value ++ n.repr := by
  rw [numbered, withoutUnderscores_variantName h]
  exact ⟨_, rfl⟩

theorem isDigit_of_mem_reserved {word : String} (h : word ∈ reserved) {c : Char} (hc : c ∈ word.toList) :
    c.isDigit = false := by
  have none : reserved.all fun word => word.toList.all fun c => !c.isDigit := by decide +kernel
  simpa using List.all_eq_true.mp (List.all_eq_true.mp none word h) c hc

theorem isName_repr (n : Nat) : IsName n.repr := by
  intro c hc
  apply isNamePart_of_isAlphanum
  simp [Char.isAlphanum, isDigit_of_mem_repr hc]

/-- A number behind a name does not make up for a letter that is missing in front. -/
theorem legal_append_repr_iff (h : IsName value) (n : Nat) : Legal (pascal value ++ n.repr) ↔ Begins value := by
  obtain ⟨d, ds, number⟩ := List.exists_cons_of_ne_nil (l := n.repr.toList)
    (by rw [Nat.toList_repr]; exact Nat.toDigits_ne_nil)
  have digit : d.isDigit := isDigit_of_mem_repr (n := n) (by simp [number])
  rw [← lettered_pascal_iff h]
  constructor
  · intro legal
    have line : '_' ∉ n.repr.toList := fun line => absurd (isDigit_of_mem_repr line) (by decide)
    obtain ⟨c, cs, chars, letter, rest⟩ :=
      lettered_of_isIdentifier (isIdentifier_iff.mpr legal.identifier) (notMem_append (underscore_notMem_pascal h) line)
    rw [String.toList_append, number] at chars
    cases written : (pascal value).toList with
    | nil =>
      rw [written] at chars
      cases chars
      have noLetter : d.isAlpha = false :=
        isNamePart_induction (P := fun c => c.isDigit → c.isAlpha = false) (by decide)
          (isName_repr n d (by simp [number])) digit
      rw [noLetter] at letter
      cases letter
    | cons e es =>
      rw [written, List.cons_append, List.cons.injEq] at chars
      refine ⟨e, es, written, chars.1 ▸ letter, fun c hc => rest c ?_⟩
      rw [← chars.2]
      exact List.mem_append_left _ hc
  · intro lettered
    have whole := lettered.append (isName_repr n)
    refine ⟨isIdentifier_iff.mp whole.isIdentifier, whole.ne_underscore, ?_⟩
    intro reserved
    have noDigit : d.isDigit = false := isDigit_of_mem_reserved reserved (by simp [number])
    rw [digit] at noDigit
    cases noDigit

end numbered

section variants

theorem withoutStem_cases (stem : List Char) (value : String) :
    withoutStem stem value = value ∨
    ∃ c cs, value.toList = stem ++ c :: cs ∧ c.isAlpha ∧ withoutStem stem value = .ofList (c :: cs) := by
  unfold withoutStem
  split
  · rename_i c cs found
    split
    · rename_i letter
      exact .inr ⟨c, cs, append_of_after? found, letter, rfl⟩
    · exact .inl rfl
  · exact .inl rfl

theorem isName_withoutStem (stem : List Char) {value : String} (h : IsName value) :
    IsName (withoutStem stem value) := by
  rcases withoutStem_cases stem value with same | ⟨c, cs, chars, _, same⟩
  · rwa [same]
  · intro d hd
    rw [same, String.toList_ofList] at hd
    exact h d (by rw [chars]; exact List.mem_append_right _ hd)

theorem begins_withoutStem (stem : List Char) {value : String} (h : Begins value) :
    Begins (withoutStem stem value) := by
  rcases withoutStem_cases stem value with same | ⟨c, cs, _, letter, same⟩
  · rwa [same]
  · have other : c ≠ '_' := by
      rintro rfl
      cases letter
    rw [same, begins_iff, String.toList_ofList, List.dropWhile_cons_of_neg (by simpa using other)]
    exact ⟨c, cs, rfl, letter⟩

theorem freeVariant_cases (taken : List String) (stem : List Char) (value : String) :
    freeVariant taken stem value = variantName (withoutStem stem value) ∨
    freeVariant taken stem value = variantName value ∨
    freeVariant taken stem value = numbered taken (variantName value) := by
  unfold freeVariant
  dsimp only
  split
  · exact .inl rfl
  · split
    · exact .inr (.inl rfl)
    · exact .inr (.inr rfl)

def NumberedVariant.NamedAfter (w : NumberedVariant) (stem : List Char) (values : List EnumValue) : Prop :=
  (∃ v ∈ values, v.name = w.schemaName) ∧ ∃ taken, w.name = freeVariant taken stem w.schemaName

theorem Numbering.add_namedAfter {stem : List Char} {values : List EnumValue} {n : Numbering} {v : EnumValue}
    (hv : v ∈ values) (h : ∀ w ∈ n.variants, w.NamedAfter stem values) :
    ∀ w ∈ (n.add stem v).variants, w.NamedAfter stem values := by
  intro w hw
  unfold add at hw
  split at hw
  · exact h w hw
  · rcases List.mem_append.mp hw with hw | hw
    · exact h w hw
    · obtain rfl := List.mem_singleton.mp hw
      exact ⟨⟨v, hv, rfl⟩, _, rfl⟩

theorem Numbering.ofEnum_namedAfter (e : EnumDef) :
    ∀ w ∈ (ofEnum e).variants, w.NamedAfter (enumStem e.name) e.values := by
  refine List.foldlRecOn (motive := fun n : Numbering => ∀ w ∈ n.variants, w.NamedAfter (enumStem e.name) e.values)
    e.values (add (enumStem e.name)) ?_ ?_
  · simp
  · intro n kept v hv
    exact add_namedAfter hv kept

/-- A variant that gets a legal name: from a value that begins with a letter, or from what is left of the value. -/
def NumberedVariant.Spellable (stem : List Char) (w : NumberedVariant) : Prop :=
  Begins w.schemaName ∨
    (Begins (withoutStem stem w.schemaName) ∧ w.name = variantName (withoutStem stem w.schemaName))

instance (stem : List Char) (w : NumberedVariant) : Decidable (w.Spellable stem) :=
  inferInstanceAs (Decidable (_ ∨ _))

theorem NumberedVariant.legal_iff {stem : List Char} {values : List EnumValue} {w : NumberedVariant}
    (h : w.NamedAfter stem values) (names : ∀ v ∈ values, IsName v.name) : Legal w.name ↔ w.Spellable stem := by
  obtain ⟨⟨v, hv, value⟩, taken, name⟩ := h
  have isName : IsName w.schemaName := value ▸ names v hv
  have short := legal_variantName_iff (isName_withoutStem stem isName)
  constructor
  · intro legal
    rcases freeVariant_cases taken stem w.schemaName with same | same | same
    · rw [name, same, short] at legal
      exact .inr ⟨legal, name.trans same⟩
    · rw [name, same, legal_variantName_iff isName] at legal
      exact .inl legal
    · obtain ⟨n, numbered⟩ := numbered_eq taken isName
      rw [name, same, numbered, legal_append_repr_iff isName] at legal
      exact .inl legal
  · rintro (begins | ⟨begins, same⟩)
    · rw [name]
      rcases freeVariant_cases taken stem w.schemaName with same | same | same
      · rw [same, short]
        exact begins_withoutStem stem begins
      · rwa [same, legal_variantName_iff isName]
      · obtain ⟨n, numbered⟩ := numbered_eq taken isName
        rwa [same, numbered, legal_append_repr_iff isName]
    · rwa [same, short]

end variants

end Code

end SchemaGen
