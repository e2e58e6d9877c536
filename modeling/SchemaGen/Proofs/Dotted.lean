import Mathlib.Data.List.Basic
import SchemaGen.Text.Basic
/-!
# Pieces and what they are joined to

A text cut at a separator and the pieces it is joined from determine each other, as long as no piece holds the
separator itself.
-/
namespace SchemaGen.Text

theorem joinWith_cons (separator part : String) (parts : List String) :
    joinWith separator (part :: parts) = part ++ joinWith "" (parts.map (separator ++ ·)) := by
  induction parts generalizing part with
  | nil => simp [joinWith]
  | cons next parts ih =>
    rw [joinWith, ih, List.map_cons]
    · cases parts with
      | nil => simp [joinWith, String.append_assoc]
      | cons _ _ => simp [joinWith, String.append_assoc]
    · simp

theorem joinWith_append (separator : String) {as bs : List String} (ha : as ≠ []) (hb : bs ≠ []) :
    joinWith separator (as ++ bs) = joinWith separator as ++ separator ++ joinWith separator bs := by
  induction as with
  | nil => exact absurd rfl ha
  | cons a as ih =>
    cases as with
    | nil =>
      obtain ⟨b, bs, rfl⟩ := List.exists_cons_of_ne_nil hb
      rfl
    | cons next as =>
      have first : ∀ rest, joinWith separator (a :: next :: rest) =
          a ++ separator ++ joinWith separator (next :: rest) := fun _ => rfl
      rw [List.cons_append, List.cons_append, first, first, ← List.cons_append, ih (by simp)]
      simp only [String.append_assoc]

theorem toList_joinWith_empty (parts : List String) : (joinWith "" parts).toList = parts.flatMap String.toList := by
  induction parts with
  | nil => rfl
  | cons part parts ih =>
    cases parts with
    | nil => simp [joinWith]
    | cons next parts =>
      rw [joinWith, String.append_empty, String.toList_append, ih, List.flatMap_cons]
      · rfl
      · simp

theorem notMem_append {c : Char} {a b : String} (ha : c ∉ a.toList) (hb : c ∉ b.toList) : c ∉ (a ++ b).toList := by
  simp [ha, hb]

-- For literals: the questions are asked of the lists of characters, and no text is decoded.
theorem notMem_ofList {c : Char} {cs : List Char} (h : c ∉ cs) : c ∉ (String.ofList cs).toList := by
  rwa [String.toList_ofList]

theorem literal_append {a b c : List Char} (h : a ++ b = c) : String.ofList a ++ String.ofList b = String.ofList c := by
  rw [← h, String.ofList_append]

theorem mem_toList_joinWith {separator : String} {parts : List String} {c : Char}
    (h : c ∈ (joinWith separator parts).toList) : c ∈ separator.toList ∨ ∃ part ∈ parts, c ∈ part.toList := by
  cases parts with
  | nil => simp [joinWith] at h
  | cons part parts =>
    rw [joinWith_cons, String.toList_append, toList_joinWith_empty, List.flatMap_map] at h
    rcases List.mem_append.mp h with h | h
    · exact .inr ⟨part, by simp, h⟩
    · obtain ⟨next, hn, h⟩ := List.mem_flatMap.mp h
      rw [String.toList_append] at h
      rcases List.mem_append.mp h with h | h
      · exact .inl h
      · exact .inr ⟨next, by simp [hn], h⟩

section start
variable {α : Type} [BEq α] [LawfulBEq α]

theorem after?_append (start cs : List α) : after? start (start ++ cs) = some cs := by
  induction start with
  | nil => rfl
  | cons c start ih => simpa [after?] using ih

theorem append_of_after? {start cs rest : List α} (h : after? start cs = some rest) : cs = start ++ rest := by
  induction start generalizing cs with
  | nil =>
    cases h
    rfl
  | cons d start ih =>
    cases cs with
    | nil => cases h
    | cons c cs =>
      rw [after?] at h
      split at h
      · rename_i same
        rw [ih h, beq_iff_eq.mp same, List.cons_append]
      · cases h

end start

section pieces
variable {separator : Char}

theorem piecesOf_separator (cs : List Char) : piecesOf separator (separator :: cs) = [] :: piecesOf separator cs := by
  simp [piecesOf]

theorem piecesOf_ne_nil (cs : List Char) : piecesOf separator cs ≠ [] := by
  cases cs with
  | nil => simp [piecesOf]
  | cons c cs =>
    rw [piecesOf]
    split
    · simp
    · split <;> simp

theorem piecesOf_single {piece : List Char} (h : separator ∉ piece) : piecesOf separator piece = [piece] := by
  induction piece with
  | nil => rfl
  | cons c piece ih =>
    simp only [List.mem_cons, not_or] at h
    have other : (c == separator) = false := by simpa using Ne.symm h.1
    rw [piecesOf, other, ih h.2]
    rfl

/-- A text is cut wherever the separator stands. -/
theorem piecesOf_cut (front rest : List Char) :
    piecesOf separator (front ++ separator :: rest) = piecesOf separator front ++ piecesOf separator rest := by
  induction front with
  | nil => exact piecesOf_separator rest
  | cons c front ih =>
    by_cases same : c = separator
    · rw [same, List.cons_append, piecesOf_separator, piecesOf_separator, ih, List.cons_append]
    · have other : (c == separator) = false := by simpa using same
      have nonempty : piecesOf separator front ≠ [] := piecesOf_ne_nil front
      obtain ⟨piece, pieces, cut⟩ := List.exists_cons_of_ne_nil nonempty
      rw [List.cons_append, piecesOf, piecesOf, other, ih, cut]
      rfl

theorem piecesOf_append {piece : List Char} (h : separator ∉ piece) (cs : List Char) :
    piecesOf separator (piece ++ separator :: cs) = piece :: piecesOf separator cs := by
  rw [piecesOf_cut, piecesOf_single h, List.singleton_append]

theorem piecesOf_flatMap {pieces : List (List Char)} (h : ∀ p ∈ pieces, separator ∉ p) (cs : List Char) :
    piecesOf separator (pieces.flatMap (· ++ [separator]) ++ cs) = pieces ++ piecesOf separator cs := by
  induction pieces with
  | nil => rfl
  | cons p pieces ih =>
    rw [List.flatMap_cons, List.append_assoc, List.append_assoc, List.singleton_append,
      piecesOf_append (h p (by simp)), ih fun q hq => h q (by simp [hq]), List.cons_append]

theorem mem_of_mem_piecesOf {cs piece : List Char} (h : piece ∈ piecesOf separator cs) {c : Char} (hc : c ∈ piece) :
    c ∈ cs := by
  induction cs generalizing piece with
  | nil =>
    obtain rfl : piece = [] := by simpa [piecesOf] using h
    exact hc
  | cons d cs ih =>
    unfold piecesOf at h
    split at h
    · rcases List.mem_cons.mp h with rfl | h
      · cases hc
      · exact List.mem_cons_of_mem _ (ih h hc)
    · split at h
      · obtain rfl : piece = [d] := by simpa using h
        simp_all
      · rename_i first pieces cut
        rcases List.mem_cons.mp h with rfl | h
        · rcases List.mem_cons.mp hc with rfl | hc
          · simp
          · exact List.mem_cons_of_mem _ (ih (by rw [cut]; simp) hc)
        · exact List.mem_cons_of_mem _ (ih (by rw [cut]; simp [h]) hc)

/-- Each piece with the separator in front of it is the text with one in front. -/
theorem flatMap_piecesOf (separator : Char) (cs : List Char) :
    (piecesOf separator cs).flatMap (separator :: ·) = separator :: cs := by
  induction cs with
  | nil => rfl
  | cons c cs ih =>
    rw [piecesOf]
    split
    · rename_i same
      rw [List.flatMap_cons, ih, beq_iff_eq.mp same]
      rfl
    · split
      · rename_i cut
        rw [cut] at ih
        cases ih
      · rename_i piece pieces cut
        rw [cut, List.flatMap_cons, List.cons_append, List.cons.injEq] at ih
        rw [List.flatMap_cons, List.cons_append, List.cons_append, ih.2]

theorem notMem_of_mem_piecesOf {cs piece : List Char} (h : piece ∈ piecesOf separator cs) : separator ∉ piece := by
  induction cs generalizing piece with
  | nil =>
    obtain rfl : piece = [] := by simpa [piecesOf] using h
    simp
  | cons c cs ih =>
    unfold piecesOf at h
    split at h
    · rcases List.mem_cons.mp h with rfl | h
      · simp
      · exact ih h
    · rename_i other
      have other : separator ≠ c := by
        rintro rfl
        simp at other
      split at h
      · obtain rfl : piece = [c] := by simpa using h
        simpa using other
      · rename_i first pieces cut
        rcases List.mem_cons.mp h with rfl | h
        · exact List.not_mem_cons_of_ne_of_not_mem other (ih (by rw [cut]; simp))
        · exact ih (by rw [cut]; simp [h])

theorem head?_of_piecesOf {c : Char} {cs piece : List Char} {pieces : List (List Char)}
    (h : piecesOf separator cs = (c :: piece) :: pieces) : cs.head? = some c := by
  cases cs with
  | nil => cases h
  | cons d cs =>
    rw [piecesOf] at h
    split at h
    · cases h
    · split at h
      · cases h
        rfl
      · cases h
        rfl

theorem joinWith_piecesOf (separator : Char) (text : String) :
    joinWith (.singleton separator) ((piecesOf separator text.toList).map String.ofList) = text := by
  have chars : ∀ cs, (joinWith (.singleton separator) ((piecesOf separator cs).map String.ofList)).toList = cs := by
    intro cs
    induction cs with
    | nil => simp [piecesOf, joinWith]
    | cons c cs ih =>
      have nonempty : piecesOf separator cs ≠ [] := piecesOf_ne_nil cs
      obtain ⟨piece, pieces, cut⟩ := List.exists_cons_of_ne_nil nonempty
      rw [cut] at ih
      by_cases same : c = separator
      · rw [same, piecesOf_separator, cut, List.map_cons, List.map_cons, joinWith]
        · simpa using ih
        · simp
      · have other : (c == separator) = false := by simpa using same
        rw [piecesOf, other, cut]
        simp only [Bool.false_eq_true, if_false, List.map_cons, joinWith_cons, String.toList_append,
          String.toList_ofList, List.cons_append] at ih ⊢
        rw [ih]
  rw [← String.toList_inj, chars]

theorem piecesOf_joinWith {parts : List String} (nonempty : parts ≠ []) (h : ∀ part ∈ parts, separator ∉ part.toList) :
    piecesOf separator (joinWith (.singleton separator) parts).toList = parts.map String.toList := by
  induction parts with
  | nil => exact absurd rfl nonempty
  | cons part parts ih =>
    have first := h part List.mem_cons_self
    cases parts with
    | nil => rw [joinWith, piecesOf_single first, List.map_singleton]
    | cons next parts =>
      have chars : (joinWith (.singleton separator) (part :: next :: parts)).toList =
          part.toList ++ separator :: (joinWith (.singleton separator) (next :: parts)).toList := by
        simp [joinWith]
      rw [chars, piecesOf_append first, ih (by simp) fun p hp => h p (List.mem_cons_of_mem part hp)]
      rfl

/-- Parts without the separator are told by what they are joined to. -/
theorem joinWith_inj (separator : Char) {as bs : List String} (ha : as ≠ []) (hb : bs ≠ [])
    (free : ∀ a ∈ as, separator ∉ a.toList) (free' : ∀ b ∈ bs, separator ∉ b.toList)
    (h : joinWith (.singleton separator) as = joinWith (.singleton separator) bs) : as = bs := by
  have pieces := piecesOf_joinWith ha free
  rw [h, piecesOf_joinWith hb free'] at pieces
  exact (List.map_injective_iff.mpr (fun _ _ => String.toList_inj.mp) pieces).symm

end pieces

end SchemaGen.Text
