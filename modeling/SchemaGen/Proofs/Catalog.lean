import SchemaGen.Catalog
import Mathlib.Data.List.Nodup
import Mathlib.Data.List.Lex
import Mathlib.Data.String.Basic
import Mathlib.Order.RelClasses
/-!
# Catalogs as finite maps

Putting a key changes the value of that key alone. Keys stay in increasing order, so each occurs once, and a
catalog made from pairs with distinct keys holds exactly these pairs.
-/
namespace SchemaGen.Catalog
variable {κ ν : Type} [LT κ] [DecidableLT κ] [DecidableEq κ]

omit [LT κ] [DecidableLT κ] [DecidableEq κ] in
@[simp] theorem keys_cons (p : κ × ν) (rest : Catalog κ ν) :
    keys (List.cons p rest : Catalog κ ν) = p.1 :: rest.keys := rfl

theorem insert_cons (k : κ) (v : ν) (p : κ × ν) (rest : Catalog κ ν) :
    insert k v (List.cons p rest : Catalog κ ν) =
      if k = p.1 then (k, v) :: rest else if k < p.1 then (k, v) :: p :: rest else p :: rest.insert k v := rfl

theorem find?_insert (j k : κ) (v : ν) (c : Catalog κ ν) :
    (c.insert k v).find? j = if j = k then some v else c.find? j := by
  induction c with
  | nil => simp [insert, find?]
  | cons p rest ih =>
    obtain ⟨k', v'⟩ := p
    by_cases same : k = k'
    · subst k'
      by_cases hj : j = k <;> simp [insert, find?, hj]
    · by_cases less : k < k'
      · by_cases hj : j = k <;> simp [insert, find?, same, less, hj]
      · by_cases hj : j = k'
        · have hk : ¬ k' = k := fun h => same h.symm
          simp [insert, find?, same, less, hj, hk]
        · simp [insert, find?, same, less, hj, ih]

theorem mem_keys_insert {j k : κ} {v : ν} {c : Catalog κ ν} : j ∈ (c.insert k v).keys ↔ j = k ∨ j ∈ c.keys := by
  induction c with
  | nil => simp [insert, keys, toList]
  | cons p rest ih =>
    rw [insert_cons]
    by_cases same : k = p.1
    · rw [if_pos same, keys_cons, keys_cons, List.mem_cons, List.mem_cons, same]
      tauto
    · rw [if_neg same]
      by_cases less : k < p.1
      · rw [if_pos less]
        simp only [keys_cons, List.mem_cons]
      · rw [if_neg less, keys_cons, keys_cons, List.mem_cons, List.mem_cons, ih]
        tauto

omit [LT κ] [DecidableLT κ] in
theorem find?_isSome {k : κ} {c : Catalog κ ν} : (c.find? k).isSome ↔ k ∈ c.keys := by
  induction c with
  | nil => simp [find?, keys, toList]
  | cons p rest ih =>
    obtain ⟨k', v'⟩ := p
    simp only [keys, toList] at ih
    by_cases same : k = k'
    · simp [find?, keys, toList, same]
    · simp [find?, keys, toList, same, ih]

omit [LT κ] [DecidableLT κ] in
theorem find?_eq_none {k : κ} {c : Catalog κ ν} : c.find? k = none ↔ k ∉ c.keys := by
  rw [← find?_isSome, Bool.not_eq_true, Option.isSome_eq_false_iff, Option.isNone_iff_eq_none]

omit [LT κ] [DecidableLT κ] in
theorem mem_of_find? {k : κ} {v : ν} {c : Catalog κ ν} (h : c.find? k = some v) : (k, v) ∈ c.toList := by
  induction c with
  | nil => simp [find?] at h
  | cons p rest ih =>
    obtain ⟨k', v'⟩ := p
    by_cases same : k = k'
    · simp only [find?, same, if_true, Option.some.injEq] at h
      simp [toList, same, h]
    · simp only [find?, same, if_false] at h
      exact List.mem_cons_of_mem _ (ih h)

def Ordered (c : Catalog κ ν) : Prop :=
  c.keys.Pairwise (· < ·)

section order
variable [IsStrictTotalOrder κ (· < ·)]

theorem Ordered.insert {c : Catalog κ ν} (h : c.Ordered) (k : κ) (v : ν) : (c.insert k v).Ordered := by
  induction c with
  | nil => simp [Catalog.insert, Ordered, keys, toList]
  | cons p rest ih =>
    obtain ⟨below, tail⟩ := List.pairwise_cons.mp h
    rw [insert_cons]
    by_cases same : k = p.1
    · rw [if_pos same]
      exact List.pairwise_cons.mpr ⟨same ▸ below, tail⟩
    · rw [if_neg same]
      by_cases less : k < p.1
      · rw [if_pos less]
        refine List.pairwise_cons.mpr ⟨?_, h⟩
        intro j hj
        rcases List.mem_cons.mp hj with rfl | hj
        · exact less
        · exact IsTrans.trans _ _ _ less (below j hj)
      · rw [if_neg less]
        have greater : p.1 < k := by
          by_contra notGreater
          exact same (Std.Trichotomous.trichotomous k p.1 less notGreater)
        refine List.pairwise_cons.mpr ⟨?_, ih tail⟩
        intro j hj
        rcases mem_keys_insert.mp hj with rfl | hj
        · exact greater
        · exact below j hj

omit [DecidableLT κ] [DecidableEq κ] in
theorem Ordered.nodup {c : Catalog κ ν} (h : c.Ordered) : c.keys.Nodup := by
  refine List.Pairwise.imp ?_ h
  rintro a _ less rfl
  exact Std.Irrefl.irrefl a less

omit [DecidableLT κ] [DecidableEq κ] [IsStrictTotalOrder κ (· < ·)] in
theorem ordered_empty : (empty : Catalog κ ν).Ordered := List.Pairwise.nil

theorem Ordered.foldl_insert {c : Catalog κ ν} (h : c.Ordered) (pairs : List (κ × ν)) :
    (pairs.foldl (fun c p => c.insert p.1 p.2) c).Ordered := by
  induction pairs generalizing c with
  | nil => exact h
  | cons p pairs ih => exact ih (h.insert p.1 p.2)

theorem ordered_ofList (pairs : List (κ × ν)) : (ofList pairs).Ordered :=
  ordered_empty.foldl_insert pairs

end order

theorem mem_keys_foldl_insert {j : κ} {c : Catalog κ ν} {pairs : List (κ × ν)} :
    j ∈ (pairs.foldl (fun c p => c.insert p.1 p.2) c).keys ↔ j ∈ c.keys ∨ j ∈ pairs.map (·.1) := by
  induction pairs generalizing c with
  | nil => simp
  | cons p pairs ih =>
    rw [List.foldl_cons, ih, mem_keys_insert, List.map_cons, List.mem_cons]
    tauto

theorem mem_keys_ofList {j : κ} {pairs : List (κ × ν)} : j ∈ (ofList pairs).keys ↔ j ∈ pairs.map (·.1) := by
  rw [ofList, mem_keys_foldl_insert]
  simp [empty, keys, toList]

theorem find?_foldl_insert {k : κ} {pairs : List (κ × ν)} (h : k ∉ pairs.map (·.1)) (c : Catalog κ ν) :
    (pairs.foldl (fun c p => c.insert p.1 p.2) c).find? k = c.find? k := by
  induction pairs generalizing c with
  | nil => rfl
  | cons p pairs ih =>
    simp only [List.map_cons, List.mem_cons, not_or] at h
    rw [List.foldl_cons, ih h.2, find?_insert, if_neg h.1]

theorem find?_ofList_of_mem {k : κ} {v : ν} {pairs : List (κ × ν)} (distinct : (pairs.map (·.1)).Nodup)
    (h : (k, v) ∈ pairs) : (ofList pairs).find? k = some v := by
  obtain ⟨before, after, rfl⟩ := List.append_of_mem h
  have fresh : k ∉ after.map (·.1) := by
    rw [List.map_append, List.map_cons] at distinct
    exact (List.nodup_cons.mp distinct.of_append_right).1
  rw [ofList, List.foldl_append, List.foldl_cons, find?_foldl_insert fresh, find?_insert, if_pos rfl]

theorem find?_ofList {k : κ} {v : ν} {pairs : List (κ × ν)} (distinct : (pairs.map (·.1)).Nodup) :
    (ofList pairs).find? k = some v ↔ (k, v) ∈ pairs := by
  constructor
  · intro h
    have hk : k ∈ pairs.map (·.1) := by
      rw [← mem_keys_ofList, ← find?_isSome, h]
      rfl
    obtain ⟨⟨k', v'⟩, hp, rfl⟩ := List.mem_map.mp hk
    rw [find?_ofList_of_mem distinct hp] at h
    cases h
    exact hp
  · exact find?_ofList_of_mem distinct

@[simp] theorem mem_sorted {k : κ} {ks : List κ} : k ∈ sorted ks ↔ k ∈ ks := by
  rw [sorted, mem_keys_ofList]
  simp

theorem nodup_sorted [IsStrictTotalOrder κ (· < ·)] (ks : List κ) : (sorted ks).Nodup :=
  (ordered_ofList _).nodup

omit [DecidableLT κ] [DecidableEq κ] in
/-- Keys in order are listed in one way only. -/
theorem Ordered.keys_eq [IsStrictTotalOrder κ (· < ·)] {μ : Type} {c : Catalog κ ν} {c' : Catalog κ μ} (h : c.Ordered)
    (h' : c'.Ordered) (same : ∀ k, k ∈ c.keys ↔ k ∈ c'.keys) : c.keys = c'.keys := by
  refine List.Perm.eq_of_pairwise ?_ h h' ((List.perm_ext_iff_of_nodup h.nodup h'.nodup).mpr same)
  intro a b _ _ less greater
  exact absurd (IsTrans.trans _ _ _ less greater) (Std.Irrefl.irrefl a)

theorem sorted_congr [IsStrictTotalOrder κ (· < ·)] {ks ks' : List κ} (same : ∀ k, k ∈ ks ↔ k ∈ ks') :
    sorted ks = sorted ks' := by
  refine (ordered_ofList _).keys_eq (ordered_ofList _) ?_
  intro k
  rw [← sorted, ← sorted, mem_sorted, mem_sorted, same]

theorem sorted_eq_filter [IsStrictTotalOrder κ (· < ·)] {ks all : List κ} (ordered : all.Pairwise (· < ·))
    (covers : ∀ k ∈ ks, k ∈ all) : sorted ks = all.filter (· ∈ ks) := by
  have rest : Ordered (List.map (·, ()) (all.filter (· ∈ ks)) : Catalog κ Unit) := by
    simpa [Ordered, keys, toList, Function.comp_def] using ordered.filter (· ∈ ks)
  have same : ∀ k, k ∈ (ofList (ks.map (·, ()))).keys ↔
      k ∈ keys (List.map (·, ()) (all.filter (· ∈ ks)) : Catalog κ Unit) := by
    intro k
    rw [← sorted, mem_sorted]
    simpa [keys, toList] using covers k
  simpa [sorted, keys, toList, Function.comp_def] using (ordered_ofList _).keys_eq rest same

end SchemaGen.Catalog
