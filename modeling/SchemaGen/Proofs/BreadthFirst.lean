import SchemaGen.Proofs.Walk
/-!
# Breadth-first walks go level by level

What is new among the starting points comes first, then what is new among the places that these lead to, and so
on. A starting point is visited as such, also where another place leads to it.
-/
namespace SchemaGen

section levels
variable {α : Type} [DecidableEq α]

/-- The elements that are not `seen`, each where it stands first. -/
def fresh (seen : List α) : List α → List α
  | [] => []
  | a :: as => if a ∈ seen then fresh seen as else a :: fresh (a :: seen) as

/-- Breadth-first order from some level on, when the elements `seen` are done: first what is new in the level,
then the order from the level that it leads to. -/
inductive LevelOrder (next : α → List α) : List α → List α → List α → Prop
  | last {seen top : List α} (empty : fresh seen top = []) : LevelOrder next seen top []
  | level {seen top below : List α} (nonempty : fresh seen top ≠ [])
      (rest : LevelOrder next (fresh seen top ++ seen) ((fresh seen top).flatMap next) below) :
      LevelOrder next seen top (fresh seen top ++ below)

theorem fresh_congr {seen seen' : List α} (same : ∀ a, a ∈ seen ↔ a ∈ seen') (as : List α) :
    fresh seen as = fresh seen' as := by
  induction as generalizing seen seen' with
  | nil => rfl
  | cons a as ih =>
    have rest : fresh (a :: seen) as = fresh (a :: seen') as := by
      apply ih
      intro b
      simp [same]
    simp only [fresh, same, rest, ih same]

end levels

namespace Walk
variable {α β : Type} {w : Walk α β} {order : Order} {waiting : List α} {seen : List String} {a : α}

/-- A place is visited because it waited from the start or because another visit found it. -/
theorem mem_waiting_or_leads (h : a ∈ w.places order waiting seen) :
    a ∈ waiting ∨ ∃ b ∈ w.places order waiting seen, w.Leads b a := by
  induction waiting, seen using places_induction w order with
  | nil seen => simp at h
  | known b rest seen hb ih =>
    rw [places_seen hb] at h ⊢
    rcases ih h with waits | found
    · exact .inl (List.mem_cons_of_mem _ waits)
    · exact .inr found
  | fresh b rest seen hb ih =>
    rw [places_fresh hb] at h ⊢
    rcases List.mem_cons.mp h with rfl | h
    · exact .inl List.mem_cons_self
    · rcases ih h with waits | ⟨c, hc, leads⟩
      · rcases Order.mem_push.mp waits with found | waits
        · exact .inr ⟨b, List.mem_cons_self, found⟩
        · exact .inl (List.mem_cons_of_mem _ waits)
      · exact .inr ⟨c, List.mem_cons_of_mem _ hc, leads⟩

theorem mem_pending_of_key {pending found : List α} (h : a ∈ w.places .breadthFirst (pending ++ found) seen)
    (same : w.key a ∈ pending.map w.key) : a ∈ pending := by
  induction pending generalizing found seen with
  | nil => simp at same
  | cons b pending ih =>
    rw [List.map_cons, List.mem_cons] at same
    rw [List.cons_append] at h
    by_cases hb : w.key b ∈ seen
    · rw [places_seen hb] at h
      have other : w.key a ≠ w.key b := fun equal => key_notMem_of_mem_places h (equal ▸ hb)
      exact List.mem_cons_of_mem _ (ih h (same.resolve_left other))
    · rw [places_fresh hb] at h
      rcases List.mem_cons.mp h with rfl | h
      · exact List.mem_cons_self
      · have other : w.key a ≠ w.key b := fun equal => key_notMem_of_mem_places h (by simp [equal])
        rw [Order.push, List.append_assoc] at h
        exact List.mem_cons_of_mem _ (ih h (same.resolve_left other))

variable {next : String → List String} (tell : ∀ a, (w.visit a).2.map w.key = next (w.key a))
include tell

/-- The places that wait are worked off before those that they lead to. -/
theorem keys_places_level (pending found : List α) (seen : List String) :
    ∃ below : List α,
      below.map w.key = found.map w.key ++ (fresh seen (pending.map w.key)).flatMap next ∧
      (w.places .breadthFirst (pending ++ found) seen).map w.key = fresh seen (pending.map w.key) ++
        (w.places .breadthFirst below ((fresh seen (pending.map w.key)).reverse ++ seen)).map w.key := by
  induction pending generalizing found seen with
  | nil => exact ⟨found, by simp [fresh], by simp [fresh]⟩
  | cons a pending ih =>
    rw [List.cons_append, List.map_cons, fresh]
    by_cases ha : w.key a ∈ seen
    · rw [places_seen ha, if_pos ha]
      exact ih found seen
    · rw [places_fresh ha, if_neg ha, Order.push, List.append_assoc]
      obtain ⟨below, keys, split⟩ := ih (found ++ (w.visit a).2) (w.key a :: seen)
      refine ⟨below, ?_, ?_⟩
      · rw [keys, List.map_append, tell, List.flatMap_cons, List.append_assoc]
      · rw [List.map_cons, split, List.cons_append, List.reverse_cons, List.append_assoc, List.singleton_append]

theorem levelOrder_places (waiting : List α) (seen : List String) {done : List String}
    (same : ∀ k, k ∈ done ↔ k ∈ seen) :
    LevelOrder next done (waiting.map w.key) ((w.places .breadthFirst waiting seen).map w.key) := by
  -- The walk from the next level is shorter by what is new in this one.
  induction length : (w.places .breadthFirst waiting seen).length using Nat.strongRecOn
    generalizing waiting seen done with
  | _ size ih =>
    obtain ⟨below, keys, split⟩ := keys_places_level tell waiting [] seen
    rw [List.append_nil] at split
    rw [List.map_nil, List.nil_append] at keys
    have level : fresh seen (waiting.map w.key) = fresh done (waiting.map w.key) :=
      fresh_congr (fun k => (same k).symm) _
    rw [level] at keys split
    rw [split]
    by_cases new : fresh done (waiting.map w.key) = []
    · rw [new] at keys ⊢
      have nothing : below = [] := by simpa using keys
      rw [nothing, places_nil]
      exact .last new
    · refine .level new ?_
      rw [← keys]
      apply ih _ ?_ below _ ?_ rfl
      · have shorter := congrArg List.length split
        have positive := List.length_pos_iff.mpr new
        simp only [List.length_map, List.length_append] at shorter
        omega
      · intro k
        simp [same]

end Walk

end SchemaGen
