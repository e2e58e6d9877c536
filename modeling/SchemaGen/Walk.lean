/-!
Walks: visiting what can be reached from some starting points, each place once. A place is known by its key, and
every key that a visit can find lies in a fixed list, so a walk ends although places may lead back to others.
-/
namespace SchemaGen

/-- Whether what a visit finds is taken up before or after what already waits. -/
inductive Order where
  | depthFirst
  | breadthFirst
deriving DecidableEq, Repr

def Order.push {α : Type} (order : Order) (found waiting : List α) : List α :=
  match order with
  | depthFirst => found ++ waiting
  | breadthFirst => waiting ++ found

theorem Order.mem_push {α : Type} {order : Order} {found waiting : List α} {a : α} :
    a ∈ order.push found waiting ↔ a ∈ found ∨ a ∈ waiting := by
  cases order <;> simp [push, or_comm]

/-- A visit gives a value and the places it leads to. -/
structure Walk (α β : Type) where
  key : α → String
  visit : α → β × List α
  keys : List String
  found_mem : ∀ a, ∀ b ∈ (visit a).2, key b ∈ keys

namespace Walk
variable {α β : Type} (w : Walk α β)

/-- How many places wait whose key no visit could find. -/
def strangers (waiting : List α) : Nat :=
  (waiting.filter (w.key · ∉ w.keys)).length

def unseen (seen : List String) : Nat :=
  (w.keys.filter (· ∉ seen)).length

theorem strangers_cons (a : α) (waiting : List α) :
    w.strangers (a :: waiting) = (if w.key a ∈ w.keys then 0 else 1) + w.strangers waiting := by
  by_cases h : w.key a ∈ w.keys
  · simp [strangers, h]
  · simp [strangers, h, Nat.add_comm]

theorem strangers_push (order : Order) (a : α) (waiting : List α) :
    w.strangers (order.push (w.visit a).2 waiting) = w.strangers waiting := by
  have known := w.found_mem a
  cases order <;> simpa [strangers, Order.push] using known

theorem unseen_cons (k : String) (seen : List String) :
    w.unseen (k :: seen) = ((w.keys.filter (· ∉ seen)).filter (· ≠ k)).length := by
  simp [unseen, List.filter_filter]

theorem unseen_cons_le (k : String) (seen : List String) : w.unseen (k :: seen) ≤ w.unseen seen := by
  rw [unseen_cons]
  exact List.length_filter_le _ _

theorem unseen_cons_lt {k : String} {seen : List String} (known : k ∈ w.keys) (fresh : k ∉ seen) :
    w.unseen (k :: seen) < w.unseen seen := by
  rw [unseen_cons]
  exact List.length_filter_lt_length_iff_exists.mpr ⟨k, by simp [known, fresh], by simp⟩

/-- The values of the places visited from those `waiting`, in order, when the keys `seen` are done. -/
def run (order : Order) (waiting : List α) (seen : List String) : List β :=
  match waiting with
  | [] => []
  | a :: rest =>
    if w.key a ∈ seen then run order rest seen
    else
      let step := w.visit a
      step.1 :: run order (order.push step.2 rest) (w.key a :: seen)
termination_by (w.strangers waiting + w.unseen seen, waiting.length)
decreasing_by
  · rw [strangers_cons, Prod.lex_def]
    by_cases known : w.key a ∈ w.keys
    · simp [known]
    · simp [known]
  · rename_i fresh
    rw [strangers_push, strangers_cons, Prod.lex_def]
    by_cases known : w.key a ∈ w.keys
    · have := w.unseen_cons_lt known fresh
      simp only [known, if_true]
      omega
    · have := w.unseen_cons_le (w.key a) seen
      simp only [known, if_false]
      omega

end Walk

end SchemaGen
