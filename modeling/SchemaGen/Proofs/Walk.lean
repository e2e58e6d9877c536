import SchemaGen.Walk
import Mathlib.Data.List.Nodup
import Mathlib.Logic.Relation
/-!
# Walks and reachability

A walk visits nothing that its starting points do not lead to, visits no key twice, and leaves out nothing that
they lead to. The order in which places are taken up plays no part in any of this.
-/
namespace SchemaGen.Walk
open Relation
variable {α β : Type} (w : Walk α β)

def Leads (a b : α) : Prop :=
  b ∈ (w.visit a).2

/-- The same walk, with the places themselves as values. -/
def traced : Walk α α where
  key := w.key
  visit a := (a, (w.visit a).2)
  keys := w.keys
  found_mem := w.found_mem

/-- The places visited from those `waiting`, in order, when the keys `seen` are done. -/
def places (order : Order) (waiting : List α) (seen : List String) : List α :=
  w.traced.run order waiting seen

variable {w} {order : Order} {waiting rest : List α} {seen : List String} {a b : α}

@[simp] theorem places_nil : w.places order [] seen = [] := by
  rw [places, run]

theorem places_seen (h : w.key a ∈ seen) : w.places order (a :: rest) seen = w.places order rest seen := by
  rw [places, run]
  exact if_pos h

theorem places_fresh (h : w.key a ∉ seen) :
    w.places order (a :: rest) seen = a :: w.places order (order.push (w.visit a).2 rest) (w.key a :: seen) := by
  rw [places, run]
  exact if_neg h

theorem places_induction (w : Walk α β) (order : Order) {P : List α → List String → Prop}
    (nil : ∀ seen, P [] seen)
    (known : ∀ a rest seen, w.key a ∈ seen → P rest seen → P (a :: rest) seen)
    (fresh : ∀ a rest seen, w.key a ∉ seen →
      P (order.push (w.visit a).2 rest) (w.key a :: seen) → P (a :: rest) seen)
    (waiting : List α) (seen : List String) : P waiting seen := by
  induction waiting, seen using run.induct w order with
  | case1 seen => exact nil seen
  | case2 seen a rest h ih => exact known a rest seen h ih
  | case3 seen a rest h step ih => exact fresh a rest seen h ih

theorem run_eq_map_places (w : Walk α β) (order : Order) (waiting : List α) (seen : List String) :
    w.run order waiting seen = (w.places order waiting seen).map fun a => (w.visit a).1 := by
  induction waiting, seen using places_induction w order with
  | nil seen => rw [places_nil, run, List.map_nil]
  | known a rest seen h ih => rw [places_seen h, run, if_pos h, ih]
  | fresh a rest seen h ih =>
    rw [places_fresh h, run, if_neg h, List.map_cons]
    exact congrArg _ ih

/-- A walk depends on its keys and visits alone, not on the list that bounds it. -/
theorem run_congr {w w' : Walk α β} (key : w.key = w'.key) (visit : w.visit = w'.visit) (order : Order)
    (waiting : List α) (seen : List String) : w.run order waiting seen = w'.run order waiting seen := by
  induction waiting, seen using places_induction w order with
  | nil seen => rw [run, run]
  | known a rest seen h ih =>
    have known : w'.key a ∈ seen := key ▸ h
    rw [run, if_pos h, ih]
    conv_rhs => rw [run, if_pos known]
  | fresh a rest seen h ih =>
    have fresh : w'.key a ∉ seen := key ▸ h
    rw [run, if_neg h]
    conv_rhs => rw [run, if_neg fresh]
    rw [visit, key] at ih
    rw [visit, key]
    exact congrArg _ ih

theorem reachable_of_mem_places (h : a ∈ w.places order waiting seen) :
    ∃ s ∈ waiting, ReflTransGen w.Leads s a := by
  induction waiting, seen using places_induction w order with
  | nil seen => simp at h
  | known b rest seen hb ih =>
    rw [places_seen hb] at h
    obtain ⟨s, hs, path⟩ := ih h
    exact ⟨s, by simp [hs], path⟩
  | fresh b rest seen hb ih =>
    rw [places_fresh hb] at h
    rcases List.mem_cons.mp h with rfl | h
    · exact ⟨a, by simp, .refl⟩
    · obtain ⟨s, hs, path⟩ := ih h
      rcases Order.mem_push.mp hs with hs | hs
      · exact ⟨b, by simp, .head hs path⟩
      · exact ⟨s, by simp [hs], path⟩

theorem key_notMem_of_mem_places (h : a ∈ w.places order waiting seen) : w.key a ∉ seen := by
  induction waiting, seen using places_induction w order with
  | nil seen => simp at h
  | known b rest seen hb ih =>
    rw [places_seen hb] at h
    exact ih h
  | fresh b rest seen hb ih =>
    rw [places_fresh hb] at h
    rcases List.mem_cons.mp h with rfl | h
    · exact hb
    · exact fun hk => ih h (List.mem_cons_of_mem _ hk)

theorem places_keys_nodup (w : Walk α β) (order : Order) (waiting : List α) (seen : List String) :
    ((w.places order waiting seen).map w.key).Nodup := by
  induction waiting, seen using places_induction w order with
  | nil seen => simp
  | known b rest seen hb ih =>
    rw [places_seen hb]
    exact ih
  | fresh b rest seen hb ih =>
    rw [places_fresh hb, List.map_cons, List.nodup_cons]
    refine ⟨?_, ih⟩
    intro hk
    obtain ⟨c, hc, same⟩ := List.mem_map.mp hk
    exact key_notMem_of_mem_places hc (by simp [same])

def Done (w : Walk α β) (seen : List String) (visited : List α) (k : String) : Prop :=
  k ∈ seen ∨ ∃ c ∈ visited, w.key c = k

theorem Done.visit {visited : List α} {k : String} (h : w.Done (w.key a :: seen) visited k) :
    w.Done seen (a :: visited) k := by
  rcases h with h | ⟨c, hc, hk⟩
  · rcases List.mem_cons.mp h with rfl | h
    · exact .inr ⟨a, by simp, rfl⟩
    · exact .inl h
  · exact .inr ⟨c, by simp [hc], hk⟩

theorem done_of_mem_waiting (h : a ∈ waiting) : w.Done seen (w.places order waiting seen) (w.key a) := by
  induction waiting, seen using places_induction w order with
  | nil seen => simp at h
  | known b rest seen hb ih =>
    rw [places_seen hb]
    rcases List.mem_cons.mp h with rfl | h
    · exact .inl hb
    · exact ih h
  | fresh b rest seen hb ih =>
    rw [places_fresh hb]
    rcases List.mem_cons.mp h with rfl | h
    · exact .inr ⟨a, by simp, rfl⟩
    · exact (ih (Order.mem_push.mpr (.inr h))).visit

theorem done_of_leads (h : a ∈ w.places order waiting seen) (step : w.Leads a b) :
    w.Done seen (w.places order waiting seen) (w.key b) := by
  induction waiting, seen using places_induction w order with
  | nil seen => simp at h
  | known c rest seen hc ih =>
    rw [places_seen hc] at h ⊢
    exact ih h
  | fresh c rest seen hc ih =>
    rw [places_fresh hc] at h ⊢
    rcases List.mem_cons.mp h with rfl | h
    · exact (done_of_mem_waiting (Order.mem_push.mpr (.inl step))).visit
    · exact (ih h).visit

/-- Where keys tell places apart, the places visited are those that can be reached. -/
theorem mem_places_iff {S : α → Prop} (start : ∀ a ∈ waiting, S a) (closed : ∀ a b, S a → w.Leads a b → S b)
    (tell : ∀ a b, S a → S b → w.key a = w.key b → a = b) :
    a ∈ w.places order waiting [] ↔ ∃ s ∈ waiting, ReflTransGen w.Leads s a := by
  refine ⟨reachable_of_mem_places, ?_⟩
  have inside : ∀ s b, S s → ReflTransGen w.Leads s b → S b := by
    intro s b hs path
    induction path with
    | refl => exact hs
    | tail _ step ih => exact closed _ _ ih step
  have visited : ∀ b, S b → w.Done [] (w.places order waiting []) (w.key b) → b ∈ w.places order waiting [] := by
    intro b hb done
    rcases done with h | ⟨c, hc, same⟩
    · simp at h
    · obtain ⟨s, hs, path⟩ := reachable_of_mem_places hc
      exact tell c b (inside s c (start s hs) path) hb same ▸ hc
  rintro ⟨s, hs, path⟩
  induction path with
  | refl => exact visited s (start s hs) (done_of_mem_waiting hs)
  | tail path step ih =>
    have hb := inside s _ (start s hs) path
    exact visited _ (closed _ _ hb step) (done_of_leads ih step)

/-- A walk of so many visits at most. -/
def runFor (w : Walk α β) (order : Order) : Nat → List α → List String → List β
  | 0, _, _ => []
  | visits + 1, waiting, seen =>
    match waiting.dropWhile (w.key · ∈ seen) with
    | [] => []
    | a :: rest => (w.visit a).1 :: w.runFor order visits (order.push (w.visit a).2 rest) (w.key a :: seen)

theorem left_push_lt (order : Order) (rest : List α) (fresh : w.key a ∉ seen) :
    w.strangers (order.push (w.visit a).2 rest) + w.unseen (w.key a :: seen) <
      w.strangers (a :: rest) + w.unseen seen := by
  rw [strangers_push, strangers_cons]
  by_cases known : w.key a ∈ w.keys
  · have := w.unseen_cons_lt known fresh
    rw [if_pos known]
    omega
  · have := w.unseen_cons_le (w.key a) seen
    rw [if_neg known]
    omega

/-- A walk makes as many visits at most as places wait and keys are left to find. -/
theorem run_eq_runFor (w : Walk α β) (order : Order) (waiting : List α) (seen : List String) :
    w.run order waiting seen = w.runFor order (w.strangers waiting + w.unseen seen) waiting seen := by
  -- For any bound that is large enough, as one visit less is left after each.
  suffices enough : ∀ visits, w.strangers waiting + w.unseen seen ≤ visits →
      w.run order waiting seen = w.runFor order visits waiting seen from enough _ (Nat.le_refl _)
  induction waiting, seen using places_induction w order with
  | nil seen =>
    intro visits _
    rw [run]
    cases visits <;> rfl
  | known a rest seen h ih =>
    intro visits bound
    rw [strangers_cons] at bound
    rw [run, if_pos h, ih visits (by omega)]
    cases visits with
    | zero => rfl
    | succ visits => rw [runFor, runFor, List.dropWhile_cons_of_pos (by simpa using h)]
  | fresh a rest seen h ih =>
    intro visits bound
    have fewer := left_push_lt order rest h
    obtain ⟨visits, rfl⟩ : ∃ n, visits = n + 1 := ⟨visits - 1, by omega⟩
    rw [run, if_neg h, runFor, List.dropWhile_cons_of_neg (by simpa using h)]
    exact congrArg _ (ih visits (by omega))

end SchemaGen.Walk
