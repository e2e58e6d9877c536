import SchemaGen.Proofs.Coverage
import SchemaGen.Proofs.FileDescent
/-!
# Progress of a descent

A step may leave the cursor where it is: it does so when a statement begins to be passed over, and when one ends before
the brace that closes the block around it. Neither can follow the other at one token, so two steps always move the
cursor. From this come the number of steps, the number of loops under way, and that every loop comes around with the
cursor further on.
-/
namespace SchemaGen
open Text Report

namespace Descent
variable {strict : Bool} {ts : Tokens}

/-- The loops under way: that of the file, those of the open blocks, and that of the statement being passed over. -/
def State.depth (s : State) : Nat :=
  1 + s.blocks.length + s.passing.toList.length

def Consumes (strict : Bool) (ts : Tokens) (n k : Nat) : Prop :=
  ∃ s s', After strict ts n start s ∧ After strict ts 1 s s' ∧ s.index ≤ k ∧ k < s'.index

namespace Stand

def depth (s : Stand) : Nat :=
  1 + s.blocks.length + s.passing.toList.length

/-- The cursor is not behind the end, each open block has taken three tokens, and a statement does not begin with a
closing brace. -/
structure Sound (ts : Tokens) (s : Stand) : Prop where
  bound : s.index ≤ ts.front.length
  passing : ∀ start depth, s.passing = some (start, depth) →
    start ≤ s.index ∧ start < ts.front.length ∧ (ts.tokenAt start).text ≠ "\x7d"
  blocks : 3 * s.blocks.length ≤ s.passing.elim s.index Prod.fst

end Stand

theorem depth_stand (s : State) : s.stand.depth = s.depth := by
  cases passing : s.passing <;> simp [Stand.depth, State.depth, State.stand, passing]

section moves
variable {s s' s'' : Stand}

theorem lt_front {i : Nat} (bound : i ≤ ts.front.length) (text : (ts.tokenAt i).text ≠ "") : i < ts.front.length := by
  refine Nat.lt_of_le_of_ne bound ?_
  rintro rfl
  exact text Tokens.text_tokenAt_front

theorem Move.index_le (h : Move ts s s') : s.index ≤ s'.index := by
  cases h with
  | line forward => exact forward.le
  | pass | cutShort => exact Nat.le_refl _
  | _ => exact Nat.le_add_right _ _

theorem Move.stays (h : Move ts s s') (same : s'.index = s.index) :
    (s.passing = none ∧ s'.passing.isSome ∧ (ts.tokenAt s.index).text ≠ "\x7d" ∧ s'.depth = s.depth + 1) ∨
    (s.passing.isSome ∧ s'.passing = none ∧ (ts.tokenAt s.index).text = "\x7d" ∧ s.depth = s'.depth + 1) := by
  cases h with
  | pass _ closing => exact .inl ⟨rfl, rfl, closing, rfl⟩
  | cutShort closing => exact .inr ⟨rfl, rfl, closing, rfl⟩
  | line forward => exact absurd same forward.ne'
  | _ => simp at same

theorem Move.forward (first : Move ts s s') (second : Move ts s' s'') : s.index < s''.index := by
  have lower := first.index_le
  have upper := second.index_le
  refine Nat.lt_of_le_of_ne (lower.trans upper) fun same => ?_
  have here : s'.index = s.index := by omega
  have there : s''.index = s'.index := by omega
  rcases first.stays here with ⟨_, begun, text, _⟩ | ⟨_, ended, text, _⟩ <;>
    rcases second.stays there with ⟨begun', _, text', _⟩ | ⟨ended', _, text', _⟩
  · simp [begun'] at begun
  · rw [here] at text'
    exact text text'
  · rw [here] at text'
    exact text' text
  · simp [ended] at ended'

theorem Free.lt_front {i : Nat} (free : Free ts i) (bound : i ≤ ts.front.length) : i < ts.front.length :=
  Descent.lt_front bound (free_iff.mp free).1

theorem mark_lt_front {i : Nat} (bound : i ≤ ts.front.length) {mark : String} (same : (ts.tokenAt i).text = mark)
    (some : mark ≠ "") : i < ts.front.length :=
  lt_front bound (by rwa [same])

theorem Stand.Sound.outside {i : Nat} {bs : List (Nat × BlockKind)} (bound : i ≤ ts.front.length)
    (blocks : 3 * bs.length ≤ i) : Stand.Sound ts ⟨i, none, bs⟩ :=
  ⟨bound, nofun, blocks⟩

theorem Stand.Sound.later {i start depth : Nat} {bs : List (Nat × BlockKind)}
    (passing : start ≤ i ∧ start < ts.front.length ∧ (ts.tokenAt start).text ≠ "\x7d") (next : i < ts.front.length)
    (blocks : 3 * bs.length ≤ start) : Stand.Sound ts ⟨i + 1, some (start, depth), bs⟩ := by
  refine ⟨next, ?_, blocks⟩
  rintro start depth ⟨⟩
  exact ⟨Nat.le_succ_of_le passing.1, passing.2⟩

theorem Move.sound (h : Move ts s s') (sound : s.Sound ts) : s'.Sound ts := by
  obtain ⟨bound, passing, blocks⟩ := sound
  cases h with
  | mark semicolon => exact .outside (mark_lt_front bound semicolon (by decide)) (Nat.le_succ_of_le blocks)
  | @line i j forward free =>
    refine .outside (Nat.le_of_not_lt fun behind => ?_) (Nat.zero_le _)
    have none := free_iff.mp (free ts.front.length bound behind)
    exact none.1 Tokens.text_tokenAt_front
  | @enter i bs kind keyword name opening =>
    have first := mark_lt_front bound keyword (by cases kind <;> decide)
    have second : i + 1 < ts.front.length := lt_front first <| by
      intro empty
      rw [empty] at name
      exact absurd name (by decide)
    have third := mark_lt_front second opening (by decide)
    simp only [Option.elim_none] at blocks
    exact .outside third (by rw [List.length_cons]; omega)
  | leave closing =>
    simp only [Option.elim_none, List.length_cons] at blocks
    exact .outside (mark_lt_front bound closing (by decide)) (by omega)
  | pass text closing =>
    refine ⟨bound, ?_, blocks⟩
    rintro start depth ⟨⟩
    exact ⟨Nat.le_refl _, lt_front bound text, closing⟩
  | word free => exact .later (passing _ _ rfl) (free.lt_front bound) blocks
  | deeper opening => exact .later (passing _ _ rfl) (mark_lt_front bound opening (by decide)) blocks
  | shallower closing => exact .later (passing _ _ rfl) (mark_lt_front bound closing (by decide)) blocks
  | ended semicolon =>
    exact .outside (mark_lt_front bound semicolon (by decide)) (blocks.trans (Nat.le_succ_of_le (passing _ _ rfl).1))
  | closed closing =>
    exact .outside (mark_lt_front bound closing (by decide)) (blocks.trans (Nat.le_succ_of_le (passing _ _ rfl).1))
  | cutShort closing => exact .outside bound (blocks.trans (passing _ _ rfl).1)

theorem Stand.Sound.depth_le (h : s.Sound ts) : s.depth ≤ ts.withEnd.length := by
  obtain ⟨last, rest, whole, _⟩ := ts.exists_withEnd
  have length : ts.front.length < ts.withEnd.length := by simp [whole]
  have bound := h.bound
  have blocks := h.blocks
  rw [Stand.depth]
  cases passing : s.passing with
  | none =>
    simp only [passing, Option.elim_none, Option.toList_none, List.length_nil] at blocks ⊢
    omega
  | some p =>
    have inside := h.passing p.1 p.2 passing
    simp only [passing, Option.elim_some, Option.toList_some, List.length_singleton] at blocks ⊢
    omega

end moves

section runs
variable {s s' : State} {n : Nat}

theorem After.sound (h : After strict ts n start s) : s.stand.Sound ts :=
  after_induction ⟨Nat.zero_le _, nofun, Nat.le_refl _⟩ (fun _ _ sound move => move.sound sound) h

theorem After.index_le (h : After strict ts n s s') : s.index ≤ s'.index := by
  induction n generalizing s' with
  | zero => rw [after_zero.mp h]
  | succ n ih =>
    obtain ⟨u, before, last⟩ := after_add.mp h
    exact (ih before).trans (step_move (after_one.mp last)).index_le

theorem After.forward (h : After strict ts 2 s s') : s.index < s'.index := by
  obtain ⟨u, first, second⟩ := (after_add (n := 1) (m := 1)).mp h
  exact (step_move (after_one.mp first)).forward (step_move (after_one.mp second))

/-- A loop that comes around has the cursor further on. -/
theorem After.index_lt (h : After strict ts (n + 1) s s') (around : s'.depth = s.depth) : s.index < s'.index := by
  cases n with
  | zero =>
    have move := step_move (after_one.mp h)
    refine Nat.lt_of_le_of_ne move.index_le fun same => ?_
    rw [← depth_stand, ← depth_stand] at around
    rcases move.stays same.symm with ⟨_, _, _, deeper⟩ | ⟨_, _, _, shallower⟩ <;> omega
  | succ n =>
    obtain ⟨u, before, last⟩ := (after_add (n := n) (m := 2)).mp h
    exact Nat.lt_of_le_of_lt before.index_le last.forward

theorem After.le_index (h : After strict ts (2 * n) s s') : s.index + n ≤ s'.index := by
  induction n generalizing s' with
  | zero => exact (after_zero.mp h) ▸ Nat.le_refl _
  | succ n ih =>
    obtain ⟨u, before, last⟩ := (after_add (n := 2 * n) (m := 2)).mp h
    have lower := ih before
    have upper := last.forward
    omega

/-- No token is taken twice. -/
theorem consumes_unique {m k : Nat} (hm : Consumes strict ts m k) (hn : Consumes strict ts n k) : m = n := by
  have earlier {m n : Nat} (hm : Consumes strict ts m k) (hn : Consumes strict ts n k) : ¬ m < n := by
    obtain ⟨u, u', first, step, _, taken⟩ := hm
    obtain ⟨v, v', second, _, ahead, _⟩ := hn
    intro lt
    obtain ⟨d, rfl⟩ := Nat.exists_eq_add_of_lt lt
    have behind : After strict ts (m + 1 + d) start v := by rwa [Nat.add_right_comm]
    obtain ⟨w, reached, rest⟩ := after_add.mp behind
    obtain rfl := after_unique reached (after_add.mpr ⟨u, first, step⟩)
    have further := rest.index_le
    omega
  have lower := earlier hm hn
  have upper := earlier hn hm
  omega

theorem run_settled (settled : ∀ s', ¬ After strict ts n s s') (m : Nat) :
    run strict ts (n + m) s = run strict ts n s := by
  rw [run_add]
  refine Eq.trans ?_ (bind_pure (run strict ts n s))
  cases result : (run strict ts n s).result with
  | error e => exact bind_congr_of_error result _ _
  | ok next =>
    refine bind_congr_of_ok result ?_
    rcases next with s' | schema
    · exact absurd result (settled s')
    · rfl

theorem not_after (s : State) : ¬ After strict ts (2 * ts.withEnd.length) start s := by
  intro h
  obtain ⟨last, rest, whole, _⟩ := ts.exists_withEnd
  have length : ts.front.length < ts.withEnd.length := by simp [whole]
  have lower := h.le_index
  have upper : s.index ≤ ts.front.length := h.sound.bound
  omega

theorem run_file :
    run strict ts (2 * ts.withEnd.length) start =
      (ts.reading strict).file ts.front >>= fun schema => pure (.inr schema) := by
  obtain ⟨n, whole⟩ : Leads strict ts start ((ts.reading strict).file ts.front) .inr := leads_file
  have settled : ∀ s', ¬ After strict ts n start s' := by
    intro s' h
    rw [After, whole, bind_result_ok] at h
    obtain ⟨schema, _, ends⟩ := h
    cases ends
  rw [← whole, ← run_settled settled (2 * ts.withEnd.length), Nat.add_comm, run_settled not_after]

end runs

end Descent

namespace Tokens
variable {text : String} {ts : Tokens}

theorem front_of_scan (h : scan text = .ok ts) : ts.front = ts.list := by
  refine List.takeWhile_eq_self_iff.mpr fun t mem => ?_
  obtain ⟨more, token⟩ := isToken_of_scan h mem
  rw [bne_iff_ne]
  intro empty
  exact token.ne_nil (by rw [empty]; rfl)

theorem reading_of_scan (h : scan text = .ok ts) (strict : Bool) : ts.reading strict = ⟨strict, ts.stop⟩ := by
  simp [reading, front_of_scan h, tokenAt, withEnd]

end Tokens

theorem Schema.read_eq_file {text : String} {ts : Tokens} (h : Tokens.scan text = .ok ts) (strict : Bool) :
    Schema.read strict text = (ts.reading strict).file ts.front := by
  rw [Tokens.reading_of_scan h, Tokens.front_of_scan h, Schema.read, h]
  rfl

open Descent

/-- Whatever the tokens are, reading them comes to an end, and it goes forward. Twice as many steps as there are tokens,
the empty one at the end included, read the file or refuse it, with the outcome and the warnings of the reader. Until
then the cursor is never behind the first empty token, and no more loops are under way than there are tokens. Whenever
the loop of the file, of a block or of a statement comes around, so that as many loops are under way as before, the
cursor is further on. No token is taken by more than one step. -/
theorem descent_goes_forward (strict : Bool) (ts : Tokens) :
    run strict ts (2 * ts.withEnd.length) start =
        (ts.reading strict).file ts.front >>= (fun schema => pure (.inr schema)) ∧
      (∀ text, Tokens.scan text = .ok ts → Schema.read strict text = (ts.reading strict).file ts.front) ∧
      (∀ n s, After strict ts n start s →
        s.index ≤ ts.list.length ∧ (∀ k < s.index, (ts.tokenAt k).text ≠ "") ∧ s.depth ≤ ts.withEnd.length) ∧
      (∀ n s s', After strict ts (n + 1) s s' → s'.depth = s.depth → s.index < s'.index) ∧
      ∀ k m n, Consumes strict ts m k → Consumes strict ts n k → m = n := by
  refine ⟨run_file, fun text scan => Schema.read_eq_file scan strict, fun n s h => ?_,
    fun n s s' h around => h.index_lt around, fun k m n => consumes_unique⟩
  have bound : s.index ≤ ts.front.length := h.sound.bound
  have depth := h.sound.depth_le
  rw [depth_stand] at depth
  exact ⟨bound.trans (List.takeWhile_prefix _).length_le,
    fun k before => Tokens.text_ne_of_lt_front (Nat.lt_of_lt_of_le before bound), depth⟩

end SchemaGen
