import SchemaGen.Proofs.FieldOptions
import SchemaGen.Proofs.Progress
/-!
# Braces and the loops that take them

A descent has one loop for each open block and at most one for a statement. The tokens that each of them has taken so
far have the braces open that it counts and no others, whatever stands between them. So a loop that ends has taken
balanced tokens, and a block ends with the brace that closes its own.
-/
namespace SchemaGen
open Text Report

section balance
variable {words inner : List String} {depth : Nat}

theorem Balanced.append (h : Balanced words) {more : List String} (rest : Balanced more) :
    Balanced (words ++ more) := by
  induction h with
  | nil => exact rest
  | word opening closing _ ih => exact .word opening closing ih
  | @group inner after inside _ _ ih =>
    rw [List.cons_append, List.append_assoc, List.cons_append]
    exact .group inside ih

theorem Balanced.braces (h : Balanced inner) : Balanced ("\x7b" :: (inner ++ ["\x7d"])) :=
  .group h .nil

inductive Opens : Nat → List String → Prop
  | closed {words : List String} (h : Balanced words) : Opens 0 words
  | inside {depth : Nat} {before inner : List String} (outer : Opens depth before) (h : Balanced inner) :
      Opens (depth + 1) (before ++ "\x7b" :: inner)

theorem opens_zero : Opens 0 words ↔ Balanced words := by
  constructor
  · intro h
    cases h with
    | closed h => exact h
  · exact .closed

theorem Opens.append (h : Opens depth words) {more : List String} (rest : Balanced more) :
    Opens depth (words ++ more) := by
  cases h with
  | closed h => exact .closed (h.append rest)
  | inside outer h =>
    rw [List.append_assoc, List.cons_append]
    exact .inside outer (h.append rest)

theorem Opens.deeper (h : Opens depth words) : Opens (depth + 1) (words ++ ["\x7b"]) :=
  .inside h .nil

theorem Opens.shallower (h : Opens (depth + 1) words) : Opens depth (words ++ ["\x7d"]) := by
  cases h with
  | inside outer h =>
    rw [List.append_assoc, List.cons_append]
    exact outer.append h.braces

end balance

namespace Tokens
variable {ts : Tokens} {i j k : Nat}

def between (ts : Tokens) (i j : Nat) : List String :=
  (ts.slice i j).map (·.text)

theorem between_self : ts.between i i = [] := by
  simp [between, slice]

theorem between_append (first : i ≤ j) (second : j ≤ k) : ts.between i j ++ ts.between j k = ts.between i k := by
  obtain ⟨m, rfl⟩ := Nat.exists_eq_add_of_le first
  obtain ⟨n, rfl⟩ := Nat.exists_eq_add_of_le second
  have drop : ts.list.drop (i + m) = (ts.list.drop i).drop m := List.drop_drop.symm
  rw [between, between, between, ← List.map_append, slice, slice, slice, drop, Nat.add_sub_cancel_left,
    Nat.add_sub_cancel_left, Nat.add_assoc, Nat.add_sub_cancel_left, List.take_add]

theorem tokenAt_eq (ts : Tokens) (i : Nat) : ts.tokenAt i = (ts.list[i]?).getD ⟨"", ts.stop⟩ := by
  rw [tokenAt, withEnd, List.getD_eq_getElem?_getD]
  rcases Nat.lt_or_ge i ts.list.length with inside | behind
  · rw [List.getElem?_append_left inside]
  · rw [List.getElem?_append_right behind, List.getElem?_eq_none behind]
    cases i - ts.list.length <;> rfl

theorem between_next (text : (ts.tokenAt i).text ≠ "") : ts.between i (i + 1) = [(ts.tokenAt i).text] := by
  rw [between, slice, Nat.add_sub_cancel_left, List.take_one, List.head?_drop]
  rw [tokenAt_eq] at text ⊢
  cases here : ts.list[i]? with
  | none => simp [here] at text
  | some t => rfl

theorem between_succ (h : i ≤ j) (text : (ts.tokenAt j).text ≠ "") :
    ts.between i (j + 1) = ts.between i j ++ [(ts.tokenAt j).text] := by
  rw [← between_append h (Nat.le_succ j), between_next text]

end Tokens

namespace Descent
variable {strict : Bool} {ts : Tokens}

/-- A loop that is under way: that of a statement or that of a block, and where it began. -/
inductive Call where
  | statement (start : Nat)
  | block (start : Nat) (kind : BlockKind)
deriving DecidableEq

def State.calls (s : State) : List Call :=
  (s.passing.map fun p => Call.statement p.start).toList ++ s.blocks.map fun b => .block b.start b.kind

/-- What a loop has taken when it ends before the index `j`: balanced tokens. For a block they begin with its keyword,
its name and its opening brace, and end with the closing brace that belongs to it. -/
def Call.Took (ts : Tokens) (j : Nat) : Call → Prop
  | statement start => start ≤ j ∧ Balanced (ts.between start j)
  | block start kind => start ≤ j ∧ Balanced (ts.between start j) ∧
      ∃ name inner, isIdentifier name ∧ Balanced inner ∧
        ts.between start j = kind.keyword :: name :: "\x7b" :: (inner ++ ["\x7d"])

namespace Stand

def calls (s : Stand) : List Call :=
  (s.passing.map fun p => Call.statement p.1).toList ++ s.blocks.map fun b => .block b.1 b.2

end Stand

theorem calls_stand (s : State) : s.stand.calls = s.calls := by
  cases passing : s.passing <;> simp [Stand.calls, State.calls, State.stand, passing]

/-- A block is open: behind its brace, up to the index `j`, all is balanced. -/
structure Opened (ts : Tokens) (start : Nat) (kind : BlockKind) (j : Nat) : Prop where
  bound : start + 3 ≤ j
  keyword : (ts.tokenAt start).text = kind.keyword
  name : isIdentifier (ts.tokenAt (start + 1)).text
  opening : (ts.tokenAt (start + 2)).text = "\x7b"
  inside : Balanced (ts.between (start + 3) j)

/-- The open blocks, innermost first, up to the index `j`: all is balanced between one brace and the next block. -/
def Nested (ts : Tokens) : List (Nat × BlockKind) → Nat → Prop
  | [], j => Balanced (ts.between 0 j)
  | (start, kind) :: bs, j => Opened ts start kind j ∧ Nested ts bs start

/-- The braces that are open are those of the open blocks, and in a statement as many more as have been counted. -/
structure Stand.Matched (ts : Tokens) (s : Stand) : Prop where
  blocks : Nested ts s.blocks (s.passing.elim s.index Prod.fst)
  passing : ∀ start depth, s.passing = some (start, depth) →
    start ≤ s.index ∧ Opens depth (ts.between start s.index)

theorem Nested.extend {bs : List (Nat × BlockKind)} {i j : Nat} (h : Nested ts bs i) (le : i ≤ j)
    (more : Balanced (ts.between i j)) : Nested ts bs j := by
  cases bs with
  | nil =>
    rw [Nested, ← Tokens.between_append (Nat.zero_le i) le]
    exact Balanced.append h more
  | cons b bs =>
    obtain ⟨opened, outer⟩ := h
    refine ⟨{ opened with bound := opened.bound.trans le, inside := ?_ }, outer⟩
    rw [← Tokens.between_append opened.bound le]
    exact opened.inside.append more

theorem Opened.took {start j : Nat} {kind : BlockKind} (h : Opened ts start kind j)
    (closing : (ts.tokenAt j).text = "\x7d") : (Call.block start kind).Took ts (j + 1) := by
  have bound := h.bound
  have word : kind.keyword ∉ ["", "\x7b", "\x7d"] := by cases kind <;> decide
  have name := word_of_test h.name (by decide)
  simp only [List.mem_cons, List.not_mem_nil, or_false, not_or] at word name
  have head : ts.between start (start + 3) = [kind.keyword, (ts.tokenAt (start + 1)).text, "\x7b"] := by
    rw [Tokens.between_succ (by omega) (by simp [h.opening]), Tokens.between_succ (by omega) name.1,
      Tokens.between_next (by simp [h.keyword, word]), h.keyword, h.opening]
    rfl
  have whole : ts.between start (j + 1) =
      kind.keyword :: (ts.tokenAt (start + 1)).text :: "\x7b" :: (ts.between (start + 3) j ++ ["\x7d"]) := by
    rw [Tokens.between_succ (by omega) (by simp [closing]), ← Tokens.between_append (by omega) bound, head, closing]
    rfl
  refine ⟨by omega, ?_, _, _, h.name, h.inside, whole⟩
  rw [whole]
  exact .word word.2.1 word.2.2 (.word name.2.2.1 name.2.2.2 h.inside.braces)

section moves
variable {s s' : Stand}

theorem balanced_free {i : Nat} (free : Free ts i) : Balanced (ts.between i (i + 1)) := by
  obtain ⟨text, opening, closing⟩ := free_iff.mp free
  rw [Tokens.between_next text]
  exact .word opening closing .nil

theorem balanced_freeTo {i j : Nat} (free : FreeTo ts i j) (le : i ≤ j) : Balanced (ts.between i j) := by
  induction j, le using Nat.le_induction with
  | base =>
    rw [Tokens.between_self]
    exact .nil
  | succ j le ih =>
    rw [← Tokens.between_append le (Nat.le_succ j)]
    exact (ih fun k lower upper => free k lower (by omega)).append (balanced_free (free j le (Nat.lt_succ_self j)))

theorem free_semicolon {i : Nat} (semicolon : (ts.tokenAt i).text = ";") : Free ts i := by
  simp [free_iff, semicolon]

/-- A step that ends a loop leaves behind the balanced tokens it has taken. -/
theorem Move.took (h : Move ts s s') (matched : s.Matched ts) {call : Call} (ended : s.calls = call :: s'.calls) :
    call.Took ts s'.index := by
  have shorter : s'.calls.length < s.calls.length := by simp [ended]
  obtain ⟨blocks, passing⟩ := matched
  cases h with
  | leave closing =>
    cases ended
    exact blocks.1.took closing
  | ended semicolon =>
    cases ended
    obtain ⟨bound, opens⟩ := passing _ _ rfl
    refine ⟨Nat.le_succ_of_le bound, ?_⟩
    rw [← Tokens.between_append bound (Nat.le_succ _)]
    exact (opens_zero.mp opens).append (balanced_free (free_semicolon semicolon))
  | closed closing =>
    cases ended
    obtain ⟨bound, opens⟩ := passing _ _ rfl
    refine ⟨Nat.le_succ_of_le bound, ?_⟩
    rw [Tokens.between_succ bound (by simp [closing]), closing]
    exact opens_zero.mp opens.shallower
  | cutShort closing =>
    cases ended
    obtain ⟨bound, opens⟩ := passing _ _ rfl
    exact ⟨bound, opens_zero.mp opens⟩
  | enter | pass => exact absurd shorter (Nat.not_lt.mpr (Nat.le_succ _))
  | _ => exact absurd shorter (Nat.lt_irrefl _)

theorem Stand.Matched.outside {i : Nat} {bs : List (Nat × BlockKind)} (blocks : Nested ts bs i) :
    Stand.Matched ts ⟨i, none, bs⟩ :=
  ⟨blocks, nofun⟩

theorem Stand.Matched.inside {i start depth : Nat} {bs : List (Nat × BlockKind)} (blocks : Nested ts bs start)
    (bound : start ≤ i) (opens : Opens depth (ts.between start i)) : Stand.Matched ts ⟨i, some (start, depth), bs⟩ := by
  refine ⟨blocks, ?_⟩
  rintro start depth ⟨⟩
  exact ⟨bound, opens⟩

theorem Move.matched (h : Move ts s s') (matched : s.Matched ts) : s'.Matched ts := by
  have took : ∀ call, s.calls = call :: s'.calls → call.Took ts s'.index := fun call => h.took matched
  obtain ⟨blocks, passing⟩ := matched
  cases h with
  | mark semicolon => exact .outside (blocks.extend (Nat.le_succ _) (balanced_free (free_semicolon semicolon)))
  | line forward free => exact .outside (blocks.extend forward.le (balanced_freeTo free forward.le))
  | enter keyword name opening =>
    refine .outside ⟨⟨Nat.le_refl _, keyword, name, opening, ?_⟩, blocks⟩
    rw [Tokens.between_self]
    exact .nil
  | leave =>
    obtain ⟨bound, balanced, _⟩ := took _ rfl
    exact .outside (blocks.2.extend bound balanced)
  | pass =>
    refine .inside blocks (Nat.le_refl _) ?_
    rw [Tokens.between_self]
    exact .closed .nil
  | word free =>
    obtain ⟨bound, opens⟩ := passing _ _ rfl
    refine .inside blocks (Nat.le_succ_of_le bound) ?_
    rw [← Tokens.between_append bound (Nat.le_succ _)]
    exact opens.append (balanced_free free)
  | deeper opening =>
    obtain ⟨bound, opens⟩ := passing _ _ rfl
    refine .inside blocks (Nat.le_succ_of_le bound) ?_
    rw [Tokens.between_succ bound (by simp [opening]), opening]
    exact opens.deeper
  | shallower closing =>
    obtain ⟨bound, opens⟩ := passing _ _ rfl
    refine .inside blocks (Nat.le_succ_of_le bound) ?_
    rw [Tokens.between_succ bound (by simp [closing]), closing]
    exact opens.shallower
  | ended | closed | cutShort =>
    obtain ⟨bound, balanced⟩ := took _ rfl
    exact .outside (blocks.extend bound balanced)

end moves

section runs
variable {n : Nat} {s s' : State}

theorem nested_start : Nested ts [] 0 := by
  rw [Nested, Tokens.between_self]
  exact .nil

theorem After.matched (h : After strict ts n start s) : s.stand.Matched ts :=
  after_induction (.outside nested_start) (fun _ _ matched move => move.matched matched) h

/-- A loop that ends has taken balanced tokens. -/
theorem After.took (h : After strict ts n start s) (step : After strict ts 1 s s') {call : Call}
    (ended : s.calls = call :: s'.calls) : call.Took ts s'.index := by
  rw [← calls_stand, ← calls_stand] at ended
  exact (step_move (after_one.mp step)).took h.matched ended

theorem After.statement_took (h : After strict ts n start s) {p : Passing} {j : Nat} (inside : s.passing = some p)
    (ends : ends? ts s.index p.depth = some j) : (Call.statement p.start).Took ts j := by
  have here : s.stand = ⟨s.index, some (p.start, p.depth), s.stand.blocks⟩ := by simp [State.stand, inside]
  have matched := h.matched
  rw [here] at matched
  exact (ends?_move ends).took matched rfl

theorem After.inside (h : After strict ts n start s) {b : Block} {bs : List Block} (head : s.passing = none)
    (innermost : s.blocks = b :: bs) : Opened ts b.start b.kind s.index := by
  have matched := h.matched.blocks
  simp only [State.stand, head, innermost, Option.map_none, Option.elim_none, List.map_cons] at matched
  exact matched.1

theorem exists_end {schema : Schema} (h : (run strict ts n start).result = .ok (.inr schema)) :
    ∃ m s, After strict ts m start s ∧ (step strict ts s).result = .ok (.inr schema) := by
  induction n with
  | zero => cases h
  | succ n ih =>
    rw [run_add, bind_result_ok] at h
    obtain ⟨s | earlier, before, last⟩ := h
    · rw [Sum.elim_inl, run_one] at last
      exact ⟨n, s, before, last⟩
    · cases last
      exact ih before

theorem balanced_of_run {schema : Schema} (h : (run strict ts n start).result = .ok (.inr schema)) :
    Balanced (ts.between 0 ts.front.length) := by
  obtain ⟨m, s, reached, last⟩ := exists_end h
  obtain ⟨stand, ended⟩ := step_ends last
  have matched := reached.matched
  have bound : s.index ≤ ts.front.length := reached.sound.bound
  rw [stand] at matched
  have whole : s.index = ts.front.length := by
    by_contra ne
    exact Tokens.text_ne_of_lt_front (by omega) ended
  rw [← whole]
  exact matched.blocks

end runs

end Descent

theorem Tokens.between_texts (ts : Tokens) : ts.between 0 ts.list.length = ts.texts := by
  simp [between, slice, texts]

open Descent

/-- A block ends at the brace that matches its own. The braces of a text that is read are balanced. And in the descent
that reads it, whatever the text, each loop that ends has taken balanced tokens, those of a block being its keyword, its
name and its braces with balanced tokens between them; so has a statement that is refused when it has ended. Whenever a
block comes to its next statement, all is balanced between its brace and the cursor, whatever has been skipped. -/
theorem blocks_end_at_their_brace (strict : Bool) (text : String) :
    (∀ name f, (SchemaFile.parse strict name text).result = .ok f →
        ∃ ts, Tokens.scan text = .ok ts ∧ Balanced ts.texts) ∧
      ∀ ts, Tokens.scan text = .ok ts →
        run strict ts (2 * ts.withEnd.length) start =
            Schema.read strict text >>= (fun schema => pure (.inr schema)) ∧
          (∀ n s s' call, After strict ts n start s → After strict ts 1 s s' → s.calls = call :: s'.calls →
            call.Took ts s'.index) ∧
          (∀ n s p j, After strict ts n start s → s.passing = some p → ends? ts s.index p.depth = some j →
            (Call.statement p.start).Took ts j) ∧
          ∀ n s b bs, After strict ts n start s → s.passing = none → s.blocks = b :: bs →
            Opened ts b.start b.kind s.index := by
  have descent {ts : Tokens} (scan : Tokens.scan text = .ok ts) : run strict ts (2 * ts.withEnd.length) start =
      Schema.read strict text >>= fun schema => pure (.inr schema) := by
    rw [run_file, Schema.read_eq_file scan]
  refine ⟨fun name f parsed => ?_, fun ts scan => ⟨descent scan, fun n s s' call h step ended => h.took step ended,
    fun n s p j h inside ends => h.statement_took inside ends,
    fun n s b bs h head innermost => h.inside head innermost⟩⟩
  obtain ⟨read, _⟩ := SchemaFile.parse_eq_ok parsed
  cases scan : Tokens.scan text with
  | error u =>
    rw [Schema.read, scan] at read
    cases read
  | ok ts =>
    have ended : (run strict ts (2 * ts.withEnd.length) start).result = .ok (.inr f.toSchema) := by
      rw [descent scan]
      exact bind_result_ok.mpr ⟨_, read, rfl⟩
    have balanced := balanced_of_run ended
    rw [Tokens.front_of_scan scan, Tokens.between_texts] at balanced
    exact ⟨ts, rfl, balanced⟩

def Descent.reached (strict : Bool) (ts : Tokens) (n : Nat) : Option State :=
  (run strict ts n start).result.toOption.bind Sum.getLeft?

theorem Descent.after_of_reached {strict : Bool} {ts : Tokens} {n : Nat} {s : State}
    (h : reached strict ts n = some s) : After strict ts n start s := by
  obtain ⟨next, result, left⟩ := Option.bind_eq_some_iff.mp h
  rw [After, toOption_eq_some.mp result, Sum.getLeft?_eq_some_iff.mp left]

theorem Descent.step_of_reached {strict : Bool} {ts : Tokens} {n : Nat} {s s' : State}
    (h : reached strict ts n = some s) (next : reached strict ts (n + 1) = some s') : After strict ts 1 s s' := by
  obtain ⟨u, before, last⟩ := after_add.mp (after_of_reached next)
  rwa [after_unique (after_of_reached h) before]

/-- In a message with a malformed statement, the statement at the token 3 takes its own braces, and the message takes
the last one. -/
theorem blocks_end_at_their_brace_malformed :
    ∃ ts, Tokens.scan "message A \x7b bad \x7b ; \x7d \x7d" = .ok ts ∧ Balanced ts.texts ∧
      (Call.statement 3).Took ts 7 ∧ (Call.block 0 .message).Took ts 8 := by
  have facts : (SchemaFile.parse false "a" "message A \x7b bad \x7b ; \x7d \x7d").result.toOption.isSome = true ∧
      (Tokens.scan "message A \x7b bad \x7b ; \x7d \x7d").toOption.any (fun ts =>
        decide ([5, 6, 7].map (fun n => (reached false ts n).map fun s => (s.index, s.calls)) =
          [some (6, [.statement 3, .block 0 .message]), some (7, [.block 0 .message]), some (8, [])])) = true := by
    decide +kernel
  obtain ⟨parsed, scanned⟩ := facts
  obtain ⟨f, parsed⟩ := Option.isSome_iff_exists.mp parsed
  obtain ⟨ts, scan, states⟩ := (Option.any_eq_true _ _).mp scanned
  rw [toOption_eq_some] at parsed scan
  simp only [decide_eq_true_eq, List.map_cons, List.map_nil, List.cons.injEq, and_true, Option.map_eq_some_iff,
    Prod.mk.injEq] at states
  obtain ⟨⟨s, hs, _, calls⟩, ⟨u, hu, index, callsAfter⟩, ⟨v, hv, last, none⟩⟩ := states
  obtain ⟨balanced, descent⟩ := blocks_end_at_their_brace false "message A \x7b bad \x7b ; \x7d \x7d"
  obtain ⟨ts', scan', texts⟩ := balanced "a" f parsed
  cases scan.symm.trans scan'
  obtain ⟨_, took, _⟩ := descent ts scan
  have statement := took 5 s u (.statement 3) (after_of_reached hs) (step_of_reached hs hu) (by rw [calls, callsAfter])
  have message := took 6 u v (.block 0 .message) (after_of_reached hu) (step_of_reached hu hv)
    (by rw [callsAfter, none])
  rw [index] at statement
  rw [last] at message
  exact ⟨ts, scan, texts, statement, message⟩

end SchemaGen
