import SchemaGen.Proofs.Descent
import SchemaGen.Proofs.OutlineForm
/-!
# What the cursor has ahead

The tokens from the cursor to the first empty one are all that a descent sees of its text. Said by them, each step is a
rule on the first few tokens ahead, and a run passes over a whole clause, or over all clauses of a block, as it passes
over a token.
-/
namespace SchemaGen
open Text Report Clause

namespace Tokens
variable (ts : Tokens)

/-- The tokens before the first empty one. -/
def front : List Token :=
  ts.list.takeWhile (·.text != "")

/-- How a text with these tokens is read: it ends at the first empty token. -/
def reading (strict : Bool) : Reading :=
  ⟨strict, (ts.tokenAt ts.front.length).position⟩

/-- The tokens from an index to the first empty one. -/
structure Ahead (i : Nat) (xs : List Token) : Prop where
  bound : i ≤ ts.front.length
  rest : ts.front.drop i = xs

theorem exists_withEnd : ∃ t rest, ts.withEnd = ts.front ++ t :: rest ∧ t.text = "" := by
  have split : ts.withEnd = ts.front ++ (ts.list.dropWhile (·.text != "") ++ [⟨"", ts.stop⟩]) := by
    rw [← List.append_assoc, front, List.takeWhile_append_dropWhile, withEnd]
  cases later : ts.list.dropWhile (·.text != "") with
  | nil => exact ⟨⟨"", ts.stop⟩, [], by rw [split, later]; rfl, rfl⟩
  | cons t rest =>
    have first := List.head?_dropWhile_not (p := (·.text != "")) (l := ts.list)
    rw [later] at first
    exact ⟨t, rest ++ [⟨"", ts.stop⟩], by rw [split, later]; rfl, by simpa using first⟩

variable {ts} {i : Nat} {t : Token} {xs ys : List Token}

theorem ahead_start : ts.Ahead 0 ts.front :=
  ⟨Nat.zero_le _, rfl⟩

theorem Ahead.drop (h : ts.Ahead i (ys ++ xs)) : ts.Ahead (i + ys.length) xs := by
  have length := congrArg List.length h.rest
  rw [List.length_drop, List.length_append] at length
  have bound := h.bound
  refine ⟨by omega, ?_⟩
  rw [← List.drop_drop, h.rest, List.drop_left]

theorem Ahead.tail (h : ts.Ahead i (t :: xs)) : ts.Ahead (i + 1) xs := by
  have first : ts.Ahead i ([t] ++ xs) := h
  exact first.drop

theorem Ahead.tokenAt (h : ts.Ahead i (t :: xs)) : ts.tokenAt i = t := by
  obtain ⟨last, rest, whole, _⟩ := ts.exists_withEnd
  have found : ts.front[i]? = some t := by
    rw [← List.head?_drop, h.rest, List.head?_cons]
  rw [Tokens.tokenAt, whole, List.getD_eq_getElem?_getD,
    List.getElem?_append_left (List.getElem?_eq_some_iff.mp found).1, found, Option.getD_some]

theorem Ahead.text_ne (h : ts.Ahead i (t :: xs)) : t.text ≠ "" := by
  have found : t ∈ ts.front := List.mem_of_mem_drop (i := i) (by rw [h.rest]; exact List.mem_cons_self)
  simpa using List.mem_takeWhile_imp found

theorem Ahead.index_eq (h : ts.Ahead i []) : i = ts.front.length :=
  Nat.le_antisymm h.bound (List.drop_eq_nil_iff.mp h.rest)

theorem text_tokenAt_front : (ts.tokenAt ts.front.length).text = "" := by
  obtain ⟨last, rest, whole, empty⟩ := ts.exists_withEnd
  simp [Tokens.tokenAt, whole, empty]

theorem text_ne_of_lt_front (h : i < ts.front.length) : (ts.tokenAt i).text ≠ "" := by
  have ahead : ts.Ahead i (ts.front[i] :: ts.front.drop (i + 1)) := ⟨h.le, List.drop_eq_getElem_cons h⟩
  rw [ahead.tokenAt]
  exact ahead.text_ne

theorem Ahead.text_nil (h : ts.Ahead i []) : (ts.tokenAt i).text = "" := by
  rw [h.index_eq, text_tokenAt_front]

theorem Ahead.slice (h : ts.Ahead i (ys ++ xs)) : ts.slice i (i + ys.length) = ys := by
  have whole : ts.list = ts.front ++ ts.list.dropWhile (·.text != "") := (List.takeWhile_append_dropWhile).symm
  rw [Tokens.slice, whole, List.drop_append_of_le_length h.bound, h.rest, Nat.add_sub_cancel_left, List.append_assoc,
    List.take_left]

end Tokens

namespace Descent
open Tokens
variable {strict : Bool} {ts : Tokens}

section leads
variable {α β : Type} {s s' : State}

/-- From a state, some steps do what a report says and end where its value leads. -/
def Leads (strict : Bool) (ts : Tokens) (s : State) (w : Parsed α) (k : α → Next) : Prop :=
  ∃ n, run strict ts n s = w >>= fun a => pure (k a)

/-- From a state, some steps lead to another and neither warn nor fail. -/
def Goes (strict : Bool) (ts : Tokens) (s s' : State) : Prop :=
  ∃ n, run strict ts n s = pure (.inl s')

theorem bind_congr_of_ok {w : Parsed α} {a : α} (h : w.result = .ok a) {f g : α → Parsed β} (same : f a = g a) :
    w >>= f = w >>= g := by
  rw [bind_of_ok h, bind_of_ok h, same]

theorem bind_congr_of_error {w : Parsed α} {e : Misread} (h : w.result = .error e) (f g : α → Parsed β) :
    w >>= f = w >>= g := by
  rw [bind_of_error h, bind_of_error h]

theorem Leads.of_step {w : Parsed α} {k : α → Next} (h : step strict ts s = w >>= fun a => pure (k a)) :
    Leads strict ts s w k :=
  ⟨1, by rw [run_one, h]⟩

theorem Goes.refl : Goes strict ts s s :=
  ⟨0, rfl⟩

theorem Goes.of_step (h : step strict ts s = pure (.inl s')) : Goes strict ts s s' :=
  ⟨1, by rw [run_one, h]⟩

theorem Goes.leads {w : Parsed α} {k : α → Next} (first : Goes strict ts s s') (rest : Leads strict ts s' w k) :
    Leads strict ts s w k := by
  obtain ⟨n, first⟩ := first
  obtain ⟨m, rest⟩ := rest
  exact ⟨n + m, by rw [run_add, first, pure_bind, Sum.elim_inl, rest]⟩

theorem Goes.trans {s'' : State} (first : Goes strict ts s s') (rest : Goes strict ts s' s'') :
    Goes strict ts s s'' := by
  obtain ⟨n, first⟩ := first
  obtain ⟨m, rest⟩ := rest
  exact ⟨n + m, by rw [run_add, first, pure_bind, Sum.elim_inl, rest]⟩

theorem Goes.leads_pure (h : Goes strict ts s s') (a : α) {k : α → Next} (same : k a = .inl s') :
    Leads strict ts s (pure a) k := by
  obtain ⟨n, h⟩ := h
  exact ⟨n, by rw [h, pure_bind, same]⟩

theorem Leads.bind {w : Parsed α} {k : α → State} {f : α → Parsed β} {l : β → Next}
    (first : Leads strict ts s w fun a => .inl (k a)) (next : ∀ a, Leads strict ts (k a) (f a) l) :
    Leads strict ts s (w >>= f) l := by
  obtain ⟨n, first⟩ := first
  cases result : w.result with
  | error e =>
    refine ⟨n, ?_⟩
    rw [first, bind_bind]
    exact bind_congr_of_error result _ _
  | ok a =>
    obtain ⟨m, next⟩ := next a
    refine ⟨n + m, ?_⟩
    rw [run_add, first, bind_bind, bind_bind]
    refine bind_congr_of_ok result ?_
    rw [pure_bind, Sum.elim_inl, next]

theorem Leads.congr {w : Parsed α} {k l : α → Next} (h : Leads strict ts s w k)
    (same : ∀ a, w.result = .ok a → k a = l a) : Leads strict ts s w l := by
  obtain ⟨n, h⟩ := h
  refine ⟨n, h.trans ?_⟩
  cases result : w.result with
  | error e => exact bind_congr_of_error result _ _
  | ok a => exact bind_congr_of_ok result (by rw [same a result])

theorem Leads.map {w : Parsed α} {k : α → Next} {g : α → β} {l : β → Next}
    (h : Leads strict ts s w k) (same : ∀ a, k a = l (g a)) : Leads strict ts s (w >>= fun a => pure (g a)) l := by
  obtain ⟨n, h⟩ := h
  refine ⟨n, ?_⟩
  rw [h, bind_bind]
  simp only [Report.pure_bind, same]

theorem Leads.of_map {w : Parsed α} {g : α → β} {l : β → Next}
    (h : Leads strict ts s (w >>= fun a => pure (g a)) l) : Leads strict ts s w fun a => l (g a) := by
  obtain ⟨n, h⟩ := h
  refine ⟨n, ?_⟩
  rw [h, bind_bind]
  simp only [Report.pure_bind]

theorem Leads.of_fault {w : Parsed α} {k : α → Next} {e : Misread} (h : step strict ts s = .fail e)
    (same : w = .fail e) : Leads strict ts s w k :=
  .of_step (by rw [h, same]; rfl)

end leads

section passing
variable {i start depth : Nat} {kept : Bool} {schema : Schema} {blocks : List Block} {t : Token} {xs : List Token}

theorem step_passing (p : Passing) :
    step strict ts ⟨i, schema, blocks, some p⟩ = do return .inl (← passStep strict ts ⟨i, schema, blocks, some p⟩ p) :=
  rfl

/-- What a statement gives does not depend on where the cursor is when it ends, nor on the braces passed before. -/
theorem resume_eq (i' j : Nat) (passing' : Option Passing) (depth' : Nat) {passing : Option Passing} :
    resume strict ts ⟨i, schema, blocks, passing⟩ ⟨start, kept, depth⟩ j =
      resume strict ts ⟨i', schema, blocks, passing'⟩ ⟨start, kept, depth'⟩ j := by
  cases blocks <;> rfl

theorem goes_inside (ahead : ts.Ahead i (t :: xs)) (inside : ends? ts i depth = none) {behind : Nat}
    (after : depthAfter t.text depth = behind) :
    Goes strict ts ⟨i, schema, blocks, some ⟨start, kept, depth⟩⟩
      ⟨i + 1, schema, blocks, some ⟨start, kept, behind⟩⟩ := by
  apply Goes.of_step
  rw [step_passing, passStep, ahead.tokenAt, if_neg ahead.text_ne, inside, after]
  rfl

theorem leads_resume (ahead : ts.Ahead i (t :: xs)) {j : Nat} (ends : ends? ts i depth = some j) (i' : Nat) :
    Leads strict ts ⟨i, schema, blocks, some ⟨start, kept, depth⟩⟩
      (resume strict ts ⟨i', schema, blocks, none⟩ ⟨start, kept, 0⟩ j) .inl := by
  apply Leads.of_step
  rw [step_passing, passStep, ahead.tokenAt, if_neg ahead.text_ne, ends]
  exact congrArg (· >>= _) (resume_eq ..)

theorem goes_word (ahead : ts.Ahead i (t :: xs)) (free : t.text ∉ [";", "\x7b", "\x7d"]) :
    Goes strict ts ⟨i, schema, blocks, some ⟨start, kept, depth⟩⟩
      ⟨i + 1, schema, blocks, some ⟨start, kept, depth⟩⟩ := by
  simp only [List.mem_cons, List.not_mem_nil, or_false, not_or] at free
  exact goes_inside ahead (by simp [ends?, ahead.tokenAt, free]) (by simp [depthAfter, free])

theorem goes_semicolon (ahead : ts.Ahead i (t :: xs)) (semicolon : t.text = ";") :
    Goes strict ts ⟨i, schema, blocks, some ⟨start, kept, depth + 1⟩⟩
      ⟨i + 1, schema, blocks, some ⟨start, kept, depth + 1⟩⟩ :=
  goes_inside ahead (by simp [ends?, ahead.tokenAt, semicolon]) (by simp [depthAfter, semicolon])

theorem goes_deeper (ahead : ts.Ahead i (t :: xs)) (opens : t.text = "\x7b") :
    Goes strict ts ⟨i, schema, blocks, some ⟨start, kept, depth⟩⟩
      ⟨i + 1, schema, blocks, some ⟨start, kept, depth + 1⟩⟩ :=
  goes_inside ahead (by simp [ends?, ahead.tokenAt, opens]) (by simp [depthAfter, opens])

theorem goes_shallower (ahead : ts.Ahead i (t :: xs)) (closes : t.text = "\x7d") :
    Goes strict ts ⟨i, schema, blocks, some ⟨start, kept, depth + 2⟩⟩
      ⟨i + 1, schema, blocks, some ⟨start, kept, depth + 1⟩⟩ :=
  goes_inside ahead (by simp [ends?, ahead.tokenAt, closes]) (by simp [depthAfter, closes])

theorem goes_words {words : List Token} (free : Unmarked words) (ahead : ts.Ahead i (words ++ xs)) :
    Goes strict ts ⟨i, schema, blocks, some ⟨start, kept, depth⟩⟩
      ⟨i + words.length, schema, blocks, some ⟨start, kept, depth⟩⟩ := by
  induction words generalizing i with
  | nil => exact .refl
  | cons w words ih =>
    obtain ⟨first, others⟩ := List.forall_mem_cons.mp free
    have rest := ih others ahead.tail
    rw [List.length_cons, Nat.add_comm words.length, ← Nat.add_assoc]
    exact (goes_word ahead first).trans rest

theorem length_append_plain (i : Nat) (words : List Token) (mark : Token) (xs : List Token) :
    i + ((plain words mark).tokens ++ xs).length = i + words.length + 1 + xs.length := by
  simp only [tokens, List.length_append, List.length_singleton]
  omega

theorem length_append_block (i : Nat) (words : List Token) (opening closing : Token) (body : List Clause)
    (xs : List Token) :
    i + ((block words opening body closing).tokens ++ xs).length =
      i + words.length + 1 + (tokensOf body).length + 1 + xs.length := by
  simp only [tokens, List.length_append, List.length_cons, List.length_nil]
  omega

theorem goes_clauses {next : Option Token} {cs : List Clause} (formed : Formed next cs)
    (ahead : ts.Ahead i (tokensOf cs ++ xs)) :
    Goes strict ts ⟨i, schema, blocks, some ⟨start, kept, depth + 1⟩⟩
      ⟨i + (tokensOf cs).length, schema, blocks, some ⟨start, kept, depth + 1⟩⟩ := by
  induction formed generalizing i depth xs with
  | nil => exact .refl
  | @plain _ words mark cs free semicolon _ ih =>
    rw [tokensOf, length_append_plain]
    simp only [tokensOf, tokens, List.append_assoc] at ahead
    have marked := ahead.drop
    exact ((goes_words free ahead).trans (goes_semicolon marked semicolon)).trans (ih marked.tail)
  | @block _ words opening closing body cs free opens closes _ _ body_ih ih =>
    rw [tokensOf, length_append_block]
    simp only [tokensOf, tokens, List.append_assoc, List.cons_append, List.nil_append] at ahead
    have opened := ahead.drop
    have closed := opened.tail.drop
    exact ((((goes_words free ahead).trans (goes_deeper opened opens)).trans (body_ih opened.tail)).trans
      (goes_shallower closed closes)).trans (ih closed.tail)
  | @bare words next free =>
    rw [tokensOf_singleton] at ahead ⊢
    exact goes_words free ahead

theorem leads_clause {next : Option Token} {c : Clause} {cs : List Clause} (formed : Formed next (c :: cs))
    (ahead : ts.Ahead i (tokensOf (c :: cs) ++ (next.toList ++ xs))) :
    Leads strict ts ⟨i, schema, blocks, some ⟨start, kept, 0⟩⟩
      (resume strict ts ⟨i, schema, blocks, none⟩ ⟨start, kept, 0⟩ (i + c.tokens.length)) .inl := by
  cases formed with
  | @plain _ words mark _ free semicolon _ =>
    have length := length_append_plain i words mark []
    simp only [tokensOf, tokens, List.append_assoc, List.append_nil] at ahead length ⊢
    have marked := ahead.drop
    rw [length]
    exact (goes_words free ahead).leads (leads_resume marked (by simp [ends?, marked.tokenAt, semicolon]) i)
  | @block _ words opening closing body _ free opens closes inside _ =>
    have length := length_append_block i words opening closing body []
    simp only [tokensOf, tokens, List.append_assoc, List.cons_append, List.append_nil] at ahead length ⊢
    have opened := ahead.drop
    have closed := opened.tail.drop
    rw [length]
    exact (((goes_words free ahead).trans (goes_deeper opened opens)).trans
      (goes_clauses inside opened.tail)).leads (leads_resume closed (by simp [ends?, closed.tokenAt, closes]) i)
  | @bare words next free nonempty closes =>
    rw [tokensOf_singleton, tokens] at ahead
    rw [tokens]
    have closed : ts.Ahead (i + words.length) (next :: xs) := ahead.drop
    exact (goes_words free ahead).leads (leads_resume closed (by simp [ends?, closed.tokenAt, closes]) i)

theorem leads_openStatement {α : Type} {k : α → Next} {rest : Remainder} (formed : rest.Formed)
    (ahead : ts.Ahead i rest.tokens) :
    Leads strict ts ⟨i, schema, blocks, some ⟨start, kept, depth⟩⟩ (Reading.openStatement (ts.tokenAt start)) k := by
  have ended {j depth : Nat} (none : ts.Ahead j []) :
      step strict ts ⟨j, schema, blocks, some ⟨start, kept, depth⟩⟩ = Reading.openStatement (ts.tokenAt start) := by
    rw [step_passing, passStep, if_pos none.text_nil]
    rfl
  induction rest generalizing i depth with
  | nothing => exact .of_fault (ended ahead) rfl
  | statement first more =>
    have whole : ts.Ahead i ((first :: more) ++ []) := by rwa [List.append_nil]
    exact (goes_words formed whole).leads (.of_fault (ended whole.drop) rfl)
  | block words opening body rest ih =>
    obtain ⟨free, opens, inside, left⟩ := formed
    have opened := Ahead.drop ahead
    exact (((goes_words free ahead).trans (goes_deeper opened opens)).trans
      (goes_clauses inside opened.tail)).leads (ih left opened.tail.drop)

end passing

end Descent

end SchemaGen
