import SchemaGen.Proofs.Containment
import SchemaGen.Proofs.DepthFirst
import Mathlib.Data.List.Cycle
/-!
# Reaching is the existence of a chain

One message reaches another exactly if a chain of single fields and oneof members leads from it to the other, and
itself exactly if it lies on a cycle of messages. A recursive search that stops at the target and enters no message
twice gives the same answer.
-/
namespace SchemaGen
open Relation

section cycles
variable {α : Type} {R : α → α → Prop}

theorem exists_nodup_path {a b : α} (path : ReflTransGen R a b) :
    ∃ between : List α, (a :: between).Nodup ∧ (a :: between).IsChain R ∧
      (a :: between).getLast (List.cons_ne_nil _ _) = b := by
  induction path using ReflTransGen.head_induction_on with
  | refl => exact ⟨[], by simp⟩
  | @head a c step rest ih =>
    obtain ⟨between, nodup, chain, last⟩ := ih
    by_cases again : a ∈ c :: between
    · -- The path comes back to its start, and what lies before that is left out.
      obtain ⟨before, after, split⟩ := List.append_of_mem again
      refine ⟨after, ?_, ?_, ?_⟩
      · rw [split] at nodup
        exact (List.nodup_append.mp nodup).2.1
      · rw [split] at chain
        exact chain.right_of_append
      · rw [← last]
        simp only [split]
        rw [List.getLast_append_of_ne_nil]
    · refine ⟨c :: between, List.nodup_cons.mpr ⟨again, nodup⟩, ?_, ?_⟩
      · exact List.isChain_cons_cons.mpr ⟨step, chain⟩
      · rw [List.getLast_cons (List.cons_ne_nil _ _), last]

theorem transGen_self_iff {a : α} : TransGen R a a ↔ ∃ c : Cycle α, c.Nodup ∧ a ∈ c ∧ c.Chain R := by
  constructor
  · intro path
    obtain ⟨next, step, back⟩ := TransGen.head'_iff.mp path
    obtain ⟨between, nodup, chain, last⟩ := exists_nodup_path back
    refine ⟨(next :: between : List α), Cycle.nodup_coe_iff.mpr nodup, ?_, ?_⟩
    · rw [Cycle.mem_coe_iff, ← last]
      exact List.getLast_mem _
    · rw [Cycle.chain_ne_nil R (List.cons_ne_nil _ _), last]
      exact List.isChain_cons_cons.mpr ⟨step, chain⟩
  · intro cycle
    obtain ⟨c, _, on, chain⟩ := cycle
    have pairs : ∀ a ∈ c, ∀ b ∈ c, TransGen R a b :=
      Cycle.chain_iff_pairwise.mp (chain.imp fun _ _ step => TransGen.single step)
    exact pairs a on a on

end cycles

section measure
variable {α β : Type} (w : Walk α β)

theorem Walk.unseen_append_le (more seen : List String) : w.unseen (more ++ seen) ≤ w.unseen seen := by
  induction more with
  | nil => exact Nat.le_refl _
  | cons k more ih => exact Nat.le_trans (w.unseen_cons_le k _) ih

theorem Walk.strangers_visit (a : α) : w.strangers (w.visit a).2 = 0 := by
  have pushed := w.strangers_push .depthFirst a []
  rw [Order.push, List.append_nil] at pushed
  exact pushed

/-- Entering a new place leaves less to enter, whatever waits behind it. -/
theorem Walk.left_enter_lt {a : α} {seen : List String} (rest : List α) (new : w.key a ∉ seen) :
    w.strangers (w.visit a).2 + w.unseen (w.key a :: seen) < w.strangers (a :: rest) + w.unseen seen := by
  have pushed := left_push_lt .depthFirst rest new
  rw [strangers_push] at pushed
  rw [strangers_visit]
  omega

end measure

namespace Registry
variable {r : Registry}

/-- A registered message has a field or a oneof member, not repeated, whose type means another message. -/
def Embeds (r : Registry) (s t : Symbol) : Prop :=
  ∃ f ∈ r.files, ∃ n ∈ f.everyMessage, s = f.messageSymbol n ∧
    ∃ x, (x ∈ n.message.fields ∨ ∃ o ∈ n.message.oneofs, x ∈ o.fields) ∧ x.label ≠ .repeated ∧
      r.Means (f.placeAt n) x t

theorem held?_eq_some_iff {p : Place} {x : Field} {t : Symbol} :
    r.held? p x = some t ↔ x.label ≠ .repeated ∧ r.Means p x t := by
  rw [held?_eq_some]
  cases x.label <;> simp

theorem Consistent.mem_holds_iff_embeds (c : r.Consistent) {s t : Symbol} (hs : s ∈ r.table.map (·.2)) :
    t ∈ r.holds s ↔ r.Embeds s t := by
  have mem_allFields (m : Message) (x : Field) :
      x ∈ m.allFields ↔ x ∈ m.fields ∨ ∃ o ∈ m.oneofs, x ∈ o.fields := by
    rw [Message.allFields, List.mem_append, List.mem_flatMap]
  constructor
  · intro h
    obtain ⟨f, hf, inFile⟩ := c.mem_table_iff.mp hs
    have kind : s.kind = .message := by
      cases kind : s.kind with
      | message => rfl
      | enum => simp [holds, message?, kind] at h
    obtain ⟨n, hn, rfl⟩ := SchemaFile.exists_of_message_mem inFile kind
    rw [holds, c.message?_eq hf hn] at h
    obtain ⟨x, hx, held⟩ := List.mem_filterMap.mp h
    exact ⟨f, hf, n, hn, rfl, x, (mem_allFields _ _).mp hx, held?_eq_some_iff.mp held⟩
  · intro h
    obtain ⟨f, hf, n, hn, rfl, x, hx, held⟩ := h
    rw [holds, c.message?_eq hf hn]
    exact List.mem_filterMap.mpr ⟨x, (mem_allFields _ _).mpr hx, held?_eq_some_iff.mpr held⟩

theorem Embeds.mem_table {s t : Symbol} (h : r.Embeds s t) : t ∈ r.table.map (·.2) := by
  obtain ⟨_, _, _, _, _, _, _, _, means⟩ := h
  exact means.mem_table

theorem Consistent.reaches_iff_embeds (c : r.Consistent) {start target : Symbol} (hs : start ∈ r.table.map (·.2)) :
    r.reaches start target ↔ TransGen r.Embeds start target := by
  rw [c.reaches_iff hs]
  constructor
  · intro path
    induction path using TransGen.head_induction_on with
    | single step => exact .single ((c.mem_holds_iff_embeds hs).mp step)
    | head step _ ih => exact .head ((c.mem_holds_iff_embeds hs).mp step) (ih (mem_table_of_holds step))
  · intro path
    induction path using TransGen.head_induction_on with
    | single step => exact .single ((c.mem_holds_iff_embeds hs).mpr step)
    | head step _ ih => exact .head ((c.mem_holds_iff_embeds hs).mpr step) (ih step.mem_table)

section search

/-- The recursive search for a message: looks at the messages in turn, and enters those whose names are not among the
`seen` ones before it goes on. It stops with none at the target, and gives the names of the messages that it has entered
otherwise. -/
def seek (r : Registry) (target : Symbol) (waiting : List Symbol) (seen : List String) : Option (List String) :=
  match waiting with
  | [] => some []
  | s :: rest =>
    if s = target then none
    else if s.fullName ∈ seen then r.seek target rest seen
    else
      match r.seek target (r.holds s) (s.fullName :: seen) with
      | none => none
      | some inside =>
        match r.seek target rest (inside ++ s.fullName :: seen) with
        | none => none
        | some behind => some (s.fullName :: (inside ++ behind))
termination_by (r.messageWalk.strangers waiting + r.messageWalk.unseen seen, waiting.length)
decreasing_by
  · rw [Walk.strangers_cons, Prod.lex_def, List.length_cons]
    omega
  · rename_i new
    exact Prod.Lex.left _ _ (r.messageWalk.left_enter_lt rest new)
  · have fewer := r.messageWalk.unseen_append_le (inside ++ [s.fullName]) seen
    rw [List.append_assoc, List.singleton_append] at fewer
    rw [Walk.strangers_cons, Prod.lex_def, List.length_cons]
    omega

def entered (r : Registry) (waiting : List Symbol) (seen : List String) : List Symbol :=
  r.messageWalk.places .depthFirst waiting seen

def Meets (r : Registry) (target : Symbol) (waiting : List Symbol) (seen : List String) : Prop :=
  target ∈ waiting ∨ ∃ s ∈ r.entered waiting seen, target ∈ r.holds s

theorem entered_cons {s : Symbol} {rest : List Symbol} {seen : List String} (new : s.fullName ∉ seen) :
    r.entered (s :: rest) seen =
      s :: (r.entered (r.holds s) (s.fullName :: seen) ++
        r.entered rest ((r.entered (r.holds s) (s.fullName :: seen)).map Symbol.fullName ++ s.fullName :: seen)) :=
  Walk.places_cons rest new

theorem meets_cons {s target : Symbol} {rest : List Symbol} {seen : List String} (other : s ≠ target)
    (new : s.fullName ∉ seen) :
    r.Meets target (s :: rest) seen ↔ r.Meets target (r.holds s) (s.fullName :: seen) ∨
      r.Meets target rest ((r.entered (r.holds s) (s.fullName :: seen)).map Symbol.fullName ++ s.fullName :: seen) := by
  simp only [Meets, entered_cons new, List.mem_cons, List.mem_append, Ne.symm other, or_and_right, exists_or,
    exists_eq_left, false_or]
  rw [or_left_comm, or_assoc, or_left_comm (a := target ∈ rest)]

/-- The search stops at the target if the walk meets it, and else enters what the walk enters. -/
theorem seek_cases (target : Symbol) (waiting : List Symbol) (seen : List String) :
    (r.Meets target waiting seen ∧ r.seek target waiting seen = none) ∨
    (¬ r.Meets target waiting seen ∧
      r.seek target waiting seen = some ((r.entered waiting seen).map Symbol.fullName)) := by
  induction waiting, seen using seek.induct r target with
  | case1 seen =>
    right
    simp [seek, Meets, entered]
  | case2 seen rest =>
    left
    exact ⟨.inl List.mem_cons_self, by rw [seek, if_pos rfl]⟩
  | case3 seen s rest other known ih =>
    have same : r.entered (s :: rest) seen = r.entered rest seen := Walk.places_seen known
    have meets : r.Meets target (s :: rest) seen ↔ r.Meets target rest seen := by
      simp only [Meets, same, List.mem_cons, Ne.symm other, false_or]
    rw [seek, if_neg other, if_pos known, meets, same]
    exact ih
  | case4 seen s rest other new found ih =>
    left
    rw [meets_cons other new, seek, if_neg other, if_neg new, found]
    simp only [found, reduceCtorEq, and_false, or_false, and_true] at ih
    exact ⟨.inl ih, rfl⟩
  | case5 seen s rest other new inside searched found ihInside ihBehind =>
    left
    simp only [searched, reduceCtorEq, and_false, false_or, Option.some.injEq] at ihInside
    simp only [found, reduceCtorEq, and_false, or_false, and_true] at ihBehind
    rw [meets_cons other new, seek, if_neg other, if_neg new, searched, ← ihInside.2]
    exact ⟨.inr ihBehind, by simp only [found]⟩
  | case6 seen s rest other new inside searched behind gone ihInside ihBehind =>
    right
    simp only [searched, reduceCtorEq, and_false, false_or, Option.some.injEq] at ihInside
    simp only [gone, reduceCtorEq, and_false, false_or, Option.some.injEq] at ihBehind
    rw [meets_cons other new, seek, if_neg other, if_neg new, searched, entered_cons new, ← ihInside.2, not_or]
    refine ⟨⟨ihInside.1, ihBehind.1⟩, ?_⟩
    simp only [gone, List.map_cons, List.map_append, ← ihInside.2, ← ihBehind.2]

theorem seek_eq_none_iff (s target : Symbol) :
    r.seek target (r.holds s) [s.fullName] = none ↔ r.reaches s target := by
  have start : r.messageWalk.places .depthFirst [s] [] = s :: r.entered (r.holds s) [s.fullName] := by
    rw [Walk.places_cons [] List.not_mem_nil, Walk.places_nil, List.append_nil]
    rfl
  have reaches : r.reaches s target ↔ r.Meets target (r.holds s) [s.fullName] := by
    rw [Registry.reaches, Walk.run_eq_map_places, start, List.any_map, List.any_eq_true]
    simp [Meets, messageWalk]
  rw [reaches]
  rcases r.seek_cases target (r.holds s) [s.fullName] with met | missed
  · simp only [met]
  · simp only [missed, reduceCtorEq]

end search

end Registry

/-- One message reaches another exactly if a chain of single fields and oneof members leads to it. Reaching is
transitive, a message reaches itself exactly if it lies on a cycle, and the recursive search finds the same. -/
theorem reaches_iff_chain {r : Registry} (reachable : r.Reachable) {s : Symbol} (registered : s ∈ r.table.map (·.2))
    (t : Symbol) :
    (r.reaches s t ↔ TransGen r.Embeds s t) ∧
    (∀ u, r.reaches s t → r.reaches t u → r.reaches s u) ∧
    (r.reaches s s ↔ ∃ c : Cycle Symbol, c.Nodup ∧ s ∈ c ∧ c.Chain r.Embeds) ∧
    (r.reaches s t ↔ r.seek t (r.holds s) [s.fullName] = none) := by
  have c := reachable.consistent
  refine ⟨c.reaches_iff_embeds registered, ?_, ?_, (Registry.seek_eq_none_iff s t).symm⟩
  · intro u first second
    have path := (c.reaches_iff_embeds registered).mp first
    have target : t ∈ r.table.map (·.2) := by
      obtain ⟨_, _, last⟩ := TransGen.tail'_iff.mp path
      exact last.mem_table
    rw [c.reaches_iff_embeds registered]
    exact path.trans ((c.reaches_iff_embeds target).mp second)
  · rw [c.reaches_iff_embeds registered]
    exact transGen_self_iff

/-- Sums and terms in a circle, with a way out to leaves and only a repeated field that leads back from them. -/
def sumFile : SchemaFile :=
  .ofText "sum" ("message Sum\x7bTerm term=1;\x7dmessage Term\x7boneof kind\x7bSum sum=1;Leaf leaf=2;\x7d\x7d" ++
    "message Leaf\x7brepeated Sum back=1;\x7d")

def sumSymbol (name : String) : Symbol :=
  { name, parents := [], package := none, file := "sum", kind := .message }

theorem reaches_iff_chain_sum :
    ∃ r, Registry.registerAll {} [sumFile] = .ok r ∧
      TransGen r.Embeds (sumSymbol "Sum") (sumSymbol "Leaf") ∧
      ¬ TransGen r.Embeds (sumSymbol "Leaf") (sumSymbol "Sum") ∧
      (∃ c : Cycle Symbol, c.Nodup ∧ sumSymbol "Sum" ∈ c ∧ c.Chain r.Embeds) ∧
      r.seek (sumSymbol "Leaf") (r.holds (sumSymbol "Sum")) ["Sum"] = none := by
  have facts : (Registry.registerAll {} [sumFile]).toOption.map (fun r =>
      ((r.table.map (·.2)), r.reaches (sumSymbol "Sum") (sumSymbol "Leaf"),
        r.reaches (sumSymbol "Leaf") (sumSymbol "Sum"), r.reaches (sumSymbol "Sum") (sumSymbol "Sum"))) =
      some ([sumSymbol "Sum", sumSymbol "Term", sumSymbol "Leaf"], true, false, true) := by
    simp only [Registry.reaches, Walk.run_eq_runFor]
    decide +kernel
  obtain ⟨r, registered, same⟩ := toOption_map_eq_some.mp facts
  simp only [Prod.mk.injEq] at same
  obtain ⟨table, toLeaf, fromLeaf, around⟩ := same
  have reachable := Registry.reachable_of_registerAll registered
  have sum := reaches_iff_chain reachable (s := sumSymbol "Sum") (by simp [table]) (sumSymbol "Leaf")
  have leaf := reaches_iff_chain reachable (s := sumSymbol "Leaf") (by simp [table]) (sumSymbol "Sum")
  refine ⟨r, registered, sum.1.mp toLeaf, ?_, sum.2.2.1.mp around, sum.2.2.2.mp toLeaf⟩
  rw [← leaf.1, fromLeaf]
  exact Bool.false_ne_true

end SchemaGen
