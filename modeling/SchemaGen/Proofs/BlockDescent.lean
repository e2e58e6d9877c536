import SchemaGen.Proofs.Ahead
/-!
# The descent through a block

Steps over the tokens of a block do what the reader does with its clauses: the same parts, the same warnings in the same
order, the same fault.
-/
namespace SchemaGen
open Text Report Clause Descent

theorem Report.gather_map_each {ω ε α β γ : Type} {f : α → Report ω ε (List γ)} {g : α → Report ω ε (List β)}
    {h : β → γ} (each : ∀ a, f a = g a >>= fun bs => pure (bs.map h)) (as : List α) :
    gather f as = gather g as >>= fun bs => pure (bs.map h) := by
  induction as with
  | nil => rfl
  | cons a as ih =>
    simp only [gather, each a, ih, bind_bind, pure_bind, List.map_append]

theorem Report.gather_pure_each {ω ε α β γ : Type} {f : α → Report ω ε (List γ)} {g : α → List β} {h : β → γ}
    (each : ∀ a, f a = pure ((g a).map h)) (as : List α) : gather f as = pure ((as.flatMap g).map h) := by
  induction as with
  | nil => rfl
  | cons a as ih => simp only [gather, each a, ih, Report.pure_bind, List.flatMap_cons, List.map_append]

theorem blockHead?_nil (words : List Token) : blockHead? [] words = none := by
  unfold blockHead?
  split
  · simp
  · rfl

theorem blockHead?_words {kinds : List BlockKind} {words : List Token} {kind : BlockKind} {name : Token}
    (h : blockHead? kinds words = some (kind, name)) :
    kind ∈ kinds ∧ isIdentifier name.text ∧ ∃ keyword, words = [keyword, name] ∧ keyword.text = kind.keyword := by
  unfold blockHead? at h
  split at h
  · rename_i keyword _
    split at h
    · rename_i identifier
      obtain ⟨found, some, same⟩ := Option.map_eq_some_iff.mp h
      cases same
      have word := List.find?_some some
      exact ⟨List.mem_of_find?_eq_some some, identifier, keyword, rfl, (eq_of_beq word).symm⟩
    · cases h
  · cases h

theorem blockHead?_eq_of_find? {kinds : List BlockKind} {keyword name : Token} {kind : BlockKind}
    (found : kinds.find? (·.keyword == keyword.text) = some kind) (identifier : isIdentifier name.text) :
    blockHead? kinds [keyword, name] = some (kind, name) := by
  rw [blockHead?, if_pos identifier, found, Option.map_some]

namespace Reading
variable (r : Reading)

/-- What a clause gives that is no block of its own. -/
def own (kind : BlockKind) (name : Token) (c : Clause) : Parsed (List Part) :=
  if c.first.text = ";" then pure []
  else if kind.keeps c.first.text then Descent.statement r.strict kind name c.first c.tokens
  else pure []

/-- The parts that a clause gives to the block it stands in. -/
def parts (kind : BlockKind) (name : Token) (c : Clause) : Parsed (List Part) :=
  match kind with
  | .message => do return (← r.member c).map .member
  | _ => r.own kind name c

theorem field_eq (inOneof : Bool) (c : Clause) :
    Descent.field r.strict inOneof c.first c.tokens =
      r.field inOneof c >>= fun fs => pure (fs.map fun f => .member (.field f)) := by
  unfold Descent.field Reading.field
  cases Field.ofTokens inOneof c.tokens with
  | ok f => rfl
  | error e =>
    dsimp only
    split <;> rfl

variable {r} {kind : BlockKind} {name : Token} {c : Clause}

theorem own_skipped (h : c.first.text = ";" ∨ kind.keeps c.first.text = false) : r.own kind name c = pure [] := by
  unfold own
  split
  · rfl
  · rename_i other
    rw [h.resolve_left other]
    rfl

theorem own_kept (mark : c.first.text ≠ ";") (keeps : kind.keeps c.first.text = true) :
    r.own kind name c = Descent.statement r.strict kind name c.first c.tokens := by
  rw [own, if_neg mark, if_pos keeps]

variable (r name)

theorem own_message (c : Clause) : r.own .message name c = r.statement c >>= fun ms => pure (ms.map .member) := by
  unfold Reading.statement
  split
  · exact own_skipped (.inl ‹_›)
  iterate 4 exact own_skipped (.inr (by rw [‹c.first.text = _›]; rfl))
  · rename_i mark option reserved extensions extend
    have keeps : BlockKind.message.keeps c.first.text = true := by
      simpa [BlockKind.keeps] using ⟨option, reserved, extensions, extend⟩
    rw [own_kept mark keeps, Descent.statement, field_eq, bind_bind]
    simp only [Report.pure_bind, List.map_map]
    rfl

variable (body : List Clause)

theorem gather_parts_oneof :
    gather (r.parts .oneof name) body =
      r.oneofFields body >>= fun fs => pure (fs.map fun f => .member (.field f)) := by
  refine gather_map_each (fun c => ?_) body
  change r.own .oneof name c = _
  split
  · exact own_skipped (.inl ‹_›)
  · exact own_skipped (.inr (by rw [‹c.first.text = _›]; rfl))
  · rename_i mark option
    have keeps : BlockKind.oneof.keeps c.first.text = true := by simpa [BlockKind.keeps] using option
    rw [own_kept mark keeps, Descent.statement, field_eq]

theorem gather_parts_enum : gather (r.parts .enum name) body = pure ((enumValues body).map .value) := by
  refine gather_pure_each (fun c => ?_) body
  change r.own .enum name c = _
  split
  · exact own_skipped (.inl ‹_›)
  iterate 2 exact own_skipped (.inr (by rw [‹c.first.text = _›]; rfl))
  · rename_i mark option reserved
    have keeps : BlockKind.enum.keeps c.first.text = true := by simpa [BlockKind.keeps] using ⟨option, reserved⟩
    rw [own_kept mark keeps, Descent.statement]

theorem gather_parts_service :
    gather (r.parts .service name) body = methods name body >>= fun ms => pure (ms.map .method) := by
  refine gather_map_each (fun c => ?_) body
  change r.own .service name c = _
  split
  · rename_i rpc
    rw [own_kept (by simp [rpc]) (by rw [rpc]; rfl), Descent.statement]
    cases Method.ofTokens? c.tokens <;> rfl
  · rename_i other
    exact own_skipped (.inr (by simpa [BlockKind.keeps] using other))

theorem gather_parts_message :
    gather (r.parts .message name) body = r.members body >>= fun ms => pure (ms.map .member) := by
  rw [members_eq]
  exact gather_map_each (fun c => rfl) body

theorem visit_eq (kind : BlockKind) :
    r.visit kind name body = gather (r.parts kind name) body >>= fun _ => pure () := by
  cases kind with
  | message => rw [gather_parts_message, bind_bind]; rfl
  | oneof => rw [gather_parts_oneof, bind_bind]; rfl
  | enum => rw [gather_parts_enum]; rfl
  | service => rw [gather_parts_service, bind_bind]; rfl

def blockPart (kind : BlockKind) : Parsed Part :=
  gather (r.parts kind name) body >>= closed kind name

theorem blockPart_message :
    r.blockPart name body .message = r.members body >>= fun ms => pure (.member (.message (.ofMembers name ms))) := by
  rw [blockPart, gather_parts_message, bind_bind]
  simp only [Report.pure_bind, closed, List.filterMap_map, Function.comp_def, Part.member?, List.filterMap_some]

theorem blockPart_oneof :
    r.blockPart name body .oneof = r.oneof name body >>= fun o => pure (.member (.oneof o)) := by
  rw [blockPart, gather_parts_oneof, bind_bind, oneof, bind_bind]
  simp only [Report.pure_bind, closed, List.filterMap_map, Function.comp_def, Part.field?, List.filterMap_some]
  congr 1
  funext fields
  split <;> rfl

theorem blockPart_enum :
    r.blockPart name body .enum = enum name body >>= fun e => pure (.member (.enum e)) := by
  rw [blockPart, gather_parts_enum, Report.pure_bind, closed, enum]
  simp only [List.filterMap_map, Function.comp_def, Part.value?, List.filterMap_some]
  split <;> rfl

theorem blockPart_service :
    r.blockPart name body .service = service name body >>= fun s => pure (.service s) := by
  rw [blockPart, gather_parts_service, bind_bind, service, bind_bind]
  simp only [Report.pure_bind, closed, List.filterMap_map, Function.comp_def, Part.method?, List.filterMap_some]

theorem parts_block {words : List Token} {opening closing innerName : Token} {inner : BlockKind}
    (head : blockHead? kind.inner words = some (inner, innerName)) :
    r.parts kind name (block words opening body closing) =
      r.blockPart innerName body inner >>= fun part => pure [part] := by
  have message : kind = .message := by
    cases kind with
    | message => rfl
    | _ => simp [BlockKind.inner, blockHead?_nil] at head
  subst message
  have known := (blockHead?_words head).1
  simp only [BlockKind.inner] at head known
  rw [parts, member, head]
  cases inner with
  | message => rw [blockPart_message, bind_bind, bind_bind]; rfl
  | oneof => rw [blockPart_oneof, bind_bind, bind_bind]; rfl
  | enum => rw [blockPart_enum, bind_bind, bind_bind]; rfl
  | service => simp at known

theorem parts_own {c : Clause} (plain : ∀ words opening body closing, c = block words opening body closing →
    blockHead? kind.inner words = none) : r.parts kind name c = r.own kind name c := by
  cases kind with
  | message =>
    rw [parts, own_message]
    cases c with
    | block words opening body closing =>
      have none := plain _ _ _ _ rfl
      simp only [BlockKind.inner] at none
      rw [member, none]
    | plain | bare => rw [member]; simp
  | _ => rfl

end Reading

namespace Remainder

/-- The tokens up to the first mark of what is left open. -/
def lead : Remainder → List Token
  | nothing => []
  | statement start more => start :: more
  | block words opening _ _ => words ++ [opening]

theorem block_of_lead {rest : Remainder} (formed : rest.Formed) {keyword name opening : Token}
    (lead : rest.lead = [keyword, name, opening]) (opens : opening.text = "\x7b") :
    ∃ body left, rest = .block [keyword, name] opening body left := by
  cases rest with
  | nothing => cases lead
  | statement first more =>
    have free := formed opening (by rw [Remainder.lead] at lead; simp [lead])
    simp [opens] at free
  | block words opened body left =>
    have split : words ++ [opened] = [keyword, name] ++ [opening] := lead
    obtain ⟨rfl, same⟩ := List.append_inj' split rfl
    cases same
    exact ⟨body, left, rfl⟩

theorem semicolon_notMem_lead {rest : Remainder} (formed : rest.Formed) : ∀ t ∈ rest.lead, t.text ≠ ";" := by
  intro t mem semicolon
  have of_word (free : t.text ∉ [";", "\x7b", "\x7d"]) : False := by simp [semicolon] at free
  cases rest with
  | nothing => cases mem
  | statement => exact of_word (formed t mem)
  | block words opening body left =>
    rcases List.mem_append.mp mem with word | last
    · exact of_word (formed.1 t word)
    · rw [List.mem_singleton.mp last, formed.2.1] at semicolon
      exact absurd semicolon (by decide)

end Remainder

namespace Reading
variable {r : Reading} {kind : BlockKind} {name : Token} {words : List Token} {opening : Token} {body : List Clause}
  {rest : Remainder} {α : Type}

theorem leftOpen_inner {inner : BlockKind} {innerName : Token}
    (head : blockHead? kind.inner words = some (inner, innerName)) :
    (r.leftOpen kind name (.block words opening body rest) : Parsed α) =
      r.visit inner innerName body >>= fun _ => r.leftOpen inner innerName rest := by
  cases kind with
  | message =>
    simp only [BlockKind.inner] at head
    rw [leftOpen.eq_def]
    dsimp only
    rw [head]
  | _ => simp [BlockKind.inner, blockHead?_nil] at head

theorem leftOpen_other (head : blockHead? kind.inner words = none) :
    (r.leftOpen kind name (.block words opening body rest) : Parsed α) = openStatement (words.head?.getD opening) := by
  cases kind with
  | message =>
    simp only [BlockKind.inner] at head
    rw [leftOpen.eq_def]
    dsimp only
    rw [head]
  | _ => rw [leftOpen]; simp

end Reading

namespace Descent
open Tokens
variable {strict : Bool} {ts : Tokens}

section leading
variable {i : Nat} {lead : List Token}

/-- The tokens of a statement from the cursor on, up to the first mark or to the end of the text. -/
inductive Leading (ts : Tokens) : Nat → List Token → Prop
  | finished {i : Nat} (ahead : ts.Ahead i []) : Leading ts i []
  | mark {i : Nat} {t : Token} {xs : List Token} (ahead : ts.Ahead i (t :: xs))
      (mark : t.text ∈ [";", "\x7b", "\x7d"]) : Leading ts i [t]
  | word {i : Nat} {t : Token} {xs lead : List Token} (ahead : ts.Ahead i (t :: xs))
      (free : t.text ∉ [";", "\x7b", "\x7d"]) (rest : Leading ts (i + 1) lead) : Leading ts i (t :: lead)

theorem word_of_test {test : String → Bool} {word : String} (passes : test word)
    (rejects : ∀ mark ∈ ["", ";", "\x7b", "\x7d"], test mark = false) : word ≠ "" ∧ word ∉ [";", "\x7b", "\x7d"] := by
  rw [← not_or, ← List.mem_cons]
  intro mem
  rw [rejects word mem] at passes
  cases passes

theorem leading_marked {words xs : List Token} {mark : Token} (free : Unmarked words)
    (ahead : ts.Ahead i (words ++ mark :: xs)) (marks : mark.text ∈ [";", "\x7b", "\x7d"]) :
    Leading ts i (words ++ [mark]) := by
  induction words generalizing i with
  | nil => exact .mark ahead marks
  | cons w words ih =>
    obtain ⟨first, others⟩ := List.forall_mem_cons.mp free
    exact .word ahead first (ih others ahead.tail)

theorem leading_open {words : List Token} (free : Unmarked words) (ahead : ts.Ahead i words) : Leading ts i words := by
  induction words generalizing i with
  | nil => exact .finished ahead
  | cons w words ih =>
    obtain ⟨first, others⟩ := List.forall_mem_cons.mp free
    exact .word ahead first (ih others ahead.tail)

theorem Leading.head {t : Token} (h : Leading ts i (t :: lead)) : ts.tokenAt i = t ∧ t.text ≠ "" := by
  cases h with
  | mark ahead _ => exact ⟨ahead.tokenAt, ahead.text_ne⟩
  | word ahead _ _ => exact ⟨ahead.tokenAt, ahead.text_ne⟩

theorem Leading.text_nil (h : Leading ts i []) : (ts.tokenAt i).text = "" := by
  cases h with
  | finished ahead => exact ahead.text_nil

theorem Leading.word_at (h : Leading ts i lead) (text : (ts.tokenAt i).text ≠ "")
    (free : (ts.tokenAt i).text ∉ [";", "\x7b", "\x7d"]) :
    ∃ rest, lead = ts.tokenAt i :: rest ∧ Leading ts (i + 1) rest := by
  cases h with
  | finished ahead => exact absurd ahead.text_nil text
  | mark ahead mark =>
    rw [ahead.tokenAt] at free
    exact absurd mark free
  | word ahead _ rest => exact ⟨_, by rw [ahead.tokenAt], rest⟩

theorem Leading.mark_at (h : Leading ts i lead) (mark : (ts.tokenAt i).text ∈ [";", "\x7b", "\x7d"]) :
    lead = [ts.tokenAt i] := by
  cases h with
  | finished ahead =>
    rw [ahead.text_nil] at mark
    exact absurd mark (by decide)
  | mark ahead _ => rw [ahead.tokenAt]
  | word ahead free _ =>
    rw [ahead.tokenAt] at mark
    exact absurd mark free

end leading

theorem find?_none_of_leading {i : Nat} {lead : List Token} (leading : Leading ts i lead) (kinds : List BlockKind)
    (other : ∀ keyword name opening, lead = [keyword, name, opening] → opening.text = "\x7b" →
      blockHead? kinds [keyword, name] = none) :
    (if opensBlock ts i then kinds.find? (·.keyword == (ts.tokenAt i).text) else none) = none := by
  rw [ite_eq_right_iff]
  intro opens
  rw [opensBlock, Bool.and_eq_true, beq_iff_eq] at opens
  obtain ⟨identifier, opening⟩ := opens
  cases found : kinds.find? (·.keyword == (ts.tokenAt i).text) with
  | none => rfl
  | some kind =>
    have same := List.find?_some found
    have keyword : (ts.tokenAt i).text = kind.keyword := (eq_of_beq same).symm
    -- a keyword and a name are words, and the brace is the first mark
    have word : kind.keyword ≠ "" ∧ kind.keyword ∉ [";", "\x7b", "\x7d"] := by cases kind <;> decide
    rw [← keyword] at word
    have name := word_of_test identifier (by decide)
    obtain ⟨rest, rfl, afterKeyword⟩ := leading.word_at word.1 word.2
    obtain ⟨rest, rfl, afterName⟩ := afterKeyword.word_at name.1 name.2
    obtain rfl := afterName.mark_at (by simp [opening])
    have none := other _ _ _ rfl opening
    rw [blockHead?_eq_of_find? found identifier] at none
    cases none

section loops
variable {i : Nat} {schema : Schema} {blocks : List Block} {b : Block} {xs : List Token}

theorem step_block :
    step strict ts ⟨i, schema, b :: blocks, none⟩ =
      do return .inl (← blockStep ts ⟨i, schema, b :: blocks, none⟩ b blocks) :=
  rfl

/-- A statement that is no block of its own begins to be passed over. -/
theorem goes_pass (text : (ts.tokenAt i).text ∉ ["", ";", "\x7d"])
    (plain : (if opensBlock ts i then b.kind.inner.find? (·.keyword == (ts.tokenAt i).text) else none) = none) :
    Goes strict ts ⟨i, schema, b :: blocks, none⟩
      ⟨i, schema, b :: blocks, some ⟨i, b.kind.keeps (ts.tokenAt i).text, 0⟩⟩ := by
  simp only [List.mem_cons, List.not_mem_nil, or_false, not_or] at text
  apply Goes.of_step
  rw [step_block, blockStep]
  split
  · exact absurd ‹_› text.1
  · exact absurd ‹_› text.2.2
  · exact absurd ‹_› text.2.1
  · rw [plain]
    rfl

theorem blockStep_enter {s : State} {kind : BlockKind} (opens : opensBlock ts s.index)
    (keyword : (ts.tokenAt s.index).text = kind.keyword) (inner : kind ∈ b.kind.inner) :
    blockStep ts s b blocks = enter ts s kind := by
  have word : kind.keyword ∉ ["", ";", "\x7d"] := by cases kind <;> decide
  have found : b.kind.inner.find? (·.keyword == kind.keyword) = some kind := by
    revert inner
    cases b.kind <;> cases kind <;> decide
  simp only [List.mem_cons, List.not_mem_nil, or_false, not_or] at word
  unfold blockStep
  rw [keyword]
  split
  · exact absurd ‹_› word.1
  · exact absurd ‹_› word.2.2
  · exact absurd ‹_› word.2.1
  · rw [if_pos opens, found]

theorem expect_eq {what : Expected} {test : String → Bool} {t : Token} (ahead : ts.Ahead i (t :: xs))
    (passes : test t.text) : expect ts what test i = pure (t, i + 1) := by
  have text := ahead.text_ne
  simp [expect, ahead.tokenAt, passes, text]

theorem expectText_eq {word : String} {t : Token} (ahead : ts.Ahead i (t :: xs)) (same : t.text = word) :
    expectText ts word i = pure (i + 1) := by
  have passes : (t.text == word) = true := beq_iff_eq.mpr same
  rw [expectText, expect_eq ahead passes]
  rfl

variable {keyword name opening : Token} {kind : BlockKind}

theorem enter_eq (ahead : ts.Ahead i (keyword :: name :: opening :: xs)) (word : keyword.text = kind.keyword)
    (identifier : isIdentifier name.text) (opens : opening.text = "\x7b") :
    enter ts ⟨i, schema, blocks, none⟩ kind = pure ⟨i + 3, schema, ⟨i, kind, name, []⟩ :: blocks, none⟩ := by
  rw [enter, expectText_eq ahead word, Report.pure_bind, expect_eq ahead.tail identifier, Report.pure_bind]
  dsimp only
  rw [expectText_eq ahead.tail.tail opens]
  rfl

theorem opensBlock_eq (ahead : ts.Ahead i (keyword :: name :: opening :: xs)) (identifier : isIdentifier name.text)
    (opens : opening.text = "\x7b") : opensBlock ts i = true := by
  rw [opensBlock, ahead.tail.tokenAt, ahead.tail.tail.tokenAt, identifier, opens]
  rfl

theorem goes_enter (ahead : ts.Ahead i (keyword :: name :: opening :: xs)) (word : keyword.text = kind.keyword)
    (identifier : isIdentifier name.text) (opens : opening.text = "\x7b") (inner : kind ∈ b.kind.inner) :
    Goes strict ts ⟨i, schema, b :: blocks, none⟩ ⟨i + 3, schema, ⟨i, kind, name, []⟩ :: b :: blocks, none⟩ := by
  apply Goes.of_step
  have here : (ts.tokenAt i).text = kind.keyword := by rw [ahead.tokenAt, word]
  rw [step_block, blockStep_enter (opensBlock_eq ahead identifier opens) here inner,
    enter_eq ahead word identifier opens]
  rfl

theorem leads_leave {t : Token} (ahead : ts.Ahead i (t :: xs)) (closes : t.text = "\x7d") :
    Leads strict ts ⟨i, schema, b :: blocks, none⟩ (leave ⟨i, schema, b :: blocks, none⟩ b blocks) .inl := by
  apply Leads.of_step
  rw [step_block, blockStep, ahead.tokenAt, closes]
  rfl

end loops

section bodies
variable {i start : Nat} {schema : Schema} {blocks : List Block} {kind : BlockKind} {name : Token} {done : List Part}
  {next : Option Token} {xs : List Token}

theorem words_eq_cons (words : List Token) (finish : Token) :
    ∃ rest, words ++ [finish] = words.head?.getD finish :: rest := by
  cases words with
  | nil => exact ⟨[], rfl⟩
  | cons w words => exact ⟨words ++ [finish], rfl⟩

theorem leading_lead {c : Clause} {cs : List Clause} (formed : Formed next (c :: cs))
    (ahead : ts.Ahead i (tokensOf (c :: cs) ++ (next.toList ++ xs))) : Leading ts i c.lead := by
  cases formed with
  | plain free semicolon =>
    simp only [tokensOf, tokens, List.append_assoc, List.singleton_append] at ahead
    exact leading_marked free ahead (by simp [finish, semicolon])
  | block free opens =>
    simp only [tokensOf, tokens, List.append_assoc, List.cons_append] at ahead
    exact leading_marked free ahead (by simp [finish, opens])
  | bare free nonempty closes =>
    rw [tokensOf_singleton, tokens] at ahead
    exact leading_marked free ahead (by simp [finish, closes])

theorem first_of_formed {c : Clause} {cs : List Clause} (formed : Formed next (c :: cs)) :
    c.first.text ≠ "\x7d" ∧ (c.first.text = ";" → ∃ mark, c = .plain [] mark) := by
  cases words : c.words with
  | nil =>
    have first : c.first = c.finish := by rw [Clause.first, words]; rfl
    rw [first]
    cases formed with
    | plain _ semicolon =>
      cases words
      exact ⟨by simp [finish, semicolon], fun _ => ⟨_, rfl⟩⟩
    | block _ opens => simp [finish, opens]
    | bare _ nonempty => exact absurd words nonempty
  | cons w rest =>
    have first : c.first = w := by rw [Clause.first, words]; rfl
    have unmarked : Unmarked c.words := by cases formed <;> assumption
    have free := unmarked w (by rw [words]; exact List.mem_cons_self)
    simp only [List.mem_cons, List.not_mem_nil, or_false, not_or] at free
    rw [first]
    exact ⟨free.2.2, fun same => absurd same free.1⟩

theorem block_of_lead {c : Clause} {cs : List Clause} (formed : Formed next (c :: cs)) {keyword opening : Token}
    (lead : c.lead = [keyword, name, opening]) (opens : opening.text = "\x7b") :
    ∃ body closing, c = .block [keyword, name] opening body closing := by
  have split : c.words ++ [c.finish] = [keyword, name] ++ [opening] := lead
  obtain ⟨words, last⟩ := List.append_inj' split rfl
  cases last
  cases formed with
  | plain _ semicolon => simp [finish, semicolon] at opens
  | block =>
    cases words
    exact ⟨_, _, rfl⟩
  | bare _ _ closes => simp [finish, closes] at opens

theorem leads_own {c : Clause} {cs : List Clause} (formed : Formed next (c :: cs))
    (ahead : ts.Ahead i (tokensOf (c :: cs) ++ (next.toList ++ xs)))
    (other : ∀ words opening body closing, c = .block words opening body closing → blockHead? kind.inner words = none) :
    Leads strict ts ⟨i, schema, ⟨start, kind, name, done⟩ :: blocks, none⟩ ((ts.reading strict).parts kind name c)
      fun more => .inl ⟨i + c.tokens.length, schema, ⟨start, kind, name, done ++ more⟩ :: blocks, none⟩ := by
  rw [Reading.parts_own _ _ other]
  have leading := leading_lead formed ahead
  obtain ⟨rest, lead⟩ := words_eq_cons c.words c.finish
  have here : ts.tokenAt i = c.first ∧ c.first.text ≠ "" := by
    rw [Clause.lead, lead] at leading
    exact leading.head
  obtain ⟨closing, marked⟩ := first_of_formed formed
  by_cases semicolon : c.first.text = ";"
  · obtain ⟨mark, rfl⟩ := marked semicolon
    rw [Reading.own_skipped (.inl semicolon)]
    refine Goes.leads_pure (.of_step ?_) [] rfl
    rw [step_block, blockStep, here.1, semicolon, List.append_nil]
    rfl
  · -- the look ahead finds no block, or the clause would be one
    have plain := find?_none_of_leading leading kind.inner <| by
      intro keyword name opening lead opens
      obtain ⟨_, _, whole⟩ := block_of_lead formed lead opens
      exact other _ _ _ _ whole
    have begun : Goes strict ts ⟨i, schema, ⟨start, kind, name, done⟩ :: blocks, none⟩
        ⟨i, schema, ⟨start, kind, name, done⟩ :: blocks, some ⟨i, kind.keeps (ts.tokenAt i).text, 0⟩⟩ :=
      goes_pass (by simp [here, semicolon, closing]) plain
    rw [here.1] at begun
    have given : given strict ts ⟨start, kind, name, done⟩ ⟨i, kind.keeps c.first.text, 0⟩ (i + c.tokens.length) =
        (ts.reading strict).own kind name c := by
      rw [tokensOf, List.append_assoc] at ahead
      rw [Descent.given, Reading.own, if_neg semicolon, ahead.slice, here.1]
      rfl
    rw [← given]
    exact begun.leads (Leads.of_map (leads_clause formed ahead))

section
variable (strict ts)

/-- From the head of the loop of any block, the steps over the clauses give their parts. -/
def Gathers (next : Option Token) (cs : List Clause) : Prop :=
  ∀ {i start : Nat} {schema : Schema} {blocks : List Block} {kind : BlockKind} {name : Token} {done : List Part}
    {xs : List Token}, ts.Ahead i (tokensOf cs ++ (next.toList ++ xs)) →
    Leads strict ts ⟨i, schema, ⟨start, kind, name, done⟩ :: blocks, none⟩
      (gather ((ts.reading strict).parts kind name) cs)
      fun more => .inl ⟨i + (tokensOf cs).length, schema, ⟨start, kind, name, done ++ more⟩ :: blocks, none⟩

end

theorem gathers_nil : Gathers strict ts next [] := by
  intro i start schema blocks kind name done xs _
  exact Goes.refl.leads_pure [] (by rw [List.append_nil]; rfl)

theorem leads_cons {c : Clause} {cs : List Clause} (ahead : ts.Ahead i (tokensOf (c :: cs) ++ (next.toList ++ xs)))
    (first : Leads strict ts ⟨i, schema, ⟨start, kind, name, done⟩ :: blocks, none⟩
      ((ts.reading strict).parts kind name c)
      fun more => .inl ⟨i + c.tokens.length, schema, ⟨start, kind, name, done ++ more⟩ :: blocks, none⟩)
    (rest : Gathers strict ts next cs) :
    Leads strict ts ⟨i, schema, ⟨start, kind, name, done⟩ :: blocks, none⟩
      (gather ((ts.reading strict).parts kind name) (c :: cs))
      fun more =>
        .inl ⟨i + (tokensOf (c :: cs)).length, schema, ⟨start, kind, name, done ++ more⟩ :: blocks, none⟩ := by
  rw [tokensOf, List.append_assoc] at ahead
  rw [gather]
  refine first.bind fun head => (rest ahead.drop).map fun tail => ?_
  rw [tokensOf, List.length_append, Nat.add_assoc, List.append_assoc]

theorem leads_inner {inner : BlockKind} {innerName opening closing : Token} {words : List Token} {body : List Clause}
    (head : blockHead? kind.inner words = some (inner, innerName)) (opens : opening.text = "\x7b")
    (closes : closing.text = "\x7d") (inside : Gathers strict ts (some closing) body)
    (ahead : ts.Ahead i ((block words opening body closing).tokens ++ xs)) :
    Leads strict ts ⟨i, schema, ⟨start, kind, name, done⟩ :: blocks, none⟩
      ((ts.reading strict).parts kind name (.block words opening body closing))
      fun more => .inl ⟨i + (block words opening body closing).tokens.length, schema,
        ⟨start, kind, name, done ++ more⟩ :: blocks, none⟩ := by
  obtain ⟨known, identifier, keyword, rfl, word⟩ := blockHead?_words head
  rw [Reading.parts_block _ _ _ head, Reading.blockPart, bind_bind]
  simp only [tokens, List.cons_append, List.nil_append, List.append_assoc] at ahead
  have entered : Goes strict ts ⟨i, schema, ⟨start, kind, name, done⟩ :: blocks, none⟩
      ⟨i + 3, schema, ⟨i, inner, innerName, []⟩ :: ⟨start, kind, name, done⟩ :: blocks, none⟩ :=
    goes_enter ahead word identifier opens known
  have behind := ahead.tail.tail.tail
  refine entered.leads ((inside behind).bind fun more => ?_)
  have length := length_append_block i [keyword, innerName] opening closing body []
  rw [List.append_nil] at length
  rw [length]
  exact (Leads.of_map (leads_leave behind.drop closes)).map fun part => rfl

/-- One clause after the other, a body gives its parts to the block around it. -/
theorem gathers_of_formed {cs : List Clause} (formed : Formed next cs) : Gathers strict ts next cs := by
  -- for a block, its own clauses are an induction hypothesis: they may stand in any block, so also in this one
  induction formed with
  | nil => exact gathers_nil
  | plain free semicolon rest ih =>
    intro i start schema blocks kind name done xs ahead
    exact leads_cons ahead (leads_own (.plain free semicolon rest) ahead (by simp)) ih
  | @block _ words _ _ _ _ free opens closes inside rest body_ih ih =>
    intro i start schema blocks kind name done xs ahead
    refine leads_cons ahead ?_ ih
    cases head : blockHead? kind.inner words with
    | none => exact leads_own (.block free opens closes inside rest) ahead (by rintro _ _ _ _ ⟨⟩; exact head)
    | some found =>
      rw [tokensOf, List.append_assoc] at ahead
      exact leads_inner head opens closes body_ih ahead
  | bare free nonempty closes =>
    intro i start schema blocks kind name done xs ahead
    exact leads_cons ahead (leads_own (.bare free nonempty closes) ahead (by simp)) gathers_nil

theorem leading_remainder {rest : Remainder} (formed : rest.Formed) (ahead : ts.Ahead i rest.tokens) :
    Leading ts i rest.lead := by
  cases rest with
  | nothing => exact .finished ahead
  | statement => exact leading_open formed ahead
  | block words opening body rest => exact leading_marked formed.1 ahead (by simp [formed.2.1])

theorem first_of_remainder {rest : Remainder} (formed : rest.Formed) {t : Token} {more : List Token}
    (lead : rest.lead = t :: more) : t.text ∉ [";", "\x7d"] := by
  have of_word (free : t.text ∉ [";", "\x7b", "\x7d"]) : t.text ∉ [";", "\x7d"] := by simp_all
  cases rest with
  | nothing => cases lead
  | statement =>
    cases lead
    exact of_word (formed t List.mem_cons_self)
  | block words opening body rest =>
    cases words with
    | nil =>
      cases lead
      simp [formed.2.1]
    | cons w words =>
      cases lead
      exact of_word (formed.1 t List.mem_cons_self)

theorem leads_unended {α : Type} {k : α → Next} {rest : Remainder} (formed : rest.Formed)
    (ahead : ts.Ahead i rest.tokens) {t : Token} {more : List Token} (lead : rest.lead = t :: more)
    (other : ∀ words opening body left, rest = .block words opening body left → blockHead? kind.inner words = none) :
    Leads strict ts ⟨i, schema, ⟨start, kind, name, done⟩ :: blocks, none⟩ (Reading.openStatement t) k := by
  have leading := leading_remainder formed ahead
  have plain := find?_none_of_leading leading kind.inner <| by
    intro keyword name opening lead opens
    obtain ⟨body, left, whole⟩ := Remainder.block_of_lead formed lead opens
    exact other _ _ _ _ whole
  rw [lead] at leading
  obtain ⟨rfl, text⟩ := leading.head
  have word := first_of_remainder formed lead
  have begun : Goes strict ts ⟨i, schema, ⟨start, kind, name, done⟩ :: blocks, none⟩
      ⟨i, schema, ⟨start, kind, name, done⟩ :: blocks, some ⟨i, kind.keeps (ts.tokenAt i).text, 0⟩⟩ :=
    goes_pass (by simpa [text] using word) plain
  exact begun.leads (leads_openStatement formed ahead)

theorem leads_leftOpen {α : Type} {k : α → Next} {rest : Remainder} (formed : rest.Formed)
    (ahead : ts.Ahead i rest.tokens) :
    Leads strict ts ⟨i, schema, ⟨start, kind, name, done⟩ :: blocks, none⟩
      ((ts.reading strict).leftOpen kind name rest) k := by
  induction rest generalizing i start kind name done blocks with
  | nothing =>
    refine .of_fault ?_ rfl
    rw [step_block, blockStep, Ahead.text_nil ahead]
    rfl
  | statement first more => exact leads_unended formed ahead rfl (by simp)
  | block words opening body rest ih =>
    cases head : blockHead? kind.inner words with
    | none =>
      obtain ⟨more, lead⟩ := words_eq_cons words opening
      rw [Reading.leftOpen_other head]
      exact leads_unended formed ahead lead (by rintro _ _ _ _ ⟨⟩; exact head)
    | some found =>
      obtain ⟨free, opens, inside, left⟩ := formed
      obtain ⟨known, identifier, keyword, rfl, word⟩ := blockHead?_words head
      rw [Reading.leftOpen_inner head, Reading.visit_eq, bind_bind]
      have entered : Goes strict ts ⟨i, schema, ⟨start, kind, name, done⟩ :: blocks, none⟩
          ⟨i + 3, schema, ⟨i, found.1, found.2, []⟩ :: ⟨start, kind, name, done⟩ :: blocks, none⟩ :=
        goes_enter ahead word identifier opens known
      have behind : ts.Ahead (i + 3) (tokensOf body ++ (Option.toList none ++ rest.tokens)) := ahead.tail.tail.tail
      exact entered.leads ((gathers_of_formed inside behind).bind fun more => ih left behind.drop)

end bodies

end Descent

end SchemaGen
