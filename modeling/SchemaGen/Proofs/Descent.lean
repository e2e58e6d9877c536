import SchemaGen.Proofs.RoundTrip
/-!
# Reading token by token

Schema text can also be read by descent, with a cursor that goes from token to token and a loop for each kind of block.
A loop looks at one token, takes it, enters a block, or passes over a statement, and comes around. Here this is a
machine whose state is the cursor and the loops that are under way, and one step is as much of an iteration as is done
before another loop takes over. Nothing in a step looks at more than three tokens, and no outline is made beforehand.
-/
namespace SchemaGen
open Text

namespace Report
variable {ω ε α β γ : Type}

theorem bind_pure (r : Report ω ε α) : r >>= pure = r := by
  obtain ⟨warnings, error | a⟩ := r
  · rfl
  · change (⟨warnings ++ [], .ok a⟩ : Report ω ε α) = _
    rw [List.append_nil]

theorem bind_bind (r : Report ω ε α) (f : α → Report ω ε β) (g : β → Report ω ε γ) :
    r >>= f >>= g = r >>= fun a => f a >>= g := by
  obtain ⟨warnings, error | a⟩ := r
  · rfl
  · change (andThen ⟨warnings ++ (f a).warnings, (f a).result⟩ g) =
      ⟨warnings ++ ((f a).andThen g).warnings, ((f a).andThen g).result⟩
    unfold andThen
    cases (f a).result with
    | error e => rfl
    | ok b => simp only [List.append_assoc]

end Report

namespace Tokens

/-- The token at an index. From the end on it is the empty one. -/
def tokenAt (ts : Tokens) (i : Nat) : Token :=
  ts.withEnd.getD i ⟨"", ts.stop⟩

def slice (ts : Tokens) (i j : Nat) : List Token :=
  (ts.list.drop i).take (j - i)

end Tokens

namespace BlockKind

def inner : BlockKind → List BlockKind
  | message => [message, enum, oneof]
  | _ => []

/-- Whether a statement in a block is kept, by the word it begins with. -/
def keeps (kind : BlockKind) (word : String) : Bool :=
  match kind with
  | message => !(["option", "reserved", "extensions", "extend"].contains word)
  | oneof => word != "option"
  | enum => !(["option", "reserved"].contains word)
  | service => word == "rpc"

end BlockKind

namespace Descent

inductive Part where
  | member (member : Member)
  | value (value : EnumValue)
  | method (method : Method)
  | service (service : Service)

namespace Part

def member? : Part → Option Member
  | member m => some m
  | _ => none

def field? : Part → Option Field
  | member (.field f) => some f
  | _ => none

def value? : Part → Option EnumValue
  | value v => some v
  | _ => none

def method? : Part → Option Method
  | method m => some m
  | _ => none

def addTo (schema : Schema) : Part → Schema
  | member (.message m) => { schema with messages := schema.messages ++ [m] }
  | member (.enum e) => { schema with enums := schema.enums ++ [e] }
  | service s => { schema with services := schema.services ++ [s] }
  | _ => schema

end Part

def closed (kind : BlockKind) (name : Token) (parts : List Part) : Parsed Part :=
  match kind with
  | .message => pure (.member (.message (.ofMembers name (parts.filterMap Part.member?))))
  | .oneof =>
    let fields := parts.filterMap Part.field?
    if fields.isEmpty then Reading.faultAt name.position (.emptyOneof name.text)
    else pure (.member (.oneof ⟨name.text, fields⟩))
  | .enum =>
    let values := parts.filterMap Part.value?
    if values.isEmpty then Reading.faultAt name.position (.emptyEnum name.text)
    else pure (.member (.enum ⟨name.text, name.position, values⟩))
  | .service => pure (.service ⟨name.text, parts.filterMap Part.method?⟩)

def field (strict inOneof : Bool) (first : Token) (statement : List Token) : Parsed (List Part) :=
  match Field.ofTokens inOneof statement with
  | .ok f => pure [.member (.field f)]
  | .error e =>
    let text := joinWith " " (statement.map (·.text))
    if strict then Reading.faultAt first.position (.malformedField text e)
    else do
      .warn (.malformedField first.position.line text e)
      return []

/-- The parts that a kept statement of a block gives. -/
def statement (strict : Bool) (kind : BlockKind) (name first : Token) (statement : List Token) : Parsed (List Part) :=
  match kind with
  | .message => field strict false first statement
  | .oneof => field strict true first statement
  | .enum => pure ((EnumValue.ofTokens? statement).toList.map .value)
  | .service =>
    match Method.ofTokens? statement with
    | some m => pure [.method m]
    | none => do
      .warn (.malformedMethod first.position.line name.text)
      return []

/-- A block whose loop is under way: where it began, and what has been read of it. -/
structure Block where
  start : Nat
  kind : BlockKind
  name : Token
  parts : List Part

/-- A statement that is being passed over: where it began, whether it is kept, and the braces open in it. -/
structure Passing where
  start : Nat
  kept : Bool
  depth : Nat

/-- The cursor, what has been read of the file, the blocks that are open, innermost first, and the statement that is
being passed over, if there is one. -/
structure State where
  index : Nat
  schema : Schema
  blocks : List Block
  passing : Option Passing

def start : State :=
  ⟨0, {}, [], none⟩

abbrev Next := State ⊕ Schema

section steps
variable (strict : Bool) (ts : Tokens)

def expect (what : Expected) (test : String → Bool) (i : Nat) : Parsed (Token × Nat) :=
  let t := ts.tokenAt i
  if t.text != "" && test t.text then pure (t, i + 1)
  else Reading.faultAt t.position (.expected what (if t.text == "" then none else some t.text))

def expectText (text : String) (i : Nat) : Parsed Nat := do
  let (_, i) ← expect ts (.text text) (· == text) i
  return i

/-- The keyword before the cursor is followed by a name and an opening brace. -/
def opensBlock (i : Nat) : Bool :=
  isIdentifier (ts.tokenAt (i + 1)).text && (ts.tokenAt (i + 2)).text == "\x7b"

def enter (s : State) (kind : BlockKind) : Parsed State := do
  let i ← expectText ts kind.keyword s.index
  let (name, i) ← expect ts (.blockName kind) isIdentifier i
  let i ← expectText ts "\x7b" i
  return { s with index := i, blocks := ⟨s.index, kind, name, []⟩ :: s.blocks }

def pass (s : State) (kept : Bool) : Parsed State :=
  pure { s with passing := some ⟨s.index, kept, 0⟩ }

/-- What a statement that ends before the index `j` gives to the block it stands in. -/
def given (b : Block) (p : Passing) (j : Nat) : Parsed (List Part) :=
  if p.kept then statement strict b.kind b.name (ts.tokenAt p.start) (ts.slice p.start j) else pure []

/-- Ends a statement before the index `j` and goes on with the loop it stands in. -/
def resume (s : State) (p : Passing) (j : Nat) : Parsed State :=
  match s.blocks with
  | [] => pure { s with index := j, passing := none }
  | b :: bs => do
    let parts ← given strict ts b p j
    return { s with index := j, passing := none, blocks := { b with parts := b.parts ++ parts } :: bs }

/-- Where a statement ends that has come to the index `i`, if it ends there: behind a semicolon outside of braces,
behind the brace that closes the first one in it, or before a brace that is not its own. -/
def ends? (i depth : Nat) : Option Nat :=
  match (ts.tokenAt i).text, depth with
  | ";", 0 => some (i + 1)
  | "\x7d", 0 => some i
  | "\x7d", 1 => some (i + 1)
  | _, _ => none

def depthAfter (word : String) (depth : Nat) : Nat :=
  match word with
  | "\x7b" => depth + 1
  | "\x7d" => depth - 1
  | _ => depth

def passStep (s : State) (p : Passing) : Parsed State :=
  let t := ts.tokenAt s.index
  if t.text = "" then Reading.openStatement (ts.tokenAt p.start)
  else
    match ends? ts s.index p.depth with
    | some j => resume strict ts s p j
    | none => pure { s with index := s.index + 1, passing := some { p with depth := depthAfter t.text p.depth } }

/-- Closes the block `b` behind its brace; the part goes to the block around it or to the file. -/
def leave (s : State) (b : Block) (bs : List Block) : Parsed State := do
  let part ← closed b.kind b.name b.parts
  match bs with
  | [] => return { s with index := s.index + 1, schema := part.addTo s.schema, blocks := [] }
  | outer :: bs =>
    return { s with index := s.index + 1, blocks := { outer with parts := outer.parts ++ [part] } :: bs }

/-- One iteration of the loop of the block `b`. -/
def blockStep (s : State) (b : Block) (bs : List Block) : Parsed State :=
  match (ts.tokenAt s.index).text with
  | "" => Reading.faultAt b.name.position (.openBlock b.kind b.name.text)
  | "\x7d" => leave s b bs
  | ";" => pure { s with index := s.index + 1 }
  | word =>
    match if opensBlock ts s.index then b.kind.inner.find? (·.keyword == word) else none with
    | some kind => enter ts s kind
    | none => pass s (b.kind.keeps word)

def version (s : State) : Parsed State := do
  let i ← expectText ts "=" (s.index + 1)
  let (literal, i) ← expect ts .version isStringLiteral i
  let i ← expectText ts ";" i
  return { s with index := i, schema := { s.schema with version := some (unquote literal.text) } }

def package (s : State) : Parsed State :=
  if s.schema.package.isSome then Reading.faultAt (ts.tokenAt s.index).position .secondPackage
  else do
    let (name, i) ← expect ts .package isTypeName (s.index + 1)
    let i ← expectText ts ";" i
    let package := String.ofList (name.text.toList.dropWhile (· == '.'))
    return { s with index := i, schema := { s.schema with package := some package } }

def importPath (s : State) : Parsed State := do
  let isPublic := (ts.tokenAt (s.index + 1)).text == "public"
  let isWeak := (ts.tokenAt (s.index + 1)).text == "weak"
  let (literal, i) ← expect ts .importPath isStringLiteral (if isPublic || isWeak then s.index + 2 else s.index + 1)
  let i ← expectText ts ";" i
  let imports := s.schema.imports ++ [⟨unquote literal.text, isPublic⟩]
  return { s with index := i, schema := { s.schema with imports } }

def fileStep (s : State) : Parsed State :=
  let t := ts.tokenAt s.index
  match t.text with
  | ";" => pure { s with index := s.index + 1 }
  | "syntax" | "edition" => version ts s
  | "package" => package ts s
  | "import" => importPath ts s
  | "option" | "extend" => pass s false
  | "message" => enter ts s .message
  | "enum" => enter ts s .enum
  | "service" => enter ts s .service
  | _ => Reading.unexpected t

def step (s : State) : Parsed Next :=
  match s.passing, s.blocks with
  | some p, _ => do return .inl (← passStep strict ts s p)
  | none, b :: bs => do return .inl (← blockStep ts s b bs)
  | none, [] =>
    if (ts.tokenAt s.index).text = "" then pure (.inr s.schema) else do return .inl (← fileStep ts s)

/-- Up to `n` steps, fewer if the file ends before. -/
def run : Nat → State → Parsed Next
  | 0, s => pure (.inl s)
  | n + 1, s => do (← step strict ts s).elim (run n) fun schema => pure (.inr schema)

end steps

/-- Where a state stands: its cursor, the start and the depth of the statement that is being passed over, and the starts
and kinds of the open blocks. -/
structure Stand where
  index : Nat
  passing : Option (Nat × Nat)
  blocks : List (Nat × BlockKind)

def State.stand (s : State) : Stand :=
  ⟨s.index, s.passing.map fun p => (p.start, p.depth), s.blocks.map fun b => (b.start, b.kind)⟩

/-- The token at an index is neither a brace nor the end. -/
def Free (ts : Tokens) (i : Nat) : Prop :=
  (ts.tokenAt i).text ∉ ["", "\x7b", "\x7d"]

theorem free_iff {ts : Tokens} {i : Nat} : Free ts i ↔
    (ts.tokenAt i).text ≠ "" ∧ (ts.tokenAt i).text ≠ "\x7b" ∧ (ts.tokenAt i).text ≠ "\x7d" := by
  simp [Free]

/-- What a step does to the cursor and to the loops that are under way. -/
inductive Move (ts : Tokens) : Stand → Stand → Prop
  | mark {i : Nat} {bs : List (Nat × BlockKind)} (semicolon : (ts.tokenAt i).text = ";") :
      Move ts ⟨i, none, bs⟩ ⟨i + 1, none, bs⟩
  | line {i j : Nat} (forward : i < j) (free : ∀ k, i ≤ k → k < j → Free ts k) : Move ts ⟨i, none, []⟩ ⟨j, none, []⟩
  | enter {i : Nat} {bs : List (Nat × BlockKind)} {kind : BlockKind} (keyword : (ts.tokenAt i).text = kind.keyword)
      (name : isIdentifier (ts.tokenAt (i + 1)).text) (opening : (ts.tokenAt (i + 2)).text = "\x7b") :
      Move ts ⟨i, none, bs⟩ ⟨i + 3, none, (i, kind) :: bs⟩
  | leave {i : Nat} {b : Nat × BlockKind} {bs : List (Nat × BlockKind)} (closing : (ts.tokenAt i).text = "\x7d") :
      Move ts ⟨i, none, b :: bs⟩ ⟨i + 1, none, bs⟩
  | pass {i : Nat} {bs : List (Nat × BlockKind)} (text : (ts.tokenAt i).text ≠ "")
      (closing : (ts.tokenAt i).text ≠ "\x7d") : Move ts ⟨i, none, bs⟩ ⟨i, some (i, 0), bs⟩
  | word {i start depth : Nat} {bs : List (Nat × BlockKind)} (free : Free ts i) :
      Move ts ⟨i, some (start, depth), bs⟩ ⟨i + 1, some (start, depth), bs⟩
  | deeper {i start depth : Nat} {bs : List (Nat × BlockKind)} (opening : (ts.tokenAt i).text = "\x7b") :
      Move ts ⟨i, some (start, depth), bs⟩ ⟨i + 1, some (start, depth + 1), bs⟩
  | shallower {i start depth : Nat} {bs : List (Nat × BlockKind)} (closing : (ts.tokenAt i).text = "\x7d") :
      Move ts ⟨i, some (start, depth + 2), bs⟩ ⟨i + 1, some (start, depth + 1), bs⟩
  | ended {i start : Nat} {bs : List (Nat × BlockKind)} (semicolon : (ts.tokenAt i).text = ";") :
      Move ts ⟨i, some (start, 0), bs⟩ ⟨i + 1, none, bs⟩
  | closed {i start : Nat} {bs : List (Nat × BlockKind)} (closing : (ts.tokenAt i).text = "\x7d") :
      Move ts ⟨i, some (start, 1), bs⟩ ⟨i + 1, none, bs⟩
  | cutShort {i start : Nat} {bs : List (Nat × BlockKind)} (closing : (ts.tokenAt i).text = "\x7d") :
      Move ts ⟨i, some (start, 0), bs⟩ ⟨i, none, bs⟩

section moves
open Report
variable {strict : Bool} {ts : Tokens} {s s' : State}

theorem expect_ok {what : Expected} {test : String → Bool} {i j : Nat} {t : Token}
    (h : (expect ts what test i).result = .ok (t, j)) :
    t = ts.tokenAt i ∧ j = i + 1 ∧ t.text ≠ "" ∧ test t.text := by
  unfold expect at h
  dsimp only at h
  split at h
  · rename_i passes
    simp only [Bool.and_eq_true, bne_iff_ne] at passes
    cases h
    exact ⟨rfl, rfl, passes⟩
  · cases h

theorem expectText_ok {text : String} {i j : Nat} (h : (expectText ts text i).result = .ok j) :
    (ts.tokenAt i).text = text ∧ j = i + 1 := by
  obtain ⟨⟨t, k⟩, found, h⟩ := bind_result_ok.mp h
  cases h
  obtain ⟨rfl, rfl, _, same⟩ := expect_ok found
  exact ⟨by simpa using same, rfl⟩

theorem enter_move {kind : BlockKind} (h : (enter ts s kind).result = .ok s') (head : s.passing = none) :
    Move ts s.stand s'.stand := by
  obtain ⟨i, first, h⟩ := bind_result_ok.mp h
  obtain ⟨⟨name, j⟩, second, h⟩ := bind_result_ok.mp h
  obtain ⟨k, third, h⟩ := bind_result_ok.mp h
  cases h
  obtain ⟨keyword, rfl⟩ := expectText_ok first
  obtain ⟨rfl, rfl, _, identifier⟩ := expect_ok second
  obtain ⟨opening, rfl⟩ := expectText_ok third
  simp only [State.stand, head, Option.map_none, List.map_cons]
  exact .enter keyword identifier opening

theorem resume_move {p : Passing} {j : Nat} (h : (resume strict ts s p j).result = .ok s') :
    s'.stand = ⟨j, none, s.stand.blocks⟩ := by
  unfold resume at h
  split at h
  · rename_i none
    cases h
    simp [State.stand, none]
  · rename_i b bs found
    obtain ⟨parts, _, h⟩ := bind_result_ok.mp h
    cases h
    simp [State.stand, found]

theorem ends?_move {i start depth j : Nat} {bs : List (Nat × BlockKind)} (h : ends? ts i depth = some j) :
    Move ts ⟨i, some (start, depth), bs⟩ ⟨j, none, bs⟩ := by
  unfold ends? at h
  split at h
  · cases h
    exact .ended ‹_›
  · cases h
    exact .cutShort ‹_›
  · cases h
    exact .closed ‹_›
  · cases h

theorem depthAfter_move {i start depth : Nat} {bs : List (Nat × BlockKind)} (text : (ts.tokenAt i).text ≠ "")
    (h : ends? ts i depth = none) :
    Move ts ⟨i, some (start, depth), bs⟩ ⟨i + 1, some (start, depthAfter (ts.tokenAt i).text depth), bs⟩ := by
  unfold depthAfter
  split
  · exact .deeper ‹_›
  · rename_i closing
    rcases depth with _ | _ | depth
    · simp [ends?, closing] at h
    · simp [ends?, closing] at h
    · exact .shallower closing
  · rename_i opening closing
    exact .word (free_iff.mpr ⟨text, opening, closing⟩)

theorem passStep_move {p : Passing} (inside : s.passing = some p)
    (h : (passStep strict ts s p).result = .ok s') : Move ts s.stand s'.stand := by
  have here : s.stand = ⟨s.index, some (p.start, p.depth), s.stand.blocks⟩ := by simp [State.stand, inside]
  rw [here]
  unfold passStep at h
  dsimp only at h
  split at h
  · cases h
  · rename_i text
    split at h
    · rw [resume_move h]
      exact ends?_move ‹_›
    · cases h
      exact depthAfter_move text ‹_›

theorem leave_move {b : Block} {bs : List Block} (head : s.passing = none)
    (h : (leave s b bs).result = .ok s') : s'.stand = ⟨s.index + 1, none, bs.map fun b => (b.start, b.kind)⟩ := by
  obtain ⟨part, _, h⟩ := bind_result_ok.mp h
  cases bs with
  | nil =>
    cases h
    simp [State.stand, head]
  | cons outer bs =>
    cases h
    simp [State.stand, head]

theorem pass_move {kept : Bool} (head : s.passing = none) (text : (ts.tokenAt s.index).text ≠ "")
    (closing : (ts.tokenAt s.index).text ≠ "\x7d") (h : (pass s kept).result = .ok s') :
    Move ts s.stand s'.stand := by
  cases h
  simp only [State.stand, head, Option.map_none, Option.map_some]
  exact .pass text closing

theorem blockStep_move {b : Block} {bs : List Block} (head : s.passing = none) (open_ : s.blocks = b :: bs)
    (h : (blockStep ts s b bs).result = .ok s') : Move ts s.stand s'.stand := by
  unfold blockStep at h
  split at h
  · cases h
  · rename_i closing
    rw [leave_move head h]
    simp only [State.stand, head, open_, Option.map_none, List.map_cons]
    exact .leave closing
  · rename_i semicolon
    cases h
    simp only [State.stand, head, Option.map_none]
    exact .mark semicolon
  · rename_i text closing _
    split at h
    · exact enter_move h head
    · exact pass_move head text closing h

def FreeTo (ts : Tokens) (i j : Nat) : Prop :=
  ∀ k, i ≤ k → k < j → Free ts k

theorem FreeTo.next {i j : Nat} (h : FreeTo ts i j) (free : Free ts j) : FreeTo ts i (j + 1) := by
  intro k lower upper
  rcases Nat.lt_succ_iff_lt_or_eq.mp upper with upper | rfl
  · exact h k lower upper
  · exact free

theorem freeTo_self {i : Nat} : FreeTo ts i i := by
  intro k lower upper
  omega

theorem free_of_test {test : String → Bool} {i : Nat} (text : (ts.tokenAt i).text ≠ "")
    (passes : test (ts.tokenAt i).text) (braces : test "\x7b" = false ∧ test "\x7d" = false) : Free ts i := by
  refine free_iff.mpr ⟨text, ?_, ?_⟩
  · intro opening
    simp [opening, braces.1] at passes
  · intro closing
    simp [closing, braces.2] at passes

theorem free_of_expect {what : Expected} {test : String → Bool} {i j : Nat} {t : Token}
    (h : (expect ts what test i).result = .ok (t, j)) (braces : test "\x7b" = false ∧ test "\x7d" = false) :
    Free ts i := by
  obtain ⟨rfl, _, text, passes⟩ := expect_ok h
  exact free_of_test text passes braces

theorem free_of_expectText {word : String} {i j : Nat} (h : (expectText ts word i).result = .ok j)
    (free : word ∉ ["", "\x7b", "\x7d"]) : Free ts i := by
  rw [Free, (expectText_ok h).1]
  exact free

theorem line_move (head : s.passing = none) (outside : s.blocks = []) {j : Nat} {schema : Schema}
    (forward : s.index < j) (free : FreeTo ts s.index j) :
    Move ts s.stand (State.stand { s with index := j, schema }) := by
  simp only [State.stand, head, outside, Option.map_none, List.map_nil]
  exact .line forward free

theorem version_move (head : s.passing = none) (outside : s.blocks = []) (keyword : Free ts s.index)
    (h : (version ts s).result = .ok s') : Move ts s.stand s'.stand := by
  obtain ⟨i, first, h⟩ := bind_result_ok.mp h
  obtain ⟨⟨literal, j⟩, second, h⟩ := bind_result_ok.mp h
  obtain ⟨k, third, h⟩ := bind_result_ok.mp h
  cases h
  have one := free_of_expectText first (by decide)
  have two := free_of_expect second (by decide)
  have three := free_of_expectText third (by decide)
  obtain ⟨_, rfl⟩ := expectText_ok first
  obtain ⟨_, rfl, _, _⟩ := expect_ok second
  obtain ⟨_, rfl⟩ := expectText_ok third
  exact line_move head outside (by omega) ((((freeTo_self.next keyword).next one).next two).next three)

theorem package_move (head : s.passing = none) (outside : s.blocks = []) (keyword : Free ts s.index)
    (h : (package ts s).result = .ok s') : Move ts s.stand s'.stand := by
  unfold package at h
  split at h
  · cases h
  · obtain ⟨⟨name, i⟩, first, h⟩ := bind_result_ok.mp h
    obtain ⟨j, second, h⟩ := bind_result_ok.mp h
    cases h
    have one := free_of_expect first (by decide)
    have two := free_of_expectText second (by decide)
    obtain ⟨_, rfl, _, _⟩ := expect_ok first
    obtain ⟨_, rfl⟩ := expectText_ok second
    exact line_move head outside (by omega) (((freeTo_self.next keyword).next one).next two)

theorem importPath_move (head : s.passing = none) (outside : s.blocks = []) (keyword : Free ts s.index)
    (h : (importPath ts s).result = .ok s') : Move ts s.stand s'.stand := by
  obtain ⟨⟨literal, i⟩, first, h⟩ := bind_result_ok.mp h
  obtain ⟨j, second, h⟩ := bind_result_ok.mp h
  cases h
  have path := free_of_expect first (by decide)
  have mark := free_of_expectText second (by decide)
  obtain ⟨_, rfl, _, _⟩ := expect_ok first
  obtain ⟨_, rfl⟩ := expectText_ok second
  split at path
  · rename_i word
    have free : Free ts (s.index + 1) := by
      rcases Bool.or_eq_true_iff.mp word with word | word <;> rw [Free, eq_of_beq word] <;> decide
    rw [if_pos word] at mark ⊢
    exact line_move head outside (by omega) ((((freeTo_self.next keyword).next free).next path).next mark)
  · rename_i plain
    rw [if_neg plain] at mark ⊢
    exact line_move head outside (by omega) (((freeTo_self.next keyword).next path).next mark)

theorem fileStep_move (head : s.passing = none) (outside : s.blocks = [])
    (h : (fileStep ts s).result = .ok s') : Move ts s.stand s'.stand := by
  have word {text : String} (same : (ts.tokenAt s.index).text = text) (free : text ∉ ["", "\x7b", "\x7d"]) :
      Free ts s.index := by
    rwa [Free, same]
  unfold fileStep at h
  dsimp only at h
  split at h
  · rename_i semicolon
    cases h
    simp only [State.stand, head, Option.map_none]
    exact .mark semicolon
  · exact version_move head outside (word ‹_› (by decide)) h
  · exact version_move head outside (word ‹_› (by decide)) h
  · exact package_move head outside (word ‹_› (by decide)) h
  · exact importPath_move head outside (word ‹_› (by decide)) h
  · obtain ⟨text, _, closing⟩ := free_iff.mp (word ‹_› (by decide))
    exact pass_move head text closing h
  · obtain ⟨text, _, closing⟩ := free_iff.mp (word ‹_› (by decide))
    exact pass_move head text closing h
  · exact enter_move h head
  · exact enter_move h head
  · exact enter_move h head
  · cases h

/-- Every step is one of the moves. -/
theorem step_move (h : (step strict ts s).result = .ok (.inl s')) : Move ts s.stand s'.stand := by
  unfold step at h
  split at h
  · obtain ⟨_, found, h⟩ := bind_result_ok.mp h
    cases h
    exact passStep_move ‹_› found
  · obtain ⟨_, found, h⟩ := bind_result_ok.mp h
    cases h
    exact blockStep_move ‹_› ‹_› found
  · split at h
    · cases h
    · obtain ⟨_, found, h⟩ := bind_result_ok.mp h
      cases h
      exact fileStep_move ‹_› ‹_› found

theorem step_ends {schema : Schema} (h : (step strict ts s).result = .ok (.inr schema)) :
    s.stand = ⟨s.index, none, []⟩ ∧ (ts.tokenAt s.index).text = "" := by
  unfold step at h
  split at h
  · obtain ⟨_, _, h⟩ := bind_result_ok.mp h
    cases h
  · obtain ⟨_, _, h⟩ := bind_result_ok.mp h
    cases h
  · rename_i head outside
    split at h
    · rename_i ended
      exact ⟨by simp [State.stand, head, outside], ended⟩
    · obtain ⟨_, _, h⟩ := bind_result_ok.mp h
      cases h

end moves

section runs
open Report
variable {strict : Bool} {ts : Tokens} {s s' : State}

theorem run_one (s : State) : run strict ts 1 s = step strict ts s := by
  have either : ∀ next : Next,
      next.elim (run strict ts 0) (fun schema => pure (.inr schema)) = (pure next : Parsed Next) := by
    rintro (_ | _) <;> rfl
  rw [run]
  simp only [either, bind_pure]

theorem run_add (n m : Nat) (s : State) :
    run strict ts (n + m) s =
      run strict ts n s >>= fun next => next.elim (run strict ts m) (fun schema => pure (.inr schema)) := by
  induction n generalizing s with
  | zero => rw [Nat.zero_add, run, pure_bind, Sum.elim_inl]
  | succ n ih =>
    rw [Nat.succ_add, run, run, bind_bind]
    congr 1
    funext next
    rcases next with u | schema
    · exact ih u
    · rfl

/-- The state after `n` steps, if the run is not over by then. -/
def After (strict : Bool) (ts : Tokens) (n : Nat) (s s' : State) : Prop :=
  (run strict ts n s).result = .ok (.inl s')

theorem after_zero : After strict ts 0 s s' ↔ s = s' := by
  simp [After, run]

theorem after_add {n m : Nat} : After strict ts (n + m) s s' ↔ ∃ u, After strict ts n s u ∧ After strict ts m u s' := by
  rw [After, run_add, bind_result_ok]
  constructor
  · rintro ⟨u | schema, first, rest⟩
    · exact ⟨u, first, rest⟩
    · cases rest
  · rintro ⟨u, first, rest⟩
    exact ⟨.inl u, first, rest⟩

theorem after_one : After strict ts 1 s s' ↔ (step strict ts s).result = .ok (.inl s') := by
  rw [After, run_one]

theorem after_unique {n : Nat} {u v : State} (hu : After strict ts n s u) (hv : After strict ts n s v) : u = v := by
  have same := hu.symm.trans hv
  simpa using same

/-- What holds at the start and is kept by every move holds in every state that is reached. -/
theorem after_induction {n : Nat} {P : State → Prop} (first : P start)
    (next : ∀ s s', P s → Move ts s.stand s'.stand → P s') (h : After strict ts n start s) : P s := by
  induction n generalizing s with
  | zero => exact after_zero.mp h ▸ first
  | succ n ih =>
    obtain ⟨u, before, last⟩ := after_add.mp h
    exact next u s (ih before) (step_move (after_one.mp last))

end runs

end Descent

end SchemaGen
