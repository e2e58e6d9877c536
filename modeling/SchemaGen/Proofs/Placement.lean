import SchemaGen.Proofs.Layout
import SchemaGen.Proofs.WellFormed
/-!
# Reading without places

The reader looks at the texts of tokens and only hands on where they stand. So reading tokens that are all moved to
one place gives the same schema, the same warnings and the same fault, moved there as well.
-/
namespace SchemaGen
open Text

def Token.unplaced (t : Token) : Token :=
  { t with position := .start }

@[simp] theorem Token.unplaced_text (t : Token) : t.unplaced.text = t.text := rfl

@[simp] theorem Token.unplaced_position (t : Token) : t.unplaced.position = .start := rfl

/-- The declarations as they are when all of them stand at the start of a text. -/
def Field.unplaced (f : Field) : Field :=
  { f with position := .start }

def Oneof.unplaced (o : Oneof) : Oneof :=
  { o with fields := o.fields.map Field.unplaced }

def EnumDef.unplaced (e : EnumDef) : EnumDef :=
  { e with position := .start }

namespace Message

mutual

def unplaced : Message → Message
  | ⟨name, _, fields, oneofs, messages, enums⟩ =>
    ⟨name, .start, fields.map Field.unplaced, oneofs.map Oneof.unplaced, unplacedAll messages,
      enums.map EnumDef.unplaced⟩

def unplacedAll : List Message → List Message
  | [] => []
  | m :: ms => m.unplaced :: unplacedAll ms

end

@[simp] theorem unplacedAll_eq (ms : List Message) : unplacedAll ms = ms.map unplaced := by
  induction ms with
  | nil => rfl
  | cons m ms ih => rw [unplacedAll, ih, List.map_cons]

theorem unplaced_eq (m : Message) :
    m.unplaced = { m with
      position := .start, fields := m.fields.map Field.unplaced, oneofs := m.oneofs.map Oneof.unplaced
      messages := m.messages.map unplaced, enums := m.enums.map EnumDef.unplaced } := by
  cases m
  rw [unplaced, unplacedAll_eq]

end Message

def Schema.unplaced (s : Schema) : Schema :=
  { s with messages := s.messages.map Message.unplaced, enums := s.enums.map EnumDef.unplaced }

def SchemaFile.unplaced (f : SchemaFile) : SchemaFile :=
  { f.toSchema.unplaced with name := f.name }

def Misread.unplaced (m : Misread) : Misread :=
  { m with position := .start }

def Notice.unplaced : Notice → Notice
  | .malformedField _ statement fault => .malformedField Position.start.line statement fault
  | .malformedMethod _ service => .malformedMethod Position.start.line service

def SchemaError.unplaced : SchemaError → SchemaError
  | .parse name misread => .parse name misread.unplaced
  | e => e

def Warning.unplaced : Warning → Warning
  | .notice name n => .notice name n.unplaced
  | w => w

section statements
variable {statement ts : List Token}

theorem withoutMark_map : withoutMark (ts.map Token.unplaced) = (withoutMark ts).map Token.unplaced := by
  unfold withoutMark
  simp only [List.getLast?_map, Option.any_map, Token.unplaced_text]
  split
  · exact List.map_dropLast.symm
  · rfl

theorem bodyOf_map : bodyOf (ts.map Token.unplaced) = (bodyOf ts).map Token.unplaced := by
  rw [bodyOf, bodyOf, withoutMark_map, List.takeWhile_map]
  rfl

theorem optionsOf_map : optionsOf (ts.map Token.unplaced) = (optionsOf ts).map Token.unplaced := by
  rw [optionsOf, optionsOf, withoutMark_map, List.dropWhile_map]
  rfl

theorem marksDeprecated_map : marksDeprecated (ts.map Token.unplaced) = marksDeprecated ts := by
  induction ts with
  | nil => rfl
  | cons a ts ih =>
    rcases ts with _ | ⟨b, _ | ⟨c, ts⟩⟩
    iterate 2 rfl
    simp only [List.map_cons, marksDeprecated, Token.unplaced_text] at ih ⊢
    rw [ih]

theorem splitLabel_map :
    splitLabel (ts.map Token.unplaced) = ((splitLabel ts).1, (splitLabel ts).2.map Token.unplaced) := by
  cases ts with
  | nil => rfl
  | cons t ts =>
    simp only [List.map_cons, splitLabel, Token.unplaced_text]
    split <;> rfl

theorem mapType_map :
    mapType (ts.map Token.unplaced) = (mapType ts).map fun (type, rest) => (type, rest.map Token.unplaced) := by
  rcases ts with _ | ⟨first, _ | ⟨opening, _ | ⟨key, _ | ⟨comma, _ | ⟨value, _ | ⟨closing, rest⟩⟩⟩⟩⟩⟩
  iterate 6 rfl
  · simp only [List.map_cons, mapType, Token.unplaced_text]
    by_cases shape : (opening.text == "<" && comma.text == "," && closing.text == ">") = true
    · simp only [shape, if_true]
      cases (Scalar.ofKeyword? key.text).filter (·.validKey) with
      | none => rfl
      | some kind =>
        dsimp only
        by_cases bad : (value.text == "map" || !isTypeName value.text) = true
        · simp [bad, Except.map]
        · simp [bad, Except.map]
    · simp [shape, Except.map]

theorem fieldType_map :
    fieldType (ts.map Token.unplaced) = (fieldType ts).map fun (type, rest) => (type, rest.map Token.unplaced) := by
  cases ts with
  | nil => rfl
  | cons t ts =>
    have whole : mapType ((t :: ts).map Token.unplaced) =
        (mapType (t :: ts)).map fun (type, rest) => (type, rest.map Token.unplaced) := mapType_map
    simp only [List.map_cons, fieldType, Token.unplaced_text, List.head?_map, Option.any_map] at whole ⊢
    by_cases map : (t.text == "map" && ts.head?.any (·.text == "<")) = true
    · simp only [map, if_true, whole]
    · by_cases named : isTypeName t.text = true
      · simp [map, named, Except.map]
      · simp [map, named, Except.map]

theorem nameAndNumber_map :
    nameAndNumber (ts.map Token.unplaced) = (nameAndNumber ts).map fun (name, number) => (name.unplaced, number) := by
  rcases ts with _ | ⟨name, _ | ⟨equals, _ | ⟨number, _ | ⟨_, _⟩⟩⟩⟩
  iterate 3 rfl
  · simp only [List.map_cons, List.map_nil, nameAndNumber, Token.unplaced_text]
    by_cases equal : (equals.text != "=") = true
    · simp [equal, Except.map]
    by_cases bad : (!isIdentifier name.text) = true
    · simp [equal, bad, Except.map]
    simp only [equal, bad, Bool.false_eq_true, if_false]
    cases integer? number.text with
    | none => rfl
    | some n =>
      dsimp only
      split <;> rfl
  · rfl

def fieldAfterLabel (inOneof : Bool) (label : Option Label) (deprecated : Bool) (typed : FieldType × List Token) :
    Except FieldFault Field :=
  if typed.1.isMap && label == some .repeated then .error .repeatedMap
  else if typed.1.isMap && inOneof then .error .mapInOneof
  else (nameAndNumber typed.2).map fun (name, number) =>
    { name := name.text, position := name.position, type := typed.1, number, label := label.getD .singular, deprecated }

theorem Field.ofTokens_eq (inOneof : Bool) :
    Field.ofTokens inOneof statement =
      let body := bodyOf statement
      let label := (splitLabel body).1
      if body.length < 3 then .error (.tooShort body.length)
      else if inOneof && label.isSome then .error .labelInOneof
      else (fieldType (splitLabel body).2).bind
        (fieldAfterLabel inOneof label (marksDeprecated (optionsOf statement))) := by
  unfold Field.ofTokens
  simp only [throw_eq_error]
  generalize splitLabel (bodyOf statement) = labelled
  obtain ⟨label, unlabelled⟩ := labelled
  dsimp only
  by_cases short : (bodyOf statement).length < 3
  · rw [if_pos short, if_pos short]
    rfl
  rw [if_neg short, if_neg short]
  by_cases misplaced : (inOneof && label.isSome) = true
  · rw [if_pos misplaced, if_pos misplaced]
    rfl
  rw [if_neg misplaced, if_neg misplaced]
  cases fieldType unlabelled with
  | error e => rfl
  | ok typed =>
    unfold fieldAfterLabel
    dsimp only [bind, Except.bind]
    by_cases repeated : (typed.1.isMap && label == some .repeated) = true
    · rw [if_pos repeated, if_pos repeated]
    rw [if_neg repeated, if_neg repeated]
    by_cases inside : (typed.1.isMap && inOneof) = true
    · rw [if_pos inside, if_pos inside]
    rw [if_neg inside, if_neg inside]
    cases nameAndNumber typed.2 with
    | error e => rfl
    | ok named => rfl

theorem fieldAfterLabel_map (inOneof : Bool) (label : Option Label) (deprecated : Bool)
    (typed : FieldType × List Token) :
    fieldAfterLabel inOneof label deprecated (typed.1, typed.2.map Token.unplaced) =
      (fieldAfterLabel inOneof label deprecated typed).map Field.unplaced := by
  unfold fieldAfterLabel
  dsimp only
  rw [nameAndNumber_map]
  split_ifs
  · rfl
  · rfl
  · cases nameAndNumber typed.2 with
    | error e => rfl
    | ok named => rfl

theorem Field.ofTokens_map (inOneof : Bool) :
    Field.ofTokens inOneof (statement.map Token.unplaced) = (Field.ofTokens inOneof statement).map Field.unplaced := by
  rw [Field.ofTokens_eq, Field.ofTokens_eq]
  dsimp only
  rw [bodyOf_map, splitLabel_map, optionsOf_map, marksDeprecated_map, List.length_map, fieldType_map]
  split_ifs
  · rfl
  · rfl
  · cases fieldType (splitLabel (bodyOf statement)).2 with
    | error e => rfl
    | ok typed => exact fieldAfterLabel_map inOneof _ _ typed

theorem EnumValue.ofTokens?_map :
    EnumValue.ofTokens? (statement.map Token.unplaced) = EnumValue.ofTokens? statement := by
  unfold EnumValue.ofTokens?
  rw [bodyOf_map]
  rcases bodyOf statement with _ | ⟨name, _ | ⟨equals, _ | ⟨number, _ | ⟨_, _⟩⟩⟩⟩
  all_goals rfl

theorem Method.ofTokens?_map : Method.ofTokens? (statement.map Token.unplaced) = Method.ofTokens? statement := by
  unfold Method.ofTokens?
  rw [List.map_map]
  rfl

theorem blockHead?_map (kinds : List BlockKind) :
    blockHead? kinds (ts.map Token.unplaced) =
      (blockHead? kinds ts).map fun (kind, name) => (kind, name.unplaced) := by
  rcases ts with _ | ⟨keyword, _ | ⟨name, _ | ⟨_, _⟩⟩⟩
  iterate 2 rfl
  · simp only [List.map_cons, List.map_nil, blockHead?, Token.unplaced_text]
    by_cases named : isIdentifier name.text = true
    · simp only [named, if_true, Option.map_map]
      rfl
    · simp [named]
  · rfl

end statements

namespace Clause

mutual

def unplaced : Clause → Clause
  | plain words mark => plain (words.map Token.unplaced) mark.unplaced
  | block words opening body closing =>
    block (words.map Token.unplaced) opening.unplaced (unplacedAll body) closing.unplaced
  | bare words next => bare (words.map Token.unplaced) next.unplaced

def unplacedAll : List Clause → List Clause
  | [] => []
  | c :: cs => c.unplaced :: unplacedAll cs

end

@[simp] theorem unplacedAll_eq (cs : List Clause) : unplacedAll cs = cs.map unplaced := by
  induction cs with
  | nil => rfl
  | cons c cs ih => rw [unplacedAll, ih, List.map_cons]

theorem tokensOf_unplaced (cs : List Clause) : tokensOf (cs.map unplaced) = (tokensOf cs).map Token.unplaced := by
  induction cs using forestInduction with
  | nil => rfl
  | cons c cs inside rest =>
    rw [List.map_cons, tokensOf, tokensOf, List.map_append, rest]
    cases c with
    | plain words mark => simp [unplaced, tokens]
    | block words opening body closing =>
      have inside : tokensOf (body.map unplaced) = (tokensOf body).map Token.unplaced := inside
      simp [unplaced, tokens, inside]
    | bare words next => simp [unplaced, tokens]

theorem tokens_unplaced (c : Clause) : c.unplaced.tokens = c.tokens.map Token.unplaced := by
  have single := tokensOf_unplaced [c]
  simpa [tokensOf] using single

theorem words_unplaced (c : Clause) : c.unplaced.words = c.words.map Token.unplaced := by
  cases c <;> simp [unplaced, words]

theorem finish_unplaced (c : Clause) : c.unplaced.finish = c.finish.unplaced := by
  cases c <;> simp [unplaced, finish]

theorem lead_unplaced (c : Clause) : c.unplaced.lead = c.lead.map Token.unplaced := by
  simp [lead, words_unplaced, finish_unplaced]

theorem first_unplaced (c : Clause) : c.unplaced.first = c.first.unplaced := by
  rw [first, first, words_unplaced, finish_unplaced, List.head?_map]
  cases c.words.head? <;> rfl

end Clause

def Remainder.unplaced : Remainder → Remainder
  | .nothing => .nothing
  | .statement start more => .statement start.unplaced (more.map Token.unplaced)
  | .block words opening body rest =>
    .block (words.map Token.unplaced) opening.unplaced (body.map Clause.unplaced) rest.unplaced

def Ending.unplaced : Ending → Ending
  | .stray closing => .stray closing.unplaced
  | .ended rest => .ended rest.unplaced

namespace Outline

def unplaced (o : Outline) : Outline :=
  ⟨o.clauses.map Clause.unplaced, o.ending.unplaced⟩

def Frame.unplaced (f : Frame) : Frame :=
  ⟨f.words.map Token.unplaced, f.opening.unplaced, f.before.map Clause.unplaced⟩

theorem close_unplaced (clauses : List Clause) (rest : Remainder) (stack : List Frame) :
    close (clauses.map Clause.unplaced) rest.unplaced (stack.map Frame.unplaced) =
      (close clauses rest stack).unplaced := by
  induction stack generalizing clauses rest with
  | nil => rfl
  | cons f stack ih =>
    have inner := ih f.before.reverse (.block f.words f.opening clauses rest)
    simpa [close, Frame.unplaced, Remainder.unplaced] using inner

section steps
variable {stack : List Frame} {clauses : List Clause} {words ts : List Token} {t : Token}

def leftOver : List Token → Remainder
  | [] => .nothing
  | start :: more => .statement start more

theorem readFrom_nil :
    readFrom stack clauses words [] = close clauses.reverse (leftOver words.reverse) stack := by
  rw [readFrom]
  cases words.reverse <;> rfl

theorem readFrom_semicolon (h : t.text = ";") :
    readFrom stack clauses words (t :: ts) = readFrom stack (.plain words.reverse t :: clauses) [] ts := by
  rw [readFrom, h]
  rfl

theorem readFrom_open (h : t.text = "\x7b") :
    readFrom stack clauses words (t :: ts) = readFrom (⟨words.reverse, t, clauses⟩ :: stack) [] [] ts := by
  rw [readFrom, h]
  rfl

/-- The clauses of a block that the brace `t` closes, last one first. -/
def bodyBefore (clauses : List Clause) (words : List Token) (t : Token) : List Clause :=
  if words.isEmpty then clauses else .bare words.reverse t :: clauses

theorem readFrom_stray (h : t.text = "\x7d") :
    readFrom [] clauses words (t :: ts) = ⟨(bodyBefore clauses words t).reverse, .stray t⟩ := by
  rw [readFrom, h]
  rfl

theorem readFrom_close {f : Frame} (h : t.text = "\x7d") :
    readFrom (f :: stack) clauses words (t :: ts) =
      readFrom stack (.block f.words f.opening (bodyBefore clauses words t).reverse t :: f.before) [] ts := by
  rw [readFrom, h]
  rfl

theorem readFrom_word (semicolon : t.text ≠ ";") (opening : t.text ≠ "\x7b") (closing : t.text ≠ "\x7d") :
    readFrom stack clauses words (t :: ts) = readFrom stack clauses (t :: words) ts := by
  rw [readFrom]
  split
  · exact absurd ‹_› semicolon
  · exact absurd ‹_› opening
  · exact absurd ‹_› closing
  · rfl

end steps

theorem leftOver_unplaced (words : List Token) :
    leftOver (words.map Token.unplaced) = (leftOver words).unplaced := by
  cases words <;> rfl

theorem bodyBefore_unplaced (clauses : List Clause) (words : List Token) (t : Token) :
    bodyBefore (clauses.map Clause.unplaced) (words.map Token.unplaced) t.unplaced =
      (bodyBefore clauses words t).map Clause.unplaced := by
  cases words with
  | nil => rfl
  | cons w words => simp [bodyBefore, Clause.unplaced]

theorem readFrom_unplaced (stack : List Frame) (clauses : List Clause) (words ts : List Token) :
    readFrom (stack.map Frame.unplaced) (clauses.map Clause.unplaced) (words.map Token.unplaced)
        (ts.map Token.unplaced) =
      (readFrom stack clauses words ts).unplaced := by
  induction ts generalizing stack clauses words with
  | nil =>
    rw [List.map_nil, readFrom_nil, readFrom_nil, ← List.map_reverse, ← List.map_reverse, leftOver_unplaced]
    exact close_unplaced _ _ stack
  | cons t ts ih =>
    rw [List.map_cons]
    by_cases semicolon : t.text = ";"
    · rw [readFrom_semicolon semicolon, readFrom_semicolon (t := t.unplaced) semicolon, ← ih, ← List.map_reverse]
      rfl
    by_cases opening : t.text = "\x7b"
    · rw [readFrom_open opening, readFrom_open (t := t.unplaced) opening, ← ih, ← List.map_reverse]
      rfl
    by_cases closing : t.text = "\x7d"
    · cases stack with
      | nil =>
        rw [readFrom_stray closing, List.map_nil, readFrom_stray (t := t.unplaced) closing, bodyBefore_unplaced,
          ← List.map_reverse]
        rfl
      | cons f stack =>
        rw [readFrom_close closing, List.map_cons, readFrom_close (t := t.unplaced) closing, bodyBefore_unplaced,
          ← List.map_reverse, ← ih]
        simp [Frame.unplaced, Clause.unplaced]
    · rw [readFrom_word semicolon opening closing, readFrom_word (t := t.unplaced) semicolon opening closing, ← ih]
      rfl

theorem read_unplaced (ts : List Token) : read (ts.map Token.unplaced) = (read ts).unplaced :=
  readFrom_unplaced [] [] [] ts

end Outline

namespace Report
variable {α β γ δ : Type}

/-- The same report with its value changed by `f`, and all that it says about places moved to the start. -/
def unplaced (f : α → β) (r : Parsed α) : Parsed β :=
  ⟨r.warnings.map Notice.unplaced, match r.result with
    | .ok a => .ok (f a)
    | .error e => .error e.unplaced⟩

theorem unplaced_pure (f : α → β) (a : α) : unplaced f (pure a) = pure (f a) := rfl

theorem unplaced_faultAt (f : α → β) (p : Position) (fault : Fault) :
    unplaced f (Reading.faultAt p fault) = Reading.faultAt .start fault := rfl

theorem unplaced_bind {f : α → β} {g : γ → δ} {next : α → Parsed γ} {next' : β → Parsed δ} {r : Parsed α}
    {r' : Parsed β} (first : unplaced f r = r') (rest : ∀ a, unplaced g (next a) = next' (f a)) :
    unplaced g (r >>= next) = r' >>= next' := by
  subst first
  obtain ⟨warnings, result⟩ := r
  cases result with
  | error e => rfl
  | ok a =>
    change unplaced g ⟨warnings ++ (next a).warnings, (next a).result⟩ =
      ⟨warnings.map Notice.unplaced ++ (next' (f a)).warnings, (next' (f a)).result⟩
    rw [← rest a]
    simp [unplaced]

theorem unplaced_gather {f : β → γ} {each : α → Parsed (List β)} {each' : δ → Parsed (List γ)} {move : α → δ}
    (h : ∀ a, unplaced (List.map f) (each a) = each' (move a)) (as : List α) :
    unplaced (List.map f) (gather each as) = gather each' (as.map move) := by
  induction as with
  | nil => rfl
  | cons a as ih =>
    refine unplaced_bind (h a) fun head => unplaced_bind ih fun tail => ?_
    rw [unplaced_pure, List.map_append]

end Report

def Member.unplaced : Member → Member
  | .field f => .field f.unplaced
  | .oneof o => .oneof o.unplaced
  | .message m => .message m.unplaced
  | .enum e => .enum e.unplaced

theorem Message.ofMembers_unplaced (name : Token) (ms : List Member) :
    (ofMembers name ms).unplaced = ofMembers name.unplaced (ms.map Member.unplaced) := by
  rw [unplaced_eq]
  simp only [ofMembers, List.filterMap_map, List.map_filterMap, Token.unplaced_text, Token.unplaced_position]
  congr 1
  all_goals
    refine List.filterMap_congr fun x _ => ?_
    cases x <;> rfl

namespace Reading
open Report
variable {α β : Type} (r : Reading)

def unplaced : Reading :=
  { r with stop := .start }

theorem field_unplaced (inOneof : Bool) (c : Clause) :
    (r.field inOneof c).unplaced (List.map Field.unplaced) = r.unplaced.field inOneof c.unplaced := by
  unfold field
  rw [Clause.tokens_unplaced, Field.ofTokens_map, Clause.first_unplaced]
  cases Field.ofTokens inOneof c.tokens with
  | ok f => rfl
  | error e =>
    dsimp only [Except.map]
    rw [List.map_map]
    by_cases strict : r.strict = true
    · rw [if_pos strict, if_pos (show r.unplaced.strict = true from strict)]
      rfl
    · rw [if_neg strict, if_neg (show ¬ r.unplaced.strict = true from strict)]
      rfl

theorem oneofFields_unplaced (body : List Clause) :
    (r.oneofFields body).unplaced (List.map Field.unplaced) =
      r.unplaced.oneofFields (body.map Clause.unplaced) := by
  refine unplaced_gather (fun c => ?_) body
  rw [Clause.first_unplaced, Token.unplaced_text]
  split
  · rfl
  · rfl
  · exact r.field_unplaced true c

theorem enumValues_unplaced (body : List Clause) : enumValues (body.map Clause.unplaced) = enumValues body := by
  unfold enumValues
  rw [List.flatMap_map]
  refine List.flatMap_congr fun c _ => ?_
  rw [Clause.first_unplaced, Token.unplaced_text, Clause.tokens_unplaced, EnumValue.ofTokens?_map]

theorem methods_unplaced (service : Token) (body : List Clause) :
    (methods service body).unplaced (List.map id) = methods service.unplaced (body.map Clause.unplaced) := by
  refine unplaced_gather (fun c => ?_) body
  rw [Clause.first_unplaced, Token.unplaced_text, Clause.tokens_unplaced, Method.ofTokens?_map]
  split
  · cases Method.ofTokens? c.tokens with
    | some m => rfl
    | none => rfl
  · rfl

theorem oneof_unplaced (name : Token) (body : List Clause) :
    (r.oneof name body).unplaced Oneof.unplaced = r.unplaced.oneof name.unplaced (body.map Clause.unplaced) := by
  refine unplaced_bind (r.oneofFields_unplaced body) fun fields => ?_
  cases fields with
  | nil => rfl
  | cons f fields => rfl

theorem enum_unplaced (name : Token) (body : List Clause) :
    (enum name body).unplaced EnumDef.unplaced = enum name.unplaced (body.map Clause.unplaced) := by
  unfold enum
  rw [enumValues_unplaced]
  dsimp only
  split <;> rfl

theorem service_unplaced (name : Token) (body : List Clause) :
    (service name body).unplaced id = service name.unplaced (body.map Clause.unplaced) := by
  refine unplaced_bind (methods_unplaced name body) fun found => ?_
  rw [unplaced_pure, List.map_id]
  rfl

theorem statement_unplaced (c : Clause) :
    (r.statement c).unplaced (List.map Member.unplaced) = r.unplaced.statement c.unplaced := by
  unfold statement
  rw [Clause.first_unplaced, Token.unplaced_text]
  split
  iterate 5 rfl
  refine unplaced_bind (r.field_unplaced false c) fun fields => ?_
  rw [unplaced_pure, List.map_map, List.map_map]
  rfl

/-- A clause of a message, the clauses in its block being read by `inside`. -/
theorem member_unplaced {c : Clause}
    (inside : (r.members c.body).unplaced (List.map Member.unplaced) =
      r.unplaced.members (c.body.map Clause.unplaced)) :
    (r.member c).unplaced (List.map Member.unplaced) = r.unplaced.member c.unplaced := by
  cases c with
  | plain words mark =>
    simp only [Clause.unplaced, member]
    exact r.statement_unplaced (.plain words mark)
  | bare words next =>
    simp only [Clause.unplaced, member]
    exact r.statement_unplaced (.bare words next)
  | block words opening body closing =>
    simp only [Clause.unplaced, member, blockHead?_map, Clause.unplacedAll_eq]
    have otherwise := r.statement_unplaced (.block words opening body closing)
    simp only [Clause.unplaced, Clause.unplacedAll_eq] at otherwise
    cases blockHead? [.message, .enum, .oneof] words with
    | none => exact otherwise
    | some head =>
      obtain ⟨kind, name⟩ := head
      cases kind with
      | message =>
        refine unplaced_bind inside fun parts => ?_
        rw [unplaced_pure, ← Message.ofMembers_unplaced]
        rfl
      | enum => exact unplaced_bind (enum_unplaced name body) fun e => rfl
      | oneof => exact unplaced_bind (r.oneof_unplaced name body) fun o => rfl
      | service => exact otherwise

theorem members_unplaced (cs : List Clause) :
    (r.members cs).unplaced (List.map Member.unplaced) = r.unplaced.members (cs.map Clause.unplaced) := by
  induction cs using Clause.forestInduction with
  | nil =>
    simp only [List.map_nil, members]
    rfl
  | cons c cs inside rest =>
    simp only [List.map_cons, members]
    refine unplaced_bind (r.member_unplaced inside) fun head => unplaced_bind rest fun tail => ?_
    rw [unplaced_pure, List.map_append]

theorem visit_unplaced (kind : BlockKind) (name : Token) (body : List Clause) :
    (r.visit kind name body).unplaced id = r.unplaced.visit kind name.unplaced (body.map Clause.unplaced) := by
  cases kind with
  | message => exact unplaced_bind (r.members_unplaced body) fun _ => rfl
  | oneof => exact unplaced_bind (r.oneofFields_unplaced body) fun _ => rfl
  | enum => rfl
  | service => exact unplaced_bind (methods_unplaced name body) fun _ => rfl

theorem leftOpen_unplaced (f : α → β) (kind : BlockKind) (name : Token) (rest : Remainder) :
    (r.leftOpen kind name rest).unplaced f = r.unplaced.leftOpen kind name.unplaced rest.unplaced := by
  induction rest generalizing kind name with
  | nothing => rfl
  | statement start more => rfl
  | block words opening body rest ih =>
    have first : (words.map Token.unplaced).head?.getD opening.unplaced = (words.head?.getD opening).unplaced := by
      cases words <;> rfl
    unfold leftOpen
    simp only [Remainder.unplaced, blockHead?_map, first]
    cases kind with
    | message =>
      cases blockHead? [.message, .enum, .oneof] words with
      | none => rfl
      | some head => exact unplaced_bind (r.visit_unplaced head.1 head.2 body) fun _ => ih head.1 head.2
    | oneof => rfl
    | enum => rfl
    | service => rfl

theorem blockFault_unplaced (f : α → β) (kind : BlockKind) (lead : List Token) :
    (r.blockFault kind lead).unplaced f = r.unplaced.blockFault kind (lead.map Token.unplaced) := by
  unfold blockFault
  rw [← List.map_drop]
  rcases lead.drop 1 with _ | ⟨t, _ | ⟨u, ts⟩⟩
  · rfl
  · by_cases named : isIdentifier t.text = true
    · simp [named, unplaced_faultAt, unplaced]
    · simp [named, unplaced_faultAt]
  · by_cases named : isIdentifier t.text = true
    · simp [named, unplaced_faultAt]
    · simp [named, unplaced_faultAt]

theorem expect_unplaced (what : Expected) (test : String → Bool) (ts : List Token) :
    (r.expect what test ts).unplaced (fun (t, rest) => (t.unplaced, rest.map Token.unplaced)) =
      r.unplaced.expect what test (ts.map Token.unplaced) := by
  cases ts with
  | nil => rfl
  | cons t ts =>
    simp only [List.map_cons, expect, Token.unplaced_text]
    by_cases passed : test t.text = true
    · simp only [passed, if_true]
      rfl
    · simp [passed, unplaced_faultAt]

theorem expectText_unplaced (text : String) (ts : List Token) :
    (r.expectText text ts).unplaced (List.map Token.unplaced) =
      r.unplaced.expectText text (ts.map Token.unplaced) :=
  unplaced_bind (r.expect_unplaced _ _ ts) fun _ => rfl

theorem version_unplaced (schema : Schema) (lead : List Token) :
    (r.version schema lead).unplaced Schema.unplaced =
      r.unplaced.version schema.unplaced (lead.map Token.unplaced) := by
  unfold version
  rw [← List.map_drop]
  exact unplaced_bind (r.expectText_unplaced _ _) fun _ => unplaced_bind (r.expect_unplaced _ _ _) fun _ =>
    unplaced_bind (r.expectText_unplaced _ _) fun _ => rfl

theorem package_unplaced (schema : Schema) (lead : List Token) :
    (r.package schema lead).unplaced Schema.unplaced =
      r.unplaced.package schema.unplaced (lead.map Token.unplaced) := by
  unfold package
  rw [← List.map_drop]
  by_cases second : schema.package.isSome = true
  · rw [if_pos second, if_pos (show schema.unplaced.package.isSome = true from second)]
    cases lead <;> rfl
  · rw [if_neg second, if_neg (show ¬ schema.unplaced.package.isSome = true from second)]
    exact unplaced_bind (r.expect_unplaced _ _ _) fun _ => unplaced_bind (r.expectText_unplaced _ _) fun _ => rfl

theorem importPath_unplaced (schema : Schema) (lead : List Token) :
    (r.importPath schema lead).unplaced Schema.unplaced =
      r.unplaced.importPath schema.unplaced (lead.map Token.unplaced) := by
  unfold importPath
  dsimp only
  simp only [← List.map_drop, List.head?_map, Option.any_map, Token.unplaced_text]
  generalize (lead.drop 1).head?.any (·.text == "public") = isPublic
  generalize (lead.drop 1).head?.any (·.text == "weak") = isWeak
  have rest : (if (isPublic || isWeak) = true then ((lead.drop 1).drop 1).map Token.unplaced
      else (lead.drop 1).map Token.unplaced) =
      (if (isPublic || isWeak) = true then (lead.drop 1).drop 1 else lead.drop 1).map Token.unplaced := by
    split <;> rfl
  rw [rest]
  exact unplaced_bind (r.expect_unplaced _ _ _) fun _ => unplaced_bind (r.expectText_unplaced _ _) fun _ => rfl

theorem fileStatement_unplaced (schema : Schema) (first : Token) (lead : List Token) :
    (r.fileStatement schema first lead).unplaced Schema.unplaced =
      r.unplaced.fileStatement schema.unplaced first.unplaced (lead.map Token.unplaced) := by
  unfold fileStatement
  rw [Token.unplaced_text]
  split
  · exact r.version_unplaced schema lead
  · exact r.version_unplaced schema lead
  · exact r.package_unplaced schema lead
  · exact r.importPath_unplaced schema lead
  · exact r.blockFault_unplaced _ _ lead
  · exact r.blockFault_unplaced _ _ lead
  · exact r.blockFault_unplaced _ _ lead
  · rfl

theorem clause_unplaced (schema : Schema) (c : Clause) :
    (r.clause schema c).unplaced Schema.unplaced = r.unplaced.clause schema.unplaced c.unplaced := by
  unfold clause
  rw [Clause.first_unplaced, Token.unplaced_text]
  have otherwise := r.fileStatement_unplaced schema c.first c.lead
  rw [← Clause.lead_unplaced] at otherwise
  split
  iterate 3 rfl
  cases c with
  | plain words mark => simpa only [Clause.unplaced] using otherwise
  | bare words next => simpa only [Clause.unplaced] using otherwise
  | block words opening body closing =>
    simp only [Clause.unplaced, Clause.unplacedAll_eq, blockHead?_map] at otherwise ⊢
    cases blockHead? [.message, .enum, .service] words with
    | none => exact otherwise
    | some head =>
      obtain ⟨kind, name⟩ := head
      cases kind with
      | message =>
        refine unplaced_bind (r.members_unplaced body) fun parts => ?_
        rw [unplaced_pure, ← Message.ofMembers_unplaced]
        simp [Schema.unplaced]
      | enum => exact unplaced_bind (enum_unplaced name body) fun e => by simp [unplaced_pure, Schema.unplaced]
      | service => exact unplaced_bind (service_unplaced name body) fun v => rfl
      | oneof => exact otherwise

theorem clauses_unplaced (schema : Schema) (cs : List Clause) :
    (r.clauses schema cs).unplaced Schema.unplaced =
      r.unplaced.clauses schema.unplaced (cs.map Clause.unplaced) := by
  induction cs generalizing schema with
  | nil => rfl
  | cons c cs ih => exact unplaced_bind (r.clause_unplaced schema c) fun next => ih next

theorem ending_unplaced (schema : Schema) (e : Ending) :
    (r.ending schema e).unplaced Schema.unplaced = r.unplaced.ending schema.unplaced e.unplaced := by
  rcases e with closing | _ | ⟨start, more⟩ | ⟨words, opening, body, rest⟩
  · rfl
  · rfl
  · simp only [Ending.unplaced, Remainder.unplaced, ending, Token.unplaced_text]
    split
    · rfl
    · rfl
    · exact r.fileStatement_unplaced schema start (start :: more)
  · have first : (words.map Token.unplaced).head?.getD opening.unplaced = (words.head?.getD opening).unplaced := by
      cases words <;> rfl
    have otherwise := r.fileStatement_unplaced schema (words.head?.getD opening) (words ++ [opening])
    rw [List.map_append] at otherwise
    simp only [Ending.unplaced, Remainder.unplaced, ending, first, Token.unplaced_text, blockHead?_map]
    split
    · rfl
    · rfl
    · cases blockHead? [.message, .enum, .service] words with
      | none => exact otherwise
      | some head =>
        exact unplaced_bind (r.visit_unplaced head.1 head.2 body) fun _ => r.leftOpen_unplaced _ head.1 head.2 rest

def file (ts : List Token) : Parsed Schema := do
  r.ending (← r.clauses {} (Outline.read ts).clauses) (Outline.read ts).ending

theorem file_unplaced (ts : List Token) :
    (r.file ts).unplaced Schema.unplaced = r.unplaced.file (ts.map Token.unplaced) := by
  unfold file
  rw [Outline.read_unplaced]
  exact unplaced_bind (r.clauses_unplaced {} _) fun schema => r.ending_unplaced schema _

end Reading

def Token.ofWord (word : String) : Token :=
  ⟨word, .start⟩

/-- But for places, what is read depends on the texts of the tokens alone. -/
theorem Schema.read_unplaced {text : String} {ts : Tokens} (scan : Tokens.scan text = .ok ts) (strict : Bool) :
    (Schema.read strict text).unplaced Schema.unplaced =
      (Reading.mk strict .start).file (ts.texts.map Token.ofWord) := by
  have words : ts.texts.map Token.ofWord = ts.list.map Token.unplaced := by
    rw [Tokens.texts, List.map_map]
    rfl
  rw [words, Schema.read, scan]
  exact (Reading.mk strict ts.stop).file_unplaced ts.list

namespace SchemaFile

/-- Two outcomes are the same but for the lines and columns in them: both give the same file or both fail in the same
way, after the same warnings. -/
structure AlikeButPlaces (a b : Outcome SchemaFile) : Prop where
  result : (∃ f g, a.result = .ok f ∧ b.result = .ok g ∧ f.unplaced = g.unplaced) ∨
    ∃ d e, a.result = .error d ∧ b.result = .error e ∧ d.unplaced = e.unplaced
  warnings : a.warnings.map Warning.unplaced = b.warnings.map Warning.unplaced

theorem alikeButPlaces_of_read {strict : Bool} {text text' : String} (name : String)
    (h : (Schema.read strict text).unplaced Schema.unplaced = (Schema.read strict text').unplaced Schema.unplaced) :
    AlikeButPlaces (parse strict name text) (parse strict name text') := by
  unfold parse
  generalize Schema.read strict text = a at h ⊢
  generalize Schema.read strict text' = b at h ⊢
  obtain ⟨ns, result⟩ := a
  obtain ⟨ks, result'⟩ := b
  simp only [Report.unplaced, Report.mk.injEq] at h
  obtain ⟨sameNotices, sameResult⟩ := h
  constructor
  · cases result with
    | error m =>
      cases result' with
      | error k =>
        have same : m.unplaced = k.unplaced := by simpa using sameResult
        exact .inr ⟨.parse name m, .parse name k, rfl, rfl, by simp only [SchemaError.unplaced, same]⟩
      | ok _ => simp at sameResult
    | ok f =>
      cases result' with
      | error _ => simp at sameResult
      | ok g =>
        have same : f.unplaced = g.unplaced := by simpa using sameResult
        exact .inl ⟨⟨f, name⟩, ⟨g, name⟩, rfl, rfl, by simp only [SchemaFile.unplaced, same]⟩
  · have sameWarnings := congrArg (List.map (Warning.notice name)) sameNotices
    simpa [Report.relabel, Warning.unplaced, Function.comp_def] using sameWarnings

/-- Layout does not matter: a text whose gaps are replaced by other blanks has the same tokens, and it is read as the
same file or refused for the same fault, strictly and leniently. -/
theorem parse_respaced {text text' : String} {ts : Tokens} (scan : Tokens.scan text = .ok ts)
    (respaced : Respaced text.toList text'.toList) :
    (∃ ts', Tokens.scan text' = .ok ts' ∧ ts'.texts = ts.texts) ∧
      ∀ strict name, AlikeButPlaces (parse strict name text) (parse strict name text') := by
  obtain ⟨ts₁, ts', left, right, same⟩ := Tokens.scanFrom_respaced respaced .start .start
  obtain rfl : ts₁ = ts := Except.ok.inj (left.symm.trans scan)
  refine ⟨⟨ts', right, same⟩, fun strict name => alikeButPlaces_of_read name ?_⟩
  rw [Schema.read_unplaced scan, Schema.read_unplaced right, same]

/-- A comment that looks like a statement keeps two words apart as a newline does. -/
theorem parse_respaced_comment :
    Respaced "package/*;*/a;".toList "package\na;".toList ∧
      AlikeButPlaces (parse true "a.proto" "package/*;*/a;") (parse true "a.proto" "package\na;") := by
  have scan : Tokens.scan "package/*;*/a;" =
      .ok ⟨[⟨"package", ⟨1, 1⟩⟩, ⟨"a", ⟨1, 13⟩⟩, ⟨";", ⟨1, 14⟩⟩], ⟨1, 15⟩⟩ := by
    decide +kernel
  have semicolon : Respaced [';'] [';'] := .token (n := 0) (by decide +kernel) .done
  have word : Respaced ['a', ';'] ['a', ';'] := .token (n := 0) (by decide +kernel) semicolon
  have gap : Respaced "/*;*/a;".toList ['\n', 'a', ';'] :=
    @Respaced.gap _ ['a', ';'] ['\n'] _ (.last (n := 4) (by decide +kernel)) (by decide +kernel) (by decide)
      (List.forall_mem_singleton.mpr (by decide)) word
  have respaced : Respaced "package/*;*/a;".toList "package\na;".toList :=
    .token (n := 6) (by decide +kernel) gap
  exact ⟨respaced, (parse_respaced scan respaced).2 true "a.proto"⟩

end SchemaFile

end SchemaGen
