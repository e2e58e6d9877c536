import SchemaGen.Error
import SchemaGen.Schema.Clause
import SchemaGen.Schema.Field
import SchemaGen.Token.Scan
/-!
Reading a schema file from its outline, clause by clause. A statement that should be a field and is not one is
skipped with a warning, or refused when the reading is strict. Faults come in the order of the text: a block
that is never closed is reported after the statements inside it.
-/
namespace SchemaGen
open Text

/-- How a text is read: with or without skipping, and where it ends. -/
structure Reading where
  strict : Bool
  stop : Position

abbrev Parsed := Report Notice Misread

inductive Member where
  | field (field : Field)
  | oneof (oneof : Oneof)
  | message (message : Message)
  | enum (enum : EnumDef)

def Message.ofMembers (name : Token) (members : List Member) : Message where
  name := name.text
  position := name.position
  fields := members.filterMap fun | .field f => some f | _ => none
  oneofs := members.filterMap fun | .oneof o => some o | _ => none
  messages := members.filterMap fun | .message m => some m | _ => none
  enums := members.filterMap fun | .enum e => some e | _ => none

/-- The kind and name of a block with the given words, if it is one of `kinds`. -/
def blockHead? (kinds : List BlockKind) : List Token → Option (BlockKind × Token)
  | [keyword, name] =>
    if isIdentifier name.text then (kinds.find? (·.keyword == keyword.text)).map (·, name) else none
  | _ => none

namespace Reading
variable {α : Type}

def faultAt (position : Position) (f : Fault) : Parsed α :=
  .fail ⟨f, position⟩

def openStatement (start : Token) : Parsed α :=
  faultAt start.position (.openStatement start.text)

def unexpected (t : Token) : Parsed α :=
  faultAt t.position (.unexpected t.text)

def expect (r : Reading) (what : Expected) (test : String → Bool) : List Token → Parsed (Token × List Token)
  | [] => faultAt r.stop (.expected what none)
  | t :: ts => if test t.text then pure (t, ts) else faultAt t.position (.expected what (some t.text))

def expectText (r : Reading) (text : String) (ts : List Token) : Parsed (List Token) := do
  let (_, rest) ← r.expect (.text text) (· == text) ts
  return rest

/-- The field of a statement, or none if it is skipped. -/
def field (r : Reading) (inOneof : Bool) (c : Clause) : Parsed (List Field) :=
  match Field.ofTokens inOneof c.tokens with
  | .ok f => pure [f]
  | .error e =>
    let statement := joinWith " " (c.tokens.map (·.text))
    if r.strict then faultAt c.first.position (.malformedField statement e)
    else do
      .warn (.malformedField c.first.position.line statement e)
      return []

def oneofFields (r : Reading) : List Clause → Parsed (List Field) :=
  .gather fun c =>
    match c.first.text with
    | ";" | "option" => pure []
    | _ => r.field true c

/-- The values of the clauses of an enum. A clause that is no value is passed over. -/
def enumValues : List Clause → List EnumValue :=
  List.flatMap fun c =>
    match c.first.text with
    | ";" | "option" | "reserved" => []
    | _ => (EnumValue.ofTokens? c.tokens).toList

def methods (service : Token) : List Clause → Parsed (List Method) :=
  .gather fun c =>
    match c.first.text with
    | "rpc" =>
      match Method.ofTokens? c.tokens with
      | some m => pure [m]
      | none => do
        .warn (.malformedMethod c.first.position.line service.text)
        return []
    | _ => pure []

def oneof (r : Reading) (name : Token) (body : List Clause) : Parsed Oneof := do
  let fields ← r.oneofFields body
  if fields.isEmpty then faultAt name.position (.emptyOneof name.text) else return ⟨name.text, fields⟩

def enum (name : Token) (body : List Clause) : Parsed EnumDef :=
  let values := enumValues body
  if values.isEmpty then faultAt name.position (.emptyEnum name.text)
  else pure ⟨name.text, name.position, values⟩

def service (name : Token) (body : List Clause) : Parsed Service := do
  return ⟨name.text, ← methods name body⟩

/-- A clause of a message that is no block of its own. -/
def statement (r : Reading) (c : Clause) : Parsed (List Member) :=
  match c.first.text with
  | ";" | "option" | "reserved" | "extensions" | "extend" => pure []
  | _ => do return (← r.field false c).map .field

mutual

def member (r : Reading) : Clause → Parsed (List Member)
  | .block words opening body closing =>
    match blockHead? [.message, .enum, .oneof] words with
    | some (.message, name) => do return [.message (.ofMembers name (← r.members body))]
    | some (.enum, name) => do return [.enum (← enum name body)]
    | some (.oneof, name) => do return [.oneof (← r.oneof name body)]
    | _ => r.statement (.block words opening body closing)
  | c => r.statement c

def members (r : Reading) : List Clause → Parsed (List Member)
  | [] => pure []
  | c :: cs => do
    let head ← r.member c
    let tail ← r.members cs
    return head ++ tail

end

/-- Reads the clauses of a block for their warnings and faults only. -/
def visit (r : Reading) (kind : BlockKind) (name : Token) (body : List Clause) : Parsed Unit :=
  match kind with
  | .message => do let _ ← r.members body
  | .oneof => do let _ ← r.oneofFields body
  | .enum => pure ()
  | .service => do let _ ← methods name body

def leftOpen (r : Reading) (kind : BlockKind) (name : Token) : Remainder → Parsed α
  | .nothing => faultAt name.position (.openBlock kind name.text)
  | .statement start _ => openStatement start
  | .block words opening body rest =>
    match kind, blockHead? [.message, .enum, .oneof] words with
    | .message, some (inner, innerName) => do
      r.visit inner innerName body
      r.leftOpen inner innerName rest
    | _, _ => openStatement (words.head?.getD opening)

def blockFault (r : Reading) (kind : BlockKind) (lead : List Token) : Parsed α :=
  match lead.drop 1 with
  | [] => faultAt r.stop (.expected (.blockName kind) none)
  | t :: ts =>
    if isIdentifier t.text then
      match ts with
      | [] => faultAt r.stop (.expected (.text "\x7b") none)
      | u :: _ => faultAt u.position (.expected (.text "\x7b") (some u.text))
    else faultAt t.position (.expected (.blockName kind) (some t.text))

def version (r : Reading) (schema : Schema) (lead : List Token) : Parsed Schema := do
  let ts ← r.expectText "=" (lead.drop 1)
  let (literal, ts) ← r.expect .version isStringLiteral ts
  let _ ← r.expectText ";" ts
  return { schema with version := some (unquote literal.text) }

/-- Reads `package a.b ;`. A second package is refused before its name is looked at. -/
def package (r : Reading) (schema : Schema) (lead : List Token) : Parsed Schema := do
  if schema.package.isSome then
    faultAt (lead.head?.elim r.stop (·.position)) .secondPackage
  let (name, ts) ← r.expect .package isTypeName (lead.drop 1)
  let _ ← r.expectText ";" ts
  return { schema with package := some (.ofList (name.text.toList.dropWhile (· == '.'))) }

def importPath (r : Reading) (schema : Schema) (lead : List Token) : Parsed Schema := do
  let words := lead.drop 1
  let isPublic := words.head?.any (·.text == "public")
  let isWeak := words.head?.any (·.text == "weak")
  let (literal, ts) ← r.expect .importPath isStringLiteral (if isPublic || isWeak then words.drop 1 else words)
  let _ ← r.expectText ";" ts
  return { schema with imports := schema.imports ++ [⟨unquote literal.text, isPublic⟩] }

def fileStatement (r : Reading) (schema : Schema) (first : Token) (lead : List Token) :
    Parsed Schema :=
  match first.text with
  | "syntax" | "edition" => r.version schema lead
  | "package" => r.package schema lead
  | "import" => r.importPath schema lead
  | "message" => r.blockFault .message lead
  | "enum" => r.blockFault .enum lead
  | "service" => r.blockFault .service lead
  | _ => unexpected first

def clause (r : Reading) (schema : Schema) (c : Clause) : Parsed Schema :=
  match c.first.text with
  | ";" | "option" | "extend" => pure schema
  | _ =>
    match c with
    | .block words _ body _ =>
      match blockHead? [.message, .enum, .service] words with
      | some (.message, name) => do
        return { schema with messages := schema.messages ++ [.ofMembers name (← r.members body)] }
      | some (.enum, name) => do return { schema with enums := schema.enums ++ [← enum name body] }
      | some (.service, name) => do
        return { schema with services := schema.services ++ [← service name body] }
      | _ => r.fileStatement schema c.first c.lead
    | _ => r.fileStatement schema c.first c.lead

def clauses (r : Reading) (schema : Schema) : List Clause → Parsed Schema
  | [] => pure schema
  | c :: cs => do r.clauses (← r.clause schema c) cs

/-- Ends a file, which is refused if a brace or a clause is left over. -/
def ending (r : Reading) (schema : Schema) : Ending → Parsed Schema
  | .stray closing => unexpected closing
  | .ended .nothing => pure schema
  | .ended (.statement start more) =>
    match start.text with
    | "option" | "extend" => openStatement start
    | _ => r.fileStatement schema start (start :: more)
  | .ended (.block words opening body rest) =>
    let first := words.head?.getD opening
    match first.text with
    | "option" | "extend" => openStatement first
    | _ =>
      match blockHead? [.message, .enum, .service] words with
      | some (kind, name) => do
        r.visit kind name body
        r.leftOpen kind name rest
      | none => r.fileStatement schema first (words ++ [opening])

end Reading

def Schema.read (strict : Bool) (text : String) : Parsed Schema :=
  match Tokens.scan text with
  | .error u => .fail ⟨.uncovered (.ofList u.text), u.position⟩
  | .ok ts => do
    let r : Reading := ⟨strict, ts.stop⟩
    let outline := Outline.read ts.list
    r.ending (← r.clauses {} outline.clauses) outline.ending

/-- Reads a text under a name, to which all warnings and faults refer. -/
def SchemaFile.parse (strict : Bool) (name text : String) : Outcome SchemaFile :=
  let read := (Schema.read strict text).relabel (Warning.notice name) (SchemaError.parse name)
  ⟨read.warnings, read.result.map fun schema => { schema with name }⟩

theorem SchemaFile.parse_eq_ok {strict : Bool} {name text : String} {f : SchemaFile}
    (h : (parse strict name text).result = .ok f) :
    (Schema.read strict text).result = .ok f.toSchema ∧ f.name = name := by
  simp only [parse, Report.relabel] at h
  cases hr : (Schema.read strict text).result with
  | error e => simp [hr, Except.map] at h
  | ok schema =>
    simp only [hr, Except.map, Except.ok.injEq] at h
    subst h
    exact ⟨rfl, rfl⟩

end SchemaGen
