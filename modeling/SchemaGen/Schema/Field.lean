import SchemaGen.Schema.Basic
import SchemaGen.Schema.Fault
import SchemaGen.Text.Integer
import SchemaGen.Token.Lexeme
/-!
Statements of one line: fields, enum values and service methods, each read from the tokens of its clause.
A field is a label or none, a type, a name, `=` and a number, and may carry options in brackets.
-/
namespace SchemaGen
open Text

def withoutMark (statement : List Token) : List Token :=
  if statement.getLast?.any (·.text == ";") then statement.dropLast else statement

def bodyOf (statement : List Token) : List Token :=
  (withoutMark statement).takeWhile (·.text != "[")

def optionsOf (statement : List Token) : List Token :=
  (withoutMark statement).dropWhile (·.text != "[")

/-- The options hold `deprecated = true` somewhere. -/
def marksDeprecated : List Token → Bool
  | a :: b :: c :: ts =>
    (a.text == "deprecated" && b.text == "=" && c.text == "true") || marksDeprecated (b :: c :: ts)
  | _ => false

def FieldType.ofWord (word : String) : FieldType :=
  match Scalar.ofKeyword? word with
  | some kind => .scalar kind
  | none => .named word

def splitLabel : List Token → Option Label × List Token
  | t :: ts =>
    match t.text with
    | "repeated" => (some .repeated, ts)
    | "optional" | "required" => (some .singular, ts)
    | _ => (none, t :: ts)
  | [] => (none, [])

def mapType : List Token → Except FieldFault (FieldType × List Token)
  | _ :: opening :: key :: comma :: value :: closing :: rest =>
    if opening.text == "<" && comma.text == "," && closing.text == ">" then
      match (Scalar.ofKeyword? key.text).filter (·.validKey) with
      | none => .error (.mapKey key.text)
      | some kind =>
        if value.text == "map" || !isTypeName value.text then .error (.mapValue value.text)
        else .ok (.map kind (.ofWord value.text), rest)
    else .error .mapShape
  | _ => .error .mapShape

def fieldType : List Token → Except FieldFault (FieldType × List Token)
  | t :: ts =>
    if t.text == "map" && ts.head?.any (·.text == "<") then mapType (t :: ts)
    else if isTypeName t.text then .ok (.ofWord t.text, ts)
    else .error (.typeName t.text)
  | [] => .error .shape

/-- The largest field number that the wire format can carry. -/
def maxFieldNumber : Int := 536870911

def nameAndNumber : List Token → Except FieldFault (Token × Int)
  | [name, equals, number] =>
    if equals.text != "=" then .error .shape
    else if !isIdentifier name.text then .error (.fieldName name.text)
    else
      match integer? number.text with
      | none => .error (.number number.text)
      | some n => if 1 ≤ n && n ≤ maxFieldNumber then .ok (name, n) else .error (.numberRange n)
  | _ => .error .shape

def FieldType.isMap : FieldType → Bool
  | .map _ _ => true
  | _ => false

/-- Reads a field statement. Members of a oneof carry no label. -/
def Field.ofTokens (inOneof : Bool) (statement : List Token) : Except FieldFault Field := do
  let body := bodyOf statement
  if body.length < 3 then throw (.tooShort body.length)
  let (label, unlabelled) := splitLabel body
  if inOneof && label.isSome then throw .labelInOneof
  let (type, rest) ← fieldType unlabelled
  if type.isMap && label == some .repeated then throw .repeatedMap
  if type.isMap && inOneof then throw .mapInOneof
  let (name, number) ← nameAndNumber rest
  return {
    name := name.text, position := name.position, type, number, label := label.getD .singular
    deprecated := marksDeprecated (optionsOf statement) }

def EnumValue.ofTokens? (statement : List Token) : Option EnumValue :=
  match bodyOf statement with
  | [name, equals, number] =>
    if isIdentifier name.text && equals.text == "=" then
      ((integer? number.text).filter fitsInt32).map (⟨name.text, ·⟩)
    else none
  | _ => none

/-- One argument of a method, `( [stream] Type )`: whether it streams, its type, and what follows. -/
def argument? : List String → Option (Bool × String × List String)
  | "(" :: words =>
    let streaming := match words with
      | "stream" :: next :: _ => next != ")"
      | _ => false
    match if streaming then words.drop 1 else words with
    | type :: ")" :: rest => if isTypeName type then some (streaming, type, rest) else none
    | _ => none
  | _ => none

/-- Reads `rpc Name ( Type ) returns ( Type )`; whatever follows is left alone. -/
def Method.ofTokens? (statement : List Token) : Option Method :=
  match statement.map (·.text) with
  | _ :: name :: words =>
    if isIdentifier name then
      match argument? words with
      | some (clientStreaming, inputType, "returns" :: words) =>
        (argument? words).map fun (serverStreaming, outputType, _) =>
          { name, inputType, outputType, clientStreaming, serverStreaming }
      | _ => none
    else none
  | _ => none

end SchemaGen
