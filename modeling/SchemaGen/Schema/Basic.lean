import SchemaGen.Token.Basic
/-!
Schema files: messages with numbered fields, oneofs, nested messages and enums, and services. A named type is
kept as it was written; what it refers to is settled by a registry.
-/
namespace SchemaGen

inductive Scalar where
  | double | float
  | int32 | int64 | uint32 | uint64 | sint32 | sint64
  | fixed32 | fixed64 | sfixed32 | sfixed64
  | bool | string | bytes
deriving DecidableEq, Repr, Inhabited

namespace Scalar

def all : List Scalar :=
  [double, float, int32, int64, uint32, uint64, sint32, sint64, fixed32, fixed64, sfixed32, sfixed64, bool,
    string, bytes]

def keyword : Scalar → String
  | double => "double"
  | float => "float"
  | int32 => "int32"
  | int64 => "int64"
  | uint32 => "uint32"
  | uint64 => "uint64"
  | sint32 => "sint32"
  | sint64 => "sint64"
  | fixed32 => "fixed32"
  | fixed64 => "fixed64"
  | sfixed32 => "sfixed32"
  | sfixed64 => "sfixed64"
  | bool => "bool"
  | string => "string"
  | bytes => "bytes"

def ofKeyword? (word : String) : Option Scalar :=
  all.find? (·.keyword == word)

/-- Numbers and truth values have a packed form when repeated. -/
def packable : Scalar → Bool
  | string | bytes => false
  | _ => true

def validKey : Scalar → Bool
  | double | float | bytes => false
  | _ => true

end Scalar

inductive Label where
  | singular
  | repeated
deriving DecidableEq, Repr

inductive FieldType where
  | scalar (kind : Scalar)
  | named (name : String)
  | map (key : Scalar) (value : FieldType)
deriving DecidableEq, Repr, Inhabited

structure Field where
  name : String
  position : Position
  type : FieldType
  number : Int
  label : Label
  deprecated : Bool
deriving DecidableEq, Repr

structure Oneof where
  name : String
  fields : List Field
deriving DecidableEq, Repr

structure EnumValue where
  name : String
  number : Int
deriving DecidableEq, Repr

structure EnumDef where
  name : String
  position : Position
  values : List EnumValue
deriving DecidableEq, Repr

structure Message where
  name : String
  position : Position
  fields : List Field
  oneofs : List Oneof
  messages : List Message
  enums : List EnumDef
deriving Repr, Inhabited

namespace Message

def isEmpty (m : Message) : Bool :=
  m.fields.isEmpty && m.oneofs.isEmpty

def allFields (m : Message) : List Field :=
  m.fields ++ m.oneofs.flatMap (·.fields)

end Message

structure Method where
  name : String
  inputType : String
  outputType : String
  clientStreaming : Bool
  serverStreaming : Bool
deriving DecidableEq, Repr

structure Service where
  name : String
  methods : List Method
deriving DecidableEq, Repr

structure Import where
  path : String
  isPublic : Bool
deriving DecidableEq, Repr

structure Schema where
  package : Option String := none
  version : Option String := none
  imports : List Import := []
  messages : List Message := []
  enums : List EnumDef := []
  services : List Service := []
deriving Repr

/-- A schema under the name that imports use for it. -/
structure SchemaFile extends Schema where
  name : String
deriving Repr

end SchemaGen
