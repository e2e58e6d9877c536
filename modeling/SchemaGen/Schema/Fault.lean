import SchemaGen.Text.Quoted
import SchemaGen.Token.Basic
/-!
What can be wrong with schema text, and how it is said.
-/
namespace SchemaGen
open Text

inductive FieldFault where
  | tooShort (count : Nat)
  | labelInOneof
  | mapShape
  | mapKey (text : String)
  | mapValue (text : String)
  | typeName (text : String)
  | repeatedMap
  | mapInOneof
  | shape
  | fieldName (text : String)
  | number (text : String)
  | numberRange (number : Int)
deriving DecidableEq, Repr

def FieldFault.message : FieldFault → String
  | tooShort count => "expected `type name = number` but found " ++ toString count ++ " tokens"
  | labelInOneof => "oneof members cannot carry a label"
  | mapShape => "expected map<key, value>"
  | mapKey text => quote text ++ " is not a valid map key type"
  | mapValue text => quote text ++ " is not a valid map value type"
  | typeName text => quote text ++ " is not a type name"
  | repeatedMap => "map fields cannot be repeated"
  | mapInOneof => "map fields cannot be oneof members"
  | shape => "expected `name = number` after the type"
  | fieldName text => quote text ++ " is not a field name"
  | number text => "field number " ++ quote text ++ " is not an integer"
  | numberRange n => "field number " ++ toString n ++ " is out of range"

inductive BlockKind where
  | message
  | oneof
  | enum
  | service
deriving DecidableEq, Repr

def BlockKind.keyword : BlockKind → String
  | message => "message"
  | oneof => "oneof"
  | enum => "enum"
  | service => "service"

inductive Expected where
  | text (word : String)
  | version
  | package
  | importPath
  | blockName (kind : BlockKind)
deriving DecidableEq, Repr

def Expected.message : Expected → String
  | text word => quote word
  | version => "version string"
  | package => "package name"
  | importPath => "import path"
  | blockName kind => kind.keyword ++ " name"

inductive Fault where
  | uncovered (text : String)
  | expected (what : Expected) (found : Option String)
  | unexpected (token : String)
  | openStatement (start : String)
  | openBlock (kind : BlockKind) (name : String)
  | emptyOneof (name : String)
  | emptyEnum (name : String)
  | secondPackage
  | malformedField (statement : String) (fault : FieldFault)
deriving DecidableEq, Repr

def Fault.message : Fault → String
  | uncovered text => "Syntax error: " ++ quote text
  | expected what (some found) => "Expected " ++ what.message ++ " but found " ++ quote found
  | expected what none => "Expected " ++ what.message ++ " but found end of file"
  | unexpected token => "Unexpected token " ++ quote token
  | openStatement start => "Unterminated statement starting with " ++ quote start
  | openBlock kind name => "Unterminated " ++ kind.keyword ++ " " ++ quote name
  | emptyOneof name => "Oneof " ++ quote name ++ " has no fields"
  | emptyEnum name => "Enum " ++ quote name ++ " must contain at least one value"
  | secondPackage => "Multiple package definitions"
  | malformedField statement fault => "Malformed field " ++ quote statement ++ ": " ++ fault.message

structure Misread where
  fault : Fault
  position : Position
deriving DecidableEq, Repr

inductive Notice where
  | malformedField (line : Nat) (statement : String) (fault : FieldFault)
  | malformedMethod (line : Nat) (service : String)
deriving DecidableEq, Repr

end SchemaGen
