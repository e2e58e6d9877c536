import SchemaGen.Schema.Basic
import SchemaGen.Text.Basic
/-!
The built-in types of the package `google.protobuf`. They are never read from files: five of them are known as
types, of which all but the empty one have a record of their own, and nine stand for a scalar that may be absent.
-/
namespace SchemaGen
open Text

inductive WellKnown where
  | timestamp
  | duration
  | any
  | fieldMask
  | empty
deriving DecidableEq, Repr

namespace WellKnown

/-- The types are ordered as they are listed. -/
instance : LT WellKnown :=
  ⟨fun t u => t.ctorIdx < u.ctorIdx⟩

instance : DecidableLT WellKnown :=
  fun t u => inferInstanceAs (Decidable (t.ctorIdx < u.ctorIdx))

def package : String := "google.protobuf"

/-- Files with this path in front are served by the table of built-in types. -/
def importRoot : String := "google/protobuf/"

def simpleName : WellKnown → String
  | timestamp => "Timestamp"
  | duration => "Duration"
  | any => "Any"
  | fieldMask => "FieldMask"
  | empty => "Empty"

def fullName (t : WellKnown) : String :=
  package ++ "." ++ t.simpleName

structure Part where
  name : String
  kind : Scalar
  label : Label
  number : Int
deriving DecidableEq, Repr

def parts : WellKnown → List Part
  | timestamp | duration => [⟨"seconds", .int64, .singular, 1⟩, ⟨"nanos", .int32, .singular, 2⟩]
  | any => [⟨"type_url", .string, .singular, 1⟩, ⟨"value", .bytes, .singular, 2⟩]
  | fieldMask => [⟨"paths", .string, .repeated, 1⟩]
  | empty => []

/-- The type has a record of its own. -/
def isComposite (t : WellKnown) : Bool :=
  t != empty

inductive Entry where
  | type (type : WellKnown)
  | wrapper (kind : Scalar)
deriving DecidableEq, Repr

/-- What follows the package in a name that begins with it and a dot. -/
def simpleName? (fullName : String) : Option String :=
  (after? (package ++ ".").toList fullName.toList).map .ofList

def inPackage (fullName : String) : Bool :=
  (simpleName? fullName).isSome

def table : List (String × Entry) :=
  [("Timestamp", .type timestamp), ("Duration", .type duration), ("Any", .type any),
    ("FieldMask", .type fieldMask), ("Empty", .type empty), ("DoubleValue", .wrapper .double),
    ("FloatValue", .wrapper .float), ("Int64Value", .wrapper .int64), ("UInt64Value", .wrapper .uint64),
    ("Int32Value", .wrapper .int32), ("UInt32Value", .wrapper .uint32), ("BoolValue", .wrapper .bool),
    ("StringValue", .wrapper .string), ("BytesValue", .wrapper .bytes)]

def lookup? (fullName : String) : Option Entry :=
  (simpleName? fullName).bind fun name => List.lookup name table

def isImport (path : String) : Bool :=
  (after? importRoot.toList path.toList).isSome

end WellKnown

end SchemaGen
