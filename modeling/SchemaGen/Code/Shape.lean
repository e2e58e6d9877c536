import SchemaGen.Code.Declaration
import SchemaGen.Config
import SchemaGen.Registry.Reach
/-!
How types are spelled in generated code, seen from the place of a declaration. A type of the same module is
written by its bare name, any other with its module path. A message that contains its holder again is boxed.
-/
namespace SchemaGen.Code
open Text

def scalarType : Scalar → String
  | .double => "f64"
  | .float => "f32"
  | .int32 | .sint32 | .sfixed32 => "i32"
  | .int64 | .sint64 | .sfixed64 => "i64"
  | .uint32 | .fixed32 => "u32"
  | .uint64 | .fixed64 => "u64"
  | .bool => "bool"
  | .string => "::prost::alloc::string::String"
  | .bytes => "::prost::alloc::vec::Vec<u8>"

def scalarKind : Scalar → String
  | .bytes => "bytes = \"vec\""
  | kind => kind.keyword

def vectorOf (type : String) : String :=
  "::prost::alloc::vec::Vec<" ++ type ++ ">"

def optionOf (type : String) : String :=
  "::core::option::Option<" ++ type ++ ">"

def boxOf (type : String) : String :=
  "::prost::alloc::boxed::Box<" ++ type ++ ">"

def mapOf (key value : String) : String :=
  "::std::collections::HashMap<" ++ key ++ ", " ++ value ++ ">"

/-- A type as it is written: the type itself, its name in attributes and in map attributes, whether it has a
packed form, and the message it is, if it is one. -/
structure Shape where
  type : String
  kind : String
  mapKind : String
  packable : Bool
  target : Option Symbol

/-- Where a declaration is generated: in which session and file, inside which messages. -/
structure Site where
  registry : Registry
  config : Config
  file : SchemaFile
  scope : List String

namespace Site

def top (registry : Registry) (config : Config) (file : SchemaFile) : Site :=
  ⟨registry, config, file, []⟩

def inside (s : Site) (message : String) : Site :=
  { s with scope := s.scope ++ [message] }

def place (s : Site) : Place :=
  ⟨s.file.name, s.file.package, s.scope⟩

def modulePath (s : Site) : String :=
  s.config.packagePath s.file.package

def directory (s : Site) : List String :=
  s.config.directory s.file.package

def fullName (s : Site) : String :=
  qualified s.file.package (joinWith "." s.scope)

def unresolved (s : Site) (field : Field) (type : String) : SchemaError :=
  .unresolvedType s.file.name s.fullName field.name type

/-- The meaning of a type that is no map. -/
def meaning (s : Site) (field : Field) : FieldType → Except SchemaError Resolved
  | .scalar kind => .ok (.scalar kind)
  | .named name =>
    match s.registry.resolve? s.place name with
    | some resolved => .ok resolved
    | none => .error (s.unresolved field name)
  | .map _ _ => .error (s.unresolved field "nested map")

/-- A type of the module `path`, written here. -/
def reference (s : Site) (path name : String) : String :=
  if path == s.modulePath then name else path ++ "::" ++ name

def symbolReference (s : Site) (symbol : Symbol) : String :=
  s.reference (s.config.packagePath symbol.package) (Naming.typeName symbol.parents symbol.name)

/-- The shape of a type that is written as a message on the wire. -/
def messageShape (type : String) (target : Option Symbol) : Shape :=
  ⟨type, "message", "message", false, target⟩

def shape (s : Site) : Resolved → Shape
  | .scalar kind => ⟨scalarType kind, scalarKind kind, kind.keyword, kind.packable, none⟩
  | .wrapper kind => messageShape (scalarType kind) none
  | .wellKnown t =>
    let type :=
      if t.isComposite then s.reference (s.config.packagePath (some WellKnown.package)) t.simpleName
      else "()"
    messageShape type none
  | .message symbol => messageShape (s.symbolReference symbol) (some symbol)
  | .enum symbol =>
    let path := s.symbolReference symbol
    ⟨"i32", "enumeration = \"" ++ path ++ "\"", "enumeration(" ++ path ++ ")", true, none⟩

/-- The message held contains the innermost message of the site again. -/
def needsBox (s : Site) (target : Option Symbol) : Bool :=
  match target, s.registry.messageSymbol? s.file.package s.scope with
  | some target, some owner => target == owner || s.registry.reaches target owner
  | _, _ => false

end Site

end SchemaGen.Code
