import SchemaGen.Json.Basic
import SchemaGen.Schema.Basic
/-!
Schema files as JSON values.
-/
namespace SchemaGen

def optionalText (text : Option String) : Json :=
  text.elim .null .string

def Scalar.title : Scalar → String
  | double => "Double"
  | float => "Float"
  | int32 => "Int32"
  | int64 => "Int64"
  | uint32 => "Uint32"
  | uint64 => "Uint64"
  | sint32 => "Sint32"
  | sint64 => "Sint64"
  | fixed32 => "Fixed32"
  | fixed64 => "Fixed64"
  | sfixed32 => "Sfixed32"
  | sfixed64 => "Sfixed64"
  | bool => "Bool"
  | string => "String"
  | bytes => "Bytes"

def Label.title : Label → String
  | singular => "Singular"
  | repeated => "Repeated"

def FieldType.toJson : FieldType → Json
  | scalar kind => .object [("Scalar", .string kind.title)]
  | named name => .object [("Named", .string name)]
  | map key value => .object [("Map", .array [.string key.title, value.toJson])]

def Field.toJson (f : Field) : Json :=
  .object [("name", .string f.name), ("line", .number f.position.line), ("column", .number f.position.column),
    ("type_", f.type.toJson), ("number", .number f.number), ("label", .string f.label.title),
    ("is_deprecated", .bool f.deprecated)]

def Oneof.toJson (o : Oneof) : Json :=
  .object [("name", .string o.name), ("fields", .array (o.fields.map (·.toJson)))]

def EnumDef.toJson (e : EnumDef) : Json :=
  .object [("name", .string e.name), ("line", .number e.position.line), ("column", .number e.position.column),
    ("values", .array (e.values.map fun v => .object [("name", .string v.name), ("number", .number v.number)]))]

mutual

def Message.toJson : Message → Json
  | ⟨name, position, fields, oneofs, messages, enums⟩ =>
    .object [("name", .string name), ("line", .number position.line), ("column", .number position.column),
      ("fields", .array (fields.map (·.toJson))), ("oneofs", .array (oneofs.map (·.toJson))),
      ("messages", .array (messagesToJson messages)), ("enums", .array (enums.map (·.toJson)))]

def messagesToJson : List Message → List Json
  | [] => []
  | m :: ms => m.toJson :: messagesToJson ms

end

def Method.toJson (m : Method) : Json :=
  .object [("name", .string m.name), ("input_type", .string m.inputType), ("output_type", .string m.outputType),
    ("client_streaming", .bool m.clientStreaming), ("server_streaming", .bool m.serverStreaming)]

def Service.toJson (s : Service) : Json :=
  .object [("name", .string s.name), ("methods", .array (s.methods.map (·.toJson)))]

def Import.toJson (i : Import) : Json :=
  .object [("path", .string i.path), ("public", .bool i.isPublic)]

def SchemaFile.toJson (f : SchemaFile) : Json :=
  .object [("name", .string f.name), ("package", optionalText f.package), ("syntax", optionalText f.version),
    ("imports", .array (f.imports.map (·.toJson))), ("messages", .array (messagesToJson f.messages)),
    ("enums", .array (f.enums.map (·.toJson))), ("services", .array (f.services.map (·.toJson)))]

end SchemaGen
