import SchemaGen.Code.BuiltIn
import SchemaGen.Code.Enumeration
import SchemaGen.Code.Record
/-!
What a file declares, one by one and each at its site: a message before its oneofs, its enums and the messages in
it, and the enums of the file last.
-/
namespace SchemaGen.Output
open Code

inductive Item where
  | message (message : Message)
  | oneof (oneof : Oneof)
  | enum (enum : EnumDef)

def Item.name : Item → String
  | message m => m.name
  | oneof o => o.name
  | enum e => e.name

structure Declared where
  site : Site
  item : Item

namespace Declared

def typeName (d : Declared) : String :=
  match d.item with
  | .oneof o => Naming.unionName d.site.scope o.name
  | item => Naming.typeName d.site.scope item.name

def origin (d : Declared) : String :=
  (d.site.inside d.item.name).fullName

def declaration (d : Declared) : Outcome Declaration :=
  match d.item with
  | .message m => .ofExcept (d.site.record m)
  | .oneof o => .ofExcept (d.site.union o)
  | .enum e => ⟨d.site.aliasWarnings e, .ok (d.site.enumeration e)⟩

end Declared

mutual

def ofMessage (s : Site) : Message → List Declared
  | ⟨name, position, fields, oneofs, messages, enums⟩ =>
    let inner := s.inside name
    ⟨s, .message ⟨name, position, fields, oneofs, messages, enums⟩⟩ ::
      (oneofs.map (⟨inner, .oneof ·⟩) ++ enums.map (⟨inner, .enum ·⟩) ++ ofMessages inner messages)

def ofMessages (s : Site) : List Message → List Declared
  | [] => []
  | m :: ms => ofMessage s m ++ ofMessages s ms

end

def ofFile (registry : Registry) (config : Config) (file : SchemaFile) : List Declared :=
  let s := Site.top registry config file
  ofMessages s file.messages ++ file.enums.map (⟨s, .enum ·⟩)

end SchemaGen.Output
