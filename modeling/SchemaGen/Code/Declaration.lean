import SchemaGen.Text.Basic
/-!
Generated declarations and their text. A declaration is a record, a marker for a message without members, a union
or an enumeration; each member carries the attribute that fixes its form on the wire.
-/
namespace SchemaGen.Code
open Text

def unlines (lines : List String) : String :=
  joinWith "" (lines.map (· ++ "\n"))

/-- How a member is encoded. The numbers are the field numbers of the schema. -/
inductive Encoding where
  | map (key value : String) (tag : Int)
  | repeated (kind : String) (packed : Bool) (tag : Int)
  | optional (kind : String) (boxed : Bool) (tag : Int)
  | single (kind : String) (boxed : Bool) (tag : Int)
  | oneof (union : String) (tags : List Int)
deriving DecidableEq, Repr

namespace Encoding

def tags : Encoding → List Int
  | map _ _ tag | repeated _ _ tag | optional _ _ tag | single _ _ tag => [tag]
  | oneof _ tags => tags

def boxMark (boxed : Bool) : String :=
  if boxed then ", boxed" else ""

def tagText (tag : Int) : String :=
  ", tag = \"" ++ toString tag ++ "\")]"

def render : Encoding → String
  | map key value tag => "#[prost(map = \"" ++ key ++ ", " ++ value ++ "\"" ++ tagText tag
  | repeated kind packed tag =>
    "#[prost(" ++ kind ++ ", repeated" ++ (if packed then ", packed = \"true\"" else "") ++ tagText tag
  | optional kind boxed tag => "#[prost(" ++ kind ++ ", optional" ++ boxMark boxed ++ tagText tag
  | single kind boxed tag => "#[prost(" ++ kind ++ boxMark boxed ++ tagText tag
  | oneof union tags =>
    "#[prost(oneof = \"" ++ union ++ "\", tags = \"" ++ joinWith ", " (tags.map toString) ++ "\")]"

end Encoding

structure Member where
  deprecated : Bool
  encoding : Encoding
  name : String
  type : String
deriving DecidableEq, Repr

namespace Member

def attributes (m : Member) : String :=
  (if m.deprecated then "    #[deprecated]\n" else "") ++ "    " ++ m.encoding.render ++ "\n"

def renderField (m : Member) : String :=
  m.attributes ++ "    pub " ++ m.name ++ ": " ++ m.type ++ ","

def renderVariant (m : Member) : String :=
  m.attributes ++ "    " ++ m.name ++ "(" ++ m.type ++ "),"

end Member

/-- A variant of an enumeration: its name, its number, and the name of its first value in the schema. -/
structure NumberedVariant where
  name : String
  number : Int
  schemaName : String
deriving DecidableEq, Repr

/-- The schema name of a value and the variant that it is read as. -/
structure Arm where
  schemaName : String
  variant : String
deriving DecidableEq, Repr

inductive Declaration where
  | marker (name : String)
  | record (name : String) (members : List Member)
  | union (name : String) (variants : List Member)
  | enumeration (name : String) (variants : List NumberedVariant) (arms : List Arm)
deriving DecidableEq, Repr

namespace Declaration

def name : Declaration → String
  | marker name | record name _ | union name _ | enumeration name _ _ => name

def recordDerives : String := "#[derive(Clone, PartialEq, ::prost::Message)]"

def markerText (name : String) : String :=
  unlines [
    "#[derive(Clone, Copy, Debug, Default, PartialEq, Eq, Hash)]",
    "pub struct " ++ name ++ ";",
    "",
    "impl ::prost::Message for " ++ name ++ " \x7b",
    "    fn encode_raw(&self, _buf: &mut impl ::prost::bytes::BufMut) \x7b\x7d",
    "",
    "    fn merge_field(",
    "        &mut self,",
    "        tag: u32,",
    "        wire_type: ::prost::encoding::WireType,",
    "        buf: &mut impl ::prost::bytes::Buf,",
    "        ctx: ::prost::encoding::DecodeContext,",
    "    ) -> ::core::result::Result<(), ::prost::DecodeError> \x7b",
    "        ::prost::encoding::skip_field(wire_type, tag, buf, ctx)",
    "    \x7d",
    "",
    "    fn encoded_len(&self) -> usize \x7b",
    "        0",
    "    \x7d",
    "",
    "    fn clear(&mut self) \x7b\x7d",
    "\x7d"]

def enumerationText (name : String) (variants : List NumberedVariant) (arms : List Arm) : String :=
  unlines [
    "#[derive(Clone, Copy, Debug, PartialEq, Eq, Hash, PartialOrd, Ord, ::prost::Enumeration)]",
    "#[repr(i32)]",
    "pub enum " ++ name ++ " \x7b",
    joinWith "\n" (variants.map fun v => "    " ++ v.name ++ " = " ++ toString v.number ++ ","),
    "\x7d",
    "",
    "impl " ++ name ++ " \x7b",
    "    /// The value's name as written in the schema.",
    "    pub fn as_str_name(&self) -> &'static str \x7b",
    "        match self \x7b",
    joinWith "\n" (variants.map fun v => "            Self::" ++ v.name ++ " => \"" ++ v.schemaName ++ "\","),
    "        \x7d",
    "    \x7d",
    "",
    "    /// Looks a value up by its schema name.",
    "    pub fn from_str_name(value: &str) -> ::core::option::Option<Self> \x7b",
    "        match value \x7b",
    joinWith "\n" (arms.map fun a =>
      "            \"" ++ a.schemaName ++ "\" => ::core::option::Option::Some(Self::" ++ a.variant ++ "),"),
    "            _ => ::core::option::Option::None,",
    "        \x7d",
    "    \x7d",
    "\x7d"]

def render : Declaration → String
  | marker name => markerText name
  | record name members =>
    unlines [recordDerives, "pub struct " ++ name ++ " \x7b", joinWith "\n" (members.map (·.renderField)), "\x7d"]
  | union name variants =>
    unlines ["#[derive(Clone, PartialEq, ::prost::Oneof)]", "pub enum " ++ name ++ " \x7b",
      joinWith "\n" (variants.map (·.renderVariant)), "\x7d"]
  | enumeration name variants arms => enumerationText name variants arms

end Declaration

end SchemaGen.Code
