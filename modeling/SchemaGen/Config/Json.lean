import SchemaGen.Config
import SchemaGen.Json.Read
/-!
Settings from JSON text. An object names them, each at most once, and other names are passed over; a list gives
them in a fixed order. What is not given keeps its default.
-/
namespace SchemaGen.Config
open Json

inductive Setting where
  | layout
  | basePath
  | includeImports
  | strictFields
deriving DecidableEq, Repr

def Setting.order : List Setting :=
  [layout, basePath, includeImports, strictFields]

def Setting.key : Setting → String
  | layout => "namespace_mode"
  | basePath => "base_namespace"
  | includeImports => "include_imports"
  | strictFields => "strict_fields"

def Setting.ofKey? (key : String) : Option Setting :=
  order.find? (·.key == key)

def layoutOfWord? : String → Option Layout
  | "flat" => some .flat
  | "nested" => some .nested
  | _ => none

/-- A layout is a word, or an object with that word as its only key and null as its value. -/
def layout? (cs : List Char) : Option (Layout × List Char) :=
  match skipBlanks cs with
  | '\x7b' :: rest => do
    let (word, rest) ← string? rest
    let layout ← layoutOfWord? word
    let rest ← expect? ':' rest >>= word? "null" >>= expect? '\x7d'
    return (layout, rest)
  | rest => do
    let (word, rest) ← string? rest
    return (← layoutOfWord? word, rest)

/-- Reads the value of one setting into a configuration. -/
def setting? (config : Config) (setting : Setting) (cs : List Char) : Option (Config × List Char) :=
  match setting with
  | .layout => (layout? cs).map fun (value, rest) => ({ config with layout := value }, rest)
  | .basePath => (string? cs).map fun (value, rest) => ({ config with basePath := value }, rest)
  | .includeImports => (bool? cs).map fun (value, rest) => ({ config with includeImports := value }, rest)
  | .strictFields => (bool? cs).map fun (value, rest) => ({ config with strictFields := value }, rest)

/-- Reads the fields of an object to its closing brace, with the settings that have not been given yet. The
number of fields is at most `count`. -/
def fields? (count : Nat) (config : Config) (left : List Setting) (cs : List Char) :
    Option (Config × List Char) :=
  match count with
  | 0 => none
  | count + 1 => do
    let (key, rest) ← string? cs
    let rest ← expect? ':' rest
    let (config, left, rest) ←
      match Setting.ofKey? key with
      | some setting =>
        if left.contains setting then
          (setting? config setting rest).map fun (config, rest) => (config, left.erase setting, rest)
        else none
      | none => (skip? rest).map (config, left, ·)
    match skipBlanks rest with
    | ',' :: rest => fields? count config left rest
    | '\x7d' :: rest => some (config, rest)
    | _ => none

/-- Reads the elements of a list to its closing bracket, one for each of the given settings at most. -/
def elements? (config : Config) : List Setting → List Char → Option (Config × List Char)
  | [], _ => none
  | setting :: settings, cs => do
    let (config, rest) ← setting? config setting cs
    match skipBlanks rest with
    | ',' :: rest => elements? config settings rest
    | ']' :: rest => some (config, rest)
    | _ => none

def object? (cs : List Char) : Option (Config × List Char) :=
  match skipBlanks cs with
  | '\x7b' :: rest => (expect? '\x7d' rest).map (({} : Config), ·) <|> fields? cs.length {} Setting.order rest
  | '[' :: rest => (expect? ']' rest).map (({} : Config), ·) <|> elements? {} Setting.order rest
  | _ => none

def ofJson (text : String) : Except SchemaError Config :=
  match object? text.toList with
  | some (config, rest) =>
    if (skipBlanks rest).isEmpty then config.check.map fun _ => config else .error .badConfig
  | none => .error .badConfig

end SchemaGen.Config
