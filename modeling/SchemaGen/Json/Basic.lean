import SchemaGen.Text.Basic
import SchemaGen.Text.Quoted
/-!
JSON values and their indented text: two blanks a level, every field on a line of its own, empty lists and
objects on one line.
-/
namespace SchemaGen
open Text

inductive Json where
  | null
  | bool (b : Bool)
  | number (n : Int)
  | string (text : String)
  | array (values : List Json)
  | object (fields : List (String × Json))
deriving Repr

namespace Json

def margin (depth : Nat) : String :=
  .ofList (List.replicate (2 * depth) ' ')

def bracketed (depth : Nat) (opening closing : String) (entries : List String) : String :=
  if entries.isEmpty then opening ++ closing
  else
    opening ++ "\n" ++ joinWith ",\n" (entries.map (margin (depth + 1) ++ ·)) ++ "\n" ++ margin depth ++ closing

mutual

def pretty (depth : Nat) : Json → String
  | null => "null"
  | bool b => if b then "true" else "false"
  | number n => toString n
  | string text => quote text
  | array values => bracketed depth "[" "]" (prettyValues (depth + 1) values)
  | object fields => bracketed depth "\x7b" "\x7d" (prettyFields (depth + 1) fields)

def prettyValues (depth : Nat) : List Json → List String
  | [] => []
  | value :: values => pretty depth value :: prettyValues depth values

def prettyFields (depth : Nat) : List (String × Json) → List String
  | [] => []
  | (key, value) :: fields => (quote key ++ ": " ++ pretty depth value) :: prettyFields depth fields

end

end Json

end SchemaGen
