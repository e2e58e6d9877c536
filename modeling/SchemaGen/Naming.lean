import SchemaGen.Text.Case
/-!
Names in the styles of the generated Rust code. Types and variants are written in Pascal case, fields, files and
modules in snake case, and a name that would be a reserved word gets an underscore at its end.
-/
namespace SchemaGen.Naming
open Text

/-- A word with a capital at its start. A word written all in capitals keeps only that one. -/
def capitalized : List Char → List Char
  | [] => []
  | c :: cs => capital c ++ if upper (c :: cs) == c :: cs then lower cs else cs

def pascalChars (cs : List Char) : List Char :=
  (piecesOf '_' cs).flatMap capitalized

def pascal (name : String) : String :=
  .ofList (pascalChars name.toList)

/-- Snake case of what follows the character `before`, if any. An underscore goes before a capital that begins
a word: one after a character that is no capital, or the last of a row of capitals before a small letter. -/
def snakeFrom (before : Option Char) : List Char → List Char
  | [] => []
  | c :: cs =>
    if isUpper c then
      let begins := before.any fun b => b != '_' && (!isUpper b || cs.head?.any isLower)
      (if begins then ['_'] else []) ++ small c ++ snakeFrom (some c) cs
    else c :: snakeFrom (some c) cs

def snakeChars (cs : List Char) : List Char :=
  snakeFrom none cs

def snake (name : String) : String :=
  .ofList (snakeChars name.toList)

def reserved : List String :=
  ["as", "break", "const", "continue", "crate", "else", "enum", "extern", "false", "fn", "for", "if", "impl",
    "in", "let", "loop", "match", "mod", "move", "mut", "pub", "ref", "return", "self", "Self", "static",
    "struct", "super", "trait", "true", "type", "unsafe", "use", "where", "while", "async", "await", "dyn",
    "abstract", "become", "box", "do", "final", "macro", "override", "priv", "typeof", "unsized", "virtual",
    "yield", "try"]

def escape (name : String) : String :=
  if reserved.contains name then name ++ "_" else name

def typeName (parents : List String) (name : String) : String :=
  escape (joinWith "" ((parents ++ [name]).map pascal))

def fieldName (name : String) : String :=
  escape (snake name)

def variantName (name : String) : String :=
  escape (pascal name)

def unionName (scope : List String) (oneof : String) : String :=
  let owner := match scope.getLast? with
    | some last => typeName scope.dropLast last
    | none => ""
  escape (owner ++ pascal oneof)

end SchemaGen.Naming
