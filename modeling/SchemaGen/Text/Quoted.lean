import SchemaGen.Text.Basic
import SchemaGen.Text.Table.Hidden
/-!
Quoted text. `quote` writes a text between double quotes with escapes for what would not survive there; `shown` writes
as its code point every character that has no glyph of its own, or one that only attaches to the glyph before;
`unquote` takes the quotes of a literal away and reads the escapes that schema literals know: newline and tab, and a
backslash before any other character means that character.
-/
namespace SchemaGen.Text

def hexPair (n : Nat) : List Char :=
  [Nat.digitChar (n / 16), Nat.digitChar (n % 16)]

def quotedChar (c : Char) : List Char :=
  match c with
  | '"' => ['\\', '"']
  | '\\' => ['\\', '\\']
  | '\x08' => ['\\', 'b']
  | '\t' => ['\\', 't']
  | '\n' => ['\\', 'n']
  | '\x0c' => ['\\', 'f']
  | '\r' => ['\\', 'r']
  | c => if c.toNat < 32 then ['\\', 'u', '0', '0'] ++ hexPair c.toNat else [c]

def quote (text : String) : String :=
  .ofList ('"' :: text.toList.flatMap quotedChar ++ ['"'])

def isHidden (c : Char) : Bool :=
  if c.toNat < 128 then c.toNat < 32 || c.toNat == 127 else inRanges hiddenRanges c.toNat

def shownChar (c : Char) : List Char :=
  match c with
  | '\x00' => ['\\', '0']
  | '\t' => ['\\', 't']
  | '\r' => ['\\', 'r']
  | '\n' => ['\\', 'n']
  | '"' => ['\\', '"']
  | '\\' => ['\\', '\\']
  | c => if isHidden c then ['\\', 'u', '\x7b'] ++ Nat.toDigits 16 c.toNat ++ ['\x7d'] else [c]

def shown (text : String) : String :=
  .ofList ('"' :: text.toList.flatMap shownChar ++ ['"'])

/-- Reads the escapes of a literal. A backslash at the very end means nothing. -/
def unescape : List Char → List Char
  | [] => []
  | ['\\'] => []
  | '\\' :: 'n' :: cs => '\n' :: unescape cs
  | '\\' :: 't' :: cs => '\t' :: unescape cs
  | '\\' :: c :: cs => c :: unescape cs
  | c :: cs => c :: unescape cs

def inside : List Char → List Char
  | _ :: c :: cs => (c :: cs).dropLast
  | cs => cs

def unquote (literal : String) : String :=
  .ofList (unescape (inside literal.toList))

end SchemaGen.Text
