import SchemaGen.Text.Basic
/-!
Lexemes: the pieces that schema text falls into. Comments and blanks are gaps; strings, numbers, names and
punctuation are tokens. `lexeme?` tries the kinds in a fixed order, so where two kinds could begin alike the
earlier one wins. Among the tokens, the schema language tells identifiers, dotted type names and string literals apart.
-/
namespace SchemaGen

inductive Lexeme.Kind where
  | gap
  | token
deriving DecidableEq, Repr

/-- A lexeme that begins at a given character: its kind and how many characters it has after the first. -/
structure Lexeme where
  kind : Lexeme.Kind
  extra : Nat
deriving DecidableEq, Repr

namespace Lexeme
open Text

def blockComment? : List Char → Option Nat
  | '*' :: '/' :: _ => some 2
  | _ :: cs => (blockComment? cs).map (· + 1)
  | [] => none

def comment? : List Char → Option Nat
  | '/' :: '*' :: cs => (blockComment? cs).map (· + 1)
  | '/' :: '/' :: cs => some ((cs.takeWhile (· != '\n')).length + 1)
  | _ => none

def blanks? : List Char → Option Nat
  | c :: cs => if isBlank c then some (cs.takeWhile isBlank).length else none
  | [] => none

/-- The length of the rest of a string after its opening mark, the closing mark included. A string does not
reach past the end of its line. -/
def stringRest? (mark : Char) : List Char → Option Nat
  | [] => none
  | '\\' :: c :: cs => if c == '\n' then none else (stringRest? mark cs).map (· + 2)
  | c :: cs =>
    if c == mark then some 1
    else if c == '\n' || c == '\\' then none
    else (stringRest? mark cs).map (· + 1)

def string? : List Char → Option Nat
  | c :: cs => if c == '"' || c == '\x27' then stringRest? c cs else none
  | [] => none

def digitRun (cs : List Char) : Nat :=
  (cs.takeWhile isDecimal).length

def isHexDigit (c : Char) : Bool :=
  c.isDigit || ('a' ≤ c && c ≤ 'f') || ('A' ≤ c && c ≤ 'F')

def hexReading : List Char → List Nat
  | '0' :: x :: cs =>
    let run := (cs.takeWhile isHexDigit).length
    if (x == 'x' || x == 'X') && run != 0 then [run + 2] else []
  | _ => []

def exponentLength : List Char → Nat
  | e :: cs =>
    if e == 'e' || e == 'E' then
      let sign := match cs with
        | s :: _ => if s == '+' || s == '-' then 1 else 0
        | [] => 0
      let run := digitRun (cs.drop sign)
      if run == 0 then 0 else 1 + sign + run
    else 0
  | [] => 0

/-- The lengths at which a decimal number may end, in order of preference: with its exponent, with its
fraction, right after the point, before the point. -/
def decimalReadings (cs : List Char) : List Nat :=
  let whole := digitRun cs
  match cs.drop whole with
  | '.' :: fs =>
    let width := whole + 1 + digitRun fs
    let full := width + exponentLength (cs.drop width)
    if whole == 0 then
      if digitRun fs == 0 then [] else [full, width]
    else [full, width, whole + 1, whole]
  | _ => if whole == 0 then [] else [whole + exponentLength (cs.drop whole), whole]

def endsAtBoundary (cs : List Char) (n : Nat) : Bool :=
  (cs.take n).getLast?.any fun last => atWordBoundary last (cs.drop n)

/-- The length of an unsigned number: the first of its readings that does not stop inside a word. -/
def unsigned? (cs : List Char) : Option Nat :=
  (hexReading cs ++ decimalReadings cs).find? (endsAtBoundary cs)

def number? : List Char → Option Nat
  | c :: cs => if c == '+' || c == '-' then unsigned? cs else (unsigned? (c :: cs)).map (· - 1)
  | [] => none

def isNameStart (c : Char) : Bool :=
  c.isAlpha || c == '_'

def isNamePart (c : Char) : Bool :=
  c.isAlphanum || c == '_'

/-- How far a dotted name goes on. A dot belongs to it only if a further name follows. -/
def nameRun : List Char → Nat
  | [] => 0
  | c :: cs =>
    if isNamePart c || (c == '.' && cs.head?.any isNameStart) then nameRun cs + 1 else 0

def name? : List Char → Option Nat
  | c :: cs =>
    if isNameStart c || (c == '.' && cs.head?.any isNameStart) then some (nameRun cs) else none
  | [] => none

def isPunctuation (c : Char) : Bool :=
  "=;\x7b\x7d[]<>,():-+/".toList.contains c

def punctuation? : List Char → Option Nat
  | c :: _ => if isPunctuation c then some 0 else none
  | [] => none

end Lexeme

open Lexeme in
def lexeme? (cs : List Char) : Option Lexeme :=
  (comment? cs).map (⟨.gap, ·⟩) <|> (blanks? cs).map (⟨.gap, ·⟩) <|>
    (string? cs).map (⟨.token, ·⟩) <|> (number? cs).map (⟨.token, ·⟩) <|>
    (name? cs).map (⟨.token, ·⟩) <|> (punctuation? cs).map (⟨.token, ·⟩)

section words
open Text Lexeme

def identifierChars : List Char → Bool
  | c :: cs => isNameStart c && cs.all isNamePart
  | [] => false

def isIdentifier (word : String) : Bool :=
  identifierChars word.toList

def dottedChars (cs : List Char) : Bool :=
  (piecesOf '.' cs).all identifierChars

def isTypeName (word : String) : Bool :=
  match word.toList with
  | '.' :: cs => dottedChars cs
  | cs => dottedChars cs

def isStringLiteral (word : String) : Bool :=
  match word.toList with
  | mark :: cs => (mark == '"' || mark == '\x27') && cs.getLast? == some mark && !cs.contains '\n'
  | [] => false

end words

end SchemaGen
