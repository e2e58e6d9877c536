import SchemaGen.Text.Table.Word
/-!
Pieces of a text and classes of characters: joining with a separator and the parts between separators, blanks, and
the word characters and decimal digits of every script.
-/
namespace SchemaGen.Text

def joinWith (separator : String) : List String → String
  | [] => ""
  | [part] => part
  | part :: parts => part ++ separator ++ joinWith separator parts

/-- The pieces of a text between the separators, empty ones included. -/
def piecesOf (separator : Char) : List Char → List (List Char)
  | [] => [[]]
  | c :: cs =>
    if c == separator then [] :: piecesOf separator cs
    else
      match piecesOf separator cs with
      | [] => [[c]]
      | piece :: pieces => (c :: piece) :: pieces

def partsOf (separator : Char) (text : String) : List String :=
  ((piecesOf separator text.toList).filter (!·.isEmpty)).map String.ofList

def after? {α : Type} [BEq α] : List α → List α → Option (List α)
  | [], cs => some cs
  | _ :: _, [] => none
  | s :: ss, c :: cs => if s == c then after? ss cs else none

def inRanges (table : List (Nat × Nat)) (n : Nat) : Bool :=
  table.any fun r => r.1 ≤ n && n ≤ r.2

def blankRanges : List (Nat × Nat) :=
  [(9, 13), (32, 32), (133, 133), (160, 160), (5760, 5760), (8192, 8202), (8232, 8233), (8239, 8239),
    (8287, 8287), (12288, 12288)]

def isBlank (c : Char) : Bool :=
  inRanges blankRanges c.toNat

def isWord (c : Char) : Bool :=
  if c.toNat < 128 then c.isAlphanum || c == '_' else inRanges wordRanges c.toNat

def isDecimal (c : Char) : Bool :=
  if c.toNat < 128 then c.isDigit else inRanges decimalRanges c.toNat

def atWordBoundary (last : Char) (rest : List Char) : Bool :=
  isWord last != rest.head?.any isWord

end SchemaGen.Text
