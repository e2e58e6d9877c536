import SchemaGen.Text.Basic
import SchemaGen.Text.Table.Case
/-!
Letter case in every script. A capital or small form may be several characters long, and the Greek sigma has
a small form of its own at the end of a word.
-/
namespace SchemaGen.Text

def isUpper (c : Char) : Bool :=
  if c.toNat < 128 then c.isUpper else inRuns upperRuns c.toNat

def isLower (c : Char) : Bool :=
  if c.toNat < 128 then c.isLower else inRuns lowerRuns c.toNat

/-- The form of a code point in the other case, by the long forms first and the runs second. -/
def mapped (long : List (Nat × List Nat)) (runs : List (Run × Nat)) (c : Char) : List Char :=
  match long.find? (·.1 == c.toNat) with
  | some form => form.2.map Char.ofNat
  | none => [((partner? runs c.toNat).map Char.ofNat).getD c]

def capital (c : Char) : List Char :=
  if c.toNat < 128 then [c.toUpper] else mapped longCapitals capitalRuns c

def small (c : Char) : List Char :=
  if c.toNat < 128 then [c.toLower] else mapped longSmalls smallRuns c

def isCased (c : Char) : Bool :=
  if c.toNat < 128 then c.isAlpha else inRanges casedRanges c.toNat

/-- Characters without case that may stand inside a word, such as the apostrophe. -/
def isCaseless (c : Char) : Bool :=
  if c.toNat < 128 then ['\x27', '.', ':', '^', '\x60'].contains c else inRanges caselessRanges c.toNat

def meetsCased (cs : List Char) : Bool :=
  (cs.dropWhile isCaseless).head?.any isCased

def upper (cs : List Char) : List Char :=
  cs.flatMap capital

/-- Lowers a text, of which the characters in `before` (nearest first) are done. -/
def lowerFrom (before : List Char) : List Char → List Char
  | [] => []
  | c :: cs =>
    let form :=
      if c == 'Σ' then
        if meetsCased before && !meetsCased cs then ['ς'] else ['σ']
      else small c
    form ++ lowerFrom (c :: before) cs

def lower (cs : List Char) : List Char :=
  lowerFrom [] cs

end SchemaGen.Text
