/-!
Tokens of schema text and the places where they stand. Lines and columns count from one, a column counts
characters, and only a newline ends a line.
-/
namespace SchemaGen

structure Position where
  line : Nat
  column : Nat
deriving DecidableEq, Repr, Inhabited

namespace Position

def start : Position := ⟨1, 1⟩

def step (p : Position) (c : Char) : Position :=
  if c == '\n' then ⟨p.line + 1, 1⟩ else ⟨p.line, p.column + 1⟩

def after (p : Position) (text : List Char) : Position :=
  text.foldl step p

end Position

structure Token where
  text : String
  position : Position
deriving DecidableEq, Repr

structure Tokens where
  list : List Token
  stop : Position
deriving DecidableEq, Repr

namespace Tokens

/-- The tokens followed by an empty one that marks the end of the text. -/
def withEnd (ts : Tokens) : List Token :=
  ts.list ++ [⟨"", ts.stop⟩]

end Tokens

end SchemaGen
