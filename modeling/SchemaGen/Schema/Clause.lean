import SchemaGen.Token.Basic
/-!
Clauses: schema text is a sequence of clauses, each a row of words that ends with a semicolon or with a braced
block of further clauses, or stops short before the brace that closes the enclosing block. An outline is the
tree of all clauses of a text. It keeps every token, so that nothing is decided here about their meaning.
-/
namespace SchemaGen

inductive Clause where
  /-- Words and the semicolon after them. -/
  | plain (words : List Token) (mark : Token)
  /-- Words and the block they open. -/
  | block (words : List Token) (opening : Token) (body : List Clause) (closing : Token)
  /-- Words with nothing after them but the brace `next`, which is not theirs. -/
  | bare (words : List Token) (next : Token)
deriving Repr

namespace Clause

def words : Clause → List Token
  | plain words _ => words
  | block words _ _ _ => words
  | bare words _ => words

def finish : Clause → Token
  | plain _ mark => mark
  | block _ opening _ _ => opening
  | bare _ next => next

def lead (c : Clause) : List Token :=
  c.words ++ [c.finish]

def first (c : Clause) : Token :=
  c.words.head?.getD c.finish

mutual

def tokens : Clause → List Token
  | plain words mark => words ++ [mark]
  | block words opening body closing => words ++ opening :: (tokensOf body ++ [closing])
  | bare words _ => words

def tokensOf : List Clause → List Token
  | [] => []
  | c :: cs => c.tokens ++ tokensOf cs

end

end Clause

inductive Remainder where
  | nothing
  | statement (start : Token) (more : List Token)
  | block (words : List Token) (opening : Token) (body : List Clause) (rest : Remainder)
deriving Repr

inductive Ending where
  /-- A closing brace that no block belongs to. -/
  | stray (closing : Token)
  | ended (rest : Remainder)
deriving Repr

structure Outline where
  clauses : List Clause
  ending : Ending
deriving Repr

namespace Outline

/-- A block that is still open: its words and brace, and the clauses before it, last one first. -/
structure Frame where
  words : List Token
  opening : Token
  before : List Clause

/-- The outline of a text that ends inside the blocks of `stack`, innermost first. -/
def close (clauses : List Clause) (rest : Remainder) : List Frame → Outline
  | [] => ⟨clauses, .ended rest⟩
  | f :: stack => close f.before.reverse (.block f.words f.opening clauses rest) stack

/-- Reads tokens inside the blocks of `stack`, after the `clauses` and `words` read so far, last ones first. -/
def readFrom (stack : List Frame) (clauses : List Clause) (words : List Token) : List Token → Outline
  | [] =>
    match words.reverse with
    | [] => close clauses.reverse .nothing stack
    | start :: more => close clauses.reverse (.statement start more) stack
  | t :: ts =>
    match t.text with
    | ";" => readFrom stack (.plain words.reverse t :: clauses) [] ts
    | "\x7b" => readFrom (⟨words.reverse, t, clauses⟩ :: stack) [] [] ts
    | "\x7d" =>
      let body := if words.isEmpty then clauses else .bare words.reverse t :: clauses
      match stack with
      | [] => ⟨body.reverse, .stray t⟩
      | f :: stack => readFrom stack (.block f.words f.opening body.reverse t :: f.before) [] ts
    | _ => readFrom stack clauses (t :: words) ts

def read (ts : List Token) : Outline :=
  readFrom [] [] [] ts

end Outline

end SchemaGen
