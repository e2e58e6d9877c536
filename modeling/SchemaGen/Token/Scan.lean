import SchemaGen.Token.Basic
import SchemaGen.Token.Lexeme
/-!
Scanning: a text is cut into lexemes from left to right, the gaps are dropped, and the first character that no
lexeme covers ends the scan.
-/
namespace SchemaGen

/-- Text that belongs to no lexeme, and where it begins. -/
structure Uncovered where
  text : List Char
  position : Position
deriving DecidableEq, Repr

def uncovered : List Char → List Char
  | [] => []
  | c :: cs => if (lexeme? (c :: cs)).isSome then [] else c :: uncovered cs

namespace Tokens

def cons (t : Token) (ts : Tokens) : Tokens :=
  ⟨t :: ts.list, ts.stop⟩

def scanFrom (here : Position) : List Char → Except Uncovered Tokens
  | [] => .ok ⟨[], here⟩
  | c :: cs =>
    match lexeme? (c :: cs) with
    | none => .error ⟨uncovered (c :: cs), here⟩
    | some l =>
      let text := c :: cs.take l.extra
      let rest := scanFrom (here.after text) (cs.drop l.extra)
      match l.kind with
      | .gap => rest
      | .token => rest.map (cons ⟨.ofList text, here⟩)
termination_by cs => cs.length

def scan (text : String) : Except Uncovered Tokens :=
  scanFrom .start text.toList

end Tokens

end SchemaGen
