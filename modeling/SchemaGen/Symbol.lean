import SchemaGen.Schema.Basic
import SchemaGen.Text.Basic
/-!
Symbols: the messages and enums that a file declares, each known by its full name.
-/
namespace SchemaGen
open Text

inductive SymbolKind where
  | message
  | enum
deriving DecidableEq, Repr

/-- A declaration: its name, the messages around it from the outermost in, its package and its file. -/
structure Symbol where
  name : String
  parents : List String
  package : Option String
  file : String
  kind : SymbolKind
deriving DecidableEq, Repr

def qualified (package : Option String) (name : String) : String :=
  match package with
  | some package => if package.isEmpty then name else package ++ "." ++ name
  | none => name

namespace Symbol

def scope (s : Symbol) : List String :=
  s.parents ++ [s.name]

def nestedName (s : Symbol) : String :=
  joinWith "." s.scope

def fullName (s : Symbol) : String :=
  qualified s.package s.nestedName

end Symbol

namespace SchemaFile

def symbol (f : SchemaFile) (parents : List String) (kind : SymbolKind) (name : String) : Symbol where
  name := name
  parents := parents
  package := f.package
  file := f.name
  kind := kind

mutual

/-- The symbols of a message: itself, its enums, its messages. -/
def messageSymbols (f : SchemaFile) (parents : List String) : Message → List Symbol
  | ⟨name, _, _, _, messages, enums⟩ =>
    f.symbol parents .message name ::
      (enums.map (f.symbol (parents ++ [name]) .enum ·.name) ++
        f.messagesSymbols (parents ++ [name]) messages)

def messagesSymbols (f : SchemaFile) (parents : List String) : List Message → List Symbol
  | [] => []
  | m :: ms => f.messageSymbols parents m ++ f.messagesSymbols parents ms

end

/-- The symbols of a file: those of its messages, then its enums. -/
def symbols (f : SchemaFile) : List Symbol :=
  f.messagesSymbols [] f.messages ++ f.enums.map (f.symbol [] .enum ·.name)

end SchemaFile

end SchemaGen
