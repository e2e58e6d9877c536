import SchemaGen.FileTree
import SchemaGen.Session
/-!
Search roots: the directories of a file tree in which schema files are looked for, one after the other.
-/
namespace SchemaGen

structure SearchRoots where
  tree : FileTree
  roots : List String

namespace SearchRoots
open SchemaGen.Path

/-- The way from a root to a path inside it, by their texts or else by the places they lead to. -/
def relative? (s : SearchRoots) (path root : String) : Option (List Part) :=
  match Text.after? (parts root) (parts path) with
  | some rest => some rest
  | none =>
    match s.tree.locate path, s.tree.locate root with
    | .ok place, .ok base => (Text.after? base place).map (·.map .name)
    | _, _ => none

/-- The name of a file in a session: the way to it from the first root that it is in, or else its path. -/
def identify (s : SearchRoots) (path : String) : String :=
  plain ((s.roots.findSome? (s.relative? path)).getD (parts path))

/-- The paths that a name may stand for: one under each root, and last the name itself. -/
def candidates (s : SearchRoots) (name : String) : List String :=
  s.roots.map (join · name) ++ [name]

/-- The text of the first candidate that is a file. -/
def load (s : SearchRoots) (name : String) : Except SchemaError (Option String) :=
  match (s.candidates name).find? s.tree.isFile with
  | none => .ok none
  | some path =>
    match s.tree.readText path with
    | .ok text => .ok (some text)
    | .error fault => .error (.file path fault)

theorem mem_texts_of_load {s : SearchRoots} {name text : String} (h : s.load name = .ok (some text)) :
    text ∈ s.tree.texts := by
  unfold load at h
  split at h
  · simp at h
  · split at h
    · rename_i found
      simp only [Except.ok.injEq, Option.some.injEq] at h
      exact h ▸ FileTree.mem_texts_of_readText found
    · simp at h

def source (s : SearchRoots) : Source where
  load := s.load
  texts := s.tree.texts
  mem_texts := mem_texts_of_load

def compile (config : Config) (s : SearchRoots) (inputs : List String) : Outcome Output.Files :=
  Session.compile config s.source (inputs.map s.identify)

end SearchRoots

end SchemaGen
