import SchemaGen.Catalog
import SchemaGen.Error
import SchemaGen.Path
/-!
File trees: directories and files by the names that lead to them, seen from a current directory. There are no
symbolic links in a tree, and every name is a text: a name that is no valid UTF-8 stands for no file.
-/
namespace SchemaGen

/-- The names that lead from the root to a file or a directory. -/
abbrev Location := List String

/-- What a file holds: text, or bytes that are not the encoding of a text. -/
inductive Content where
  | text (text : String)
  | binary (bytes : List UInt8)
deriving DecidableEq

def Content.ofBytes (bytes : ByteArray) : Content :=
  match String.fromUTF8? bytes with
  | some decoded => .text decoded
  | none => .binary bytes.toList

inductive Node where
  | directory
  | file (content : Content)
deriving DecidableEq

/-- The current directory and the directories around it are always there. -/
structure FileTree where
  here : Location
  nodes : List (Location × Node) := []

namespace FileTree

def node? (t : FileTree) (l : Location) : Option Node :=
  if l.isPrefixOf t.here then some .directory else (t.nodes.find? (·.1 == l)).map (·.2)

def isDirectoryAt (t : FileTree) (l : Location) : Bool :=
  t.node? l == some .directory

/-- Goes on from a location, segment by segment. Only a directory leads further. -/
def follow (t : FileTree) : Location → List String → Except FileFault Location
  | l, [] => .ok l
  | l, segment :: rest =>
    if !t.isDirectoryAt l then .error .notDirectory
    else
      match Path.part? segment with
      | some .up => t.follow l.dropLast rest
      | some (.name name) =>
        if (t.node? (l ++ [name])).isSome then t.follow (l ++ [name]) rest else .error .absent
      | _ => t.follow l rest

def start (t : FileTree) (path : String) : Location :=
  if Path.isAbsolute path then [] else t.here

def locate (t : FileTree) (path : String) : Except FileFault Location :=
  if path == "" then .error .absent else t.follow (t.start path) (Path.segments path)

def read (t : FileTree) (path : String) : Except FileFault Content := do
  match t.node? (← t.locate path) with
  | some (.file content) => .ok content
  | some .directory => .error .isDirectory
  | none => .error .absent

def readText (t : FileTree) (path : String) : Except FileFault String := do
  match ← t.read path with
  | .text text => .ok text
  | .binary _ => .error .notText

def isFile (t : FileTree) (path : String) : Bool :=
  (t.read path).isOk

def texts (t : FileTree) : List String :=
  t.nodes.filterMap fun p => match p.2 with
    | .file (.text text) => some text
    | _ => none

theorem node?_of_readText {t : FileTree} {path text : String} (h : t.readText path = .ok text) :
    ∃ l, t.node? l = some (.file (.text text)) := by
  unfold readText read at h
  cases located : t.locate path with
  | error e => simp [located, bind, Except.bind] at h
  | ok l =>
    refine ⟨l, ?_⟩
    simp only [located, bind, Except.bind] at h
    split at h
    · simp at h
    · rename_i content hc
      split at hc <;> simp_all
      split at h <;> simp_all

theorem mem_texts_of_readText {t : FileTree} {path text : String} (h : t.readText path = .ok text) :
    text ∈ t.texts := by
  obtain ⟨l, found⟩ := node?_of_readText h
  unfold node? at found
  split at found
  · simp at found
  · obtain ⟨⟨k, node⟩, hk, rfl⟩ := Option.map_eq_some_iff.mp found
    exact List.mem_filterMap.mpr ⟨(k, .file (.text text)), List.mem_of_find?_eq_some hk, rfl⟩

/-- What is new or different in a later tree, the oldest change first. -/
def changes (t later : FileTree) : List (Location × Node) :=
  (later.nodes.filter fun (l, node) => t.node? l != some node).reverse

end FileTree

/-- A change of a file tree. What is done before a failure stays done. -/
abbrev Edit := ExceptT FileFault (StateM FileTree)

namespace Edit

def put (l : Location) (node : Node) : Edit Unit :=
  modify fun t => { t with nodes := (l, node) :: t.nodes.filter (·.1 != l) }

/-- Puts a node under the last of the names, if the others lead to a directory. -/
def putNew (l : Location) (names : List String) (node : Node) : Edit Unit := do
  match names.getLast? with
  | none => throw .absent
  | some name => put ((← (← get).follow l names.dropLast) ++ [name]) node

def makeDirectory (l : Location) (names : List String) : Edit Unit := do
  let t ← get
  match t.follow l names with
  | .ok found => if !t.isDirectoryAt found then throw .occupied
  | .error .absent => putNew l names .directory
  | .error e => throw e

/-- Makes a directory and those it is in. The names are given from the innermost on. -/
def makeDirectoriesAt (l : Location) : List String → Edit Unit
  | [] => pure ()
  | name :: outer =>
    tryCatch (makeDirectory l (name :: outer).reverse) fun
      | .absent => do
        makeDirectoriesAt l outer
        makeDirectory l (name :: outer).reverse
      | e => throw e

def makeDirectories (path : String) : Edit Unit := do
  makeDirectoriesAt ((← get).start path) ((Path.segments path).filter (Path.part? · != none)).reverse

def write (path : String) (content : Content) : Edit Unit := do
  let t ← get
  match t.locate path with
  | .ok l => if t.isDirectoryAt l then throw .isDirectory else put l (.file content)
  | .error .absent => putNew (t.start path) (Path.segments path) (.file content)
  | .error e => throw e

end Edit

end SchemaGen
