import SchemaGen.Text.Basic
/-!
Paths as texts: the segments between their slashes, and the parts that are left once the empty segments and the
dots that say nothing are dropped.
-/
namespace SchemaGen.Path
open Text

inductive Part where
  | root
  | here
  | up
  | name (text : String)
deriving DecidableEq, Repr

def segments (path : String) : List String :=
  (piecesOf '/' path.toList).map String.ofList

def isAbsolute (path : String) : Bool :=
  path.toList.head? == some '/'

/-- A segment that moves: an empty one and a dot do not. -/
def part? : String → Option Part
  | "" => none
  | "." => none
  | ".." => some .up
  | name => some (.name name)

/-- The parts of a path. A slash and a dot count at its start only. -/
def parts (path : String) : List Part :=
  let moves := (segments path).filterMap part?
  if isAbsolute path then .root :: moves
  else if (segments path).head? == some "." then .here :: moves
  else moves

def Part.text? : Part → Option String
  | root | here => none
  | up => some ".."
  | name text => some text

def plain (parts : List Part) : String :=
  (if parts.head? == some .root then "/" else "") ++ joinWith "/" (parts.filterMap Part.text?)

/-- A name under a directory. An absolute name stands for itself. -/
def join (directory name : String) : String :=
  if isAbsolute name || directory == "" then name
  else if directory.toList.getLast? == some '/' then directory ++ name
  else directory ++ "/" ++ name

def trimEnd : List String → List String
  | [] => []
  | first :: rest => first :: (rest.reverse.dropWhile (part? · == none)).reverse

def parent (path : String) : String :=
  match trimEnd (trimEnd (segments path)).dropLast with
  | [""] => "/"
  | segments => joinWith "/" segments

end SchemaGen.Path
