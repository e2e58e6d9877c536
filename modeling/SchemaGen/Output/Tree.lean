import SchemaGen.Output.Folder
/-!
The tree of generated files. Every folder and every folder above one has an index, so that the whole tree hangs
together from its root.
-/
namespace SchemaGen.Output
open Text

abbrev Folders := Catalog (List String) Folder

/-- Generated files by their paths, in the order of the paths. -/
abbrev Files := Catalog String String

/-- A directory and all directories above it. -/
def ancestors (directory : List String) : List (List String) :=
  (List.range (directory.length + 1)).map directory.take

/-- All directories that need an index. -/
def directories (used : List (List String)) : List (List String) :=
  Catalog.sorted (used.flatMap ancestors)

def childrenOf (used : List (List String)) (directory : List String) : List String :=
  Catalog.sorted (used.filterMap fun d => if directory.isPrefixOf d then d[directory.length]? else none)

def filePath (directory : List String) (stem : String) : String :=
  joinWith "" (directory.map (· ++ "/")) ++ stem ++ ".rs"

/-- Refuses a file that has the name of a directory beside it. -/
def checkStems (config : Config) (directory children : List String) : List String → Except SchemaError Unit
  | [] => .ok ()
  | stem :: stems =>
    if children.contains stem then
      .error (.duplicateDeclaration stem (config.modulePath directory) "a nested package module" (stem ++ ".rs"))
    else checkStems config directory children stems

def directoryFiles (config : Config) (folders : Folders) (directory : List String) :
    Except SchemaError (List (String × String)) := do
  let children := childrenOf folders.keys directory
  let contents := (folders.find? directory).elim [] Folder.contents
  checkStems config directory children (contents.map (·.1))
  return contents.map (fun (stem, text) => (filePath directory stem, text)) ++
    [(filePath directory indexStem, Folder.indexText children (contents.map (·.1)))]

/-- All files of the tree. -/
def assemble (config : Config) (folders : Folders) : Except SchemaError Files := do
  let files ← (directories folders.keys).mapM (directoryFiles config folders)
  return .ofList files.flatten

end SchemaGen.Output
