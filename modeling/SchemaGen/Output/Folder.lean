import SchemaGen.Catalog
import SchemaGen.Output.Declared
/-!
Folders: what is generated into one module. All records go to one file, every union and enumeration gets a file
of its own, and neither type names nor files may collide.
-/
namespace SchemaGen.Output
open Text

/-- The file that holds the records of a folder. -/
def recordStem : String := "messages"

/-- The file that lists the others. -/
def indexStem : String := "mod"

/-- A generated file of its own, which may need the names of its folder. -/
structure OwnFile where
  text : String
  needsNames : Bool
deriving DecidableEq, Repr

structure Folder where
  sources : List String := []
  records : List String := []
  files : Catalog String OwnFile := .empty
  /-- Type names with the schema names they come from. -/
  names : List (String × String) := []

namespace Folder

def declare (f : Folder) (path name origin : String) : Except SchemaError Folder :=
  match List.lookup name f.names with
  | some first => .error (.duplicateDeclaration name path first origin)
  | none => .ok { f with names := (name, origin) :: f.names }

def addFile (f : Folder) (path typeName : String) (file : OwnFile) : Except SchemaError Folder :=
  let stem := Naming.fieldName typeName
  if stem == recordStem || stem == indexStem || (f.files.find? stem).isSome then
    .error (.duplicateDeclaration stem path (stem ++ ".rs") typeName)
  else .ok { f with files := f.files.insert stem file }

def addRecord (f : Folder) (text : String) : Folder :=
  { f with records := f.records ++ [text] }

def add (f : Folder) (path : String) (d : Declared) : Outcome Folder := do
  let f ← .ofExcept (f.declare path d.typeName d.origin)
  let text := (← d.declaration).render
  match d.item with
  | .message _ => return f.addRecord text
  | .oneof _ => .ofExcept (f.addFile path d.typeName ⟨text, true⟩)
  | .enum _ => .ofExcept (f.addFile path d.typeName ⟨text, false⟩)

def addAll (f : Folder) (path : String) : List Declared → Outcome Folder
  | [] => pure f
  | d :: ds => do (← f.add path d).addAll path ds

def addBuiltIn (f : Folder) (path : String) (t : WellKnown) : Except SchemaError Folder :=
  match Code.builtInText? t with
  | some text => (f.declare path t.simpleName t.fullName).map (·.addRecord text)
  | none => .ok f

def header : String := "// @generated by protorec. Do not edit.\n"

def nameImport : String := "#[allow(unused_imports)]\nuse super::*;\n"

/-- The text of the file with the records. -/
def recordText (f : Folder) : String :=
  header ++ joinWith "" (f.sources.map fun s => "// source: " ++ s ++ "\n") ++ "\n" ++ nameImport ++
    joinWith "" (f.records.map ("\n" ++ ·))

def OwnFile.render (file : OwnFile) : String :=
  header ++ "\n" ++ (if file.needsNames then nameImport ++ "\n" else "") ++ file.text

/-- The text of the file that lists the `children` below and the files of a folder. -/
def indexText (children stems : List String) : String :=
  header ++
    (if children.isEmpty then ""
      else "\n" ++ joinWith "" (children.map fun c => "pub mod " ++ c ++ ";\n")) ++
    joinWith "" (stems.map fun s => "\nmod " ++ s ++ ";\npub use self::" ++ s ++ "::*;\n")

def contents (f : Folder) : List (String × String) :=
  (if f.records.isEmpty then [] else [(recordStem, f.recordText)]) ++
    f.files.toList.map fun (stem, file) => (stem, OwnFile.render file)

end Folder

end SchemaGen.Output
