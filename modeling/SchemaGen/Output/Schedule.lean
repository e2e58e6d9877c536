import SchemaGen.Output.Tree
/-!
Schedules: the files to generate, each once and in order, and what is generated from them. The records of the
built-in types that they use come last. A scan of its own finds these types: it goes through the messages with the
names of those around it, and does not look at what is generated.
-/
namespace SchemaGen.Output

/-- The name of a type that a field or the values of a map have. -/
def typeUsed? (x : Field) : Option String :=
  match x.type with
  | .named name => some name
  | .map _ (.named name) => some name
  | _ => none

/-- The built-in type with a record that a field at a place has. -/
def compositeAt? (r : Registry) (p : Place) (x : Field) : Option WellKnown := do
  match r.resolve? p (← typeUsed? x) with
  | some (.wellKnown t) => if t.isComposite then some t else none
  | _ => none

/-- The names of the messages around, from the outermost in, and the types found so far. -/
structure Scan where
  scope : List String := []
  found : Catalog WellKnown Unit := .empty

def scanField (r : Registry) (file : SchemaFile) (x : Field) : StateM Scan Unit :=
  modify fun scan =>
    match compositeAt? r ⟨file.name, file.package, scan.scope⟩ x with
    | some t => { scan with found := scan.found.insert t () }
    | none => scan

mutual

/-- Looks at the fields of a message and then into the messages in it, with its name put at the end of the scope and
taken away again. -/
def scanMessage (r : Registry) (file : SchemaFile) : Message → StateM Scan Unit
  | ⟨name, position, fields, oneofs, messages, enums⟩ => do
    modify fun scan => { scan with scope := scan.scope ++ [name] }
    (Message.mk name position fields oneofs messages enums).allFields.forM (scanField r file)
    scanMessages r file messages
    modify fun scan => { scan with scope := scan.scope.dropLast }

def scanMessages (r : Registry) (file : SchemaFile) : List Message → StateM Scan Unit
  | [] => pure ()
  | m :: ms => do
    scanMessage r file m
    scanMessages r file ms

end

structure Schedule where
  registry : Registry
  config : Config
  files : List SchemaFile := []

namespace Schedule

def contains (s : Schedule) (name : String) : Bool :=
  s.files.any (·.name == name)

/-- Adds a file, unless one of its name is there. -/
def add (s : Schedule) (file : SchemaFile) : Schedule :=
  if s.contains file.name then s else { s with files := s.files ++ [file] }

def addAll (s : Schedule) (files : List SchemaFile) : Schedule :=
  files.foldl add s

def declared (s : Schedule) (file : SchemaFile) : List Declared :=
  ofFile s.registry s.config file

def addToFolders (s : Schedule) (folders : Folders) (file : SchemaFile) : Outcome Folders := do
  let directory := s.config.directory file.package
  let folder := (folders.find? directory).getD {}
  let folder := { folder with sources := folder.sources ++ [file.name] }
  let folder ← folder.addAll (s.config.modulePath directory) (s.declared file)
  return folders.insert directory folder

def scanFile (s : Schedule) (found : Catalog WellKnown Unit) (file : SchemaFile) : Catalog WellKnown Unit :=
  ((scanMessages s.registry file file.messages).run { found }).2.found

/-- The built-in types with a record that the files use. -/
def builtIns (s : Schedule) : List WellKnown :=
  (s.files.foldl s.scanFile .empty).keys

def addBuiltIn (s : Schedule) (folders : Folders) (t : WellKnown) : Outcome Folders := do
  let directory := s.config.directory (some WellKnown.package)
  let folder := (folders.find? directory).getD {}
  let folder ← .ofExcept (folder.addBuiltIn (s.config.modulePath directory) t)
  return folders.insert directory folder

def folders (s : Schedule) : Outcome Folders := do
  let start : Folders := .insert [] {} .empty
  let folders ← s.files.foldlM s.addToFolders start
  s.builtIns.foldlM s.addBuiltIn folders

/-- Everything that is generated from the scheduled files. -/
def generate (s : Schedule) : Outcome Files := do
  .ofExcept (assemble s.config (← s.folders))

end Schedule

end SchemaGen.Output
