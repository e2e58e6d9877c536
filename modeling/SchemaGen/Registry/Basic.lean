import SchemaGen.Error
import SchemaGen.Symbol
import SchemaGen.Walk
import SchemaGen.WellKnown
/-!
The registry of a session: the files accepted so far, where each of them stands, the table of all symbols by full
name and the full names that each file declares. A file is accepted if no message uses a field number twice and no
full name is taken. The files that some files need are each import that is no built-in one, and the imports of those
in turn.
-/
namespace SchemaGen

/-- A map from names, as its pairs in the order in which the names came in. -/
abbrev Index (ν : Type) : Type :=
  List (String × ν)

namespace Index
variable {ν : Type}

def get? (m : Index ν) (name : String) : Option ν :=
  (List.find? (·.1 == name) m).map (·.2)

def put (name : String) (v : ν) : Index ν → Index ν
  | [] => [(name, v)]
  | (other, w) :: rest => if other == name then (name, v) :: rest else (other, w) :: put name v rest

end Index

structure Registry where
  files : List SchemaFile := []
  fileIndex : Index Nat := []
  table : Index Symbol := []
  fileSymbols : Index (List String) := []

def repeatedNumber? (earlier : List Field) : List Field → Option (Field × Field)
  | [] => none
  | f :: fs =>
    match earlier.find? (·.number == f.number) with
    | some first => some (first, f)
    | none => repeatedNumber? (f :: earlier) fs

mutual

def checkNumbers (file scope : String) : Message → Except SchemaError Unit
  | ⟨name, position, fields, oneofs, messages, enums⟩ =>
    let fullName := if scope.isEmpty then name else scope ++ "." ++ name
    match repeatedNumber? [] (Message.mk name position fields oneofs messages enums).allFields with
    | some (first, second) =>
      .error (.duplicateFieldNumber file fullName second.number first.name second.name)
    | none => checkAllNumbers file fullName messages

def checkAllNumbers (file scope : String) : List Message → Except SchemaError Unit
  | [] => .ok ()
  | m :: ms =>
    match checkNumbers file scope m with
    | .ok () => checkAllNumbers file scope ms
    | .error e => .error e

end

namespace Registry

def file? (r : Registry) (name : String) : Option SchemaFile :=
  (r.fileIndex.get? name).bind (r.files[·]?)

def symbol? (r : Registry) (fullName : String) : Option Symbol :=
  r.table.get? fullName

def symbolsIn (r : Registry) (file : String) : List Symbol :=
  ((r.fileSymbols.get? file).getD []).filterMap r.symbol?

/-- Refuses symbols whose full name is registered, or taken by one of the names `taken` of the same file. -/
def checkSymbols (r : Registry) (file : String) (taken : List String) : List Symbol → Except SchemaError Unit
  | [] => .ok ()
  | s :: ss =>
    match r.symbol? s.fullName with
    | some earlier => .error (.duplicateSymbol s.fullName earlier.file file)
    | none =>
      if taken.contains s.fullName then .error (.duplicateSymbol s.fullName file file)
      else r.checkSymbols file (s.fullName :: taken) ss

/-- A step that changes the registry and may fail on the way. What it changed before it failed stays. -/
abbrev Registration := ExceptT SchemaError (StateM Registry)

/-- Adds a file and all its symbols. A name that is registered already changes nothing. -/
def registerFile (f : SchemaFile) : Registration Unit := do
  let r ← get
  if (r.fileIndex.get? f.name).isSome then return
  checkAllNumbers f.name (f.package.getD "") f.messages
  r.checkSymbols f.name [] f.symbols
  f.symbols.forM fun s => modify fun r => { r with table := r.table.put s.fullName s }
  modify fun r => { r with fileSymbols := r.fileSymbols.put f.name (f.symbols.map Symbol.fullName) }
  modify fun r => { r with fileIndex := r.fileIndex.put f.name r.files.length }
  modify fun r => { r with files := r.files ++ [f] }

/-- The registry with a file added, for callers that stop where it is refused. -/
def register (r : Registry) (f : SchemaFile) : Except SchemaError Registry :=
  let (result, next) := (registerFile f).run r
  result.map fun _ => next

def registerAll (r : Registry) : List SchemaFile → Except SchemaError Registry
  | [] => .ok r
  | f :: fs => do (← r.register f).registerAll fs

def messageSymbol? (r : Registry) (package : Option String) (scope : List String) : Option Symbol :=
  (r.symbol? (qualified package (Text.joinWith "." scope))).filter (·.kind == .message)

def messageAt? (messages : List Message) : List String → Option Message
  | [] => none
  | [name] => messages.find? (·.name == name)
  | name :: names => (messages.find? (·.name == name)).bind fun m => messageAt? m.messages names

def message? (r : Registry) (s : Symbol) : Option Message :=
  match s.kind with
  | .message => (r.file? s.file).bind fun f => messageAt? f.messages s.scope
  | .enum => none

def enum? (r : Registry) (s : Symbol) : Option EnumDef :=
  match s.kind with
  | .message => none
  | .enum =>
    (r.file? s.file).bind fun f =>
      let enums : Option (List EnumDef) := match s.parents with
        | [] => some f.enums
        | parents => (messageAt? f.messages parents).map (·.enums)
      enums.bind (·.find? (·.name == s.name))

def importsOf (r : Registry) (file : String) : List Import :=
  (r.file? file).elim [] (·.imports)

def importPaths (r : Registry) : List String :=
  r.files.flatMap fun f => f.imports.map (·.path)

theorem mem_files_of_file? {r : Registry} {name : String} {f : SchemaFile} (found : r.file? name = some f) :
    f ∈ r.files := by
  obtain ⟨place, _, listed⟩ := Option.bind_eq_some_iff.mp found
  exact List.mem_of_getElem? listed

theorem mem_importPaths {r : Registry} {name : String} {f : SchemaFile} {i : Import}
    (found : r.file? name = some f) (imported : i ∈ f.imports) : i.path ∈ r.importPaths :=
  List.mem_flatMap.mpr ⟨f, mem_files_of_file? found, List.mem_map.mpr ⟨i, imported, rfl⟩⟩

def fileWalk (r : Registry) : Walk String (Option SchemaFile) where
  key := id
  visit name :=
    match r.file? name with
    | some f => (some f, (f.imports.filter (!WellKnown.isImport ·.path)).map (·.path))
    | none => (none, [])
  keys := r.importPaths
  found_mem := by
    intro name path h
    split at h
    · rename_i f found
      obtain ⟨i, imported, rfl⟩ := List.mem_map.mp h
      exact mem_importPaths found (List.mem_filter.mp imported).1
    · simp at h

/-- The registered files among `roots` and what they import, each once, a file before its imports. -/
def closure (r : Registry) (roots : List String) : List SchemaFile :=
  (r.fileWalk.run .depthFirst roots []).filterMap id

end Registry

end SchemaGen
