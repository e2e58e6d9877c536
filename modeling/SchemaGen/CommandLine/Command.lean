import SchemaGen.CommandLine.Arguments
import SchemaGen.Config.Json
import SchemaGen.Schema.Json
import SchemaGen.SearchRoots
/-!
Commands: what a command line asks for, carried out on a file tree, and the paths that a command looks at, as far as the
tree tells. Once all of them are in the tree, running the command on the tree is as good as running it on the disk.
-/
namespace SchemaGen.CommandLine
open Output

/-- A session with the settings that its command line gives. -/
structure Job where
  inputs : List String
  roots : List String := []
  configFile : Option String := none
  nested : Bool := false
  basePath : Option String := none
  strict : Bool := false
  noImports : Bool := false
deriving Repr

inductive Command where
  | generate (job : Job) (output : Option String)
  | check (job : Job)
  | parse (input : String) (strict : Bool)
deriving Repr

def Job.ofArguments (a : Arguments) : Job where
  inputs := a.values .input
  roots := a.values .includes
  configFile := (a.values .config).head?
  nested := a.has .nested
  basePath := (a.values .basePath).head?
  strict := a.has .strict
  noImports := a.has .noImports

def Command.ofArguments (a : Arguments) : Command :=
  match a.verb with
  | .generate => .generate (.ofArguments a) (a.values .output).head?
  | .check => .check (.ofArguments a)
  | .parse => .parse ((a.values .input).headD "") (a.has .strict)

def readText (tree : FileTree) (path : String) : Except SchemaError String :=
  (tree.readText path).mapError (.file path)

def readConfig (tree : FileTree) (path : String) : Except SchemaError Config := do
  Config.ofJson (← readText tree path)

namespace Job

/-- The settings of the configuration file, or else the defaults, changed by those of the command line. -/
def config (tree : FileTree) (job : Job) : Except SchemaError Config := do
  let base ← match job.configFile with
    | some path => readConfig tree path
    | none => .ok {}
  let config : Config :=
    { layout := if job.nested then .nested else base.layout
      basePath := job.basePath.getD base.basePath
      includeImports := base.includeImports && !job.noImports
      strictFields := base.strictFields || job.strict }
  config.check
  return config

def compile (tree : FileTree) (job : Job) : Outcome Files := do
  SearchRoots.compile (← .ofExcept (job.config tree)) ⟨tree, job.roots⟩ job.inputs

end Job

/-- Writes files under a directory and makes the directories that they need. What is done before a failure
stays done. -/
def writeFiles (directory : String) : List (String × String) → ExceptT SchemaError (StateM FileTree) Unit
  | [] => pure ()
  | (name, text) :: files => do
    let path := Path.join directory name
    let parent := Path.parent path
    ExceptT.adapt (.file parent) (Edit.makeDirectories parent)
    ExceptT.adapt (.file path) (Edit.write path (.text text))
    writeFiles directory files

def listing (files : Files) : String :=
  String.join (files.toList.map fun (name, text) => "// ===== " ++ name ++ " =====\n" ++ text ++ "\n")

namespace Command

/-- Carries out a command. The outcome holds what is to be printed. -/
def run (command : Command) (tree : FileTree) : Outcome String × FileTree :=
  match command with
  | .generate job none => (do return listing (← job.compile tree), tree)
  | .generate job (some directory) =>
    let compiled := job.compile tree
    match compiled.result with
    | .error e => (⟨compiled.warnings, .error e⟩, tree)
    | .ok files =>
      let (written, tree') := (writeFiles directory files.toList).run tree
      (⟨compiled.warnings, written.map fun _ =>
        "Generated " ++ toString files.toList.length ++ " files in " ++ directory ++ "\n"⟩, tree')
  | .check job =>
    (do
      let files ← job.compile tree
      return "OK: " ++ toString job.inputs.length ++ " input files, " ++ toString files.toList.length ++
        " artifacts\n", tree)
  | .parse input strict =>
    (do
      let text ← .ofExcept (readText tree input)
      let file ← SchemaFile.parse strict (SearchRoots.identify ⟨tree, []⟩ input) text
      return file.toJson.pretty 0 ++ "\n", tree)

end Command

def usage : String :=
  "Usage: protorec [-v]... generate -i FILE... [-I DIR]... [SETTING]... [-o DIR]\n" ++
  "       protorec [-v]... check -i FILE... [-I DIR]... [SETTING]...\n" ++
  "       protorec [-v]... parse -i FILE [--strict]\n" ++
  "Settings: --config FILE, --base-namespace PATH, --nested, --strict, --no-imports\n"

structure Response where
  code : Nat
  output : String := ""
  errors : String := ""
  warnings : List Warning := []

def respond (words : List String) (tree : FileTree) : Response × FileTree :=
  match Arguments.read words with
  | .error .help => ({ code := 0, output := usage }, tree)
  | .error .misuse => ({ code := 2, errors := usage }, tree)
  | .ok a =>
    let (outcome, tree') := (Command.ofArguments a).run tree
    match outcome.result with
    | .ok output => ({ code := 0, output, warnings := outcome.warnings }, tree')
    | .error e => ({ code := 1, errors := "error: " ++ e.message ++ "\n", warnings := outcome.warnings }, tree')

/-- The names of the inputs and of all that the texts of the tree import. -/
def Job.names (tree : FileTree) (job : Job) : List String :=
  let strict := ((job.config tree).toOption.map (·.strictFields)).getD job.strict
  job.inputs.map (SearchRoots.identify ⟨tree, job.roots⟩) ++ tree.texts.flatMap (Session.importsIn strict)

def Job.paths (tree : FileTree) (job : Job) : List String :=
  job.configFile.toList ++ job.roots ++ job.inputs ++
    (job.names tree).flatMap (SearchRoots.candidates ⟨tree, job.roots⟩)

def Command.paths (tree : FileTree) : Command → List String
  | generate job none => job.paths tree
  | generate job (some directory) =>
    let files := ((job.compile tree).result.toOption.map (·.toList)).getD []
    job.paths tree ++ files.map fun (name, _) => Path.join directory name
  | check job => job.paths tree
  | parse input _ => [input]

def waypoints (path : String) : List String :=
  let segments := Path.segments path
  (List.range segments.length).map fun n => Text.joinWith "/" (segments.take (n + 1))

end SchemaGen.CommandLine
