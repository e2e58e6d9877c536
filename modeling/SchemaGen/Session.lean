import SchemaGen.Output.Schedule
import SchemaGen.Schema.Read
/-!
A session: the input files and everything they import are loaded and registered, and then generated. Files that
are missing or malformed do not keep the others from being read, so that all of them are reported together.
-/
namespace SchemaGen
open Output

/-- Where schema text comes from, by the names that imports use. A source holds finitely many texts. -/
structure Source where
  /-- The text of a name, if there is one, or the reason why it cannot be read. -/
  load : String → Except SchemaError (Option String)
  texts : List String
  mem_texts : ∀ {name text : String}, load name = .ok (some text) → text ∈ texts

namespace Source

/-- Texts held in memory. Of two with one name the later counts. -/
def ofList (files : List (String × String)) : Source where
  load name := .ok ((files.reverse.find? (·.1 == name)).map (·.2))
  texts := files.map (·.2)
  mem_texts := by
    intro name text h
    obtain ⟨p, found, rfl⟩ := Option.map_eq_some_iff.mp (Except.ok.inj h)
    exact List.mem_map.mpr ⟨p, List.mem_reverse.mp (List.mem_of_find?_eq_some found), rfl⟩

end Source

/-- A file that is needed, as an input or by another file. -/
structure Request where
  name : String
  importer : Option String

namespace Session

def loadFile (source : Source) (strict : Bool) (q : Request) : Outcome SchemaFile :=
  match source.load q.name with
  | .ok (some text) => SchemaFile.parse strict q.name text
  | .ok none =>
    match q.importer with
    | some file => .fail (.missingImport file q.name)
    | none => .fail (.missingInput q.name)
  | .error e => .fail e

def requests (file : Outcome SchemaFile) : List Request :=
  match file.result with
  | .ok f => (f.imports.filter (!WellKnown.isImport ·.path)).map fun i => ⟨i.path, some f.name⟩
  | .error _ => []

def importsIn (strict : Bool) (text : String) : List String :=
  match (Schema.read strict text).result with
  | .ok schema => schema.imports.map (·.path)
  | .error _ => []

theorem mem_importsIn {source : Source} {strict : Bool} {q p : Request}
    (h : p ∈ requests (loadFile source strict q)) : p.name ∈ source.texts.flatMap (importsIn strict) := by
  unfold requests at h
  split at h
  · rename_i f hf
    obtain ⟨i, imported, rfl⟩ := List.mem_map.mp h
    unfold loadFile at hf
    split at hf
    · rename_i text loaded
      have read := (SchemaFile.parse_eq_ok hf).1
      refine List.mem_flatMap.mpr ⟨text, source.mem_texts loaded, ?_⟩
      simp only [importsIn, read]
      exact List.mem_map.mpr ⟨i, (List.mem_filter.mp imported).1, rfl⟩
    · split at hf <;> simp [Report.fail] at hf
    · simp [Report.fail] at hf
  · simp at h

/-- From a needed file to what reading it gives and the files it needs. -/
def loadWalk (source : Source) (strict : Bool) : Walk Request (Outcome SchemaFile) where
  key := Request.name
  visit q :=
    let file := loadFile source strict q
    (file, requests file)
  keys := source.texts.flatMap (importsIn strict)
  found_mem := fun _ _ h => mem_importsIn h

/-- All values, or all failures together. -/
def settle {α : Type} (outcomes : List (Outcome α)) : Outcome (List α) :=
  let failures := outcomes.filterMap fun o => match o.result with
    | .error e => some e
    | .ok _ => none
  let values := outcomes.filterMap fun o => match o.result with
    | .error _ => none
    | .ok a => some a
  ⟨outcomes.flatMap (·.warnings), match SchemaError.collect? failures with
    | some e => .error e
    | none => .ok values⟩

/-- Loads and registers the inputs and what they import. -/
def load (config : Config) (source : Source) (inputs : List String) : Outcome Registry := do
  .ofExcept config.check
  let outcomes := (loadWalk source config.strictFields).run .breadthFirst (inputs.map (⟨·, none⟩)) []
  .ofExcept (Registry.registerAll {} (← settle outcomes))

/-- Generates the inputs, and what they import if the configuration says so. -/
def generate (config : Config) (registry : Registry) (inputs : List String) : Outcome Files :=
  let files := if config.includeImports then registry.closure inputs else inputs.filterMap registry.file?
  (Schedule.addAll { registry, config } files).generate

def compile (config : Config) (source : Source) (inputs : List String) : Outcome Files := do
  generate config (← load config source inputs) inputs

end Session

end SchemaGen
