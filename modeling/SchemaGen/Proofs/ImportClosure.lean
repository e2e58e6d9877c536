import SchemaGen.Proofs.BreadthFirst
import SchemaGen.Proofs.Loading
/-!
# Loading follows the imports

A session takes up its inputs and what they import, each name once and in breadth-first order. A name without a
readable file is reported once, with the reason. If there is none, the files are registered in this order, and the
registry leads from the inputs to all of them again.
-/
namespace SchemaGen

theorem forall₂_filter_filterMap {α β : Type} {p : α → Bool} {g : α → Option β} {R : α → β → Prop} {as : List α}
    (each : ∀ a ∈ as, (p a = true ∧ ∃ b, g a = some b ∧ R a b) ∨ (p a = false ∧ g a = none)) :
    List.Forall₂ R (as.filter p) (as.filterMap g) := by
  induction as with
  | nil => exact .nil
  | cons a as ih =>
    have rest := ih fun b hb => each b (List.mem_cons_of_mem _ hb)
    rcases each a List.mem_cons_self with ⟨kept, b, turned, related⟩ | ⟨dropped, none⟩
    · rw [List.filter_cons_of_pos kept, List.filterMap_cons_some turned]
      exact .cons related rest
    · rw [List.filter_cons_of_neg (by simp [dropped]), List.filterMap_cons_none none]
      exact rest

namespace Session

def fileOf? (source : Source) (strict : Bool) (name : String) : Option SchemaFile :=
  match source.load name with
  | .ok (some text) => (SchemaFile.parse strict name text).result.toOption
  | _ => none

def importsOf (source : Source) (strict : Bool) (name : String) : List String :=
  match fileOf? source strict name with
  | some f => (f.imports.filter (!WellKnown.isImport ·.path)).map (·.path)
  | none => []

/-- The names that the inputs need: themselves, and whatever a file with such a name imports. -/
inductive Needs (source : Source) (strict : Bool) (inputs : List String) : String → Prop
  | input {name : String} (given : name ∈ inputs) : Needs source strict inputs name
  | imported {importer name : String} (needed : Needs source strict inputs importer)
      (listed : name ∈ importsOf source strict importer) : Needs source strict inputs name

/-- The reason why a name has no file. A missing name that no input asks for is blamed on a file that imports it. -/
inductive Explains (source : Source) (strict : Bool) (inputs : List String) (name : String) : SchemaError → Prop
  | missingInput (missing : source.load name = .ok none) (given : name ∈ inputs) :
      Explains source strict inputs name (.missingInput name)
  | missingImport {importer : String} (missing : source.load name = .ok none) (notGiven : name ∉ inputs)
      (needed : Needs source strict inputs importer) (listed : name ∈ importsOf source strict importer) :
      Explains source strict inputs name (.missingImport importer name)
  | unreadable {text : String} {misread : Misread} (loaded : source.load name = .ok (some text))
      (faulty : (Schema.read strict text).result = .error misread) :
      Explains source strict inputs name (.parse name misread)
  | inaccessible {e : SchemaError} (failed : source.load name = .error e) : Explains source strict inputs name e

section file
variable {source : Source} {strict : Bool} {q : Request}

theorem toOption_loadFile : (loadFile source strict q).result.toOption = fileOf? source strict q.name := by
  unfold loadFile fileOf?
  rcases source.load q.name with e | _ | text
  · rfl
  · cases q.importer <;> rfl
  · rfl

theorem names_requests :
    (requests (loadFile source strict q)).map (·.name) = importsOf source strict q.name := by
  unfold requests importsOf
  rw [← toOption_loadFile]
  cases (loadFile source strict q).result with
  | error e => rfl
  | ok f => simp [Except.toOption]

theorem importer_of_mem_requests {p : Request} (h : p ∈ requests (loadFile source strict q)) :
    p.importer = some q.name := by
  obtain ⟨f, read, i, _, _, rfl⟩ := mem_requests.mp h
  obtain ⟨text, _, parsed⟩ := loadFile_eq_ok.mp read
  simp [(SchemaFile.parse_eq_ok parsed).2]

end file

section settle
variable {α : Type} {outcomes : List (Outcome α)}

def failure? (o : Outcome α) : Option SchemaError :=
  match o.result with
  | .error e => some e
  | .ok _ => none

theorem settle_result : (settle outcomes).result = match SchemaError.collect? (outcomes.filterMap failure?) with
    | some e => .error e
    | none => .ok (outcomes.filterMap (·.result.toOption)) := by
  unfold settle
  dsimp only
  congr 1
  funext _
  congr 2
  funext o
  cases o.result <;> rfl

theorem settle_of_failure (failed : outcomes.filterMap failure? ≠ []) :
    (∃ e, outcomes.filterMap failure? = [e] ∧ (settle outcomes).result = .error e) ∨
      (2 ≤ (outcomes.filterMap failure?).length ∧
        (settle outcomes).result = .error (.multiple (outcomes.filterMap failure?))) := by
  rw [settle_result]
  match outcomes.filterMap failure?, failed with
  | [e], _ => exact .inl ⟨e, rfl, rfl⟩
  | e :: e' :: es, _ => exact .inr ⟨by simp, rfl⟩

theorem settle_of_ok {values : List α} (each : outcomes.map (·.result.toOption) = values.map some) :
    (settle outcomes).result = .ok values := by
  have none : outcomes.filterMap failure? = [] := by
    rw [List.filterMap_eq_nil_iff]
    intro o ho
    have value : o.result.toOption ∈ values.map some := each ▸ List.mem_map_of_mem ho
    obtain ⟨a, _, read⟩ := List.mem_map.mp value
    unfold failure?
    cases result : o.result with
    | ok a => rfl
    | error e => simp [result, Except.toOption] at read
  have all : outcomes.filterMap (·.result.toOption) = values := by
    have mapped := congrArg (List.filterMap id) each
    simpa [List.filterMap_map] using mapped
  rw [settle_result, none, all]
  rfl

end settle

section load
variable {config : Config} {source : Source} {inputs : List String}

def taken (config : Config) (source : Source) (inputs : List String) : List String :=
  (requested config source inputs).map (·.name)

theorem load_eq (valid : config.check = .ok ()) :
    load config source inputs =
      (do .ofExcept (Registry.registerAll {} (← settle ((requested config source inputs).map
        (loadFile source config.strictFields))))) := by
  unfold load requested
  rw [valid, Walk.run_eq_map_places]
  rfl

theorem levelOrder_taken :
    LevelOrder (importsOf source config.strictFields) [] inputs (taken config source inputs) := by
  have names : inputs = (inputs.map fun name => (⟨name, none⟩ : Request)).map (·.name) := by
    rw [List.map_map]
    exact (List.map_id inputs).symm
  conv => enter [3]; rw [names]
  exact Walk.levelOrder_places (w := loadWalk source config.strictFields) (fun _ => names_requests) _ [] (by simp)

theorem nodup_taken : (taken config source inputs).Nodup :=
  (loadWalk source config.strictFields).places_keys_nodup .breadthFirst _ []

/-- A session takes up exactly the names that its inputs need. -/
theorem mem_taken_iff {name : String} :
    name ∈ taken config source inputs ↔ Needs source config.strictFields inputs name := by
  constructor
  · intro h
    obtain ⟨q, hq, rfl⟩ := List.mem_map.mp h
    obtain ⟨start, hs, path⟩ := Walk.reachable_of_mem_places hq
    clear h hq
    induction path with
    | refl =>
      obtain ⟨name, given, rfl⟩ := List.mem_map.mp hs
      exact .input given
    | tail _ step ih =>
      apply Needs.imported ih
      rw [← names_requests]
      exact List.mem_map_of_mem step
  · intro h
    induction h with
    | @input name given =>
      have done : (loadWalk source config.strictFields).Done [] (requested config source inputs) name :=
        Walk.done_of_mem_waiting (List.mem_map.mpr ⟨name, given, rfl⟩)
      rcases done with none | visited
      · cases none
      · exact List.mem_map.mpr visited
    | imported _ listed ih =>
      obtain ⟨q, hq, rfl⟩ := List.mem_map.mp ih
      rw [← names_requests] at listed
      obtain ⟨p, hp, rfl⟩ := List.mem_map.mp listed
      rcases Walk.done_of_leads (w := loadWalk source config.strictFields) hq hp with none | visited
      · cases none
      · exact List.mem_map.mpr visited

theorem importer_of_mem_requested {q : Request} (h : q ∈ requested config source inputs) :
    (q.importer = none ∧ q.name ∈ inputs) ∨
    ∃ importer, q.importer = some importer ∧ q.name ∉ inputs ∧ Needs source config.strictFields inputs importer ∧
      q.name ∈ importsOf source config.strictFields importer := by
  by_cases given : q.name ∈ inputs
  · left
    have waits : q ∈ inputs.map fun name => (⟨name, none⟩ : Request) := by
      rw [requested, ← List.append_nil (inputs.map _)] at h
      exact Walk.mem_pending_of_key h (by simpa [loadWalk] using given)
    obtain ⟨_, _, rfl⟩ := List.mem_map.mp waits
    exact ⟨rfl, given⟩
  · right
    rcases Walk.mem_waiting_or_leads h with waits | ⟨p, hp, found⟩
    · obtain ⟨_, named, rfl⟩ := List.mem_map.mp waits
      exact absurd named given
    · refine ⟨p.name, importer_of_mem_requests found, given, mem_taken_iff.mp (List.mem_map_of_mem hp), ?_⟩
      rw [← names_requests]
      exact List.mem_map_of_mem found

theorem explains_of_mem_requested {q : Request} (h : q ∈ requested config source inputs) :
    ((fileOf? source config.strictFields q.name).isNone = true ∧
      ∃ e, failure? (loadFile source config.strictFields q) = some e ∧
        Explains source config.strictFields inputs q.name e) ∨
    ((fileOf? source config.strictFields q.name).isNone = false ∧
      failure? (loadFile source config.strictFields q) = none) := by
  unfold loadFile failure? fileOf?
  rcases loaded : source.load q.name with e | _ | text
  · exact .inl ⟨rfl, e, rfl, .inaccessible loaded⟩
  · left
    refine ⟨rfl, ?_⟩
    rcases importer_of_mem_requested h with ⟨asked, given⟩ | ⟨importer, asked, notGiven, needed, listed⟩
    · exact ⟨_, by rw [asked]; rfl, .missingInput loaded given⟩
    · exact ⟨_, by rw [asked]; rfl, .missingImport loaded notGiven needed listed⟩
  · simp only [SchemaFile.parse, Report.relabel]
    cases read : (Schema.read config.strictFields text).result with
    | ok schema => exact .inr ⟨rfl, rfl⟩
    | error misread => exact .inl ⟨rfl, _, rfl, .unreadable loaded read⟩

/-- The failures are those of the names without a file, in the order in which these are taken up. -/
theorem explains_failures :
    List.Forall₂ (Explains source config.strictFields inputs)
      ((taken config source inputs).filter fun name => (fileOf? source config.strictFields name).isNone)
      (((requested config source inputs).map (loadFile source config.strictFields)).filterMap failure?) := by
  rw [taken, List.filter_map, List.filterMap_map, List.forall₂_map_left_iff]
  exact forall₂_filter_filterMap fun _ hq => explains_of_mem_requested hq

end load

end Session

namespace Registry
variable {r : Registry}

theorem closure_eq (roots : List String) :
    r.closure roots = (r.fileWalk.places .depthFirst roots []).filterMap r.file? := by
  rw [closure, Walk.run_eq_map_places, List.filterMap_map]
  congr 1
  funext name
  simp only [fileWalk, Function.comp_apply]
  cases r.file? name <;> rfl

theorem Consistent.nodup_closure (c : r.Consistent) (roots : List String) : (r.closure roots).Nodup := by
  rw [closure_eq]
  apply List.Nodup.filterMap
  · intro a b f ha hb
    exact (c.name_of_file? ha).symm.trans (c.name_of_file? hb)
  · have keys := r.fileWalk.places_keys_nodup .depthFirst roots []
    simpa [fileWalk] using keys

end Registry

namespace Session

theorem name_of_fileOf? {source : Source} {strict : Bool} {name : String} {f : SchemaFile}
    (h : fileOf? source strict name = some f) : f.name = name := by
  unfold fileOf? at h
  split at h
  · rename_i text _
    cases read : (SchemaFile.parse strict name text).result with
    | error e => simp [read, Except.toOption] at h
    | ok g =>
      simp only [read, Except.toOption, Option.some.injEq] at h
      rw [← h]
      exact (SchemaFile.parse_eq_ok read).2
  · cases h

section files
variable {config : Config} {source : Source} {inputs : List String}

theorem exists_files
    (present : ∀ name, Needs source config.strictFields inputs name → fileOf? source config.strictFields name ≠ none) :
    ∃ files : List SchemaFile,
      (taken config source inputs).map (fileOf? source config.strictFields) = files.map some := by
  refine ⟨(taken config source inputs).filterMap (fileOf? source config.strictFields), ?_⟩
  have each : ∀ name ∈ taken config source inputs, fileOf? source config.strictFields name ≠ none :=
    fun name hn => present name (mem_taken_iff.mp hn)
  generalize taken config source inputs = names at each
  induction names with
  | nil => rfl
  | cons name names ih =>
    obtain ⟨f, read⟩ := Option.ne_none_iff_exists.mp (each name List.mem_cons_self)
    have rest := ih fun n hn => each n (List.mem_cons_of_mem _ hn)
    rw [List.map_cons, List.filterMap_cons_some read.symm, List.map_cons, rest, read]

theorem names_of_files {files : List SchemaFile}
    (read : (taken config source inputs).map (fileOf? source config.strictFields) = files.map some) :
    files.map (·.name) = taken config source inputs := by
  generalize taken config source inputs = names at read
  induction names generalizing files with
  | nil => simpa using read
  | cons name names ih =>
    cases files with
    | nil => simp at read
    | cons f files =>
      rw [List.map_cons, List.map_cons, List.cons.injEq] at read
      rw [List.map_cons, name_of_fileOf? read.1, ih read.2]

end files

/-- A session takes up just the names that its inputs need. Either all that have no file are reported, or the files
are registered, and the registry has the same files to offer for the inputs. -/
theorem load_follows_imports {config : Config} (valid : config.check = .ok ()) (source : Source)
    (inputs : List String) :
    load config source inputs = (do .ofExcept (Registry.registerAll {} (← settle
      ((requested config source inputs).map (loadFile source config.strictFields))))) ∧
    (taken config source inputs).Nodup ∧
    (∀ name, name ∈ taken config source inputs ↔ Needs source config.strictFields inputs name) ∧
    LevelOrder (importsOf source config.strictFields) [] inputs (taken config source inputs) ∧
    ((∃ name, Needs source config.strictFields inputs name ∧ fileOf? source config.strictFields name = none) →
      ∃ errors, List.Forall₂ (Explains source config.strictFields inputs)
          ((taken config source inputs).filter fun name => (fileOf? source config.strictFields name).isNone) errors ∧
        ((∃ e, errors = [e] ∧ (load config source inputs).result = .error e) ∨
          (2 ≤ errors.length ∧ (load config source inputs).result = .error (.multiple errors)))) ∧
    ((∀ name, Needs source config.strictFields inputs name → fileOf? source config.strictFields name ≠ none) →
      ∃ files : List SchemaFile,
        (taken config source inputs).map (fileOf? source config.strictFields) = files.map some ∧
        (load config source inputs).result = Registry.registerAll {} files ∧
        ∀ r, (load config source inputs).result = .ok r → r.files = files ∧ (r.closure inputs).Perm files) := by
  refine ⟨load_eq valid, nodup_taken, fun _ => mem_taken_iff, levelOrder_taken, ?_, ?_⟩
  · rintro ⟨name, needed, absent⟩
    have explained := @explains_failures config source inputs
    refine ⟨_, explained, ?_⟩
    have failed : ((requested config source inputs).map (loadFile source config.strictFields)).filterMap failure? ≠
        [] := by
      intro none
      rw [none, List.forall₂_nil_right_iff, List.filter_eq_nil_iff] at explained
      exact explained name (mem_taken_iff.mpr needed) (by rw [absent]; rfl)
    rw [load_eq valid]
    rcases settle_of_failure failed with ⟨e, single, result⟩ | ⟨several, result⟩
    · exact .inl ⟨e, single, Report.bind_result_of_error result _⟩
    · exact .inr ⟨several, Report.bind_result_of_error result _⟩
  · intro present
    obtain ⟨files, read⟩ := exists_files present
    have result : (load config source inputs).result = Registry.registerAll {} files := by
      rw [load_eq valid]
      apply Report.bind_result_of_ok (settle_of_ok _)
      rw [← read, taken, List.map_map, List.map_map]
      exact List.map_congr_left fun q _ => toOption_loadFile
    refine ⟨files, read, result, ?_⟩
    intro r loaded
    have distinct : (files.map (·.name)).Nodup := by
      rw [names_of_files read]
      exact nodup_taken
    have registered : r.files = files :=
      Registry.consistent_empty.files_of_registerAll (by simpa using distinct) (result.symm.trans loaded)
    have consistent := Registry.consistent_empty.registerAll (result.symm.trans loaded)
    refine ⟨registered, ?_⟩
    rw [List.perm_ext_iff_of_nodup (consistent.nodup_closure inputs) distinct.of_map, ← registered]
    intro f
    exact ⟨Registry.mem_files_of_mem_closure, mem_closure_of_mem_files loaded⟩

/-- Files in a circle, one of which also imports a name that is missing; a text that breaks off; another circle. -/
def looseSource : Source :=
  .ofList [("a", "import \"b\";import \"c\";import \"google/protobuf/any.proto\";"), ("b", "import \"a\";"),
    ("d", "message D\x7b"), ("e", "import \"f\";"), ("f", "import \"e\";import \"f\";")]

theorem load_follows_imports_loose :
    ({} : Config).check = .ok () ∧ taken {} looseSource ["a", "d", "a"] = ["a", "d", "b", "c"] ∧
    (∃ e e', (load {} looseSource ["a", "d", "a"]).result = .error (.multiple [e, e']) ∧
      Explains looseSource false ["a", "d", "a"] "d" e ∧ Explains looseSource false ["a", "d", "a"] "c" e') ∧
    ∃ r, (load {} looseSource ["f"]).result = .ok r ∧ r.files.map (·.name) = ["f", "e"] ∧
      (r.closure ["f"]).Perm r.files := by
  have valid : ({} : Config).check = .ok () := if_pos (by decide)
  have facts : (taken {} looseSource ["a", "d", "a"] = ["a", "d", "b", "c"] ∧ taken {} looseSource ["f"] = ["f", "e"]) ∧
      (["a", "d", "b", "c"].filter fun name => (fileOf? looseSource false name).isNone) = ["d", "c"] ∧
      fileOf? looseSource false "d" = none ∧ (∀ name ∈ ["f", "e"], fileOf? looseSource false name ≠ none) ∧
      (load {} looseSource ["f"]).result.toBool := by
    simp only [taken, requested, Walk.places, load, Walk.run_eq_runFor]
    decide +kernel
  obtain ⟨⟨names, circle⟩, absent, fault, present, loads⟩ := facts
  refine ⟨valid, names, ?_, ?_⟩
  · obtain ⟨_, _, _, _, failing, _⟩ := load_follows_imports valid looseSource ["a", "d", "a"]
    obtain ⟨errors, explained, result⟩ := failing ⟨"d", .input (by simp), fault⟩
    rw [names, absent] at explained
    obtain _ | ⟨first, _ | ⟨second, _ | _⟩⟩ := explained
    rcases result with ⟨_, single, _⟩ | ⟨_, result⟩
    · cases single
    · exact ⟨_, _, result, first, second⟩
  · obtain ⟨_, _, members, _, _, registers⟩ := load_follows_imports valid looseSource ["f"]
    rw [circle] at members registers
    obtain ⟨files, read, _, registered⟩ := registers fun name needed => present name ((members name).mpr needed)
    cases result : (load {} looseSource ["f"]).result with
    | error e => simp [result, Except.toBool] at loads
    | ok r =>
      obtain ⟨same, perm⟩ := registered r result
      rw [← circle] at read ⊢
      exact ⟨r, rfl, by rw [same, names_of_files read], by rw [same]; exact perm⟩

end Session

end SchemaGen
