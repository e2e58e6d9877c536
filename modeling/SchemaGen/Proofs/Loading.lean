import SchemaGen.Proofs.Registry
import SchemaGen.Proofs.Walk
import SchemaGen.Proofs.WellFormed
import SchemaGen.Session
/-!
# What a session loads

A session reads its inputs and whatever these import, file after file, the built-in imports apart. All of it is
registered, and what the inputs need according to the registry is again all of it.
-/
namespace SchemaGen

namespace Session
open Relation

/-- A file that the inputs need: an input, or what such a file imports, unless the import is a built-in one. -/
inductive Loads (source : Source) (strict : Bool) (inputs : List String) : SchemaFile → Prop
  | input {name text : String} {f : SchemaFile} (named : name ∈ inputs) (loaded : source.load name = .ok (some text))
      (read : (SchemaFile.parse strict name text).result = .ok f) : Loads source strict inputs f
  | imported {g f : SchemaFile} {i : Import} {text : String} (importer : Loads source strict inputs g)
      (listed : i ∈ g.imports) (own : ¬ WellKnown.isImport i.path) (loaded : source.load i.path = .ok (some text))
      (read : (SchemaFile.parse strict i.path text).result = .ok f) : Loads source strict inputs f

theorem Loads.parsed {source : Source} {strict : Bool} {inputs : List String} {f : SchemaFile}
    (h : Loads source strict inputs f) : f.Parsed := by
  cases h with
  | input _ _ read => exact SchemaFile.parsed_of_parse read
  | imported _ _ _ _ read => exact SchemaFile.parsed_of_parse read

theorem loadFile_eq_ok {source : Source} {strict : Bool} {q : Request} {f : SchemaFile} :
    (loadFile source strict q).result = .ok f ↔
      ∃ text, source.load q.name = .ok (some text) ∧ (SchemaFile.parse strict q.name text).result = .ok f := by
  unfold loadFile
  split
  · rename_i text loaded
    simp [loaded]
  · rename_i missing
    rw [missing]
    cases q.importer <;> simp
  · rename_i e failed
    simp [failed]

theorem mem_requests {o : Outcome SchemaFile} {q : Request} :
    q ∈ requests o ↔
      ∃ f, o.result = .ok f ∧ ∃ i ∈ f.imports, ¬ WellKnown.isImport i.path ∧ q = ⟨i.path, some f.name⟩ := by
  unfold requests
  split
  · rename_i f read
    simp only [read, List.mem_map, List.mem_filter, Bool.not_eq_true', Bool.not_eq_true]
    constructor
    · rintro ⟨i, ⟨listed, own⟩, rfl⟩
      exact ⟨f, rfl, i, listed, own, rfl⟩
    · rintro ⟨_, same, i, listed, own, rfl⟩
      cases same
      exact ⟨i, ⟨listed, own⟩, rfl⟩
  · rename_i e failed
    simp [failed]

theorem collect?_eq_none {es : List SchemaError} (h : SchemaError.collect? es = none) : es = [] := by
  unfold SchemaError.collect? at h
  split at h
  · rfl
  · cases h
  · cases h

theorem settle_eq_ok {α : Type} {outcomes : List (Outcome α)} {values : List α}
    (h : (settle outcomes).result = .ok values) : List.Forall₂ (fun o a => o.result = .ok a) outcomes values := by
  unfold settle at h
  dsimp only at h
  split at h
  · cases h
  · rename_i none
    cases h
    have failures := collect?_eq_none none
    clear none
    induction outcomes with
    | nil => exact .nil
    | cons o outcomes ih =>
      cases result : o.result with
      | error e => simp [result] at failures
      | ok a =>
        simp only [List.filterMap_cons, result] at failures ⊢
        exact .cons result (ih failures)

section load
variable {config : Config} {source : Source} {inputs : List String} {r : Registry}

def requested (config : Config) (source : Source) (inputs : List String) : List Request :=
  (loadWalk source config.strictFields).places .breadthFirst (inputs.map (⟨·, none⟩)) []

theorem load_eq_ok (h : (load config source inputs).result = .ok r) :
    ∃ files, List.Forall₂ (fun q f => (loadFile source config.strictFields q).result = .ok f)
      (requested config source inputs) files ∧ Registry.registerAll {} files = .ok r := by
  obtain ⟨_, _, h⟩ := Report.bind_result_ok.mp h
  obtain ⟨files, settled, h⟩ := Report.bind_result_ok.mp h
  refine ⟨files, ?_, h⟩
  have each := settle_eq_ok settled
  rw [Walk.run_eq_map_places, List.forall₂_map_left_iff] at each
  exact each

theorem check_of_load (h : (load config source inputs).result = .ok r) : config.check = .ok () := by
  obtain ⟨⟨⟩, checked, _⟩ := Report.bind_result_ok.mp h
  exact checked

theorem loads_of_requested {q : Request} (hq : q ∈ requested config source inputs) {f : SchemaFile}
    (read : (loadFile source config.strictFields q).result = .ok f) :
    Loads source config.strictFields inputs f := by
  obtain ⟨start, hs, path⟩ := Walk.reachable_of_mem_places hq
  clear hq
  induction path generalizing f with
  | refl =>
    obtain ⟨name, named, rfl⟩ := List.mem_map.mp hs
    obtain ⟨text, loaded, read⟩ := loadFile_eq_ok.mp read
    exact .input named loaded read
  | tail _ step ih =>
    obtain ⟨g, importer, i, listed, own, rfl⟩ := mem_requests.mp step
    obtain ⟨text, loaded, read⟩ := loadFile_eq_ok.mp read
    exact .imported (ih importer) listed own loaded read

/-- Every file that the inputs need is requested by its name. -/
theorem Loads.requested {f : SchemaFile} (h : Loads source config.strictFields inputs f) :
    ∃ q ∈ Session.requested config source inputs, (loadFile source config.strictFields q).result = .ok f := by
  induction h with
  | @input name text f named loaded read =>
    have done : (loadWalk source config.strictFields).Done [] (Session.requested config source inputs) name :=
      Walk.done_of_mem_waiting (List.mem_map.mpr ⟨name, named, rfl⟩)
    rcases done with none | ⟨q, hq, same⟩
    · cases none
    · obtain rfl : q.name = name := same
      exact ⟨q, hq, loadFile_eq_ok.mpr ⟨text, loaded, read⟩⟩
  | @imported g f i text _ listed own loaded read ih =>
    obtain ⟨q, hq, importer⟩ := ih
    have step : (loadWalk source config.strictFields).Leads q ⟨i.path, some g.name⟩ :=
      mem_requests.mpr ⟨g, importer, i, listed, own, rfl⟩
    rcases Walk.done_of_leads hq step with none | ⟨q', hq', same⟩
    · cases none
    · have same : q'.name = i.path := same
      rw [← same] at loaded read
      exact ⟨q', hq', loadFile_eq_ok.mpr ⟨text, loaded, read⟩⟩

/-- The registered files are the ones that the inputs need. -/
theorem mem_files_iff_loads (h : (load config source inputs).result = .ok r) {f : SchemaFile} :
    f ∈ r.files ↔ Loads source config.strictFields inputs f := by
  obtain ⟨files, each, registered⟩ := load_eq_ok h
  have results : (requested config source inputs).map (fun q => (loadFile source config.strictFields q).result) =
      files.map .ok := by
    rw [← List.forall₂_eq_eq_eq, List.forall₂_map_left_iff, List.forall₂_map_right_iff]
    exact each
  have names : (requested config source inputs).map (·.name) = files.map (·.name) := by
    rw [← List.forall₂_eq_eq_eq, List.forall₂_map_left_iff, List.forall₂_map_right_iff]
    refine each.imp ?_
    intro q f read
    obtain ⟨text, _, read⟩ := loadFile_eq_ok.mp read
    exact (SchemaFile.parse_eq_ok read).2.symm
  -- A name is requested once, so no file takes the place of another when they are registered.
  have distinct : (files.map (·.name)).Nodup := by
    rw [← names]
    exact (loadWalk source config.strictFields).places_keys_nodup .breadthFirst _ []
  have mem : f ∈ files ↔ ∃ q ∈ requested config source inputs,
      (loadFile source config.strictFields q).result = .ok f := by
    rw [← List.mem_map, results, List.mem_map]
    simp
  rw [Registry.consistent_empty.files_of_registerAll (by simpa using distinct) registered, List.nil_append, mem]
  constructor
  · rintro ⟨q, hq, read⟩
    exact loads_of_requested hq read
  · exact Loads.requested

theorem consistent_of_load (h : (load config source inputs).result = .ok r) : r.Consistent := by
  obtain ⟨_, _, registered⟩ := load_eq_ok h
  exact Registry.consistent_empty.registerAll registered

theorem exists_of_mem_requested (h : (load config source inputs).result = .ok r) {q : Request}
    (hq : q ∈ requested config source inputs) : ∃ f, (loadFile source config.strictFields q).result = .ok f := by
  obtain ⟨files, each, -⟩ := load_eq_ok h
  generalize requested config source inputs = requests at hq each
  induction each with
  | nil => cases hq
  | cons first _ ih =>
    rcases List.mem_cons.mp hq with rfl | hq
    · exact ⟨_, first⟩
    · exact ih hq

/-- For every input a file is registered that was read from what the source has under its name. -/
theorem exists_of_input (h : (load config source inputs).result = .ok r) {name : String} (named : name ∈ inputs) :
    ∃ text f, source.load name = .ok (some text) ∧ (SchemaFile.parse config.strictFields name text).result = .ok f ∧
      r.file? name = some f := by
  have done : (loadWalk source config.strictFields).Done [] (requested config source inputs) name :=
    Walk.done_of_mem_waiting (List.mem_map.mpr ⟨name, named, rfl⟩)
  rcases done with none | ⟨q, hq, same⟩
  · cases none
  · obtain rfl : q.name = name := same
    obtain ⟨f, opened⟩ := exists_of_mem_requested h hq
    obtain ⟨text, loaded, read⟩ := loadFile_eq_ok.mp opened
    have registered : f ∈ r.files := (mem_files_iff_loads h).mpr (.input named loaded read)
    have found := (consistent_of_load h).file?_eq registered
    rw [(SchemaFile.parse_eq_ok read).2] at found
    exact ⟨text, f, loaded, read, found⟩

end load

end Session

namespace Registry
open Relation
variable {r : Registry} (c : r.Consistent)
include c

theorem Consistent.visit_fileWalk {f : SchemaFile} (hf : f ∈ r.files) :
    r.fileWalk.visit f.name = (some f, (f.imports.filter (!WellKnown.isImport ·.path)).map (·.path)) := by
  simp only [fileWalk, c.file?_eq hf]

theorem Consistent.mem_closure_iff {roots : List String} {f : SchemaFile} (hf : f ∈ r.files) :
    f ∈ r.closure roots ↔ ∃ start ∈ roots, ReflTransGen r.fileWalk.Leads start f.name := by
  have visited : f.name ∈ r.fileWalk.places .depthFirst roots [] ↔
      ∃ start ∈ roots, ReflTransGen r.fileWalk.Leads start f.name :=
    Walk.mem_places_iff (S := fun _ => True) (fun _ _ => trivial) (fun _ _ _ _ => trivial) (fun _ _ _ _ same => same)
  rw [← visited, closure, Walk.run_eq_map_places, List.mem_filterMap]
  simp only [List.mem_map, id_eq, exists_eq_right]
  constructor
  · rintro ⟨name, hn, found⟩
    simp only [fileWalk] at found
    split at found
    · rename_i g known
      cases found
      rw [c.name_of_file? known]
      exact hn
    · cases found
  · intro hn
    exact ⟨f.name, hn, by rw [c.visit_fileWalk hf]⟩

omit c in
theorem mem_files_of_mem_closure {roots : List String} {f : SchemaFile} (h : f ∈ r.closure roots) : f ∈ r.files := by
  rw [closure, Walk.run_eq_map_places, List.mem_filterMap] at h
  obtain ⟨_, visited, rfl⟩ := h
  obtain ⟨name, _, found⟩ := List.mem_map.mp visited
  simp only [fileWalk] at found
  split at found
  · rename_i g known
    cases found
    exact mem_files_of_file? known
  · cases found

end Registry

namespace Session
open Relation

/-- Every registered file is among the inputs and what they import according to the registry. -/
theorem mem_closure_of_mem_files {config : Config} {source : Source} {inputs : List String} {r : Registry}
    (h : (load config source inputs).result = .ok r) {f : SchemaFile} (hf : f ∈ r.files) : f ∈ r.closure inputs := by
  have c := consistent_of_load h
  rw [c.mem_closure_iff hf]
  induction (mem_files_iff_loads h).mp hf with
  | input named _ read => exact ⟨_, named, by rw [(SchemaFile.parse_eq_ok read).2]⟩
  | @imported g f i text importer listed own _ read ih =>
    have hg := (mem_files_iff_loads h).mpr importer
    obtain ⟨start, hs, path⟩ := ih hg
    refine ⟨start, hs, path.tail ?_⟩
    rw [Walk.Leads, c.visit_fileWalk hg, (SchemaFile.parse_eq_ok read).2]
    exact List.mem_map_of_mem (List.mem_filter.mpr ⟨listed, by simpa using own⟩)

end Session

end SchemaGen
