import SchemaGen.Proofs.Emission
import SchemaGen.Proofs.ModuleTree
import SchemaGen.Proofs.Page
/-!
# Collisions

Where all type names have a meaning, generating fails exactly when two declarations collide in some module. Otherwise
the records of a module are found in one file, and every other declaration in one of its own.
-/
namespace SchemaGen
open Code Output

namespace Output.Schedule
variable {s : Schedule}

def sourcesAt (s : Schedule) (directory : List String) : List String :=
  (s.filesAt s.files directory).map (·.name)

/-- The records of a directory: one for every message of its files, and the built-in ones that belong there. -/
def recordPieces (s : Schedule) (directory : List String) : List Piece :=
  ((s.filesAt s.files directory).flatMap fun f =>
    f.everyMessage.map fun n => .declared ⟨within (s.siteOf f) n.scope, .message n.message⟩) ++
    if directory = s.builtInDirectory then s.builtIns.map .builtIn else []

/-- Every type name that the files use has a meaning. -/
def Resolves (s : Schedule) : Prop :=
  ∀ f ∈ s.files, ∀ n ∈ f.everyMessage, ∀ x ∈ n.message.allFields, ∀ name, x.Names name →
    (s.registry.resolve? (f.placeAt n) name).isSome

/-- Two declarations of a module have one type name, two files have one stem, a file is called like that of the
records, or a file is called like a module below. -/
inductive Collision (s : Schedule) (directory : List String) : Prop
  | name (twice : ¬ ((s.pieces directory).map Piece.name).Nodup)
  | stem (twice : ¬ (stemsOf (s.pieces directory)).Nodup)
  | records (taken : recordStem ∈ stemsOf (s.pieces directory))
  | child (stem : String) (written : stem ∈ s.stems directory) (below : s.Spans (directory ++ [stem]))

theorem recordsOf_declaredAt (site : Site) (n : Nested) :
    recordsOf ((declaredAt site n).map .declared) = [.declared ⟨within site n.scope, .message n.message⟩] := by
  have record : (Piece.declared ⟨within site n.scope, .message n.message⟩).stem?.isNone = true := rfl
  rw [declaredAt, List.map_cons, recordsOf, List.filter_cons, if_pos record, List.cons.injEq,
    List.filter_eq_nil_iff]
  refine ⟨rfl, ?_⟩
  intro p hp
  obtain ⟨d, hd, rfl⟩ := List.mem_map.mp hp
  rcases List.mem_append.mp hd with hd | hd
  · obtain ⟨o, _, rfl⟩ := List.mem_map.mp hd
    exact Bool.false_ne_true
  · obtain ⟨e, _, rfl⟩ := List.mem_map.mp hd
    exact Bool.false_ne_true

theorem recordsOf_piecesOfFile (f : SchemaFile) :
    recordsOf (s.piecesOfFile f) =
      f.everyMessage.map fun n => .declared ⟨within (s.siteOf f) n.scope, .message n.message⟩ := by
  have enums : recordsOf ((f.enums.map (Declared.mk (s.siteOf f) <| .enum ·)).map .declared) = [] := by
    rw [recordsOf, List.filter_eq_nil_iff]
    intro p hp
    obtain ⟨d, hd, rfl⟩ := List.mem_map.mp hp
    obtain ⟨e, _, rfl⟩ := List.mem_map.mp hd
    exact Bool.false_ne_true
  have messages : recordsOf ((f.everyMessage.flatMap (declaredAt (s.siteOf f))).map .declared) =
      f.everyMessage.flatMap fun n => [.declared ⟨within (s.siteOf f) n.scope, .message n.message⟩] := by
    simp only [List.map_flatMap, recordsOf_flatMap, recordsOf_declaredAt]
  rw [piecesOfFile, List.map_append, recordsOf_append, enums, messages, List.append_nil, List.map_eq_flatMap]

theorem recordsOf_pieces (directory : List String) : recordsOf (s.pieces directory) = s.recordPieces directory := by
  have known : ∀ ts : List WellKnown, recordsOf (ts.map .builtIn) = ts.map .builtIn := by
    intro ts
    rw [recordsOf, List.filter_eq_self]
    intro p hp
    obtain ⟨t, _, rfl⟩ := List.mem_map.mp hp
    rfl
  have files : recordsOf ((s.filesAt s.files directory).flatMap s.piecesOfFile) =
      (s.filesAt s.files directory).flatMap fun f =>
        f.everyMessage.map fun n => .declared ⟨within (s.siteOf f) n.scope, .message n.message⟩ := by
    simp only [recordsOf_flatMap, recordsOf_piecesOfFile]
  rw [pieces, piecesFrom, recordsOf_append, files, recordPieces]
  split
  · rw [known]
  · rfl

theorem exists_text (formed : ∀ f ∈ s.files, f.toSchema.WellFormed) (resolves : s.Resolves)
    {directory : List String} {p : Piece} (hp : p ∈ s.pieces directory) : p.text?.isSome := by
  have written : ∀ {d : Declared}, (∃ code, d.declaration.result = .ok code) → (Piece.declared d).text?.isSome := by
    rintro d ⟨code, written⟩
    exact Option.isSome_iff_exists.mpr ⟨_, Folder.text?_declared.mpr ⟨code, written, rfl⟩⟩
  refine pieces_cases (P := fun p => p.text?.isSome) ?_ ?_ hp
  · intro f hf _ p hp
    refine piecesOfFile_cases (P := fun p => p.text?.isSome) ?_ ?_ ?_ ?_ hp
    · intro n hn
      exact written (Site.exists_record ((formed f hf).messages n hn) (resolves f hf n hn))
    · intro n hn o ho
      refine written (Site.exists_union (((formed f hf).messages n hn).oneofs o ho) ?_)
      intro x hx
      exact resolves f hf n hn x (List.mem_append_right _ (List.mem_flatMap.mpr ⟨o, ho, hx⟩))
    · intro n _ e _
      exact written ⟨_, rfl⟩
    · intro e _
      exact written ⟨_, rfl⟩
  · intro t ht _
    simp [Piece.text?, Code.builtInText?, isComposite_of_mem_builtIns ht]

/-- Generating succeeds exactly when the pieces of every directory are compatible and no file is called like a
directory beside it. -/
theorem exists_generate_iff :
    (∃ out, s.generate.result = .ok out) ↔
      (∀ d, Compatible (s.pieces d)) ∧ ∀ d, s.Spans d → ∀ stem ∈ s.stems d, ¬ s.Spans (d ++ [stem]) := by
  constructor
  · rintro ⟨out, h⟩
    obtain ⟨folders, done, free, _⟩ := generate_eq_ok.mp h
    have filled := filled_of_folders done
    refine ⟨exists_folders_iff.mp ⟨folders, done⟩, ?_⟩
    intro d spans
    exact (stemsFree_iff filled).mp (free d ((mem_directories_iff filled).mpr spans))
  · rintro ⟨compatible, free⟩
    obtain ⟨folders, done⟩ := exists_folders_iff.mpr compatible
    have filled := filled_of_folders done
    refine ⟨_, generate_eq_ok.mpr ⟨folders, done, ?_, rfl⟩⟩
    intro d hd
    exact (stemsFree_iff filled).mpr (free d ((mem_directories_iff filled).mp hd))

theorem Spans.of_child {directory : List String} {child : String} (h : s.Spans (directory ++ [child])) :
    s.Spans directory := by
  obtain ⟨used, uses, before⟩ := h
  exact ⟨used, uses, (List.prefix_append directory [child]).trans before⟩

theorem uses_of_mem_pieces {directory : List String} {p : Piece} (hp : p ∈ s.pieces directory) :
    s.Uses directory := by
  refine pieces_cases (P := fun _ => s.Uses directory) ?_ ?_ hp
  · intro f hf here _ _
    exact .inr (.inl ⟨f, hf, here⟩)
  · intro t ht here
    exact .inr (.inr ⟨List.ne_nil_of_mem ht, here⟩)

/-- Without a collision the pieces of a directory are compatible, provided that each can be written. -/
theorem not_collision_iff {directory : List String} (texts : ∀ p ∈ s.pieces directory, p.text?.isSome) :
    ¬ s.Collision directory ↔
      Compatible (s.pieces directory) ∧ ∀ stem ∈ s.stems directory, ¬ s.Spans (directory ++ [stem]) := by
  constructor
  · intro none
    refine ⟨⟨texts, ?_, ?_, ?_⟩, ?_⟩
    · by_contra twice
      exact none (.name twice)
    · by_contra twice
      exact none (.stem twice)
    · exact fun taken => none (.records taken)
    · exact fun stem written below => none (.child stem written below)
  · rintro ⟨compatible, free⟩ collision
    cases collision with
    | name twice => exact twice compatible.names
    | stem twice => exact twice compatible.stems
    | records taken => exact compatible.free taken
    | child stem written below => exact free stem written below

theorem exists_generate_iff_not_collision (formed : ∀ f ∈ s.files, f.toSchema.WellFormed) (resolves : s.Resolves) :
    (∃ out, s.generate.result = .ok out) ↔ ∀ d, ¬ s.Collision d := by
  simp only [not_collision_iff fun _ hp => exists_text formed resolves hp, exists_generate_iff]
  constructor
  · rintro ⟨compatible, free⟩ d
    exact ⟨compatible d, fun stem written below => free d below.of_child stem written below⟩
  · intro all
    exact ⟨fun d => (all d).1, fun d _ => (all d).2⟩

section generated
variable (formed : ∀ f ∈ s.files, f.toSchema.WellFormed) {out : Files} (generated : s.generate.result = .ok out)
include formed generated

theorem find?_own {directory : List String} {p : Piece} (hp : p ∈ s.pieces directory) {stem : String}
    (own : p.stem? = some stem) :
    ∃ text, p.text? = some text ∧
      out.find? (filePath directory stem) = some (ownPage p.importsNames text) := by
  obtain ⟨folders, done, _, rfl⟩ := generate_eq_ok.mp generated
  have filled := filled_of_folders done
  obtain ⟨text, written, listed⟩ := (filled.holds directory).own_mem_contents hp own
  have spans : s.Spans directory := ⟨directory, uses_of_mem_pieces hp, List.prefix_refl _⟩
  rw [ownFile_render_eq] at listed
  exact ⟨text, written, find?_written filled formed spans (List.mem_append_left _ listed)⟩

theorem find?_records {directory : List String} (spans : s.Spans directory) :
    ∃ texts : List String, (s.recordPieces directory).map Piece.text? = texts.map some ∧
      out.find? (filePath directory recordStem) = if texts.isEmpty then none else
        some (recordPage (s.sourcesAt directory) texts) := by
  obtain ⟨folders, done, _, rfl⟩ := generate_eq_ok.mp generated
  have filled := filled_of_folders done
  have held : ((folders.find? directory).getD {}).Holds (s.sourcesAt directory) (s.pieces directory) :=
    filled.holds directory
  refine ⟨_, by rw [← recordsOf_pieces]; exact held.records.symm, ?_⟩
  rw [held.isEmpty_records]
  split
  · rename_i none
    rw [Catalog.find?_eq_none, filePath_mem_keys_written filled formed (separate_of_spans formed spans) (by decide)]
    rintro ⟨_, taken⟩
    have stems : s.stems directory = stemsOf (s.pieces directory) := by
      rw [stems, if_pos none]
      rfl
    rw [stems, List.mem_append, List.mem_singleton] at taken
    rcases taken with taken | same
    · exact held.compatible.free taken
    · exact absurd same (by decide)
  · rename_i some
    have listed := held.records_mem_contents (by simpa using some)
    rw [recordText_eq] at listed
    exact find?_written filled formed spans (List.mem_append_left _ listed)

theorem find?_index {directory : List String} (spans : s.Spans directory) :
    ∃ folders, s.Filled folders s.files s.builtIns ∧ out.find? (filePath directory indexStem) =
      some (Folder.indexText (childrenOf folders.keys directory) ((contentsOf folders directory).map (·.1))) := by
  obtain ⟨folders, done, _, rfl⟩ := generate_eq_ok.mp generated
  have filled := filled_of_folders done
  exact ⟨folders, filled, find?_written filled formed spans (List.mem_append_right _ (List.mem_singleton.mpr rfl))⟩

/-- A file that is neither an index nor one of records belongs to one piece. -/
theorem existsUnique_piece {directory : List String} (spans : s.Spans directory) {stem : String}
    (slash : '/' ∉ stem.toList) (notIndex : stem ≠ indexStem) (notRecords : stem ≠ recordStem)
    (written : filePath directory stem ∈ out.keys) : ∃! p, p ∈ s.pieces directory ∧ p.stem? = some stem := by
  obtain ⟨folders, done, _, rfl⟩ := generate_eq_ok.mp generated
  have filled := filled_of_folders done
  rw [filePath_mem_keys_written filled formed (separate_of_spans formed spans) slash, List.mem_append,
    List.mem_singleton, or_iff_left notIndex, stems, List.mem_append] at written
  have own : stem ∈ stemsOf (s.pieces directory) := by
    rcases written.2 with records | own
    · split at records
      · cases records
      · exact absurd (List.mem_singleton.mp records) notRecords
    · exact own
  obtain ⟨p, hp, own⟩ := List.mem_filterMap.mp own
  refine ⟨p, ⟨hp, own⟩, ?_⟩
  rintro q ⟨hq, same⟩
  exact (filled.holds directory).compatible.eq_of_stem? hq hp same own

end generated

end Output.Schedule

end SchemaGen
