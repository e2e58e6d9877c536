import SchemaGen.Proofs.Collision
import Mathlib.Data.List.Flatten
import Mathlib.Data.List.Perm.Subperm
/-!
# Scheduling more files, or the same files in another order

A schedule that has more files generates everything that one with fewer generates: all files of their own stay as
they are, and the records are found among those of the larger schedule. The order in which files are scheduled is
seen only in the order of the records and of the sources above them.
-/
namespace SchemaGen
open Code Output

section lists
variable {α β : Type} {as bs : List α}

theorem subperm_map (h : as.Subperm bs) (f : α → β) : (as.map f).Subperm (bs.map f) := by
  obtain ⟨cs, perm, sub⟩ := h
  exact ⟨cs.map f, perm.map f, sub.map f⟩

theorem subperm_flatMap (h : as.Subperm bs) (f : α → List β) : (as.flatMap f).Subperm (bs.flatMap f) := by
  obtain ⟨cs, perm, sub⟩ := h
  exact ⟨cs.flatMap f, perm.flatMap_right f, sub.flatMap f⟩

theorem subperm_filterMap (h : as.Subperm bs) (f : α → Option β) : (as.filterMap f).Subperm (bs.filterMap f) := by
  obtain ⟨cs, perm, sub⟩ := h
  exact ⟨cs.filterMap f, perm.filterMap f, sub.filterMap f⟩

theorem nodup_of_subperm (h : as.Subperm bs) (distinct : bs.Nodup) : as.Nodup := by
  obtain ⟨cs, perm, sub⟩ := h
  exact perm.nodup_iff.mp (distinct.sublist sub)

end lists

namespace Output

/-- Some of the pieces that are compatible are compatible, in any order. -/
theorem Compatible.of_subperm {ps qs : List Piece} (h : Compatible qs) (part : ps.Subperm qs) : Compatible ps where
  texts p hp := h.texts p (part.subset hp)
  names := nodup_of_subperm (subperm_map part Piece.name) h.names
  stems := nodup_of_subperm (subperm_filterMap part Piece.stem?) h.stems
  free := fun taken => h.free ((subperm_filterMap part Piece.stem?).subset taken)

namespace Schedule

def ofFiles (r : Registry) (config : Config) (files : List SchemaFile) : Schedule :=
  addAll { registry := r, config } files

/-- The file of the records of a directory holds these records, one for each message of its files and for each
built-in type that belongs there. Without a record there is no file. -/
structure RecordFile (s : Schedule) (out : Files) (directory records : List String) : Prop where
  texts : (s.recordPieces directory).map Piece.text? = records.map some
  found : out.find? (filePath directory recordStem) = if records.isEmpty then none else
    some (recordPage (s.sourcesAt directory) records)

section add
variable {s : Schedule} {fs : List SchemaFile} {f : SchemaFile}

theorem nodup_names_add (h : (s.files.map (·.name)).Nodup) : ((s.add f).files.map (·.name)).Nodup := by
  unfold add
  split
  · exact h
  · rename_i unknown
    rw [List.map_append, List.map_singleton, ← List.concat_eq_append, List.nodup_concat]
    refine ⟨?_, h⟩
    intro taken
    obtain ⟨g, hg, same⟩ := List.mem_map.mp taken
    exact unknown (List.any_eq_true.mpr ⟨g, hg, by simpa using same⟩)

theorem nodup_names_addAll (h : (s.files.map (·.name)).Nodup) : ((s.addAll fs).files.map (·.name)).Nodup := by
  induction fs generalizing s with
  | nil => exact h
  | cons f fs ih => exact ih (nodup_names_add h)

end add

section ofFiles
variable {r : Registry} {config : Config} {fs : List SchemaFile}

theorem nodup_ofFiles : (ofFiles r config fs).files.Nodup :=
  List.Nodup.of_map _ (nodup_names_addAll List.nodup_nil)

theorem mem_ofFiles (registered : ∀ f ∈ fs, r.file? f.name = some f) {f : SchemaFile} :
    f ∈ (ofFiles r config fs).files ↔ f ∈ fs := by
  have added : ∀ g ∈ (ofFiles r config fs).files, g ∈ fs := by
    intro g hg
    rcases mem_of_mem_addAll hg with none | hg
    · cases none
    · exact hg
  refine ⟨added f, ?_⟩
  intro hf
  obtain ⟨g, hg, same⟩ := exists_mem_addAll (s := { registry := r, config }) hf
  have found := registered g (added g hg)
  rw [same, registered f hf] at found
  cases found
  exact hg

end ofFiles

/-- The schedules belong to one session, and the files of the first are among those of the second. -/
structure PartOf (t s : Schedule) : Prop where
  registry : t.registry = s.registry
  config : t.config = s.config
  files : t.files.Subperm s.files

theorem partOf_ofFiles {r : Registry} (config : Config) {fewer more : List SchemaFile}
    (registered : ∀ f ∈ more, r.file? f.name = some f) (sub : fewer ⊆ more) :
    (ofFiles r config fewer).PartOf (ofFiles r config more) := by
  obtain ⟨registryFewer, configFewer⟩ := addAll_settings { registry := r, config } fewer
  obtain ⟨registryMore, configMore⟩ := addAll_settings { registry := r, config } more
  refine ⟨registryFewer.trans registryMore.symm, configFewer.trans configMore.symm, ?_⟩
  refine List.subperm_of_subset nodup_ofFiles ?_
  intro f hf
  have hf := (mem_ofFiles fun g hg => registered g (sub hg)).mp hf
  exact (mem_ofFiles registered).mpr (sub hf)

namespace PartOf
variable {t s : Schedule} (h : t.PartOf s)
include h

theorem directoryOf_eq : t.directoryOf = s.directoryOf := by
  funext f
  rw [directoryOf, directoryOf, h.config]

theorem builtInDirectory_eq : t.builtInDirectory = s.builtInDirectory := by
  rw [builtInDirectory, builtInDirectory, h.config]

theorem siteOf_eq : t.siteOf = s.siteOf := by
  funext f
  rw [siteOf, siteOf, h.registry, h.config]

theorem piecesOfFile_eq : t.piecesOfFile = s.piecesOfFile := by
  funext f
  rw [piecesOfFile, piecesOfFile, h.siteOf_eq]

theorem builtIns_sublist : t.builtIns.Sublist s.builtIns := by
  have sub : t.composites ⊆ s.composites := by
    unfold composites
    rw [h.registry]
    exact (subperm_flatMap h.files _).subset
  rw [builtIns_eq_filter, builtIns_eq_filter]
  apply List.monotone_filter_right
  simpa using fun known used => sub used

theorem filesAt_subperm (directory : List String) :
    (t.filesAt t.files directory).Subperm (s.filesAt s.files directory) := by
  unfold filesAt
  rw [h.directoryOf_eq]
  exact h.files.filter _

theorem sourcesAt_subperm (directory : List String) : (t.sourcesAt directory).Subperm (s.sourcesAt directory) :=
  subperm_map (h.filesAt_subperm directory) _

theorem pieces_subperm (directory : List String) : (t.pieces directory).Subperm (s.pieces directory) := by
  unfold pieces piecesFrom
  rw [h.piecesOfFile_eq, h.builtInDirectory_eq]
  refine (subperm_flatMap (h.filesAt_subperm directory) _).append ?_
  split
  · exact (h.builtIns_sublist.map _).subperm
  · exact List.Subperm.refl []

theorem recordPieces_subperm (directory : List String) :
    (t.recordPieces directory).Subperm (s.recordPieces directory) := by
  rw [← recordsOf_pieces, ← recordsOf_pieces]
  exact (h.pieces_subperm directory).filter _

theorem uses {directory : List String} (used : t.Uses directory) : s.Uses directory := by
  rcases used with root | ⟨f, hf, here⟩ | ⟨some, here⟩
  · exact .inl root
  · exact .inr (.inl ⟨f, h.files.subset hf, by rw [← h.directoryOf_eq, here]⟩)
  · refine .inr (.inr ⟨?_, by rw [← h.builtInDirectory_eq, here]⟩)
    intro none
    exact some (List.sublist_nil.mp (none ▸ h.builtIns_sublist))

theorem spans {directory : List String} (spanned : t.Spans directory) : s.Spans directory := by
  obtain ⟨used, uses, before⟩ := spanned
  exact ⟨used, h.uses uses, before⟩

theorem stems_subset (directory : List String) : t.stems directory ⊆ s.stems directory := by
  intro stem hs
  rcases List.mem_append.mp hs with hs | hs
  · split at hs
    · cases hs
    · rename_i some
      have records := (h.pieces_subperm directory).filter (·.stem?.isNone)
      have some : ¬ (recordsOf (s.pieces directory)).isEmpty := by
        intro none
        rw [List.isEmpty_iff] at none some
        exact some (List.subperm_nil.mp (none ▸ records))
      refine List.mem_append_left _ ?_
      rw [if_neg some]
      exact hs
  · exact List.mem_append_right _ ((subperm_filterMap (h.pieces_subperm directory) Piece.stem?).subset hs)

theorem records_subperm {outT outS : Files} {directory fewer more : List String}
    (fileT : t.RecordFile outT directory fewer) (fileS : s.RecordFile outS directory more) : fewer.Subperm more := by
  have texts := subperm_map (h.recordPieces_subperm directory) Piece.text?
  rw [fileT.texts, fileS.texts] at texts
  simpa using subperm_filterMap texts id

/-- What can be generated for many files can be generated for some of them. -/
theorem exists_generate (generated : ∃ out, s.generate.result = .ok out) : ∃ out, t.generate.result = .ok out := by
  obtain ⟨compatible, free⟩ := exists_generate_iff.mp generated
  refine exists_generate_iff.mpr ⟨?_, ?_⟩
  · intro d
    exact (compatible d).of_subperm (h.pieces_subperm d)
  · intro d spans stem hs below
    exact free d (h.spans spans) stem (h.stems_subset d hs) (h.spans below)

end PartOf

theorem filePath_index_ne_records (d d' : List String) : filePath d indexStem ≠ filePath d' recordStem := by
  intro same
  have fourth := congrArg (·.toList.reverse[3]?) same
  simp [filePath, indexStem, recordStem] at fourth

section output
variable {s : Schedule} {out : Files} (generated : s.generate.result = .ok out)
include generated

theorem ordered_generate : out.Ordered := by
  obtain ⟨folders, _, _, rfl⟩ := generate_eq_ok.mp generated
  exact Catalog.ordered_ofList _

theorem mem_keys_generate {path : String} :
    path ∈ out.keys ↔ ∃ d, s.Spans d ∧ ∃ stem ∈ s.stems d ++ [indexStem], path = filePath d stem := by
  obtain ⟨folders, done, _, rfl⟩ := generate_eq_ok.mp generated
  exact mem_keys_written (filled_of_folders done)

/-- A generated file is an index, a file of records, or the file of a piece of its own. -/
theorem generated_cases {path text : String} (found : out.find? path = some text) :
    (∃ d, s.Spans d ∧ path = filePath d indexStem) ∨ (∃ d, s.Spans d ∧ path = filePath d recordStem) ∨
      ∃ d, ∃ p ∈ s.pieces d, ∃ stem, p.stem? = some stem ∧ path = filePath d stem := by
  have listed : path ∈ out.keys := by
    rw [← Catalog.find?_isSome, found]
    rfl
  obtain ⟨d, spans, stem, hs, rfl⟩ := (mem_keys_generate generated).mp listed
  rcases List.mem_append.mp hs with hs | hs
  · rcases List.mem_append.mp hs with hs | hs
    · split at hs
      · cases hs
      · exact .inr (.inl ⟨d, spans, by rw [List.mem_singleton.mp hs]⟩)
    · obtain ⟨p, hp, own⟩ := List.mem_filterMap.mp hs
      exact .inr (.inr ⟨d, p, hp, stem, own, rfl⟩)
  · exact .inl ⟨d, spans, by rw [List.mem_singleton.mp hs]⟩

variable (formed : ∀ f ∈ s.files, f.toSchema.WellFormed)
include formed

theorem exists_recordFile {directory : List String} (spans : s.Spans directory) :
    ∃ records, s.RecordFile out directory records := by
  obtain ⟨records, texts, found⟩ := find?_records formed generated spans
  exact ⟨records, texts, found⟩

end output

section same
variable {t s : Schedule} (h : t.PartOf s) (back : s.PartOf t)
include h back

theorem PartOf.pieces_perm (directory : List String) : (t.pieces directory).Perm (s.pieces directory) :=
  (h.pieces_subperm directory).antisymm (back.pieces_subperm directory)

theorem PartOf.index_eq {foldersT foldersS : Folders} (filledT : t.Filled foldersT t.files t.builtIns)
    (filledS : s.Filled foldersS s.files s.builtIns) (directory : List String) :
    childrenOf foldersT.keys directory = childrenOf foldersS.keys directory ∧
      (contentsOf foldersT directory).map (·.1) = (contentsOf foldersS directory).map (·.1) := by
  constructor
  · refine Catalog.sorted_congr ?_
    intro child
    have same : child ∈ childrenOf foldersT.keys directory ↔ child ∈ childrenOf foldersS.keys directory := by
      rw [mem_childrenOf_iff filledT, mem_childrenOf_iff filledS]
      exact ⟨h.spans, back.spans⟩
    simpa only [childrenOf, Catalog.mem_sorted] using same
  · have perm := h.pieces_perm back directory
    have heldT := filledT.holds directory
    have heldS := filledS.holds directory
    have keys := heldT.ordered.keys_eq heldS.ordered fun stem => by
      rw [heldT.mem_keys, heldS.mem_keys]
      exact (perm.filterMap Piece.stem?).mem_iff
    have records : (recordsOf (t.pieces directory)).isEmpty = (recordsOf (s.pieces directory)).isEmpty :=
      (perm.filter _).isEmpty_eq
    unfold contentsOf
    rw [heldT.map_fst_contents, heldS.map_fst_contents, keys]
    unfold pieces at records
    rw [records]

end same

namespace PartOf
variable {t s : Schedule} (h : t.PartOf s) (formed : ∀ f ∈ s.files, f.toSchema.WellFormed) {outT outS : Files}
  (generatedT : t.generate.result = .ok outT) (generatedS : s.generate.result = .ok outS)
include h formed generatedT generatedS

theorem find?_own {directory : List String} {p : Piece} (hp : p ∈ t.pieces directory) {stem : String}
    (own : p.stem? = some stem) : outT.find? (filePath directory stem) = outS.find? (filePath directory stem) := by
  obtain ⟨text, written, found⟩ :=
    Schedule.find?_own (fun f hf => formed f (h.files.subset hf)) generatedT hp own
  obtain ⟨other, same, foundS⟩ :=
    Schedule.find?_own formed generatedS ((h.pieces_subperm directory).subset hp) own
  rw [found, foundS, Option.some.inj (written.symm.trans same)]

theorem kept {path text : String} (found : outT.find? path = some text) :
    (∃ d, t.Spans d ∧ (path = filePath d indexStem ∨ path = filePath d recordStem)) ∨
      outS.find? path = some text := by
  rcases generated_cases generatedT found with ⟨d, spans, index⟩ | ⟨d, spans, records⟩ | ⟨d, p, hp, stem, own, rfl⟩
  · exact .inl ⟨d, spans, .inl index⟩
  · exact .inl ⟨d, spans, .inr records⟩
  · exact .inr (h.find?_own formed generatedT generatedS hp own ▸ found)

theorem exists_recordFiles {directory : List String} (spans : t.Spans directory) :
    ∃ fewer more, t.RecordFile outT directory fewer ∧ s.RecordFile outS directory more := by
  obtain ⟨fewer, fileT⟩ := exists_recordFile generatedT (fun f hf => formed f (h.files.subset hf)) spans
  obtain ⟨more, fileS⟩ := exists_recordFile generatedS formed (h.spans spans)
  exact ⟨fewer, more, fileT, fileS⟩

theorem find?_index (back : s.PartOf t) {directory : List String} (spans : t.Spans directory) :
    outT.find? (filePath directory indexStem) = outS.find? (filePath directory indexStem) := by
  obtain ⟨foldersT, filledT, foundT⟩ :=
    Schedule.find?_index (fun f hf => formed f (h.files.subset hf)) generatedT spans
  obtain ⟨foldersS, filledS, foundS⟩ := Schedule.find?_index formed generatedS (h.spans spans)
  obtain ⟨children, stems⟩ := h.index_eq back filledT filledS directory
  rw [foundT, foundS, children, stems]

omit formed in
theorem keys_eq (back : s.PartOf t) : outT.keys = outS.keys := by
  refine (ordered_generate generatedT).keys_eq (ordered_generate generatedS) ?_
  intro path
  rw [mem_keys_generate generatedT, mem_keys_generate generatedS]
  have stems : ∀ d stem, stem ∈ t.stems d ++ [indexStem] ↔ stem ∈ s.stems d ++ [indexStem] := by
    intro d stem
    rw [List.mem_append, List.mem_append]
    exact or_congr_left ⟨(h.stems_subset d ·), (back.stems_subset d ·)⟩
  have spans : ∀ d, t.Spans d ↔ s.Spans d := fun d => ⟨h.spans, back.spans⟩
  simp only [stems, spans]

theorem find?_eq (back : s.PartOf t) (path : String) :
    (∃ d, t.Spans d ∧ path = filePath d recordStem) ∨ outT.find? path = outS.find? path := by
  cases found : outT.find? path with
  | none =>
    right
    rw [Catalog.find?_eq_none, h.keys_eq generatedT generatedS back, ← Catalog.find?_eq_none] at found
    exact found.symm
  | some text =>
    rcases h.kept formed generatedT generatedS found with ⟨d, spans, rfl | records⟩ | kept
    · right
      rw [← found]
      exact h.find?_index formed generatedT generatedS back spans
    · exact .inl ⟨d, spans, records⟩
    · exact .inr kept.symm

end PartOf

end Schedule

end Output

open Schedule

/-- Scheduling fewer files generates the same for each of them, and the order of the files is seen only in the order
of the records and of the sources above them. -/
theorem generate_monotone {r : Registry} (config : Config) (parsed : ∀ f ∈ r.files, f.Parsed)
    {fewer more : List SchemaFile} (registered : ∀ f ∈ more, r.file? f.name = some f) (sub : fewer ⊆ more) :
    (∀ out, (ofFiles r config more).generate.result = .ok out →
      ∃ part, (ofFiles r config fewer).generate.result = .ok part ∧
        (∀ path text, part.find? path = some text →
          (∃ d, (ofFiles r config fewer).Spans d ∧ (path = filePath d indexStem ∨ path = filePath d recordStem)) ∨
            out.find? path = some text) ∧
        ∀ d, (ofFiles r config fewer).Spans d → ∃ records all,
          (ofFiles r config fewer).RecordFile part d records ∧ (ofFiles r config more).RecordFile out d all ∧
            records.Subperm all ∧ ((ofFiles r config fewer).sourcesAt d).Subperm ((ofFiles r config more).sourcesAt d)) ∧
    (more ⊆ fewer →
      ((∃ part, (ofFiles r config fewer).generate.result = .ok part) ↔
        ∃ out, (ofFiles r config more).generate.result = .ok out) ∧
      ∀ part out, (ofFiles r config fewer).generate.result = .ok part →
        (ofFiles r config more).generate.result = .ok out →
        part.keys = out.keys ∧
        (∀ d, part.find? (filePath d indexStem) = out.find? (filePath d indexStem)) ∧
        (∀ path, (∃ d, (ofFiles r config fewer).Spans d ∧ path = filePath d recordStem) ∨
          part.find? path = out.find? path) ∧
        ∀ d, (ofFiles r config fewer).Spans d → ∃ records all,
          (ofFiles r config fewer).RecordFile part d records ∧ (ofFiles r config more).RecordFile out d all ∧
            records.Perm all ∧ ((ofFiles r config fewer).sourcesAt d).Perm ((ofFiles r config more).sourcesAt d)) := by
  have h := partOf_ofFiles config registered sub
  have formed : ∀ f ∈ (ofFiles r config more).files, f.toSchema.WellFormed := by
    intro f hf
    have found := registered f ((mem_ofFiles registered).mp hf)
    exact (parsed f (Registry.mem_files_of_file? found)).wellFormed
  refine ⟨?_, ?_⟩
  · intro out generated
    obtain ⟨part, generatedPart⟩ := h.exists_generate ⟨out, generated⟩
    refine ⟨part, generatedPart, ?_, ?_⟩
    · intro path text found
      exact h.kept formed generatedPart generated found
    · intro d spans
      obtain ⟨records, all, filePart, file⟩ := h.exists_recordFiles formed generatedPart generated spans
      exact ⟨records, all, filePart, file, h.records_subperm filePart file, h.sourcesAt_subperm d⟩
  · intro all
    have back := partOf_ofFiles config (fun f hf => registered f (sub hf)) all
    refine ⟨⟨back.exists_generate, h.exists_generate⟩, ?_⟩
    intro part out generatedPart generated
    have others := h.find?_eq formed generatedPart generated back
    refine ⟨h.keys_eq generatedPart generated back, ?_, others, ?_⟩
    · intro d
      refine (others _).resolve_left ?_
      rintro ⟨d', _, same⟩
      exact filePath_index_ne_records d d' same
    · intro d spans
      obtain ⟨records, every, filePart, file⟩ := h.exists_recordFiles formed generatedPart generated spans
      exact ⟨records, every, filePart, file,
        (h.records_subperm filePart file).antisymm (back.records_subperm file filePart),
        (h.sourcesAt_subperm d).antisymm (back.sourcesAt_subperm d)⟩

def basketText : String :=
  "package shop;message Basket\x7bgoogle.protobuf.Any a=1;\x7denum Size\x7bS=0;\x7d"

def stallText : String :=
  "package shop;message Stall\x7bBasket b=1;oneof place\x7bint32 n=2;\x7d\x7d"

def basket : SchemaFile := .ofText "basket" basketText

def stall : SchemaFile := .ofText "stall" stallText

def marketRegistry : Registry :=
  .attemptAll {} [basket, stall]

/-- The schedule of some files of the market, each package in a module of its own. -/
def market (files : List SchemaFile) : Schedule :=
  ofFiles marketRegistry { layout := .nested } files

theorem generate_monotone_market :
    basket.Parsed ∧ stall.Parsed ∧
    ∃ part out turned, (market [basket]).generate.result = .ok part ∧
      (market [basket, stall]).generate.result = .ok out ∧
      (market [stall, basket, stall]).generate.result = .ok turned ∧
      part.keys = ["google/mod.rs", "google/protobuf/messages.rs", "google/protobuf/mod.rs", "mod.rs",
        "shop/messages.rs", "shop/mod.rs", "shop/size.rs"] ∧
      out.find? "shop/size.rs" = part.find? "shop/size.rs" ∧
      (∃ records all, (market [basket]).RecordFile part ["shop"] records ∧
        (market [basket, stall]).RecordFile out ["shop"] all ∧ records.Subperm all) ∧
      turned.keys = out.keys ∧ turned.find? "shop/mod.rs" = out.find? "shop/mod.rs" := by
  have facts : (SchemaFile.parse true "basket" basketText).result.toBool ∧
      (SchemaFile.parse true "stall" stallText).result.toBool ∧ (market [basket, stall]).generate.result.toBool ∧
      ((market [basket]).generate.result.toOption.map Catalog.keys = some
        ["google/mod.rs", "google/protobuf/messages.rs", "google/protobuf/mod.rs", "mod.rs", "shop/messages.rs",
          "shop/mod.rs", "shop/size.rs"]) ∧
      (market [basket]).files.map (market [basket]).directoryOf = [["shop"]] ∧ basket.name ≠ stall.name ∧
      (Registry.registerAll {} [basket, stall]).toBool := by
    decide +kernel
  obtain ⟨readsBasket, readsStall, generates, keys, directories, names, accepts⟩ := facts
  have basketParsed : basket.Parsed := SchemaFile.parsed_ofText readsBasket
  have stallParsed : stall.Parsed := SchemaFile.parsed_ofText readsStall
  have consistent : marketRegistry.Consistent :=
    Registry.consistent_empty.registerAll (Registry.registerAll_attemptAll accepts)
  have files : marketRegistry.files = [basket, stall] :=
    Registry.consistent_empty.files_of_registerAll (by simpa using names) (Registry.registerAll_attemptAll accepts)
  have parsed : ∀ f ∈ marketRegistry.files, f.Parsed := by
    simpa [files] using ⟨basketParsed, stallParsed⟩
  have basketFound : marketRegistry.file? basket.name = some basket := consistent.file?_eq (by simp [files])
  have stallFound : marketRegistry.file? stall.name = some stall := consistent.file?_eq (by simp [files])
  have registered : ∀ f ∈ [basket, stall], marketRegistry.file? f.name = some f :=
    List.forall_mem_cons.mpr ⟨basketFound, List.forall_mem_singleton.mpr stallFound⟩
  cases generated : (market [basket, stall]).generate.result with
  | error e => simp [generated, Except.toBool] at generates
  | ok out =>
    have sub : [basket] ⊆ [basket, stall] := by simp
    obtain ⟨part, generatedPart, kept, recordFiles⟩ :=
      (generate_monotone { layout := .nested } parsed registered sub).1 out generated
    have turn : [stall, basket, stall] ⊆ [basket, stall] := by simp
    obtain ⟨both, equal⟩ := (generate_monotone { layout := .nested } parsed registered turn).2 (by simp)
    obtain ⟨turned, generatedTurned⟩ := both.mpr ⟨out, generated⟩
    obtain ⟨sameKeys, sameIndex, _⟩ := equal turned out generatedTurned generated
    have generatedPart : (market [basket]).generate.result = .ok part := generatedPart
    rw [generatedPart, Except.toOption, Option.map_some, Option.some.injEq] at keys
    refine ⟨basketParsed, stallParsed, part, out, turned, generatedPart, rfl, generatedTurned, keys, ?_, ?_, sameKeys,
      sameIndex ["shop"]⟩
    · have listed : (part.find? "shop/size.rs").isSome := by
        rw [Catalog.find?_isSome, keys]
        decide
      obtain ⟨text, found⟩ := Option.isSome_iff_exists.mp listed
      rw [found]
      refine (kept _ _ found).resolve_left ?_
      rintro ⟨d, _, same | same⟩
      · have fourth := congrArg (·.toList.reverse[3]?) same
        simp [filePath, indexStem] at fourth
      · have fourth := congrArg (·.toList.reverse[3]?) same
        simp [filePath, recordStem] at fourth
    · have listed : ["shop"] ∈ (market [basket]).files.map (market [basket]).directoryOf := by
        rw [directories]
        exact List.mem_singleton.mpr rfl
      obtain ⟨f, hf, here⟩ := List.mem_map.mp listed
      obtain ⟨records, all, filePart, file, among, _⟩ :=
        recordFiles ["shop"] ⟨["shop"], .inr (.inl ⟨f, hf, here⟩), List.prefix_refl _⟩
      exact ⟨records, all, filePart, file, among⟩

end SchemaGen
