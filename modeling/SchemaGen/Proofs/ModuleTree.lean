import SchemaGen.Proofs.Registration
import SchemaGen.Proofs.Schedule
import SchemaGen.Proofs.Tree
import SchemaGen.Proofs.WellFormed
/-!
# The tree of generated modules

The directories of a schedule and those above them each get an index, and the index of a directory lists exactly
what is written beside and right below it. All names in the tree are made of letters, digits and underscores, so
no two files meet at one path.
-/
namespace SchemaGen
open Code Output

theorem Message.isName_of_mem_scope {scope : List String} {ms : List Message} (hs : ∀ x ∈ scope, IsName x)
    (hm : ∀ n ∈ nestedAll scope ms, IsName n.message.name) {n : Nested} (hn : n ∈ nestedAll scope ms) :
    ∀ x ∈ n.scope, IsName x := by
  induction ms using forestInduction generalizing scope with
  | nil => simp [nestedAll] at hn
  | cons m ms inside rest =>
    rw [nestedAll, nested_eq] at hm hn
    rcases List.mem_append.mp hn with hn | hn
    · rcases List.mem_cons.mp hn with rfl | hn
      · exact hs
      · refine inside ?_ (fun k hk => hm k (by simp [hk])) hn
        intro x hx
        rcases List.mem_append.mp hx with hx | hx
        · exact hs x hx
        · obtain rfl : x = m.name := by simpa using hx
          exact hm ⟨scope, m⟩ (by simp)
    · exact rest hs (fun k hk => hm k (by simp [hk])) hn

namespace SchemaFile
variable {f : SchemaFile} (formed : f.toSchema.WellFormed)
include formed

theorem isName_of_mem_scope {n : Nested} (hn : n ∈ f.everyMessage) : ∀ x ∈ n.scope, IsName x := by
  refine Message.isName_of_mem_scope (by simp) ?_ hn
  intro k hk
  exact isName_of_isIdentifier (formed.messages k hk).name

theorem isName_of_mem_inner {n : Nested} (hn : n ∈ f.everyMessage) : ∀ x ∈ n.inner, IsName x := by
  intro x hx
  rcases List.mem_append.mp hx with hx | hx
  · exact isName_of_mem_scope formed hn x hx
  · obtain rfl : x = n.message.name := by simpa using hx
    exact isName_of_isIdentifier (formed.messages n hn).name

end SchemaFile

namespace Output.Schedule
variable {s : Schedule}

theorem isName_of_mem_piecesOfFile {f : SchemaFile} (formed : f.toSchema.WellFormed) {p : Piece}
    (hp : p ∈ s.piecesOfFile f) : IsName p.name := by
  refine piecesOfFile_cases (P := fun p => IsName p.name) ?_ ?_ ?_ ?_ hp
  · intro n hn
    exact Naming.isName_typeName (SchemaFile.isName_of_mem_scope formed hn)
      (isName_of_isIdentifier (formed.messages n hn).name)
  · intro n hn o ho
    exact Naming.isName_unionName (SchemaFile.isName_of_mem_inner formed hn)
      (isName_of_isIdentifier ((formed.messages n hn).oneofs o ho).name)
  · intro n hn e he
    exact Naming.isName_typeName (SchemaFile.isName_of_mem_inner formed hn)
      (isName_of_isIdentifier ((formed.messages n hn).enums e he).name)
  · intro e he
    exact Naming.isName_typeName (by rintro _ ⟨⟩) (isName_of_isIdentifier (formed.enums e he).name)

def Spans (s : Schedule) (directory : List String) : Prop :=
  ∃ used, s.Uses used ∧ directory <+: used

/-- The stems of the files of a directory, its index apart. -/
def stems (s : Schedule) (directory : List String) : List String :=
  (if (recordsOf (s.pieces directory)).isEmpty then [] else [recordStem]) ++ stemsOf (s.pieces directory)

section names
variable (formed : ∀ f ∈ s.files, f.toSchema.WellFormed)
include formed

theorem isName_of_mem_pieces {directory : List String} {p : Piece} (hp : p ∈ s.pieces directory) :
    IsName p.name := by
  refine pieces_cases (P := fun p => IsName p.name) ?_ ?_ hp
  · intro f hf _ p hp
    exact isName_of_mem_piecesOfFile (formed f hf) hp
  · intro t _ _
    cases t <;> decide

theorem isName_of_mem_stems {directory : List String} {stem : String} (h : stem ∈ s.stems directory) :
    IsName stem := by
  rcases List.mem_append.mp h with h | h
  · split at h
    · cases h
    · obtain rfl : stem = recordStem := by simpa using h
      decide
  · obtain ⟨p, hp, own⟩ := List.mem_filterMap.mp h
    rw [Piece.stem?_eq_some own]
    exact Naming.isName_fieldName (isName_of_mem_pieces formed hp)

theorem isName_of_spans {directory : List String} (h : s.Spans directory) : ∀ d ∈ directory, IsName d := by
  intro d hd
  obtain ⟨used, uses, before⟩ := h
  have hd := before.subset hd
  rcases uses with rfl | ⟨f, hf, rfl⟩ | ⟨_, rfl⟩
  · cases hd
  · exact Config.isName_of_mem_directory (formed f hf).package hd
  · exact Config.isName_of_mem_directory (by rintro _ ⟨⟩; decide) hd

theorem separate_of_spans {directory : List String} (h : s.Spans directory) : Separate directory :=
  fun d hd => (isName_of_spans formed h d hd).notMem (by decide)

end names

theorem indexStem_notMem_stems (directory : List String) : indexStem ∉ s.stems directory := by
  intro h
  rcases List.mem_append.mp h with h | h
  · split at h
    · cases h
    · have same : indexStem = recordStem := by simpa using h
      exact absurd same (by decide)
  · obtain ⟨p, _, own⟩ := List.mem_filterMap.mp h
    exact Naming.escape_ne_mod _ (Piece.stem?_eq_some own).symm

theorem nodup_stems {directory : List String} (h : Compatible (s.pieces directory)) : (s.stems directory).Nodup := by
  unfold stems
  split
  · exact h.stems
  · rw [List.singleton_append, List.nodup_cons]
    exact ⟨h.free, h.stems⟩

theorem generate_eq_ok {out : Files} :
    s.generate.result = .ok out ↔ ∃ folders, s.folders.result = .ok folders ∧
      (∀ d ∈ directories folders.keys, StemsFree folders d) ∧ out = .ofList (written folders) := by
  rw [generate, Report.bind_result_ok]
  simp only [Report.ofExcept_result, assemble_eq_ok]

section filled
variable {folders : Folders} (filled : s.Filled folders s.files s.builtIns)
include filled

theorem mem_directories_iff {directory : List String} : directory ∈ directories folders.keys ↔ s.Spans directory := by
  rw [mem_directories]
  exact exists_congr fun used => and_congr_left fun _ => filled.keys used

theorem mem_childrenOf_iff {directory : List String} {child : String} :
    child ∈ childrenOf folders.keys directory ↔ s.Spans (directory ++ [child]) := by
  rw [mem_childrenOf]
  exact exists_congr fun used => and_congr_left fun _ => filled.keys used

/-- The files of a directory beside its index are the ones that its pieces ask for. -/
theorem contents_stems_perm (directory : List String) :
    ((contentsOf folders directory).map (·.1)).Perm (s.stems directory) :=
  (filled.holds directory).contents_stems

theorem stemsFree_iff {directory : List String} :
    StemsFree folders directory ↔ ∀ stem ∈ s.stems directory, ¬ s.Spans (directory ++ [stem]) := by
  unfold StemsFree
  simp only [(contents_stems_perm filled directory).mem_iff, mem_childrenOf_iff filled]

theorem entries_stems_perm (directory : List String) :
    ((entriesOf folders directory).map (·.1)).Perm (s.stems directory ++ [indexStem]) := by
  rw [entriesOf, List.map_append]
  exact (contents_stems_perm filled directory).append_right _

theorem nodup_entries (directory : List String) : ((entriesOf folders directory).map (·.1)).Nodup := by
  rw [(entries_stems_perm filled directory).nodup_iff, ← List.concat_eq_append, List.nodup_concat]
  exact ⟨indexStem_notMem_stems directory, nodup_stems (filled.holds directory).compatible⟩

variable (formed : ∀ f ∈ s.files, f.toSchema.WellFormed)
include formed

theorem isName_of_mem_entries {directory : List String} {stem : String}
    (h : stem ∈ (entriesOf folders directory).map (·.1)) : IsName stem := by
  rw [(entries_stems_perm filled directory).mem_iff] at h
  rcases List.mem_append.mp h with h | h
  · exact isName_of_mem_stems formed h
  · obtain rfl : stem = indexStem := by simpa using h
    decide

theorem nodup_written : ((written folders).map (·.1)).Nodup := by
  have slash : ∀ {d : List String} {e : String × String}, e ∈ entriesOf folders d → '/' ∉ e.1.toList :=
    fun he => (isName_of_mem_entries filled formed (List.mem_map_of_mem he)).notMem (by decide)
  have separate : ∀ {d : List String}, d ∈ directories folders.keys → Separate d :=
    fun hd => separate_of_spans formed ((mem_directories_iff filled).mp hd)
  -- Paths of one directory differ in their stems, those of two in what stands before.
  rw [written, List.map_flatMap, List.nodup_flatMap]
  refine ⟨?_, ?_⟩
  · intro d hd
    have distinct := nodup_entries filled d
    rw [List.map_map]
    refine List.Nodup.map_on ?_ distinct.of_map
    intro e he e' he' same
    have stems := (filePath_inj (separate hd) (separate hd) (slash he) (slash he') same).2
    exact List.inj_on_of_nodup_map distinct he he' stems
  · refine (nodup_directories folders.keys).imp_of_mem ?_
    intro d d' hd hd' other path inFirst inSecond
    simp only [List.map_map, List.mem_map, Function.comp_apply] at inFirst inSecond
    obtain ⟨e, he, rfl⟩ := inFirst
    obtain ⟨e', he', same⟩ := inSecond
    exact other (filePath_inj (separate hd) (separate hd') (slash he) (slash he') same.symm).1

theorem find?_written {directory : List String} (spans : s.Spans directory) {stem text : String}
    (h : (stem, text) ∈ entriesOf folders directory) :
    (Catalog.ofList (written folders)).find? (filePath directory stem) = some text := by
  rw [Catalog.find?_ofList (nodup_written filled formed)]
  exact List.mem_flatMap.mpr ⟨directory, (mem_directories_iff filled).mpr spans, List.mem_map.mpr ⟨_, h, rfl⟩⟩

omit formed in
theorem mem_keys_written {path : String} :
    path ∈ (Catalog.ofList (written folders)).keys ↔
      ∃ d, s.Spans d ∧ ∃ stem ∈ s.stems d ++ [indexStem], path = filePath d stem := by
  rw [Catalog.mem_keys_ofList, written, List.map_flatMap, List.mem_flatMap]
  refine exists_congr fun d => and_congr (mem_directories_iff filled) ?_
  simp only [← (entries_stems_perm filled d).mem_iff, List.map_map, List.mem_map, Function.comp_apply]
  constructor
  · rintro ⟨e, he, rfl⟩
    exact ⟨e.1, ⟨e, he, rfl⟩, rfl⟩
  · rintro ⟨stem, ⟨e, he, rfl⟩, rfl⟩
    exact ⟨e, he, rfl⟩

theorem filePath_mem_keys_written {directory : List String} {stem : String} (hd : Separate directory)
    (hs : '/' ∉ stem.toList) :
    filePath directory stem ∈ (Catalog.ofList (written folders)).keys ↔
      s.Spans directory ∧ stem ∈ s.stems directory ++ [indexStem] := by
  rw [mem_keys_written filled]
  constructor
  · rintro ⟨d, spans, stem', h, same⟩
    have slash : '/' ∉ stem'.toList := by
      rw [← (entries_stems_perm filled d).mem_iff] at h
      exact (isName_of_mem_entries filled formed h).notMem (by decide)
    obtain ⟨rfl, rfl⟩ := filePath_inj hd (separate_of_spans formed spans) hs slash same
    exact ⟨spans, h⟩
  · rintro ⟨spans, h⟩
    exact ⟨directory, spans, stem, h, rfl⟩

/-- The index of a directory has one line for each of its files, one that passes its names on, and one for each
directory right below. -/
theorem count_index (directory : List String) :
    ∃ text, (indexStem, text) ∈ entriesOf folders directory ∧ ∀ name,
      (linesOf text).count (fileLine name) = (if name ∈ s.stems directory then 1 else 0) ∧
      (linesOf text).count (exportLine name) = (if name ∈ s.stems directory then 1 else 0) ∧
      (linesOf text).count (childLine name) = (if name ∈ childrenOf folders.keys directory then 1 else 0) := by
  refine ⟨_, List.mem_append_right _ (List.mem_singleton.mpr rfl), ?_⟩
  have perm := contents_stems_perm filled directory
  have stems : ∀ c ∈ (contentsOf folders directory).map (·.1), '\n' ∉ c.toList :=
    fun c hc => (isName_of_mem_stems formed (perm.mem_iff.mp hc)).notMem (by decide)
  have children : ∀ c ∈ childrenOf folders.keys directory, '\n' ∉ c.toList := by
    intro c hc
    have spans := (mem_childrenOf_iff filled).mp hc
    exact (isName_of_spans formed spans c (by simp)).notMem (by decide)
  have once := nodup_stems (filled.holds directory).compatible
  intro name
  rw [count_fileLine children stems, count_exportLine children stems, count_childLine children stems,
    perm.count_eq, once.count, (nodup_childrenOf _ _).count]
  exact ⟨rfl, rfl, rfl⟩

end filled

end Output.Schedule

open Schedule

/-- What is generated is a tree that can be mounted: an index in every directory down to the used ones, which
lists exactly the files beside it and the directories right below it, and no path that is written twice. -/
theorem generate_mountable {s : Schedule} (parsed : ∀ f ∈ s.files, f.Parsed) {out : Files}
    (generated : s.generate.result = .ok out) :
    (∀ path, path ∈ out.keys ↔
      ∃ d, s.Spans d ∧ (path = filePath d indexStem ∨ ∃ stem ∈ s.stems d, path = filePath d stem)) ∧
    (∀ d, s.Spans d → ∃ text, out.find? (filePath d indexStem) = some text ∧
      ∀ name : String, '/' ∉ name.toList →
        (linesOf text).count (fileLine name) =
          (if name ≠ indexStem ∧ filePath d name ∈ out.keys then 1 else 0) ∧
        (linesOf text).count (exportLine name) =
          (if name ≠ indexStem ∧ filePath d name ∈ out.keys then 1 else 0) ∧
        (linesOf text).count (childLine name) = (if filePath (d ++ [name]) indexStem ∈ out.keys then 1 else 0) ∧
        ¬ ((name ≠ indexStem ∧ filePath d name ∈ out.keys) ∧ filePath (d ++ [name]) indexStem ∈ out.keys)) ∧
    ∃ folders parts, s.folders.result = .ok folders ∧
      (directories folders.keys).mapM (directoryFiles s.config folders) = .ok parts ∧
      out = .ofList parts.flatten ∧ (parts.flatten.map (·.1)).Nodup := by
  have formed : ∀ f ∈ s.files, f.toSchema.WellFormed := fun f hf => (parsed f hf).wellFormed
  obtain ⟨folders, done, free, rfl⟩ := generate_eq_ok.mp generated
  have filled := filled_of_folders done
  refine ⟨?_, ?_, ?_⟩
  · intro path
    rw [mem_keys_written filled]
    refine exists_congr fun d => and_congr_right fun _ => ?_
    constructor
    · rintro ⟨stem, h, rfl⟩
      rcases List.mem_append.mp h with h | h
      · exact .inr ⟨stem, h, rfl⟩
      · exact .inl (by rw [List.mem_singleton.mp h])
    · rintro (rfl | ⟨stem, h, rfl⟩)
      · exact ⟨indexStem, by simp, rfl⟩
      · exact ⟨stem, by simp [h], rfl⟩
  · intro d spans
    have separate := separate_of_spans formed spans
    obtain ⟨text, listed, counts⟩ := count_index filled formed d
    refine ⟨text, find?_written filled formed spans listed, ?_⟩
    intro name slash
    have file : name ≠ indexStem ∧ filePath d name ∈ (Catalog.ofList (written folders)).keys ↔ name ∈ s.stems d := by
      rw [filePath_mem_keys_written filled formed separate slash, List.mem_append, List.mem_singleton]
      constructor
      · rintro ⟨other, _, here | same⟩
        · exact here
        · exact absurd same other
      · intro here
        refine ⟨?_, spans, .inl here⟩
        rintro rfl
        exact indexStem_notMem_stems d here
    have child : filePath (d ++ [name]) indexStem ∈ (Catalog.ofList (written folders)).keys ↔
        name ∈ childrenOf folders.keys d := by
      have below : Separate (d ++ [name]) := by
        intro part hp
        rcases List.mem_append.mp hp with hp | hp
        · exact separate part hp
        · obtain rfl : part = name := by simpa using hp
          exact slash
      rw [filePath_mem_keys_written filled formed below (by decide), mem_childrenOf_iff filled]
      simp
    simp only [file, child]
    obtain ⟨files, exports, children⟩ := counts name
    refine ⟨files, exports, children, ?_⟩
    rintro ⟨here, below⟩
    have apart := free d ((mem_directories_iff filled).mpr spans)
    exact (stemsFree_iff filled).mp apart name here ((mem_childrenOf_iff filled).mp below)
  · refine ⟨folders, _, done, (mapM_eq_ok_map fun _ _ => directoryFiles_eq_ok).mpr ⟨free, rfl⟩, ?_, ?_⟩
    · rw [written, List.flatMap_def]
    · rw [← List.flatMap_def]
      exact nodup_written filled formed

def shop : SchemaFile :=
  .ofText "shop" "package shop.v1;message Order\x7benum State\x7bOPEN=0;\x7d\x7d"

def shopSchedule : Schedule :=
  ⟨.attemptAll {} [shop], { layout := .nested }, [shop]⟩

theorem generate_mountable_shop :
    shop.Parsed ∧ ∃ out, shopSchedule.generate.result = .ok out ∧
      out.keys = ["mod.rs", "shop/mod.rs", "shop/v1/messages.rs", "shop/v1/mod.rs", "shop/v1/order_state.rs"] ∧
      ∃ above below, out.find? "shop/mod.rs" = some above ∧ out.find? "shop/v1/mod.rs" = some below ∧
        (linesOf above).count (childLine "v1") = 1 ∧ (linesOf below).count (fileLine "order_state") = 1 ∧
        (linesOf below).count (fileLine "order") = 0 := by
  have parsed : shop.Parsed := SchemaFile.parsed_ofText (by decide +kernel)
  have facts : (shopSchedule.generate.result.toOption.map Catalog.keys = some
        ["mod.rs", "shop/mod.rs", "shop/v1/messages.rs", "shop/v1/mod.rs", "shop/v1/order_state.rs"]) ∧
      shopSchedule.directoryOf shop = ["shop", "v1"] := by
    decide +kernel
  obtain ⟨keys, directory⟩ := facts
  cases generated : shopSchedule.generate.result with
  | error e => simp [generated, Except.toOption] at keys
  | ok out =>
    simp only [generated, Except.toOption, Option.map_some, Option.some.injEq] at keys
    obtain ⟨_, index, _⟩ := generate_mountable (by simpa [shopSchedule] using parsed) generated
    have used : shopSchedule.Uses ["shop", "v1"] := .inr (.inl ⟨shop, .head _, directory⟩)
    obtain ⟨above, foundAbove, linesAbove⟩ := index ["shop"] ⟨_, used, ["v1"], rfl⟩
    obtain ⟨below, foundBelow, linesBelow⟩ := index ["shop", "v1"] ⟨_, used, [], rfl⟩
    refine ⟨parsed, out, rfl, keys, above, below, foundAbove, foundBelow, ?_, ?_, ?_⟩
    · rw [(linesAbove "v1" (by decide)).2.2.1, keys]
      decide
    · rw [(linesBelow "order_state" (by decide)).1, keys]
      decide
    · rw [(linesBelow "order" (by decide)).1, keys]
      decide

end SchemaGen
