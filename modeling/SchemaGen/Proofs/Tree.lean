import SchemaGen.Output.Tree
import SchemaGen.Proofs.Catalog
import SchemaGen.Proofs.Dotted
import SchemaGen.Proofs.Outcome
import Mathlib.Data.List.Count
/-!
# Paths, indexes and the assembled tree

A path tells its directory and its stem. The index of a directory lists each of its files and each directory right
below it on lines of their own. Assembling succeeds exactly when no file is called like a directory beside it.
-/
namespace SchemaGen.Output
open Text

def Separate (directory : List String) : Prop :=
  ∀ d ∈ directory, '/' ∉ d.toList

theorem piecesOf_filePath {directory : List String} {stem : String} (hd : Separate directory)
    (hs : '/' ∉ stem.toList) :
    piecesOf '/' (filePath directory stem).toList = directory.map String.toList ++ [(stem ++ ".rs").toList] := by
  have chars : (filePath directory stem).toList =
      (directory.map String.toList).flatMap (· ++ ['/']) ++ (stem ++ ".rs").toList := by
    rw [filePath, String.append_assoc, String.toList_append, toList_joinWith_empty, List.flatMap_map,
      List.flatMap_map]
    simp
  have last : '/' ∉ (stem ++ ".rs").toList := by
    simp [hs]
  rw [chars, piecesOf_flatMap, piecesOf_single last]
  intro piece hp
  obtain ⟨d, hm, rfl⟩ := List.mem_map.mp hp
  exact hd d hm

theorem filePath_inj {d d' : List String} {stem stem' : String} (hd : Separate d) (hd' : Separate d')
    (hs : '/' ∉ stem.toList) (hs' : '/' ∉ stem'.toList) (h : filePath d stem = filePath d' stem') :
    d = d' ∧ stem = stem' := by
  -- Cut at the slashes, a path gives back the parts of its directory and the name of its file.
  have pieces := congrArg (fun path => piecesOf '/' path.toList) h
  simp only [piecesOf_filePath hd hs, piecesOf_filePath hd' hs'] at pieces
  obtain ⟨parts, last⟩ := List.append_inj' pieces rfl
  have same : stem.toList = stem'.toList := by simpa using last
  exact ⟨List.map_injective_iff.mpr (fun _ _ => String.toList_inj.mp) parts, String.toList_inj.mp same⟩

theorem mem_ancestors {directory d : List String} : d ∈ ancestors directory ↔ d <+: directory := by
  unfold ancestors
  rw [List.mem_map, List.prefix_iff_eq_take]
  constructor
  · rintro ⟨n, _, rfl⟩
    simp
  · intro h
    have bound : d.length ≤ directory.length := by
      rw [h]
      simp
    exact ⟨d.length, by simp; omega, h.symm⟩

theorem mem_directories {used : List (List String)} {d : List String} :
    d ∈ directories used ↔ ∃ u ∈ used, d <+: u := by
  simp only [directories, Catalog.mem_sorted, List.mem_flatMap, mem_ancestors]

theorem nodup_directories (used : List (List String)) : (directories used).Nodup :=
  Catalog.nodup_sorted _

theorem concat_prefix_iff {d u : List String} {c : String} :
    d ++ [c] <+: u ↔ d.isPrefixOf u ∧ u[d.length]? = some c := by
  rw [List.isPrefixOf_iff_prefix]
  constructor
  · rintro ⟨rest, rfl⟩
    exact ⟨⟨[c] ++ rest, by simp⟩, by simp⟩
  · rintro ⟨⟨rest, rfl⟩, next⟩
    rw [List.getElem?_append_right (by omega), Nat.sub_self, ← List.head?_eq_getElem?,
      List.head?_eq_some_iff] at next
    obtain ⟨rest, rfl⟩ := next
    exact ⟨rest, by simp⟩

theorem mem_childrenOf {used : List (List String)} {d : List String} {c : String} :
    c ∈ childrenOf used d ↔ ∃ u ∈ used, d ++ [c] <+: u := by
  simp only [childrenOf, Catalog.mem_sorted, List.mem_filterMap, concat_prefix_iff, Option.ite_none_right_eq_some]

theorem nodup_childrenOf (used : List (List String)) (d : List String) : (childrenOf used d).Nodup :=
  Catalog.nodup_sorted _

theorem checkStems_eq_ok {config : Config} {directory children stems : List String} :
    checkStems config directory children stems = .ok () ↔ ∀ stem ∈ stems, stem ∉ children := by
  induction stems with
  | nil => simp [checkStems]
  | cons stem stems ih =>
    by_cases clash : children.contains stem
    · have taken : stem ∈ children := by simpa using clash
      simp [checkStems, taken]
    · have free : stem ∉ children := by simpa using clash
      simp [checkStems, free, ih]

def contentsOf (folders : Folders) (directory : List String) : List (String × String) :=
  ((folders.find? directory).getD {}).contents

def entriesOf (folders : Folders) (directory : List String) : List (String × String) :=
  contentsOf folders directory ++ [(indexStem,
    Folder.indexText (childrenOf folders.keys directory) ((contentsOf folders directory).map (·.1)))]

/-- No file of a directory is called like a directory right below it. -/
def StemsFree (folders : Folders) (directory : List String) : Prop :=
  ∀ stem ∈ (contentsOf folders directory).map (·.1), stem ∉ childrenOf folders.keys directory

def written (folders : Folders) : List (String × String) :=
  (directories folders.keys).flatMap fun d => (entriesOf folders d).map fun e => (filePath d e.1, e.2)

theorem directoryFiles_eq_ok {config : Config} {folders : Folders} {directory : List String}
    {files : List (String × String)} :
    directoryFiles config folders directory = .ok files ↔
      StemsFree folders directory ∧ files = (entriesOf folders directory).map fun e => (filePath directory e.1, e.2) := by
  have contents : (folders.find? directory).elim [] Folder.contents = contentsOf folders directory := by
    unfold contentsOf
    cases folders.find? directory <;> rfl
  rw [directoryFiles, contents, except_bind_ok]
  constructor
  · rintro ⟨⟨⟩, checked, h⟩
    cases h
    exact ⟨checkStems_eq_ok.mp checked, by simp [entriesOf]⟩
  · rintro ⟨free, rfl⟩
    exact ⟨(), checkStems_eq_ok.mpr free, by simp [entriesOf]; rfl⟩

theorem assemble_eq_ok {config : Config} {folders : Folders} {out : Files} :
    assemble config folders = .ok out ↔
      (∀ d ∈ directories folders.keys, StemsFree folders d) ∧ out = .ofList (written folders) := by
  rw [assemble, except_bind_ok]
  simp only [mapM_eq_ok_map fun _ _ => directoryFiles_eq_ok]
  constructor
  · rintro ⟨parts, ⟨free, rfl⟩, h⟩
    cases h
    exact ⟨free, by rw [written, List.flatMap_def]⟩
  · rintro ⟨free, rfl⟩
    exact ⟨_, ⟨free, rfl⟩, by rw [written, List.flatMap_def]; rfl⟩

def linesOf (text : String) : List String :=
  (piecesOf '\n' text.toList).map String.ofList

/-- The line that brings a file of the folder into the module, and the one that passes its names on. -/
def fileLine (stem : String) : String := "mod " ++ stem ++ ";"

def exportLine (stem : String) : String := "pub use self::" ++ stem ++ "::*;"

def childLine (child : String) : String := "pub mod " ++ child ++ ";"

theorem linesOf_unlines {lines : List String} (h : ∀ l ∈ lines, '\n' ∉ l.toList) :
    linesOf (joinWith "" (lines.map (· ++ "\n"))) = lines ++ [""] := by
  have chars : (joinWith "" (lines.map (· ++ "\n"))).toList =
      (lines.map String.toList).flatMap (· ++ ['\n']) ++ [] := by
    rw [toList_joinWith_empty, List.flatMap_map, List.flatMap_map]
    simp
  rw [linesOf, chars, piecesOf_flatMap, piecesOf_single (by simp)]
  · simp
  · intro piece hp
    obtain ⟨l, hl, rfl⟩ := List.mem_map.mp hp
    exact h l hl

def indexLines (children stems : List String) : List String :=
  "// @generated by protorec. Do not edit." :: (if children.isEmpty then [] else "" :: children.map childLine) ++
    stems.flatMap fun s => ["", fileLine s, exportLine s]

theorem indexText_eq (children stems : List String) :
    Folder.indexText children stems = joinWith "" ((indexLines children stems).map (· ++ "\n")) := by
  apply String.toList_inj.mp
  rw [Folder.indexText, indexLines, toList_joinWith_empty]
  simp only [String.toList_append, toList_joinWith_empty, List.map_append, List.map_cons, List.flatMap_append,
    List.flatMap_cons, List.flatMap_map, List.map_flatMap, List.flatMap_assoc]
  by_cases none : children.isEmpty
  · simp [none, Folder.header, fileLine, exportLine]
  · simp [none, Folder.header, fileLine, exportLine, childLine, toList_joinWith_empty, List.flatMap_map]

theorem linesOf_indexText {children stems : List String} (hc : ∀ c ∈ children, '\n' ∉ c.toList)
    (hs : ∀ s ∈ stems, '\n' ∉ s.toList) :
    linesOf (Folder.indexText children stems) = indexLines children stems ++ [""] := by
  rw [indexText_eq, linesOf_unlines]
  intro line hl
  simp only [indexLines, List.cons_append, List.mem_cons, List.mem_append, List.mem_flatMap, List.not_mem_nil,
    or_false] at hl
  rcases hl with rfl | hl | ⟨s, hs', rfl | rfl | rfl⟩
  · decide
  · split at hl
    · cases hl
    · rcases List.mem_cons.mp hl with rfl | hl
      · decide
      · obtain ⟨c, hc', rfl⟩ := List.mem_map.mp hl
        simpa [childLine] using hc c hc'
  · decide
  · simpa [fileLine] using hs s hs'
  · simpa [exportLine] using hs s hs'

section lines
variable (s t : String)

@[simp] theorem fileLine_inj : fileLine s = fileLine t ↔ s = t := by
  simp [fileLine]

@[simp] theorem exportLine_inj : exportLine s = exportLine t ↔ s = t := by
  simp [exportLine]

@[simp] theorem childLine_inj : childLine s = childLine t ↔ s = t := by
  simp [childLine]

@[simp] theorem fileLine_ne_exportLine : fileLine s ≠ exportLine t := by
  intro h
  have first := congrArg (·.toList.head?) h
  simp [fileLine, exportLine] at first

@[simp] theorem fileLine_ne_childLine : fileLine s ≠ childLine t := by
  intro h
  have first := congrArg (·.toList.head?) h
  simp [fileLine, childLine] at first

@[simp] theorem exportLine_ne_childLine : exportLine s ≠ childLine t := by
  intro h
  have fifth := congrArg (·.toList[4]?) h
  simp [exportLine, childLine] at fifth

theorem count_indexLines {children stems : List String} {line : String} {c : Char}
    (first : line.toList.head? = some c) (letter : c ≠ '/') :
    (indexLines children stems ++ [""]).count line =
      (children.map childLine).count line +
        ((stems.map fileLine).count line + (stems.map exportLine).count line) := by
  have nonempty : line ≠ "" := by
    rintro rfl
    simp at first
  have other : line ≠ "// @generated by protorec. Do not edit." := by
    rintro rfl
    exact letter (Option.some.inj (first.symm.trans (by decide)))
  have files : (stems.flatMap fun s => ["", fileLine s, exportLine s]).count line =
      (stems.map fileLine).count line + (stems.map exportLine).count line := by
    induction stems with
    | nil => rfl
    | cons stem stems ih =>
      simp only [List.flatMap_cons, List.map_cons, List.cons_append, List.nil_append, List.count_cons, ih,
        beq_eq_false_iff_ne.mpr nonempty.symm]
      simp only [Bool.false_eq_true, if_false]
      omega
  rw [indexLines, List.count_append, List.count_append, List.count_cons, files]
  by_cases none : children.isEmpty
  · have empty : children = [] := by simpa using none
    simp [empty, nonempty.symm, other.symm]
  · simp [none, nonempty.symm, other.symm]

theorem count_map_line {line : String → String} (inj : ∀ s t, line s = line t ↔ s = t) (names : List String) :
    (names.map line).count (line s) = names.count s :=
  List.count_map_of_injective names line (fun _ _ h => (inj _ _).mp h) s

theorem count_map_other {line : String → String} {l : String} (other : ∀ t, l ≠ line t) (names : List String) :
    (names.map line).count l = 0 := by
  rw [List.count_eq_zero, List.mem_map]
  rintro ⟨t, _, h⟩
  exact other t h.symm

end lines

section index
variable {children stems : List String} (hc : ∀ c ∈ children, '\n' ∉ c.toList) (hs : ∀ s ∈ stems, '\n' ∉ s.toList)
include hc hs

theorem count_fileLine (stem : String) :
    (linesOf (Folder.indexText children stems)).count (fileLine stem) = stems.count stem := by
  have first : (fileLine stem).toList.head? = some 'm' := by simp [fileLine]
  rw [linesOf_indexText hc hs, count_indexLines first (by decide), count_map_line stem fileLine_inj,
    count_map_other (fileLine_ne_childLine stem), count_map_other (fileLine_ne_exportLine stem)]
  omega

theorem count_exportLine (stem : String) :
    (linesOf (Folder.indexText children stems)).count (exportLine stem) = stems.count stem := by
  have first : (exportLine stem).toList.head? = some 'p' := by simp [exportLine]
  rw [linesOf_indexText hc hs, count_indexLines first (by decide), count_map_line stem exportLine_inj,
    count_map_other (exportLine_ne_childLine stem), count_map_other fun t => (fileLine_ne_exportLine t stem).symm]
  omega

theorem count_childLine (child : String) :
    (linesOf (Folder.indexText children stems)).count (childLine child) = children.count child := by
  have first : (childLine child).toList.head? = some 'p' := by simp [childLine]
  rw [linesOf_indexText hc hs, count_indexLines first (by decide), count_map_line child childLine_inj,
    count_map_other fun t => (fileLine_ne_childLine t child).symm,
    count_map_other fun t => (exportLine_ne_childLine t child).symm]
  omega

end index

end SchemaGen.Output
