import SchemaGen.Proofs.Loading
import SchemaGen.Proofs.Paths
import SchemaGen.SearchRoots
import Mathlib.Data.List.TakeWhile
/-!
# Files that stand in front of others

A file is named by the way from the first root that it is in, and looked for under all roots. So what is read under
its name is the file itself, unless an earlier root has another file of that name, or the root is the file.
-/
namespace SchemaGen.SearchRoots
open Text SchemaGen.Path

def outside (s : SearchRoots) (path root : String) : Bool :=
  (s.relative? path root).isNone

/-- The roots before the first that a path is in. -/
def earlier (s : SearchRoots) (path : String) : List String :=
  s.roots.takeWhile (s.outside path)

/-- The first file under one of these roots that has the name of a path. -/
def shadow? (s : SearchRoots) (path : String) : Option String :=
  ((s.earlier path).map (join · (s.identify path))).find? s.tree.isFile

/-- A path has a name, and a file that stands in front of it holds the same text. -/
structure Unshadowed (s : SearchRoots) (path text : String) : Prop where
  named : s.identify path ≠ ""
  same : ∀ other, s.shadow? path = some other → s.tree.readText other = .ok text

variable {s : SearchRoots} {path root name : String} {rest : List Part}

section name
variable (arrives : Arrives path)
include arrives

theorem locate_plain_parts : s.tree.locate (plain (parts path)) = s.tree.locate path := by
  have texts := texts_parts path
  have nonempty := steps_ne_nil arrives
  obtain ⟨same, ends, absolute⟩ := steps_plain (by rwa [texts]) (by rw [texts]; exact fun _ h => of_mem_steps h)
  apply FileTree.locate_congr ends arrives
  · rw [Bool.eq_iff_iff, absolute, head?_parts]
  · rw [same, texts]

theorem locate_join_of_parts (cut : parts path = parts root ++ rest) (inner : rest ≠ []) :
    s.tree.locate (join root (plain rest)) = s.tree.locate path := by
  by_cases empty : root = ""
  · subst empty
    have whole : rest = parts path := cut.symm
    have itself : join "" (plain rest) = plain rest := by simp [join]
    rw [itself, whole, locate_plain_parts arrives]
  · obtain ⟨first, more, lead⟩ := List.exists_cons_of_ne_nil (parts_ne_nil empty)
    have texts : steps path = steps root ++ rest.filterMap Part.text? := by
      rw [← texts_parts, cut, List.filterMap_append, texts_parts]
    have moving : ∀ part ∈ rest, part.text?.isSome := by
      intro part h
      have later : part ∈ (parts path).tail := by
        rw [cut, lead]
        exact List.mem_append_right _ h
      exact text?_of_mem_tail later
    have nonempty : rest.filterMap Part.text? ≠ [] := by
      intro none
      obtain ⟨part, h⟩ := List.exists_mem_of_ne_nil rest inner
      have moved := moving part h
      rw [List.filterMap_eq_nil_iff.mp none part h] at moved
      cases moved
    have relative : rest.head? ≠ some .root := fun h => Bool.false_ne_true (moving .root (List.mem_of_mem_head? h))
    obtain ⟨same, ends, absolute⟩ := steps_plain nonempty fun segment h =>
      of_mem_steps (by rw [texts]; exact List.mem_append_right _ h)
    have relative : isAbsolute (plain rest) = false := by
      rw [Bool.eq_false_iff, ne_eq, absolute]
      exact relative
    apply FileTree.locate_congr ((arrives_join empty relative).mpr ends) arrives
    · rw [isAbsolute_join empty relative, Bool.eq_iff_iff, ← head?_parts, ← head?_parts, cut, lead]
      rfl
    · rw [steps_join empty relative, same, texts]

end name

theorem locate_join_of_places (proper : ∀ name ∈ s.tree.here, Proper name) {base : Location} {names : List String}
    (inner : names ≠ []) (there : s.tree.locate root = .ok base) (here : s.tree.locate path = .ok (base ++ names))
    (present : (s.tree.node? (base ++ names)).isSome) :
    s.tree.locate (join root (plain (names.map .name))) = .ok (base ++ names) := by
  have settled := FileTree.settled_of_locate proper here
  have nonempty : root ≠ "" := by
    rintro rfl
    cases there
  have texts : (names.map Part.name).filterMap Part.text? = names := by
    rw [List.filterMap_map]
    exact List.filterMap_some
  have moving : ∀ name ∈ names, moves name ∧ '/' ∉ name.toList := by
    intro name h
    have proper := settled.names name (List.mem_append_right _ h)
    exact ⟨by rw [moves, proper.part?]; rfl, proper.2⟩
  obtain ⟨same, ends, absolute⟩ := steps_plain (by rwa [texts]) (by rwa [texts])
  have relative : isAbsolute (plain (names.map .name)) = false := by
    rw [Bool.eq_false_iff, ne_eq, absolute]
    cases names <;> simp
  rw [FileTree.locate_eq ((arrives_join nonempty relative).mpr ends), steps_join nonempty relative, same, texts,
    FileTree.follow_append, FileTree.start, isAbsolute_join nonempty relative]
  exact except_bind_ok.mpr ⟨base, FileTree.follow_steps_of_locate there, settled.follow_names present⟩

/-- Under a root that it is in, a file is found by the way to it, if there is any way to go. -/
theorem locate_join_of_relative? (proper : ∀ name ∈ s.tree.here, Proper name) (file : s.tree.isFile path)
    (inside : s.relative? path root = some rest) (inner : rest ≠ []) :
    s.tree.locate (join root (plain rest)) = s.tree.locate path := by
  unfold relative? at inside
  split at inside
  · rename_i found
    cases inside
    exact locate_join_of_parts (FileTree.arrives_of_isFile file) (append_of_after? found) inner
  · split at inside
    · rename_i place base here there
      obtain ⟨names, found, rfl⟩ := Option.map_eq_some_iff.mp inside
      obtain rfl := append_of_after? found
      obtain ⟨content, read⟩ := FileTree.isFile_iff.mp file
      obtain ⟨l, located, node⟩ := FileTree.read_eq_ok.mp read
      rw [here] at located ⊢
      cases located
      exact locate_join_of_places proper (by simpa using inner) there here (by rw [node]; rfl)
    · cases inside

theorem load_empty (s : SearchRoots) : s.load "" = .ok none := by
  have absent : ∀ candidate ∈ s.candidates "", ¬ s.tree.isFile candidate := by
    have nowhere : ¬ Arrives "" := fun arrives => absurd (arrives "" rfl) (by decide)
    intro candidate h file
    have arrives := FileTree.arrives_of_isFile file
    rcases List.mem_append.mp h with h | h
    · obtain ⟨root, _, rfl⟩ := List.mem_map.mp h
      by_cases empty : root = ""
      · subst empty
        exact nowhere arrives
      · exact nowhere ((arrives_join empty rfl).mp arrives)
    · rw [List.mem_singleton.mp h] at arrives
      exact nowhere arrives
  have none : (s.candidates "").find? s.tree.isFile = none := List.find?_eq_none.mpr absent
  rw [load, none]

/-- Of the paths that the name of a file may stand for, one leads to it, right after those under earlier roots. -/
theorem exists_own (proper : ∀ name ∈ s.tree.here, Proper name) (file : s.tree.isFile path)
    (named : s.identify path ≠ "") :
    ∃ own others, s.candidates (s.identify path) = (s.earlier path).map (join · (s.identify path)) ++ own :: others ∧
      s.tree.locate own = s.tree.locate path := by
  have cut : s.earlier path ++ s.roots.dropWhile (s.outside path) = s.roots := List.takeWhile_append_dropWhile
  have passed : (s.earlier path).findSome? (s.relative? path) = none := by
    rw [List.findSome?_eq_none_iff]
    intro root h
    exact Option.isNone_iff_eq_none.mp (List.mem_takeWhile_imp (p := s.outside path) h)
  cases later : s.roots.dropWhile (s.outside path) with
  | nil =>
    rw [later, List.append_nil] at cut
    have name : s.identify path = plain (parts path) := by
      rw [identify, ← cut, passed]
      rfl
    refine ⟨s.identify path, [], by rw [candidates, cut], ?_⟩
    rw [name]
    exact locate_plain_parts (FileTree.arrives_of_isFile file)
  | cons root roots =>
    have inside : (s.relative? path root).isSome := by
      have stops := List.head?_dropWhile_not (s.outside path) s.roots
      rw [later] at stops
      simpa [outside] using stops
    obtain ⟨rest, inside⟩ := Option.isSome_iff_exists.mp inside
    rw [later] at cut
    have name : s.identify path = plain rest := by
      rw [identify, ← cut, List.findSome?_append, passed, Option.none_or, List.findSome?_cons, inside]
      rfl
    refine ⟨join root (s.identify path), roots.map (join · (s.identify path)) ++ [s.identify path], ?_, ?_⟩
    · rw [candidates, ← cut]
      simp
    · rw [name] at named ⊢
      apply locate_join_of_relative? proper file inside
      rintro rfl
      exact named rfl

theorem load_eq_ok_of_find? {other text : String} (h : (s.candidates name).find? s.tree.isFile = some other) :
    s.load name = .ok (some text) ↔ s.tree.readText other = .ok text := by
  rw [load, h]
  dsimp only
  cases s.tree.readText other with
  | ok found => simp
  | error fault => simp

theorem load_identify_iff (proper : ∀ name ∈ s.tree.here, Proper name) {text : String}
    (read : s.tree.readText path = .ok text) :
    s.load (s.identify path) = .ok (some text) ↔ s.Unshadowed path text := by
  have file : s.tree.isFile path := FileTree.isFile_iff.mpr ⟨_, FileTree.readText_eq_ok.mp read⟩
  by_cases named : s.identify path = ""
  · rw [named, load_empty]
    constructor
    · intro h
      cases h
    · intro h
      exact absurd named h.named
  · obtain ⟨own, others, listed, same⟩ := exists_own proper file named
    cases front : s.shadow? path with
    | some other =>
      have found : (s.candidates (s.identify path)).find? s.tree.isFile = some other := by
        rw [listed, List.find?_append]
        exact Option.or_eq_some_iff.mpr (.inl front)
      rw [load_eq_ok_of_find? found]
      constructor
      · intro h
        exact ⟨named, fun q hq => by rw [front] at hq; cases hq; exact h⟩
      · intro h
        exact h.same other front
    | none =>
      have reads : s.tree.read own = .ok (.text text) := by
        rw [FileTree.read_congr same, FileTree.readText_eq_ok.mp read]
      have found : (s.candidates (s.identify path)).find? s.tree.isFile = some own := by
        rw [listed, List.find?_append, List.find?_cons_of_pos (FileTree.isFile_iff.mpr ⟨_, reads⟩)]
        exact Option.or_eq_some_iff.mpr (.inr ⟨front, rfl⟩)
      rw [load_eq_ok_of_find? found, FileTree.readText_eq_ok]
      refine iff_of_true reads ⟨named, fun q hq => ?_⟩
      rw [front] at hq
      cases hq

/-- A session reads the file that it was given, and compiles it, unless another text stands in front of it. -/
theorem reads_input_iff_unshadowed (s : SearchRoots) (proper : ∀ name ∈ s.tree.here, Proper name) {path text : String}
    (read : s.tree.readText path = .ok text) :
    (s.load (s.identify path) = .ok (some text) ↔ s.Unshadowed path text) ∧
    ∀ config inputs out, path ∈ inputs → (s.compile config inputs).result = .ok out → s.Unshadowed path text →
      ∃ r f, (Session.load config s.source (inputs.map s.identify)).result = .ok r ∧
        (Session.generate config r (inputs.map s.identify)).result = .ok out ∧
        r.file? (s.identify path) = some f ∧
        (SchemaFile.parse config.strictFields (s.identify path) text).result = .ok f := by
  have loads := load_identify_iff proper read
  refine ⟨loads, ?_⟩
  intro config inputs out given compiled free
  obtain ⟨r, registered, generated⟩ := Report.bind_result_ok.mp compiled
  have own : s.source.load (s.identify path) = .ok (some text) := loads.mpr free
  obtain ⟨other, f, loaded, parsed, found⟩ := Session.exists_of_input registered (List.mem_map_of_mem given)
  rw [own] at loaded
  cases loaded
  exact ⟨r, f, registered, generated, found, parsed⟩

/-- Two directories with a file of one name, and another file in the second. -/
def twinTree : FileTree where
  here := ["work"]
  nodes := [(["work", "a"], .directory), (["work", "a", "x.proto"], .file (.text "message A\x7b\x7d")),
    (["work", "b"], .directory), (["work", "b", "x.proto"], .file (.text "message B\x7b\x7d")),
    (["work", "b", "y.proto"], .file (.text "message Y\x7b\x7d"))]

def twins : SearchRoots :=
  ⟨twinTree, ["a", "b"]⟩

def detour : SearchRoots :=
  ⟨twinTree, ["a", "b/../b"]⟩

theorem reads_input_iff_unshadowed_detour :
    detour.identify "./b/y.proto" = "y.proto" ∧ detour.load "y.proto" = .ok (some "message Y\x7b\x7d") ∧
    ∃ out, (detour.compile {} ["./b/y.proto"]).result = .ok out ∧ ∃ (r : Registry) (f : SchemaFile),
      r.file? "y.proto" = some f ∧ (SchemaFile.parse false "y.proto" "message Y\x7b\x7d").result = .ok f := by
  have facts : (∀ name ∈ detour.tree.here, Proper name) ∧
      detour.tree.readText "./b/y.proto" = .ok "message Y\x7b\x7d" ∧
      detour.identify "./b/y.proto" = "y.proto" ∧ detour.shadow? "./b/y.proto" = none := by decide +kernel
  obtain ⟨proper, read, named, front⟩ := facts
  have compiles : (detour.compile {} ["./b/y.proto"]).result.toBool := by
    simp only [compile, Session.compile, Session.load, Session.generate, Registry.closure, Walk.run_eq_runFor]
    decide +kernel
  have free : detour.Unshadowed "./b/y.proto" "message Y\x7b\x7d" := by
    refine ⟨by rw [named]; decide, ?_⟩
    intro other h
    rw [front] at h
    cases h
  obtain ⟨loads, compiled⟩ := reads_input_iff_unshadowed detour proper read
  rw [named] at loads compiled
  refine ⟨named, loads.mpr free, ?_⟩
  cases result : (detour.compile {} ["./b/y.proto"]).result with
  | error e => simp [result, Except.toBool] at compiles
  | ok out =>
    obtain ⟨r, f, _, _, found, parsed⟩ := compiled {} ["./b/y.proto"] out (by simp) result free
    exact ⟨out, rfl, r, f, found, parsed⟩

/-- Under two roots that both have a file of the name, the file of the first is read for that of the second. -/
theorem reads_other_of_same_name :
    twins.tree.readText "b/x.proto" = .ok "message B\x7b\x7d" ∧ twins.identify "b/x.proto" = "x.proto" ∧
    twins.load "x.proto" = .ok (some "message A\x7b\x7d") := by
  have facts : twins.tree.readText "b/x.proto" = .ok "message B\x7b\x7d" ∧ twins.identify "b/x.proto" = "x.proto" ∧
      (twins.candidates "x.proto").find? twins.tree.isFile = some "a/x.proto" ∧
      twins.tree.readText "a/x.proto" = .ok "message A\x7b\x7d" := by decide +kernel
  obtain ⟨read, named, found, other⟩ := facts
  exact ⟨read, named, (load_eq_ok_of_find? found).mpr other⟩

end SchemaGen.SearchRoots
