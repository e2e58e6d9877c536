import SchemaGen.Proofs.BreadthFirst
import SchemaGen.Proofs.Dotted
import SchemaGen.Proofs.Registration
import SchemaGen.Proofs.WellFormed
import Mathlib.Data.List.Infix
/-!
# The nearest declaration

A relative name is looked for in the messages and packages around it, from the innermost out, then in its own file,
in the packages that the file imports, and last among all full names. It means the first declaration on this way, and
nothing only if there is none. A name with a dot in front means one thing everywhere.
-/
namespace SchemaGen
open Text

namespace WellKnown

theorem simpleName?_eq_some {fullName name : String} :
    simpleName? fullName = some name ↔ fullName = package ++ "." ++ name := by
  rw [simpleName?, Option.map_eq_some_iff]
  constructor
  · rintro ⟨cs, found, rfl⟩
    rw [← String.toList_inj, append_of_after? found]
    simp
  · rintro rfl
    refine ⟨name.toList, ?_, String.ofList_toList⟩
    rw [String.toList_append (s := package ++ "."), after?_append]

theorem lookup?_eq_some {fullName : String} {e : Entry} :
    lookup? fullName = some e ↔ ∃ name, fullName = package ++ "." ++ name ∧ (name, e) ∈ table := by
  have listed : ∀ name, List.lookup name table = some e ↔ (name, e) ∈ table := by
    intro name
    constructor
    · intro found
      obtain ⟨before, after, split, _⟩ := List.lookup_eq_some_iff.mp found
      simp [split]
    · intro member
      simp only [table, List.mem_cons, Prod.mk.injEq, List.not_mem_nil, or_false] at member
      rcases member with ⟨rfl, rfl⟩ | member
      · rfl
      · repeat
          rcases member with ⟨rfl, rfl⟩ | member
          · rfl
        obtain ⟨rfl, rfl⟩ := member
        rfl
  simp only [lookup?, Option.bind_eq_some_iff, simpleName?_eq_some, listed]

end WellKnown

def packageParts (package : Option String) : List String :=
  package.elim [] (partsOf '.')

/-- The names around a place: the parts of the package, then the messages. -/
def Place.segments (p : Place) : List String :=
  packageParts p.package ++ p.scope

/-- A name in a package. The package of the built-in types has no others. -/
def Candidate.within (package name : String) : Candidate :=
  if package = WellKnown.package then .builtIn (package ++ "." ++ name) else .declared (package ++ "." ++ name)

/-- All that a relative name could mean at a place of a file that imports the given packages, nearest first. -/
def Place.visible (p : Place) (imported : List String) (name : String) : List Candidate :=
  (p.segments.inits.tail.reverse.map fun around => .declared (joinWith "." around ++ "." ++ name)) ++
    [.inFile p.file name] ++ imported.map (Candidate.within · name) ++ [.declared name]

theorem tail_inits {α : Type} (as : List α) : as.inits.tail = (List.range as.length).map fun n => as.take (n + 1) := by
  refine List.ext_getElem (by simp) fun n h _ => ?_
  simp

theorem mem_tail_inits {α : Type} {as bs : List α} : bs ∈ as.inits.tail ↔ bs ≠ [] ∧ bs <+: as := by
  rw [tail_inits, List.mem_map]
  constructor
  · rintro ⟨n, bound, rfl⟩
    have := List.mem_range.mp bound
    refine ⟨?_, List.take_prefix _ _⟩
    rw [← List.length_pos_iff, List.length_take]
    omega
  · rintro ⟨nonempty, start⟩
    have := List.length_pos_iff.mpr nonempty
    have := start.length_le
    refine ⟨bs.length - 1, List.mem_range.mpr (by omega), ?_⟩
    rw [Nat.sub_add_cancel (by omega)]
    exact (List.prefix_iff_eq_take.mp start).symm

theorem Place.enclosing_eq (p : Place) : p.enclosing = p.segments.inits.tail.reverse.map (joinWith ".") := by
  rw [tail_inits, ← List.map_reverse, List.map_map]
  rfl

namespace Registry

/-- What a candidate is: a declaration of some file, a declaration of a given file, or a built-in type. -/
inductive Stands (r : Registry) : Candidate → Resolved → Prop
  | declared {f : SchemaFile} {s : Symbol} (file : f ∈ r.files) (listed : s ∈ f.symbols) :
      Stands r (.declared s.fullName) (.ofSymbol s)
  | inFile {f : SchemaFile} {s : Symbol} (file : f ∈ r.files) (listed : s ∈ f.symbols) :
      Stands r (.inFile f.name s.nestedName) (.ofSymbol s)
  | builtIn {name : String} {e : WellKnown.Entry} (listed : (name, e) ∈ WellKnown.table) :
      Stands r (.builtIn (WellKnown.package ++ "." ++ name)) (.ofEntry e)

inductive Nearest (r : Registry) : List Candidate → Resolved → Prop
  | here {c : Candidate} {further : List Candidate} {x : Resolved} (stands : r.Stands c x) : Nearest r (c :: further) x
  | further {c : Candidate} {further : List Candidate} {x : Resolved} (absent : ∀ y, ¬ r.Stands c y)
      (nearest : Nearest r further x) : Nearest r (c :: further) x

section packages

def packageAt? (r : Registry) (path : String) : Option String :=
  if WellKnown.isImport path then some WellKnown.package
  else ((r.file? path).bind (·.package)).filter (!·.isEmpty)

def passedOn (r : Registry) (path : String) : List String :=
  if WellKnown.isImport path then []
  else (r.file? path).elim [] fun f => (f.imports.filter (·.isPublic)).map (·.path)

/-- The paths that a file sees: those that it imports, and those that these pass on. -/
inductive Sees (r : Registry) (file : String) : String → Prop
  | imported {path : String} (listed : path ∈ (r.importsOf file).map (·.path)) : Sees r file path
  | passed {path further : String} (seen : Sees r file path) (listed : further ∈ r.passedOn path) : Sees r file further

/-- The packages that a file sees, each once, in the breadth-first order of the paths that bring them. -/
structure ListsPackages (r : Registry) (file : String) (packages : List String) : Prop where
  order : ∃ paths, LevelOrder r.passedOn [] ((r.importsOf file).map (·.path)) paths ∧
    packages = (paths.filterMap r.packageAt?).eraseDups
  nodup : packages.Nodup
  mem_iff : ∀ q, q ∈ packages ↔ ∃ path, r.Sees file path ∧ r.packageAt? path = some q

theorem nodup_eraseDups (as : List String) : as.eraseDups.Nodup := by
  -- What follows the first element is shorter by all that is equal to it.
  induction length : as.length using Nat.strongRecOn generalizing as with
  | _ size ih =>
    cases as with
    | nil => simp
    | cons a as =>
      rw [List.eraseDups_cons, List.nodup_cons, List.mem_eraseDups]
      refine ⟨by simp, ih _ ?_ _ rfl⟩
      have shorter := List.length_filter_le (fun b => !b == a) as
      rw [List.length_cons] at length
      omega

theorem visit_packageWalk_fst (r : Registry) (path : String) :
    ((r.packageWalk.visit path).1).filter (!·.isEmpty) = r.packageAt? path := by
  simp only [packageWalk, packageAt?]
  split
  · rfl
  · cases r.file? path with
    | none => rfl
    | some f => rfl

theorem visit_packageWalk_snd (r : Registry) (path : String) : (r.packageWalk.visit path).2 = r.passedOn path := by
  simp only [packageWalk, passedOn]
  split
  · rfl
  · cases r.file? path <;> rfl

def visited (r : Registry) (file : String) : List String :=
  r.packageWalk.places .breadthFirst ((r.importsOf file).map (·.path)) []

theorem importedPackages_eq (r : Registry) (file : String) :
    r.importedPackages file = ((r.visited file).filterMap r.packageAt?).eraseDups := by
  rw [importedPackages, visited, Walk.run_eq_map_places]
  simp only [List.filterMap_map, List.filter_filterMap, ← visit_packageWalk_fst]
  rfl

theorem mem_visited_iff {r : Registry} {file path : String} : path ∈ r.visited file ↔ r.Sees file path := by
  have reached : path ∈ r.visited file ↔ ∃ start ∈ (r.importsOf file).map (·.path),
      Relation.ReflTransGen r.packageWalk.Leads start path :=
    Walk.mem_places_iff (S := fun _ => True) (fun _ _ => trivial) (fun _ _ _ _ => trivial) (fun _ _ _ _ same => same)
  rw [reached]
  clear reached
  constructor
  · rintro ⟨start, listed, way⟩
    induction way with
    | refl => exact .imported listed
    | tail _ step ih =>
      rw [Walk.Leads, visit_packageWalk_snd] at step
      exact .passed ih step
  · intro sees
    induction sees with
    | imported listed => exact ⟨_, listed, .refl⟩
    | passed _ listed ih =>
      obtain ⟨start, first, way⟩ := ih
      rw [← visit_packageWalk_snd] at listed
      exact ⟨start, first, way.tail listed⟩

/-- The walk along the imports ends, and misses no package and repeats none, also where imports go in a circle. -/
theorem listsPackages (r : Registry) (file : String) : r.ListsPackages file (r.importedPackages file) where
  order := by
    refine ⟨r.visited file, ?_, importedPackages_eq r file⟩
    have key : r.packageWalk.key = id := rfl
    have order : LevelOrder r.passedOn [] (((r.importsOf file).map (·.path)).map r.packageWalk.key)
        ((r.visited file).map r.packageWalk.key) := by
      refine Walk.levelOrder_places (fun path => ?_) _ _ fun _ => Iff.rfl
      rw [key, List.map_id, visit_packageWalk_snd, id]
    rwa [key, List.map_id, List.map_id] at order
  nodup := by
    rw [importedPackages_eq]
    exact nodup_eraseDups _
  mem_iff q := by
    rw [importedPackages_eq, List.mem_eraseDups, List.mem_filterMap]
    simp only [mem_visited_iff]

end packages

section candidates
variable {r : Registry}

theorem candidates_eq (p : Place) (name : String) :
    r.candidates p name = p.visible (r.importedPackages p.file) name := by
  simp only [candidates, Place.visible, Place.enclosing_eq, Candidate.within, List.map_map, beq_iff_eq]
  simp [Function.comp_def]

variable (c : r.Consistent)
include c

theorem Consistent.eq_of_nestedName {f : SchemaFile} (hf : f ∈ r.files) {s t : Symbol} (hs : s ∈ f.symbols)
    (ht : t ∈ f.symbols) (h : s.nestedName = t.nestedName) : s = t := by
  have package : s.package = t.package := by
    rw [(SchemaFile.file_of_mem_symbols hs).2, (SchemaFile.file_of_mem_symbols ht).2]
  apply c.eq_of_fullName (c.mem_table_iff.mpr ⟨f, hf, hs⟩) (c.mem_table_iff.mpr ⟨f, hf, ht⟩)
  rw [Symbol.fullName, Symbol.fullName, package, h]

/-- Looking a candidate up finds what it stands for. -/
theorem Consistent.meaning?_eq_some_iff {candidate : Candidate} {x : Resolved} :
    r.meaning? candidate = some x ↔ r.Stands candidate x := by
  cases candidate with
  | declared fullName =>
    simp only [meaning?, declared?, Option.map_eq_some_iff, c.symbol?_eq_some_iff]
    constructor
    · rintro ⟨s, ⟨rfl, f, hf, hs⟩, rfl⟩
      exact .declared hf hs
    · intro stands
      cases stands with
      | declared hf hs => exact ⟨_, ⟨rfl, _, hf, hs⟩, rfl⟩
  | inFile file nestedName =>
    rw [meaning?, c.symbolsIn_eq, Option.map_eq_some_iff]
    constructor
    · rintro ⟨s, found, rfl⟩
      have named : s.nestedName = nestedName := by simpa using List.find?_some found
      have listed := List.mem_of_find?_eq_some found
      cases known : r.file? file with
      | none => simp [known] at listed
      | some f =>
        obtain ⟨hf, rfl⟩ := c.file?_eq_some_iff.mp known
        rw [known] at listed
        exact named ▸ .inFile hf listed
    · intro stands
      cases stands with
      | @inFile f s hf hs =>
        rw [c.file?_eq hf]
        refine ⟨s, ?_, rfl⟩
        cases found : f.symbols.find? (·.nestedName == s.nestedName) with
        | none => exact absurd (List.find?_eq_none.mp found s hs) (by simp)
        | some t =>
          have same : t.nestedName = s.nestedName := by simpa using List.find?_some found
          exact found.trans (congrArg some (c.eq_of_nestedName hf (List.mem_of_find?_eq_some found) hs same))
  | builtIn fullName =>
    simp only [meaning?, Option.map_eq_some_iff, WellKnown.lookup?_eq_some]
    constructor
    · rintro ⟨e, ⟨name, rfl, listed⟩, rfl⟩
      exact .builtIn listed
    · intro stands
      cases stands with
      | builtIn listed => exact ⟨_, ⟨_, rfl, listed⟩, rfl⟩

theorem Consistent.meaning?_eq_none_iff {candidate : Candidate} :
    r.meaning? candidate = none ↔ ∀ x, ¬ r.Stands candidate x := by
  simp only [← c.meaning?_eq_some_iff, Option.eq_none_iff_forall_ne_some, ne_eq]

theorem Consistent.findSome?_eq_some_iff {candidates : List Candidate} {x : Resolved} :
    candidates.findSome? r.meaning? = some x ↔ r.Nearest candidates x := by
  induction candidates with
  | nil =>
    simp only [List.findSome?_nil, reduceCtorEq, false_iff]
    rintro ⟨⟩
  | cons candidate further ih =>
    rw [List.findSome?_cons]
    cases meaning : r.meaning? candidate with
    | some y =>
      have stands := c.meaning?_eq_some_iff.mp meaning
      constructor
      · rintro ⟨⟩
        exact .here stands
      · intro nearest
        cases nearest with
        | here other => exact meaning.symm.trans (c.meaning?_eq_some_iff.mpr other)
        | further absent _ => exact absurd stands (absent y)
    | none =>
      have absent := c.meaning?_eq_none_iff.mp meaning
      refine ih.trans ⟨.further absent, ?_⟩
      intro nearest
      cases nearest with
      | here stands => exact absurd stands (absent x)
      | further _ nearest => exact nearest

theorem Consistent.declared?_eq {s : Symbol} (h : s ∈ r.table.map (·.2)) :
    r.declared? s.fullName = some (.ofSymbol s) := by
  obtain ⟨f, hf, hs⟩ := c.mem_table_iff.mp h
  rw [declared?, c.symbol?_eq hf hs]
  rfl

end candidates

section names
variable {r : Registry} {p : Place} {name : String}

theorem resolve?_relative (relative : name.toList.head? ≠ some '.') (free : ¬ WellKnown.inPackage name)
    (keyword : Scalar.ofKeyword? name = none) :
    r.resolve? p name = (p.visible (r.importedPackages p.file) name).findSome? r.meaning? := by
  unfold resolve?
  split
  · rename_i start
    simp [start] at relative
  · rw [resolveName?, if_neg free, keyword, candidates_eq]
    rfl

theorem resolve?_absolute (r : Registry) (p : Place) (fullName : String) :
    r.resolve? p ("." ++ fullName) =
      if WellKnown.inPackage fullName then (WellKnown.lookup? fullName).map .ofEntry else r.declared? fullName := by
  have start : ("." ++ fullName).toList = '.' :: fullName.toList := by simp
  rw [resolve?, start]
  change r.resolveName? p true (.ofList fullName.toList) = _
  rw [String.ofList_toList, resolveName?]
  rfl

theorem mem_table_of_declared {x : Resolved} {s : Symbol} (found : r.resolve? p name = some x)
    (declared : x = .message s ∨ x = .enum s) : s ∈ r.table.map (·.2) ∧ x = .ofSymbol s := by
  have registered := mem_table_of_resolve? found declared
  refine ⟨registered, ?_⟩
  rcases possible_of_resolve? found with ⟨kind, rfl⟩ | ⟨e, rfl⟩ | ⟨t, _, rfl⟩
  · simp at declared
  · cases e <;> simp [Resolved.ofEntry] at declared
  · unfold Resolved.ofSymbol at declared
    split at declared <;> simp at declared <;> rw [declared]

end names

end Registry

/-- A relative name means the nearest declaration that is visible from its place, and nothing if there is none. The
packages that are visible are those along the imports, each once and in breadth-first order. -/
theorem resolve_finds_nearest {r : Registry} (reachable : r.Reachable) (p : Place) (name : String)
    (relative : name.toList.head? ≠ some '.') (free : ¬ WellKnown.inPackage name)
    (keyword : Scalar.ofKeyword? name = none) :
    r.ListsPackages p.file (r.importedPackages p.file) ∧
    (∀ x, r.resolve? p name = some x ↔ r.Nearest (p.visible (r.importedPackages p.file) name) x) ∧
    (r.resolve? p name = none ↔ ∀ c ∈ p.visible (r.importedPackages p.file) name, ∀ x, ¬ r.Stands c x) := by
  have c := reachable.consistent
  rw [Registry.resolve?_relative relative free keyword]
  refine ⟨r.listsPackages p.file, fun x => c.findSome?_eq_some_iff, ?_⟩
  simp only [List.findSome?_eq_none_iff, c.meaning?_eq_none_iff]

def shelfFile : SchemaFile :=
  .ofText "shelf" "package store.front;import \"lib\";import \"google/protobuf/any.proto\";message Box\x7b\x7d"

/-- Two files that pass each other on. -/
def libFile : SchemaFile :=
  .ofText "lib" "package lib;import public \"more\";message Box\x7b\x7d"

def moreFile : SchemaFile :=
  .ofText "more" "package more;import public \"lib\";message Box\x7b\x7dmessage Lid\x7b\x7d"

def lidSymbol : Symbol :=
  { name := "Lid", parents := [], package := some "more", file := "more", kind := .message }

theorem resolve_finds_nearest_circle :
    ∃ r, Registry.registerAll {} [shelfFile, libFile, moreFile] = .ok r ∧
      r.importedPackages "shelf" = ["lib", "google.protobuf", "more"] ∧
      r.resolve? ⟨"shelf", some "store.front", ["Box"]⟩ "Lid" = some (.message lidSymbol) ∧
      r.resolve? ⟨"shelf", some "store.front", ["Box"]⟩ "Hinge" = none := by
  have facts : (Registry.registerAll {} [shelfFile, libFile, moreFile]).toOption.map (fun r =>
      (r.importedPackages "shelf",
        (Place.visible ⟨"shelf", some "store.front", ["Box"]⟩ ["lib", "google.protobuf", "more"] "Lid").findSome?
          r.meaning?,
        (Place.visible ⟨"shelf", some "store.front", ["Box"]⟩ ["lib", "google.protobuf", "more"] "Hinge").findSome?
          r.meaning?)) = some (["lib", "google.protobuf", "more"], some (.message lidSymbol), none) := by
    simp only [Registry.importedPackages, Walk.run_eq_runFor]
    decide +kernel
  obtain ⟨r, registered, same⟩ := toOption_map_eq_some.mp facts
  simp only [Prod.mk.injEq] at same
  obtain ⟨packages, lid, hinge⟩ := same
  have reachable := Registry.reachable_of_registerAll registered
  refine ⟨r, registered, packages, ?_, ?_⟩
  · obtain ⟨_, found, _⟩ := resolve_finds_nearest reachable ⟨"shelf", some "store.front", ["Box"]⟩ "Lid"
      (by decide) (by decide) (by decide)
    rw [found, packages]
    exact reachable.consistent.findSome?_eq_some_iff.mp lid
  · obtain ⟨_, _, absent⟩ := resolve_finds_nearest reachable ⟨"shelf", some "store.front", ["Box"]⟩ "Hinge"
      (by decide) (by decide) (by decide)
    rw [absent, packages]
    simpa only [List.findSome?_eq_none_iff, reachable.consistent.meaning?_eq_none_iff] using hinge

/-- The full name of a declaration that some name means, with a dot in front, means the same declaration everywhere,
unless it lies in the package of the built-in types, where a full name means what is built in. Two names that mean
declarations of one full name mean one declaration. -/
theorem full_names_canonical {r : Registry} (reachable : r.Reachable) {p : Place} {name : String} {x : Resolved}
    {s : Symbol} (found : r.resolve? p name = some x) (declared : x = .message s ∨ x = .enum s) :
    (∀ q, r.resolve? q ("." ++ s.fullName) =
      if WellKnown.inPackage s.fullName then (WellKnown.lookup? s.fullName).map .ofEntry else some x) ∧
    ∀ q other y t, r.resolve? q other = some y → (y = .message t ∨ y = .enum t) → t.fullName = s.fullName → y = x := by
  have c := reachable.consistent
  obtain ⟨registered, rfl⟩ := Registry.mem_table_of_declared found declared
  refine ⟨?_, ?_⟩
  · intro q
    rw [Registry.resolve?_absolute, c.declared?_eq registered]
  · intro q other y t found' declared' same
    obtain ⟨registered', rfl⟩ := Registry.mem_table_of_declared found' declared'
    rw [c.eq_of_fullName registered' registered same]

/-- Names for one enum from inside a message, and from another file. -/
def lampFile : SchemaFile :=
  .ofText "lamp" "package home.light;message Lamp\x7benum Mode\x7bOFF=0;\x7dMode mode=1;\x7d"

def modeSymbol : Symbol :=
  { name := "Mode", parents := ["Lamp"], package := some "home.light", file := "lamp", kind := .enum }

theorem full_names_canonical_lamp :
    ∃ r, Registry.registerAll {} [lampFile] = .ok r ∧
      r.resolve? ⟨"lamp", some "home.light", ["Lamp"]⟩ "Mode" = some (.enum modeSymbol) ∧
      ∀ q, r.resolve? q ".home.light.Lamp.Mode" = some (.enum modeSymbol) := by
  have facts : (Registry.registerAll {} [lampFile]).toOption.map
      (·.resolve? ⟨"lamp", some "home.light", ["Lamp"]⟩ "Mode") = some (some (.enum modeSymbol)) := by
    decide +kernel
  obtain ⟨r, registered, found⟩ := toOption_map_eq_some.mp facts
  refine ⟨r, registered, found, ?_⟩
  exact (full_names_canonical (Registry.reachable_of_registerAll registered) found (.inr rfl)).1

/-- A message in the package of the built-in types, with the name of one of them. -/
def clockFile : SchemaFile :=
  .ofText "clock" "package google.protobuf;message Timestamp\x7b\x7dmessage Clock\x7bTimestamp now=1;\x7d"

def timestampSymbol : Symbol :=
  { name := "Timestamp", parents := [], package := some "google.protobuf", file := "clock", kind := .message }

/-- The name alone means the message, and its full name the built-in type. -/
theorem full_names_reserved :
    clockFile.Parsed ∧ ∃ r, Registry.registerAll {} [clockFile] = .ok r ∧
      r.resolve? ⟨"clock", some "google.protobuf", ["Clock"]⟩ "Timestamp" = some (.message timestampSymbol) ∧
      r.resolve? ⟨"clock", some "google.protobuf", ["Clock"]⟩ ("." ++ timestampSymbol.fullName) =
        some (.wellKnown .timestamp) := by
  have facts : (SchemaFile.parse true "clock"
        "package google.protobuf;message Timestamp\x7b\x7dmessage Clock\x7bTimestamp now=1;\x7d").result.toBool ∧
      (Registry.registerAll {} [clockFile]).toOption.map (fun r =>
        (r.resolve? ⟨"clock", some "google.protobuf", ["Clock"]⟩ "Timestamp",
          r.resolve? ⟨"clock", some "google.protobuf", ["Clock"]⟩ ("." ++ timestampSymbol.fullName))) =
        some (some (.message timestampSymbol), some (.wellKnown .timestamp)) := by
    decide +kernel
  obtain ⟨reads, registers⟩ := facts
  obtain ⟨r, registered, same⟩ := toOption_map_eq_some.mp registers
  simp only [Prod.mk.injEq] at same
  exact ⟨SchemaFile.parsed_ofText reads, r, registered, same⟩

end SchemaGen
