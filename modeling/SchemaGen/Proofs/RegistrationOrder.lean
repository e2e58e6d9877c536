import SchemaGen.Proofs.Registration
import SchemaGen.Proofs.Walk
import SchemaGen.Proofs.WellFormed
/-!
# The order of registration

Files with distinct names can be registered together or not, whatever their order. All that a registry is asked about
its files goes by names, so the answers do not depend on the order either.
-/
namespace SchemaGen

namespace Registry

section success
variable {r : Registry} {f : SchemaFile} {files : List SchemaFile}

theorem accepts_iff (new : r.fileIndex.get? f.name = none) (keys : (r.table.map (·.1)).Nodup) :
    r.Accepts f ↔ f.DistinctNumbers ∧ (r.table.map (·.1) ++ f.symbols.map (·.fullName)).Nodup := by
  rw [List.nodup_append]
  constructor
  · intro accepts
    refine ⟨accepts.numbers, keys, accepts.fullNames, ?_⟩
    rintro _ known _ own rfl
    obtain ⟨s, hs, rfl⟩ := List.mem_map.mp own
    exact accepts.free s hs known
  · rintro ⟨numbers, _, distinct, apart⟩
    exact ⟨new, numbers, fun s hs known => apart _ known _ (List.mem_map_of_mem hs) rfl, distinct⟩

/-- Files with new names can be registered if no number and no full name among them is used twice. -/
theorem Consistent.exists_registerAll_iff (c : r.Consistent) (distinct : ((r.files ++ files).map (·.name)).Nodup) :
    (∃ r', r.registerAll files = .ok r') ↔ (∀ f ∈ files, f.DistinctNumbers) ∧
      (r.table.map (·.1) ++ files.flatMap fun f => f.symbols.map (·.fullName)).Nodup := by
  induction files generalizing r with
  | nil => simpa [Registry.registerAll] using c.fullNames
  | cons f files ih =>
    have new : r.fileIndex.get? f.name = none := by
      rw [c.get?_fileIndex_eq_none]
      rw [List.map_append, List.nodup_append] at distinct
      exact fun known => distinct.2.2 _ known _ (by simp) rfl
    have rest : ((r.add f).files ++ files).map (·.name) = (r.files ++ f :: files).map (·.name) := by
      simp [Registry.add]
    -- Once the first file is in, its full names belong to the table, and the list as a whole stays the same.
    have next : r.Accepts f → ((∃ r', r.registerAll (f :: files) = .ok r') ↔
        (∀ g ∈ files, g.DistinctNumbers) ∧
          (r.table.map (·.1) ++ (f :: files).flatMap fun g => g.symbols.map (·.fullName)).Nodup) := by
      intro accepts
      have passed := (checks_iff new).mpr accepts
      have longer : (r.add f).table.map (·.1) = r.table.map (·.1) ++ f.symbols.map (·.fullName) := by
        rw [c.add_eq new passed]
        simp [Function.comp_def]
      rw [Registry.registerAll, register_of_accepts accepts, List.flatMap_cons, ← List.append_assoc, ← longer]
      exact ih (c.add new passed) (by rw [rest]; exact distinct)
    rw [List.forall_mem_cons]
    constructor
    · rintro ⟨r', registered⟩
      obtain ⟨_, first, _⟩ := except_bind_ok.mp registered
      have accepts := accepts_of_register new first
      obtain ⟨numbers, fullNames⟩ := (next accepts).mp ⟨r', registered⟩
      exact ⟨⟨accepts.numbers, numbers⟩, fullNames⟩
    · rintro ⟨⟨own, numbers⟩, fullNames⟩
      have start : (r.table.map (·.1) ++ f.symbols.map (·.fullName)).Nodup := by
        rw [List.flatMap_cons, ← List.append_assoc] at fullNames
        exact fullNames.of_append_left
      exact (next ((accepts_iff new c.fullNames).mpr ⟨own, start⟩)).mpr ⟨numbers, fullNames⟩

end success

/-- Two registries that answer every question alike. -/
structure SameAnswers (r r' : Registry) : Prop where
  file : ∀ name, r.file? name = r'.file? name
  symbol : ∀ fullName, r.symbol? fullName = r'.symbol? fullName
  symbolsIn : ∀ file, r.symbolsIn file = r'.symbolsIn file
  messageSymbol : ∀ package scope, r.messageSymbol? package scope = r'.messageSymbol? package scope
  message : ∀ s, r.message? s = r'.message? s
  enum : ∀ s, r.enum? s = r'.enum? s
  importsOf : ∀ file, r.importsOf file = r'.importsOf file
  closure : ∀ roots, r.closure roots = r'.closure roots
  resolve : ∀ place name, r.resolve? place name = r'.resolve? place name
  reaches : ∀ start target, r.reaches start target = r'.reaches start target

section answers
variable {r r' : Registry} (file : r.file? = r'.file?) (symbol : r.symbol? = r'.symbol?)
  (symbolsIn : r.symbolsIn = r'.symbolsIn)
include file

theorem closure_congr (roots : List String) : r.closure roots = r'.closure roots := by
  have key : r.fileWalk.key = r'.fileWalk.key := rfl
  have visit : r.fileWalk.visit = r'.fileWalk.visit := by
    funext name
    simp only [fileWalk, file]
  rw [closure, closure, Walk.run_congr key visit]

theorem importedPackages_congr (name : String) : r.importedPackages name = r'.importedPackages name := by
  have key : r.packageWalk.key = r'.packageWalk.key := rfl
  have visit : r.packageWalk.visit = r'.packageWalk.visit := by
    funext path
    simp only [packageWalk, file]
  rw [importedPackages, importedPackages, importsOf, importsOf, file, Walk.run_congr key visit]

theorem message?_congr (s : Symbol) : r.message? s = r'.message? s := by
  rw [message?, message?, file]

include symbol symbolsIn

theorem resolve?_congr (p : Place) (name : String) : r.resolve? p name = r'.resolve? p name := by
  have declared : ∀ n, r.declared? n = r'.declared? n := by
    intro n
    rw [declared?, declared?, symbol]
  have meaning : r.meaning? = r'.meaning? := by
    funext c
    cases c with
    | declared n => exact declared n
    | inFile file n => rw [meaning?, meaning?, symbolsIn]
    | builtIn n => rfl
  have resolveName : ∀ absolute n, r.resolveName? p absolute n = r'.resolveName? p absolute n := by
    intro absolute n
    simp only [resolveName?, candidates, declared, meaning, importedPackages_congr file]
  unfold resolve?
  split
  · exact resolveName _ _
  · exact resolveName _ _

theorem reaches_congr (start target : Symbol) : r.reaches start target = r'.reaches start target := by
  have held : ∀ p x, r.held? p x = r'.held? p x := by
    intro p x
    simp only [held?, resolve?_congr file symbol symbolsIn]
  have holds : r.holds = r'.holds := by
    funext s
    simp only [Registry.holds, message?_congr file, held]
  have key : r.messageWalk.key = r'.messageWalk.key := rfl
  have visit : r.messageWalk.visit = r'.messageWalk.visit := by
    funext s
    simp only [messageWalk, holds]
  rw [reaches, reaches, Walk.run_congr key visit]

theorem sameAnswers_of_lookups : r.SameAnswers r' where
  file name := by rw [file]
  symbol fullName := by rw [symbol]
  symbolsIn name := by rw [symbolsIn]
  messageSymbol package scope := by rw [messageSymbol?, messageSymbol?, symbol]
  message := message?_congr file
  enum s := by rw [enum?, enum?, file]
  importsOf name := by rw [importsOf, importsOf, file]
  closure := closure_congr file
  resolve := resolve?_congr file symbol symbolsIn
  reaches := reaches_congr file symbol symbolsIn

end answers

/-- Consistent registries with the same files answer alike, however the files are ordered. -/
theorem Consistent.sameAnswers {r r' : Registry} (c : r.Consistent) (c' : r'.Consistent)
    (perm : r.files.Perm r'.files) : r.SameAnswers r' := by
  -- Both look-ups can be said by membership among the files, where the order is gone.
  have file : r.file? = r'.file? := by
    funext name
    apply Option.ext
    intro f
    rw [c.file?_eq_some_iff, c'.file?_eq_some_iff, perm.mem_iff]
  have symbol : r.symbol? = r'.symbol? := by
    funext fullName
    apply Option.ext
    intro s
    rw [c.symbol?_eq_some_iff, c'.symbol?_eq_some_iff]
    simp only [perm.mem_iff]
  have symbolsIn : r.symbolsIn = r'.symbolsIn := by
    funext name
    rw [c.symbolsIn_eq, c'.symbolsIn_eq, file]
  exact sameAnswers_of_lookups file symbol symbolsIn

end Registry

/-- Files with distinct names can be registered in one order if they can in another, and the registries answer
alike. -/
theorem registration_order_irrelevant {files files' : List SchemaFile} (distinct : (files.map (·.name)).Nodup)
    (perm : files.Perm files') :
    ((∃ r, Registry.registerAll {} files = .ok r) ↔ ∃ r, Registry.registerAll {} files' = .ok r) ∧
    ∀ r r', Registry.registerAll {} files = .ok r → Registry.registerAll {} files' = .ok r' →
      r.SameAnswers r' ∧ r.files.Perm r'.files := by
  have distinct' : (files'.map (·.name)).Nodup := (perm.map _).nodup_iff.mp distinct
  refine ⟨?_, ?_⟩
  · rw [Registry.consistent_empty.exists_registerAll_iff (by simpa using distinct),
      Registry.consistent_empty.exists_registerAll_iff (by simpa using distinct')]
    have fullNames := (perm.flatMap_right fun f => f.symbols.map (·.fullName)).nodup_iff
    simp only [List.map_nil, List.nil_append, perm.mem_iff, fullNames]
  · intro r r' registered registered'
    have listed : r.files = files := Registry.consistent_empty.files_of_registerAll (by simpa using distinct) registered
    have listed' : r'.files = files' :=
      Registry.consistent_empty.files_of_registerAll (by simpa using distinct') registered'
    have same : r.files.Perm r'.files := by
      rw [listed, listed']
      exact perm
    have c := Registry.consistent_empty.registerAll registered
    have c' := Registry.consistent_empty.registerAll registered'
    exact ⟨c.sameAnswers c' same, same⟩

/-- Two files that import each other, and whose messages hold each other. -/
def nodeFile : SchemaFile :=
  .ofText "node" "package graph;import \"edge\";message Node\x7brepeated Edge out=1;\x7d"

def edgeFile : SchemaFile :=
  .ofText "edge" "package graph;import \"node\";message Edge\x7bNode from=1;Node to=2;\x7d"

def edgeSymbol : Symbol :=
  { kind := .message, name := "Edge", package := some "graph", parents := [], file := "edge" }

theorem registration_order_irrelevant_cycle :
    ∃ r r', Registry.registerAll {} [nodeFile, edgeFile] = .ok r ∧
      Registry.registerAll {} [edgeFile, nodeFile] = .ok r' ∧ r.SameAnswers r' ∧
      r.resolve? ⟨"node", some "graph", ["Node"]⟩ "Edge" = some (.message edgeSymbol) ∧
      r'.resolve? ⟨"node", some "graph", ["Node"]⟩ "Edge" = some (.message edgeSymbol) := by
  have facts : ([nodeFile, edgeFile].map (·.name)).Nodup ∧
      (Registry.registerAll {} [nodeFile, edgeFile]).toOption.bind
        (·.resolve? ⟨"node", some "graph", ["Node"]⟩ "Edge") = some (.message edgeSymbol) := by
    decide +kernel
  obtain ⟨distinct, meaning⟩ := facts
  obtain ⟨either, alike⟩ := registration_order_irrelevant distinct (List.Perm.swap edgeFile nodeFile [])
  cases registered : Registry.registerAll {} [nodeFile, edgeFile] with
  | error e => simp [registered, Except.toOption] at meaning
  | ok r =>
    obtain ⟨r', registered'⟩ := either.mp ⟨r, registered⟩
    have same := (alike r r' registered registered').1
    simp only [registered, Except.toOption, Option.bind_some] at meaning
    refine ⟨r, r', rfl, registered', same, meaning, ?_⟩
    rw [← same.resolve]
    exact meaning

end SchemaGen
