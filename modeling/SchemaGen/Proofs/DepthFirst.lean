import SchemaGen.Proofs.ImportClosure
import SchemaGen.Proofs.Registration
/-!
# Depth-first walks are recursive

A depth-first walk keeps all that it has found on one stack, also names that turn out to be done when their turn
comes. It visits the places of a recursion nevertheless: all that the first place leads to comes before the next
place. So the files that some names need stand in the preorder of a plain recursion along the imports.
-/
namespace SchemaGen

namespace Walk
variable {α β : Type} {w : Walk α β} {order : Order}

theorem places_congr (waiting : List α) {seen done : List String} (same : ∀ k, k ∈ seen ↔ k ∈ done) :
    w.places order waiting seen = w.places order waiting done := by
  induction waiting, seen using places_induction w order generalizing done with
  | nil seen => rw [places_nil, places_nil]
  | known a rest seen h ih => rw [places_seen h, places_seen ((same _).mp h), ih same]
  | fresh a rest seen h ih =>
    rw [places_fresh h, places_fresh fun known => h ((same _).mpr known)]
    apply congrArg
    apply ih
    intro k
    rw [List.mem_cons, List.mem_cons, same]

/-- What waits behind some places comes after all that these lead to. -/
theorem places_append (first behind : List α) (seen : List String) :
    w.places .depthFirst (first ++ behind) seen = w.places .depthFirst first seen ++
      w.places .depthFirst behind ((w.places .depthFirst first seen).map w.key ++ seen) := by
  induction first, seen using places_induction w .depthFirst with
  | nil seen => rw [places_nil, List.nil_append, List.nil_append, List.map_nil, List.nil_append]
  | known a rest seen h ih => rw [List.cons_append, places_seen h, places_seen h, ih]
  | fresh a rest seen h ih =>
    rw [List.cons_append, places_fresh h, places_fresh h, List.cons_append]
    apply congrArg
    change w.places .depthFirst ((w.visit a).2 ++ (rest ++ behind)) _ = _
    rw [← List.append_assoc]
    apply ih.trans
    apply congrArg
    apply places_congr
    intro k
    simp only [List.map_cons, List.mem_append, List.mem_cons, Order.push]
    tauto

/-- The walk from a new place goes through all that the place leads to, and then on. -/
theorem places_cons {a : α} (rest : List α) {seen : List String} (h : w.key a ∉ seen) :
    w.places .depthFirst (a :: rest) seen =
      a :: (w.places .depthFirst (w.visit a).2 (w.key a :: seen) ++
        w.places .depthFirst rest
          ((w.places .depthFirst (w.visit a).2 (w.key a :: seen)).map w.key ++ w.key a :: seen)) := by
  rw [places_fresh h]
  apply congrArg
  exact places_append _ _ _

end Walk

/-- The paths that a file imports, in order, the built-in ones apart. -/
def SchemaFile.ownImports (f : SchemaFile) : List String :=
  (f.imports.filter (!WellKnown.isImport ·.path)).map (·.path)

namespace Registry
variable {r : Registry} {name : String} {f : SchemaFile} {names done : List String}

def filesLeft (r : Registry) (done : List String) : Nat :=
  (r.fileIndex.filter (·.1 ∉ done)).length

theorem filesLeft_append_le (r : Registry) (more done : List String) :
    r.filesLeft (more ++ done) ≤ r.filesLeft done := by
  apply List.Sublist.length_le
  apply List.monotone_filter_right
  intro f fresh
  simp only [List.mem_append, decide_eq_true_eq] at fresh ⊢
  tauto

theorem filesLeft_cons_lt (found : r.file? name = some f) (new : name ∉ done) :
    r.filesLeft (name :: done) < r.filesLeft done := by
  have split : r.fileIndex.filter (·.1 ∉ name :: done) = (r.fileIndex.filter (·.1 ∉ done)).filter (·.1 ≠ name) := by
    simp [List.filter_filter]
  obtain ⟨place, known, _⟩ := Option.bind_eq_some_iff.mp found
  rw [filesLeft, filesLeft, split]
  apply List.length_filter_lt_length_iff_exists.mpr
  refine ⟨(name, place), ?_, by simp⟩
  simp [Index.mem_of_get? known, new]

/-- The recursion along the imports: the file of each name in turn, followed by what it imports, when the files of
the names `done` have been visited before. -/
def preorder (r : Registry) (names done : List String) : List SchemaFile :=
  match names with
  | [] => []
  | name :: rest =>
    match _ : r.file? name with
    | none => r.preorder rest done
    | some f =>
      if name ∈ done then r.preorder rest done
      else
        let below := r.preorder f.ownImports (name :: done)
        f :: (below ++ r.preorder rest (below.map (·.name) ++ name :: done))
termination_by (r.filesLeft done, names.length)
decreasing_by
  · simp [Prod.lex_def]
  · simp [Prod.lex_def]
  · rename_i found new
    exact Prod.Lex.left _ _ (filesLeft_cons_lt found new)
  · rename_i found new
    exact Prod.Lex.left _ _ (Nat.lt_of_le_of_lt (filesLeft_append_le r _ _) (filesLeft_cons_lt found new))

theorem preorder_missing (missing : r.file? name = none) :
    r.preorder (name :: names) done = r.preorder names done := by
  rw [preorder]
  split
  · rfl
  · rename_i found
    cases missing.symm.trans found

theorem preorder_done (known : name ∈ done) : r.preorder (name :: names) done = r.preorder names done := by
  rw [preorder]
  split
  · rfl
  · exact if_pos known

theorem preorder_new (found : r.file? name = some f) (new : name ∉ done) :
    r.preorder (name :: names) done =
      f :: (r.preorder f.ownImports (name :: done) ++
        r.preorder names ((r.preorder f.ownImports (name :: done)).map (·.name) ++ name :: done)) := by
  rw [preorder]
  split
  · rename_i missing
    cases missing.symm.trans found
  · rename_i g found'
    cases found.symm.trans found'
    exact if_neg new

theorem preorder_induction (r : Registry) {P : List String → List String → Prop} (nil : ∀ done, P [] done)
    (missing : ∀ name rest done, r.file? name = none → P rest done → P (name :: rest) done)
    (known : ∀ name rest done f, r.file? name = some f → name ∈ done → P rest done → P (name :: rest) done)
    (new : ∀ name rest done f, r.file? name = some f → name ∉ done → P f.ownImports (name :: done) →
      P rest ((r.preorder f.ownImports (name :: done)).map (·.name) ++ name :: done) → P (name :: rest) done)
    (names done : List String) : P names done := by
  apply preorder.induct r P nil
  · intro done name rest absent ih
    exact missing name rest done absent ih
  · intro done name rest f found listed ih
    exact known name rest done f found listed ih
  · intro done name rest f found fresh below inside behind
    exact new name rest done f found fresh inside behind

theorem Consistent.names_filterMap (c : r.Consistent) (names : List String) :
    (names.filterMap r.file?).map (·.name) = names.filter fun name => (r.file? name).isSome := by
  induction names with
  | nil => rfl
  | cons name names ih =>
    cases found : r.file? name with
    | none => rw [List.filterMap_cons_none found, List.filter_cons_of_neg (by simp [found]), ih]
    | some f =>
      rw [List.filterMap_cons_some found, List.filter_cons_of_pos (by simp [found]), List.map_cons, ih,
        c.name_of_file? found]

theorem visit_fileWalk_of_some (found : r.file? name = some f) : (r.fileWalk.visit name).2 = f.ownImports := by
  simp only [fileWalk, found]
  rfl

theorem visit_fileWalk_of_none (missing : r.file? name = none) : (r.fileWalk.visit name).2 = [] := by
  simp only [fileWalk, missing]

/-- The walk along the imports finds the files of the recursion, in its order. Names without a file may be done in the
one and not in the other: they lead nowhere. -/
theorem Consistent.filterMap_places (c : r.Consistent) (names done : List String) {seen : List String}
    (same : ∀ name, (r.file? name).isSome → (name ∈ seen ↔ name ∈ done)) :
    (r.fileWalk.places .depthFirst names seen).filterMap r.file? = r.preorder names done := by
  induction names, done using preorder_induction r generalizing seen with
  | nil done => rw [Walk.places_nil, List.filterMap_nil, preorder]
  | missing name rest done missing ih =>
    rw [preorder_missing missing]
    by_cases known : name ∈ seen
    · rw [Walk.places_seen known]
      exact ih same
    · rw [Walk.places_cons rest known, visit_fileWalk_of_none missing, Walk.places_nil,
        List.filterMap_cons_none missing, List.nil_append]
      apply ih
      intro other registered
      have differs : other ≠ name := by
        intro equal
        simp [equal, missing] at registered
      simpa [differs, fileWalk] using same other registered
  | known name rest done f found listed ih =>
    have known : name ∈ seen := (same name (by simp [found])).mpr listed
    rw [preorder_done listed, Walk.places_seen known]
    exact ih same
  | new name rest done f found new inside behind =>
    have fresh : name ∉ seen := by
      intro known
      exact new ((same name (by simp [found])).mp known)
    have inner : (r.fileWalk.places .depthFirst f.ownImports (name :: seen)).filterMap r.file? =
        r.preorder f.ownImports (name :: done) := by
      apply inside
      intro other registered
      simp [same other registered]
    rw [preorder_new found new, Walk.places_cons rest fresh, List.filterMap_cons_some found, List.filterMap_append,
      visit_fileWalk_of_some found]
    apply congrArg
    change (r.fileWalk.places .depthFirst f.ownImports (name :: seen)).filterMap r.file? ++ _ = _
    rw [inner]
    apply congrArg
    apply behind
    intro other registered
    rw [← inner, c.names_filterMap]
    simp [fileWalk, same other registered, registered]

def Imports (r : Registry) (importer path : String) : Prop :=
  ∃ f ∈ r.files, f.name = importer ∧ ∃ i ∈ f.imports, i.path = path ∧ ¬ WellKnown.isImport path

theorem Consistent.leads_iff (c : r.Consistent) {importer path : String} :
    r.fileWalk.Leads importer path ↔ r.Imports importer path := by
  constructor
  · intro leads
    change path ∈ (r.fileWalk.visit importer).2 at leads
    cases found : r.file? importer with
    | none => simp [visit_fileWalk_of_none found] at leads
    | some f =>
      rw [visit_fileWalk_of_some found, SchemaFile.ownImports, List.mem_map] at leads
      obtain ⟨i, listed, rfl⟩ := leads
      refine ⟨f, mem_files_of_file? found, c.name_of_file? found, i, ?_⟩
      simpa using listed
  · intro imports
    obtain ⟨f, hf, rfl, i, listed, rfl, own⟩ := imports
    change i.path ∈ (r.fileWalk.visit f.name).2
    rw [visit_fileWalk_of_some (c.file?_eq hf)]
    exact List.mem_map_of_mem (List.mem_filter.mpr ⟨listed, by simpa using own⟩)

theorem Consistent.nodup_names_closure (c : r.Consistent) (roots : List String) :
    ((r.closure roots).map (·.name)).Nodup := by
  rw [closure_eq, c.names_filterMap]
  apply List.Nodup.filter
  simpa [fileWalk] using r.fileWalk.places_keys_nodup .depthFirst roots []

end Registry

/-- The files that some names need are those of the recursion along the imports, in its order: each registered file
that a way along the imports leads to, once, and no other. -/
theorem closure_preorder {r : Registry} (reachable : r.Reachable) (roots : List String) :
    r.closure roots = r.preorder roots [] ∧
    ((r.closure roots).map (·.name)).Nodup ∧
    ∀ f, f ∈ r.closure roots ↔ f ∈ r.files ∧ ∃ root ∈ roots, Relation.ReflTransGen r.Imports root f.name := by
  have c := reachable.consistent
  have leads : r.fileWalk.Leads = r.Imports := by
    funext importer path
    exact propext c.leads_iff
  refine ⟨?_, ?_, ?_⟩
  · rw [Registry.closure_eq]
    apply c.filterMap_places
    simp
  · exact c.nodup_names_closure roots
  · intro f
    rw [← leads]
    constructor
    · intro h
      have registered := Registry.mem_files_of_mem_closure h
      exact ⟨registered, (c.mem_closure_iff registered).mp h⟩
    · intro h
      exact (c.mem_closure_iff h.1).mpr h.2

/-- Four files in a circle; the first imports the second and the third, which the second imports as well. -/
def ringFiles : List SchemaFile :=
  [.ofText "a" "import \"b\";import \"c\";",
    .ofText "b" "import \"google/protobuf/any.proto\";import \"c\";import \"d\";",
    .ofText "c" "import \"gone\";", .ofText "d" "import \"a\";"]

theorem closure_preorder_ring :
    ∃ r, Registry.registerAll {} ringFiles = .ok r ∧
      (r.preorder ["gone", "a", "c", "a"] []).map (·.name) = ["a", "b", "c", "d"] ∧
      ∃ f ∈ r.files, f.name = "d" ∧ Relation.ReflTransGen r.Imports "b" f.name := by
  have facts : (Registry.registerAll {} ringFiles).toOption.map (fun r =>
      ((r.closure ["gone", "a", "c", "a"]).map (·.name), (r.closure ["b"]).map (·.name))) =
        some (["a", "b", "c", "d"], ["b", "c", "d", "a"]) := by
    simp only [Registry.closure, Walk.run_eq_runFor]
    decide +kernel
  obtain ⟨r, registered, same⟩ := toOption_map_eq_some.mp facts
  simp only [Prod.mk.injEq] at same
  have reachable := Registry.reachable_of_registerAll registered
  refine ⟨r, registered, ?_, ?_⟩
  · rw [← (closure_preorder reachable _).1]
    exact same.1
  · have last : "d" ∈ (r.closure ["b"]).map (·.name) := by simp [same.2]
    obtain ⟨f, hf, name⟩ := List.mem_map.mp last
    have needed := ((closure_preorder reachable ["b"]).2.2 f).mp hf
    refine ⟨f, needed.1, name, ?_⟩
    simpa using needed.2

end SchemaGen
