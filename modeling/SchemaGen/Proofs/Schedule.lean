import SchemaGen.Output.Schedule
import SchemaGen.Proofs.Folder
import SchemaGen.Proofs.Scan
/-!
# The folders of a schedule

The pieces of a directory are those of the files that map to it, file by file, and after them the built-in records
if the directory is theirs. Filling the folders succeeds exactly when the pieces of every directory are compatible,
and then every folder holds its pieces.
-/
namespace SchemaGen.Output.Schedule

def directoryOf (s : Schedule) (f : SchemaFile) : List String :=
  s.config.directory f.package

def builtInDirectory (s : Schedule) : List String :=
  s.config.directory (some WellKnown.package)

def siteOf (s : Schedule) (f : SchemaFile) : Code.Site :=
  .top s.registry s.config f

/-- The pieces of a file: for every message its record, its unions and its enumerations, and then the enums of
the file itself. -/
def piecesOfFile (s : Schedule) (f : SchemaFile) : List Piece :=
  (f.everyMessage.flatMap (declaredAt (s.siteOf f)) ++ f.enums.map (Declared.mk (s.siteOf f) <| .enum ·)).map .declared

def filesAt (s : Schedule) (files : List SchemaFile) (directory : List String) : List SchemaFile :=
  files.filter (s.directoryOf · = directory)

def piecesFrom (s : Schedule) (files : List SchemaFile) (known : List WellKnown) (directory : List String) :
    List Piece :=
  (s.filesAt files directory).flatMap s.piecesOfFile ++
    if directory = s.builtInDirectory then known.map .builtIn else []

def pieces (s : Schedule) (directory : List String) : List Piece :=
  s.piecesFrom s.files s.builtIns directory

def UsedBy (s : Schedule) (files : List SchemaFile) (known : List WellKnown) (directory : List String) : Prop :=
  directory = [] ∨ (∃ f ∈ files, s.directoryOf f = directory) ∨ (known ≠ [] ∧ directory = s.builtInDirectory)

/-- There is something to generate into a directory, or it is the root. -/
def Uses (s : Schedule) (directory : List String) : Prop :=
  s.UsedBy s.files s.builtIns directory

/-- Every folder holds what the files and built-in types give for it. -/
structure Filled (s : Schedule) (folders : Folders) (files : List SchemaFile) (known : List WellKnown) : Prop where
  keys : ∀ directory, directory ∈ folders.keys ↔ s.UsedBy files known directory
  holds : ∀ directory, ((folders.find? directory).getD {}).Holds
    ((s.filesAt files directory).map (·.name)) (s.piecesFrom files known directory)
  ordered : folders.Ordered

section pieces
variable {s : Schedule}

theorem declared_eq (f : SchemaFile) : (s.declared f).map .declared = s.piecesOfFile f := by
  rw [declared, ofFile_eq]
  rfl

theorem piecesOfFile_cases {P : Piece → Prop} {f : SchemaFile}
    (record : ∀ n ∈ f.everyMessage, P (.declared ⟨within (s.siteOf f) n.scope, .message n.message⟩))
    (union : ∀ n ∈ f.everyMessage, ∀ o ∈ n.message.oneofs, P (.declared ⟨within (s.siteOf f) n.inner, .oneof o⟩))
    (nested : ∀ n ∈ f.everyMessage, ∀ e ∈ n.message.enums, P (.declared ⟨within (s.siteOf f) n.inner, .enum e⟩))
    (enum : ∀ e ∈ f.enums, P (.declared ⟨s.siteOf f, .enum e⟩)) {p : Piece} (hp : p ∈ s.piecesOfFile f) : P p := by
  obtain ⟨d, hd, rfl⟩ := List.mem_map.mp hp
  rcases List.mem_append.mp hd with hd | hd
  · obtain ⟨n, hn, hd⟩ := List.mem_flatMap.mp hd
    rcases List.mem_cons.mp hd with rfl | hd
    · exact record n hn
    · rcases List.mem_append.mp hd with hd | hd
      · obtain ⟨o, ho, rfl⟩ := List.mem_map.mp hd
        exact union n hn o ho
      · obtain ⟨e, he, rfl⟩ := List.mem_map.mp hd
        exact nested n hn e he
  · obtain ⟨e, he, rfl⟩ := List.mem_map.mp hd
    exact enum e he

theorem pieces_cases {P : Piece → Prop} {directory : List String}
    (file : ∀ f ∈ s.files, s.directoryOf f = directory → ∀ p ∈ s.piecesOfFile f, P p)
    (known : ∀ t ∈ s.builtIns, directory = s.builtInDirectory → P (.builtIn t)) {p : Piece}
    (hp : p ∈ s.pieces directory) : P p := by
  rcases List.mem_append.mp hp with hp | hp
  · obtain ⟨f, hf, hp⟩ := List.mem_flatMap.mp hp
    obtain ⟨hf, here⟩ := List.mem_filter.mp hf
    exact file f hf (by simpa using here) p hp
  · split at hp
    · rename_i here
      obtain ⟨t, ht, rfl⟩ := List.mem_map.mp hp
      exact known t ht here
    · cases hp

theorem mem_pieces_of_file {f : SchemaFile} (hf : f ∈ s.files) {d : Declared}
    (hd : d ∈ f.everyMessage.flatMap (declaredAt (s.siteOf f)) ++ f.enums.map (Declared.mk (s.siteOf f) <| .enum ·)) :
    .declared d ∈ s.pieces (s.directoryOf f) := by
  refine List.mem_append_left _ (List.mem_flatMap.mpr ⟨f, ?_, List.mem_map_of_mem hd⟩)
  exact List.mem_filter.mpr ⟨hf, by simp⟩

theorem filesAt_append (files more : List SchemaFile) (directory : List String) :
    s.filesAt (files ++ more) directory = s.filesAt files directory ++ s.filesAt more directory :=
  List.filter_append files more

theorem piecesFrom_append (files more : List SchemaFile) (known : List WellKnown) (directory : List String) :
    s.piecesFrom (files ++ more) known directory =
      s.piecesFrom files [] directory ++ s.piecesFrom more known directory := by
  simp [piecesFrom, filesAt_append, List.flatMap_append]

theorem piecesFrom_single (f : SchemaFile) (directory : List String) :
    s.piecesFrom [f] [] directory = if s.directoryOf f = directory then s.piecesOfFile f else [] := by
  by_cases here : s.directoryOf f = directory
  · simp [piecesFrom, filesAt, here]
  · simp [piecesFrom, filesAt, here]

theorem piecesFrom_known (files : List SchemaFile) (known more : List WellKnown) (directory : List String) :
    s.piecesFrom files (known ++ more) directory =
      s.piecesFrom files known directory ++ if directory = s.builtInDirectory then more.map .builtIn else [] := by
  by_cases here : directory = s.builtInDirectory
  · simp [piecesFrom, here]
  · simp [piecesFrom, here]

end pieces

section add
variable {s : Schedule} {fs : List SchemaFile} {f : SchemaFile}

theorem addAll_settings (s : Schedule) (fs : List SchemaFile) :
    (s.addAll fs).registry = s.registry ∧ (s.addAll fs).config = s.config := by
  induction fs generalizing s with
  | nil => exact ⟨rfl, rfl⟩
  | cons f fs ih =>
    obtain ⟨registry, config⟩ := ih (s.add f)
    have same : (s.add f).registry = s.registry ∧ (s.add f).config = s.config := by
      unfold add
      split <;> exact ⟨rfl, rfl⟩
    exact ⟨registry.trans same.1, config.trans same.2⟩

theorem mem_add {g : SchemaFile} : g ∈ (s.add f).files ↔ g ∈ s.files ∨ (g = f ∧ ¬ s.contains f.name) := by
  unfold add
  split
  · rename_i known
    simp [known]
  · rename_i unknown
    simp [unknown]

theorem mem_of_mem_addAll {g : SchemaFile} (h : g ∈ (s.addAll fs).files) : g ∈ s.files ∨ g ∈ fs := by
  induction fs generalizing s with
  | nil => exact .inl h
  | cons f fs ih =>
    rcases ih h with h | h
    · rcases mem_add.mp h with h | ⟨rfl, _⟩
      · exact .inl h
      · exact .inr (by simp)
    · exact .inr (by simp [h])

theorem mem_addAll_of_mem {g : SchemaFile} (h : g ∈ s.files) : g ∈ (s.addAll fs).files := by
  induction fs generalizing s with
  | nil => exact h
  | cons f fs ih => exact ih (mem_add.mpr (.inl h))

theorem exists_mem_addAll (h : f ∈ fs) : ∃ g ∈ (s.addAll fs).files, g.name = f.name := by
  induction fs generalizing s with
  | nil => cases h
  | cons first fs ih =>
    rcases List.mem_cons.mp h with rfl | h
    · by_cases known : s.contains f.name
      · obtain ⟨g, hg, same⟩ := List.any_eq_true.mp known
        exact ⟨g, mem_addAll_of_mem (s := s.add f) (mem_add.mpr (.inl hg)), by simpa using same⟩
      · exact ⟨f, mem_addAll_of_mem (s := s.add f) (mem_add.mpr (.inr ⟨rfl, known⟩)), rfl⟩
    · exact ih h

end add

section fill
variable {s : Schedule} {folders folders' : Folders} {files : List SchemaFile} {known : List WellKnown}

theorem Filled.insert (h : s.Filled folders files known) (directory : List String) {folder : Folder}
    {files' : List SchemaFile} {known' : List WellKnown}
    (used : ∀ d, s.UsedBy files' known' d ↔ d = directory ∨ s.UsedBy files known d)
    (here : folder.Holds ((s.filesAt files' directory).map (·.name)) (s.piecesFrom files' known' directory))
    (elsewhere : ∀ d, d ≠ directory →
      s.filesAt files' d = s.filesAt files d ∧ s.piecesFrom files' known' d = s.piecesFrom files known d) :
    s.Filled (folders.insert directory folder) files' known' := by
  refine ⟨?_, ?_, h.ordered.insert directory folder⟩
  · intro d
    rw [Catalog.mem_keys_insert, h.keys, used]
  · intro d
    rw [Catalog.find?_insert]
    split
    · rename_i same
      rw [same]
      exact here
    · rename_i other
      obtain ⟨sameFiles, samePieces⟩ := elsewhere d other
      rw [sameFiles, samePieces]
      exact h.holds d

theorem usedBy_concat (files : List SchemaFile) (f : SchemaFile) (d : List String) :
    s.UsedBy (files ++ [f]) [] d ↔ d = s.directoryOf f ∨ s.UsedBy files [] d := by
  simp only [UsedBy, List.mem_append, List.mem_singleton, ne_eq, not_true_eq_false, false_and, or_false]
  constructor
  · rintro (root | ⟨g, hg | rfl, same⟩)
    · exact .inr (.inl root)
    · exact .inr (.inr ⟨g, hg, same⟩)
    · exact .inl same.symm
  · rintro (rfl | root | ⟨g, hg, same⟩)
    · exact .inr ⟨f, .inr rfl, rfl⟩
    · exact .inl root
    · exact .inr ⟨g, .inl hg, same⟩

theorem Filled.source (h : s.Filled folders files []) (f : SchemaFile) :
    { (folders.find? (s.directoryOf f)).getD {} with
      sources := ((folders.find? (s.directoryOf f)).getD {}).sources ++ [f.name] : Folder }.Holds
      ((s.filesAt (files ++ [f]) (s.directoryOf f)).map (·.name)) (s.piecesFrom files [] (s.directoryOf f)) := by
  have held := h.holds (s.directoryOf f)
  refine ⟨held.compatible, ?_, held.names, held.records, held.files, held.ordered⟩
  rw [held.sources]
  simp [filesAt]

theorem Filled.addToFolders (h : s.Filled folders files []) {f : SchemaFile}
    (added : (s.addToFolders folders f).result = .ok folders') : s.Filled folders' (files ++ [f]) [] := by
  obtain ⟨folder, filled, added⟩ := Report.bind_result_ok.mp added
  rw [Report.pure_result] at added
  cases added
  refine h.insert (s.directoryOf f) (usedBy_concat files f) ?_ ?_
  · have held := (h.source f).addAll filled
    rw [declared_eq] at held
    rw [piecesFrom_append, piecesFrom_single, if_pos rfl]
    exact held
  · intro d other
    rw [piecesFrom_append, piecesFrom_single, if_neg (Ne.symm other), filesAt_append]
    have none : s.filesAt [f] d = [] := by simp [filesAt, Ne.symm other]
    simp [none]

theorem Filled.exists_addToFolders (h : s.Filled folders files []) {f : SchemaFile}
    (fits : Compatible (s.piecesFrom (files ++ [f]) [] (s.directoryOf f))) :
    ∃ folders', (s.addToFolders folders f).result = .ok folders' := by
  rw [piecesFrom_append, piecesFrom_single, if_pos rfl, ← declared_eq] at fits
  obtain ⟨folder, filled⟩ := (h.source f).exists_addAll (s.config.modulePath (s.directoryOf f)) fits
  exact ⟨_, Report.bind_result_ok.mpr ⟨folder, filled, rfl⟩⟩

theorem Filled.addBuiltIn (h : s.Filled folders files known) {t : WellKnown} (composite : t.isComposite)
    (added : (s.addBuiltIn folders t).result = .ok folders') : s.Filled folders' files (known ++ [t]) := by
  obtain ⟨folder, filled, added⟩ := Report.bind_result_ok.mp added
  rw [Report.pure_result] at added
  cases added
  refine h.insert s.builtInDirectory ?_ ?_ ?_
  · intro d
    constructor
    · rintro (root | file | ⟨_, same⟩)
      · exact .inr (.inl root)
      · exact .inr (.inr (.inl file))
      · exact .inl same
    · rintro (same | root | file | ⟨some, same⟩)
      · exact .inr (.inr ⟨by simp, same⟩)
      · exact .inl root
      · exact .inr (.inl file)
      · exact .inr (.inr ⟨by simp, same⟩)
  · have held := (h.holds s.builtInDirectory).addBuiltIn composite filled
    rw [piecesFrom_known, if_pos rfl]
    exact held
  · intro d other
    rw [piecesFrom_known, if_neg other]
    simp

theorem Filled.exists_addBuiltIn (h : s.Filled folders files known) {t : WellKnown} (composite : t.isComposite)
    (fits : Compatible (s.piecesFrom files (known ++ [t]) s.builtInDirectory)) :
    ∃ folders', (s.addBuiltIn folders t).result = .ok folders' := by
  rw [piecesFrom_known, if_pos rfl] at fits
  obtain ⟨folder, filled⟩ := (h.holds s.builtInDirectory).exists_addBuiltIn
    (s.config.modulePath s.builtInDirectory) composite fits
  exact ⟨_, Report.bind_result_ok.mpr ⟨folder, filled, rfl⟩⟩

theorem filled_start : s.Filled (.insert [] {} .empty) [] [] := by
  refine ⟨?_, ?_, Catalog.ordered_empty.insert [] {}⟩
  · intro d
    rw [Catalog.mem_keys_insert]
    simp [UsedBy, Catalog.keys, Catalog.toList, Catalog.empty]
  · intro d
    have empty : ((Catalog.insert [] ({} : Folder) .empty).find? d).getD {} = {} := by
      rw [Catalog.find?_insert]
      split <;> rfl
    rw [empty]
    simpa [piecesFrom, filesAt] using Folder.holds_empty

theorem Filled.concat_builtIn {t : WellKnown}
    (h : (∀ u ∈ known, u.isComposite) → s.Filled folders files known)
    (added : (s.addBuiltIn folders t).result = .ok folders') (composite : ∀ u ∈ known ++ [t], u.isComposite) :
    s.Filled folders' files (known ++ [t]) :=
  (h fun u hu => composite u (by simp [hu])).addBuiltIn (composite t (by simp)) added

theorem filled_of_files {mid : Folders}
    (h : (s.files.foldlM s.addToFolders (.insert [] {} .empty)).result = .ok mid) : s.Filled mid s.files [] :=
  Report.foldlM_result_ok (P := fun done folders => s.Filled folders done [])
    (fun _ _ _ _ held added => held.addToFolders added) filled_start h

/-- Once the folders are filled, each holds the pieces of its directory. -/
theorem filled_of_folders (h : s.folders.result = .ok folders) : s.Filled folders s.files s.builtIns := by
  obtain ⟨mid, first, rest⟩ := Report.bind_result_ok.mp h
  have all := Report.foldlM_result_ok
    (P := fun done folders => (∀ t ∈ done, t.isComposite) → s.Filled folders s.files done)
    (fun _ _ _ _ held added composite => Filled.concat_builtIn held added composite)
    (fun _ => filled_of_files first) rest
  exact all fun _ ht => isComposite_of_mem_builtIns ht

theorem exists_folders (fits : ∀ directory, Compatible (s.pieces directory)) :
    ∃ folders, s.folders.result = .ok folders := by
  -- Each loop can go on, since what it needs next is the beginning of a compatible list.
  have files : ∃ mid, (s.files.foldlM s.addToFolders (.insert [] {} .empty)).result = .ok mid := by
    refine Report.foldlM_result_exists (P := fun done folders => s.Filled folders done [])
      (fun _ _ _ _ held added => held.addToFolders added) filled_start ?_
    intro before f after split folders held
    apply held.exists_addToFolders
    have all := fits (s.directoryOf f)
    rw [pieces, split, List.append_cons, piecesFrom_append] at all
    exact all.of_append
  obtain ⟨mid, first⟩ := files
  have known : ∃ folders, (s.builtIns.foldlM s.addBuiltIn mid).result = .ok folders := by
    refine Report.foldlM_result_exists
      (P := fun done folders => (∀ t ∈ done, t.isComposite) → s.Filled folders s.files done)
      (fun _ _ _ _ held added composite => Filled.concat_builtIn held added composite)
      (fun _ => filled_of_files first) ?_
    intro before t after split folders held
    have composite : ∀ u ∈ before ++ t :: after, u.isComposite := by
      rw [← split]
      exact fun _ hu => isComposite_of_mem_builtIns hu
    refine (held fun u hu => composite u (List.mem_append_left _ hu)).exists_addBuiltIn (composite t (by simp)) ?_
    have all := fits s.builtInDirectory
    rw [pieces, split, List.append_cons, piecesFrom_known] at all
    exact all.of_append
  obtain ⟨folders, rest⟩ := known
  exact ⟨folders, Report.bind_result_ok.mpr ⟨mid, first, rest⟩⟩

/-- The folders can be filled exactly when the pieces of every directory are compatible. -/
theorem exists_folders_iff :
    (∃ folders, s.folders.result = .ok folders) ↔ ∀ directory, Compatible (s.pieces directory) := by
  constructor
  · rintro ⟨folders, h⟩ directory
    exact ((filled_of_folders h).holds directory).compatible
  · exact exists_folders

end fill

end SchemaGen.Output.Schedule
