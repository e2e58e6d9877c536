import SchemaGen.Output.Folder
import SchemaGen.Proofs.Catalog
import SchemaGen.Proofs.Naming
import SchemaGen.Proofs.Outcome
/-!
# What a folder holds

A folder is filled piece by piece. It accepts a piece exactly when the pieces so far and the new one are
compatible: every text can be written, and neither type names nor files coincide. What it then holds is those
pieces, the records in the order in which they came.
-/
namespace SchemaGen.Output

/-- What is generated into a module: a declaration of a file, or the record of a built-in type. -/
inductive Piece where
  | declared (d : Declared)
  | builtIn (t : WellKnown)

namespace Piece

def name : Piece → String
  | declared d => d.typeName
  | builtIn t => t.simpleName

def origin : Piece → String
  | declared d => d.origin
  | builtIn t => t.fullName

def text? : Piece → Option String
  | declared d => d.declaration.result.toOption.map (·.render)
  | builtIn t => Code.builtInText? t

/-- The stem of the file that a piece has to itself. Records have none. -/
def stem? : Piece → Option String
  | declared ⟨_, .message _⟩ | builtIn _ => none
  | declared d => some (Naming.fieldName d.typeName)

def importsNames : Piece → Bool
  | declared ⟨_, .oneof _⟩ => true
  | _ => false

theorem stem?_eq_some {p : Piece} {stem : String} (h : p.stem? = some stem) : stem = Naming.fieldName p.name := by
  unfold stem? at h
  split at h
  · cases h
  · cases h
  · cases h
    rfl

end Piece

def stemsOf (ps : List Piece) : List String :=
  ps.filterMap Piece.stem?

def recordsOf (ps : List Piece) : List Piece :=
  ps.filter (·.stem?.isNone)

/-- Every piece can be written, and neither type names nor files coincide. -/
structure Compatible (ps : List Piece) : Prop where
  texts : ∀ p ∈ ps, p.text?.isSome
  names : (ps.map Piece.name).Nodup
  stems : (stemsOf ps).Nodup
  free : recordStem ∉ stemsOf ps

theorem stemsOf_append (ps qs : List Piece) : stemsOf (ps ++ qs) = stemsOf ps ++ stemsOf qs :=
  List.filterMap_append

theorem recordsOf_append (ps qs : List Piece) : recordsOf (ps ++ qs) = recordsOf ps ++ recordsOf qs :=
  List.filter_append ps qs

theorem recordsOf_flatMap {α : Type} (as : List α) (g : α → List Piece) :
    recordsOf (as.flatMap g) = as.flatMap fun a => recordsOf (g a) :=
  List.filter_flatMap

theorem Compatible.eq_of_stem? {ps : List Piece} (h : Compatible ps) {p q : Piece} (hp : p ∈ ps) (hq : q ∈ ps)
    {stem : String} (own : p.stem? = some stem) (same : q.stem? = some stem) : p = q := by
  obtain ⟨before, after, rfl⟩ := List.append_of_mem hp
  have stems := h.stems
  have cut : stemsOf (before ++ p :: after) = stemsOf before ++ stem :: stemsOf after := by
    simp [stemsOf, own]
  rw [cut, List.nodup_middle, List.nodup_cons, List.mem_append, not_or] at stems
  rcases List.mem_append.mp hq with hq | hq
  · exact absurd (List.mem_filterMap.mpr ⟨q, hq, same⟩) stems.1.1
  · rcases List.mem_cons.mp hq with rfl | hq
    · rfl
    · exact absurd (List.mem_filterMap.mpr ⟨q, hq, same⟩) stems.1.2

theorem Compatible.of_append {ps qs : List Piece} (h : Compatible (ps ++ qs)) : Compatible ps where
  texts p hp := h.texts p (List.mem_append_left _ hp)
  names := by
    have names := h.names
    rw [List.map_append] at names
    exact names.of_append_left
  stems := by
    have stems := h.stems
    rw [stemsOf_append] at stems
    exact stems.of_append_left
  free := by
    have free := h.free
    rw [stemsOf_append, List.mem_append, not_or] at free
    exact free.1

theorem compatible_nil : Compatible [] :=
  ⟨by simp, by simp, by simp [stemsOf], by simp [stemsOf]⟩

/-- One more piece is compatible if its text can be written and neither its name nor its file is taken. -/
theorem compatible_concat {ps : List Piece} {p : Piece} (h : Compatible ps) :
    Compatible (ps ++ [p]) ↔ p.text?.isSome ∧ p.name ∉ ps.map Piece.name ∧
      ∀ stem, p.stem? = some stem → stem ∉ stemsOf ps ∧ stem ≠ recordStem := by
  constructor
  · intro all
    refine ⟨all.texts p (by simp), ?_, ?_⟩
    · have names := all.names
      rw [List.map_append, List.map_singleton, ← List.concat_eq_append, List.nodup_concat] at names
      exact names.1
    · intro stem hs
      have stems := all.stems
      have free := all.free
      have own : stemsOf [p] = [stem] := by simp [stemsOf, hs]
      rw [stemsOf_append, own, ← List.concat_eq_append, List.nodup_concat] at stems
      rw [stemsOf_append, own, List.mem_append, not_or, List.mem_singleton] at free
      exact ⟨stems.1, Ne.symm free.2⟩
  · rintro ⟨text, name, stem⟩
    refine ⟨?_, ?_, ?_, ?_⟩
    · intro q hq
      rcases List.mem_append.mp hq with hq | hq
      · exact h.texts q hq
      · obtain rfl : q = p := by simpa using hq
        exact text
    · rw [List.map_append, List.map_singleton, ← List.concat_eq_append, List.nodup_concat]
      exact ⟨name, h.names⟩
    · rw [stemsOf_append]
      cases hs : p.stem? with
      | none => simpa [stemsOf, hs] using h.stems
      | some own =>
        have single : stemsOf [p] = [own] := by simp [stemsOf, hs]
        rw [single, ← List.concat_eq_append, List.nodup_concat]
        exact ⟨(stem own hs).1, h.stems⟩
    · rw [stemsOf_append, List.mem_append, not_or]
      refine ⟨h.free, ?_⟩
      intro taken
      obtain ⟨q, hq, hs⟩ := List.mem_filterMap.mp taken
      obtain rfl : q = p := by simpa using hq
      exact (stem recordStem hs).2 rfl

namespace Folder

def put (f : Folder) (p : Piece) (text : String) : Folder :=
  let named := { f with names := (p.name, p.origin) :: f.names }
  match p.stem? with
  | none => named.addRecord text
  | some stem => { named with files := f.files.insert stem ⟨text, p.importsNames⟩ }

def Accepts (f : Folder) (p : Piece) : Prop :=
  List.lookup p.name f.names = none ∧
    ∀ stem, p.stem? = some stem → stem ≠ recordStem ∧ stem ≠ indexStem ∧ f.files.find? stem = none

theorem declare_eq_ok {f f' : Folder} {path name origin : String} :
    f.declare path name origin = .ok f' ↔
      List.lookup name f.names = none ∧ f' = { f with names := (name, origin) :: f.names } := by
  unfold declare
  split
  · rename_i taken
    simp [taken]
  · rename_i free
    simp [free, eq_comm]

theorem addFile_eq_ok {f f' : Folder} {path typeName : String} {file : OwnFile} :
    f.addFile path typeName file = .ok f' ↔
      (Naming.fieldName typeName ≠ recordStem ∧ Naming.fieldName typeName ≠ indexStem ∧
        f.files.find? (Naming.fieldName typeName) = none) ∧
      f' = { f with files := f.files.insert (Naming.fieldName typeName) file } := by
  unfold addFile
  dsimp only
  split
  · rename_i taken
    simp only [Bool.or_eq_true, beq_iff_eq, Option.isSome_iff_ne_none] at taken
    constructor
    · intro h
      cases h
    · intro h
      tauto
  · rename_i free
    simp only [Bool.or_eq_true, beq_iff_eq, not_or, Bool.not_eq_true, Option.isSome_eq_false_iff,
      Option.isNone_iff_eq_none] at free
    constructor
    · intro h
      cases h
      exact ⟨⟨free.1.1, free.1.2, free.2⟩, rfl⟩
    · rintro ⟨_, rfl⟩
      rfl

theorem text?_declared {d : Declared} {text : String} :
    (Piece.declared d).text? = some text ↔ ∃ code, d.declaration.result = .ok code ∧ text = code.render := by
  unfold Piece.text?
  cases written : d.declaration.result with
  | error e => simp [written, Except.toOption]
  | ok code => simp [written, Except.toOption, eq_comm]

theorem add_eq_ok {f f' : Folder} {path : String} {d : Declared} :
    (f.add path d).result = .ok f' ↔
      f.Accepts (.declared d) ∧ ∃ text, (Piece.declared d).text? = some text ∧ f' = f.put (.declared d) text := by
  simp only [text?_declared]
  rw [add, Report.bind_result_ok]
  constructor
  · rintro ⟨named, declared, h⟩
    obtain ⟨free, rfl⟩ := declare_eq_ok.mp declared
    obtain ⟨code, written, h⟩ := Report.bind_result_ok.mp h
    obtain ⟨site, item⟩ := d
    cases item with
    | message m =>
      rw [Report.pure_result] at h
      obtain rfl := Except.ok.inj h
      exact ⟨⟨free, fun _ own => nomatch own⟩, _, ⟨code, written, rfl⟩, rfl⟩
    | oneof _ | enum _ =>
      dsimp only [Report.ofExcept_result] at h
      obtain ⟨unused, rfl⟩ := addFile_eq_ok.mp h
      refine ⟨⟨free, fun stem own => ?_⟩, _, ⟨code, written, rfl⟩, rfl⟩
      rw [← Option.some.inj own]
      exact unused
  · rintro ⟨⟨free, unused⟩, text, ⟨code, written, rfl⟩, rfl⟩
    refine ⟨_, declare_eq_ok.mpr ⟨free, rfl⟩, Report.bind_result_ok.mpr ⟨code, written, ?_⟩⟩
    obtain ⟨site, item⟩ := d
    cases item with
    | message m => rfl
    | oneof _ | enum _ =>
      dsimp only [Report.ofExcept_result]
      rw [addFile_eq_ok]
      exact ⟨unused _ rfl, rfl⟩

theorem addBuiltIn_eq_ok {f f' : Folder} {path : String} {t : WellKnown} (composite : t.isComposite) :
    f.addBuiltIn path t = .ok f' ↔
      f.Accepts (.builtIn t) ∧ ∃ text, (Piece.builtIn t).text? = some text ∧ f' = f.put (.builtIn t) text := by
  have written : ∃ text, Code.builtInText? t = some text := by
    simp [Code.builtInText?, composite]
  obtain ⟨text, written⟩ := written
  unfold addBuiltIn
  rw [written]
  constructor
  · intro h
    cases declared : f.declare path t.simpleName t.fullName with
    | error e => simp [declared, Except.map] at h
    | ok named =>
      simp only [declared, Except.map, Except.ok.injEq] at h
      obtain ⟨free, rfl⟩ := declare_eq_ok.mp declared
      exact ⟨⟨free, by rintro _ ⟨⟩⟩, text, written, h.symm⟩
  · rintro ⟨⟨free, _⟩, other, same, rfl⟩
    obtain rfl : text = other := Option.some.inj (written.symm.trans same)
    have declared : f.declare path t.simpleName t.fullName = .ok _ := declare_eq_ok.mpr ⟨free, rfl⟩
    simp only [declared, Except.map]
    rfl

/-- The folder is made from these files and holds these pieces. -/
structure Holds (f : Folder) (sources : List String) (ps : List Piece) : Prop where
  compatible : Compatible ps
  sources : f.sources = sources
  names : f.names = (ps.map fun p => (p.name, p.origin)).reverse
  records : f.records.map some = (recordsOf ps).map Piece.text?
  files : ∀ stem file, f.files.find? stem = some file ↔
    ∃ p ∈ ps, p.stem? = some stem ∧ p.text? = some file.text ∧ file.needsNames = p.importsNames
  ordered : f.files.Ordered

theorem holds_empty : Holds {} [] [] where
  compatible := compatible_nil
  sources := rfl
  names := rfl
  records := rfl
  files stem file := by simp [Catalog.find?, Catalog.empty]
  ordered := Catalog.ordered_empty

section step
variable {f : Folder} {sources : List String} {ps : List Piece} (h : f.Holds sources ps)
include h

theorem Holds.mem_keys {stem : String} : stem ∈ f.files.keys ↔ stem ∈ stemsOf ps := by
  rw [← Catalog.find?_isSome, Option.isSome_iff_exists, stemsOf, List.mem_filterMap]
  constructor
  · rintro ⟨file, found⟩
    obtain ⟨p, hp, stem, _⟩ := (h.files stem file).mp found
    exact ⟨p, hp, stem⟩
  · rintro ⟨p, hp, own⟩
    obtain ⟨text, written⟩ := Option.isSome_iff_exists.mp (h.compatible.texts p hp)
    exact ⟨⟨text, p.importsNames⟩, (h.files stem _).mpr ⟨p, hp, own, written, rfl⟩⟩

theorem Holds.isEmpty_records : f.records.isEmpty = (recordsOf ps).isEmpty := by
  have same := congrArg List.isEmpty h.records
  simpa using same

theorem Holds.map_fst_contents :
    f.contents.map (·.1) = (if (recordsOf ps).isEmpty then [] else [recordStem]) ++ f.files.keys := by
  rw [contents, List.map_append, List.map_map, ← h.isEmpty_records]
  congr 1
  split <;> rfl

/-- The stems of the written files are that of the records, if there are any, and those of the other pieces. -/
theorem Holds.contents_stems :
    (f.contents.map (·.1)).Perm ((if (recordsOf ps).isEmpty then [] else [recordStem]) ++ stemsOf ps) := by
  have own : f.files.keys.Perm (stemsOf ps) :=
    (List.perm_ext_iff_of_nodup h.ordered.nodup h.compatible.stems).mpr fun _ => h.mem_keys
  rw [h.map_fst_contents]
  exact own.append_left _

theorem Holds.own_mem_contents {p : Piece} (hp : p ∈ ps) {stem : String} (own : p.stem? = some stem) :
    ∃ text, p.text? = some text ∧ (stem, OwnFile.render ⟨text, p.importsNames⟩) ∈ f.contents := by
  obtain ⟨text, written⟩ := Option.isSome_iff_exists.mp (h.compatible.texts p hp)
  have found := (h.files stem ⟨text, p.importsNames⟩).mpr ⟨p, hp, own, written, rfl⟩
  refine ⟨text, written, List.mem_append_right _ ?_⟩
  exact List.mem_map.mpr ⟨_, Catalog.mem_of_find? found, rfl⟩

theorem Holds.records_mem_contents (some : recordsOf ps ≠ []) :
    (recordStem, recordText { sources, records := f.records }) ∈ f.contents := by
  have nonempty : f.records.isEmpty = false := by
    rw [h.isEmpty_records]
    simpa using some
  rw [contents, nonempty]
  refine List.mem_append_left _ (List.mem_singleton.mpr ?_)
  rw [← h.sources]
  rfl

theorem Holds.lookup_eq_none {name : String} : List.lookup name f.names = none ↔ name ∉ ps.map Piece.name := by
  rw [h.names, List.lookup_eq_none_iff]
  constructor
  · intro none taken
    obtain ⟨p, hp, rfl⟩ := List.mem_map.mp taken
    have differs := none (p.name, p.origin) (List.mem_reverse.mpr (List.mem_map.mpr ⟨p, hp, rfl⟩))
    simp at differs
  · intro fresh entry listed
    obtain ⟨p, hp, rfl⟩ := List.mem_map.mp (List.mem_reverse.mp listed)
    have differs : name ≠ p.name := by
      rintro rfl
      exact fresh (List.mem_map_of_mem hp)
    simpa using differs

theorem Holds.lookup_name {p : Piece} (hp : p ∈ ps) : List.lookup p.name f.names = some p.origin := by
  have listed : (p.name, p.origin) ∈ f.names := by
    rw [h.names]
    exact List.mem_reverse.mpr (List.mem_map.mpr ⟨p, hp, rfl⟩)
  have distinct : (f.names.map (·.1)).Nodup := by
    rw [h.names, List.map_reverse, List.map_map, List.nodup_reverse]
    exact h.compatible.names
  obtain ⟨before, after, cut⟩ := List.append_of_mem listed
  rw [List.lookup_eq_some_iff]
  refine ⟨before, after, cut, ?_⟩
  intro entry earlier
  have differs : p.name ≠ entry.1 := by
    rintro same
    rw [cut, List.map_append, List.map_cons, List.nodup_append] at distinct
    exact distinct.2.2 _ (List.mem_map_of_mem earlier) _ (List.mem_cons_self) same.symm
  simpa using differs

theorem Holds.accepts_iff {p : Piece} : f.Accepts p ∧ p.text?.isSome ↔ Compatible (ps ++ [p]) := by
  rw [compatible_concat h.compatible, Accepts, h.lookup_eq_none]
  constructor
  · rintro ⟨⟨name, file⟩, text⟩
    refine ⟨text, name, ?_⟩
    intro stem own
    obtain ⟨notRecords, _, free⟩ := file stem own
    exact ⟨fun taken => Catalog.find?_eq_none.mp free (h.mem_keys.mpr taken), notRecords⟩
  · rintro ⟨text, name, file⟩
    refine ⟨⟨name, ?_⟩, text⟩
    intro stem own
    obtain ⟨free, notRecords⟩ := file stem own
    have notIndex : stem ≠ indexStem := by
      rw [Piece.stem?_eq_some own]
      exact Naming.escape_ne_mod _
    exact ⟨notRecords, notIndex, Catalog.find?_eq_none.mpr fun taken => free (h.mem_keys.mp taken)⟩

theorem Holds.put {p : Piece} {text : String} (accepts : f.Accepts p) (written : p.text? = some text) :
    (f.put p text).Holds sources (ps ++ [p]) := by
  have compatible := h.accepts_iff.mp ⟨accepts, by rw [written]; rfl⟩
  unfold Folder.put
  cases own : p.stem? with
  | none =>
    refine ⟨compatible, h.sources, ?_, ?_, ?_, h.ordered⟩
    · simp [addRecord, h.names]
    · rw [recordsOf_append, List.map_append, ← h.records]
      simp [addRecord, recordsOf, own, written]
    · intro stem file
      simp only [addRecord, h.files, List.mem_append, List.mem_singleton]
      constructor
      · rintro ⟨q, hq, rest⟩
        exact ⟨q, .inl hq, rest⟩
      · rintro ⟨q, hq | rfl, stem, rest⟩
        · exact ⟨q, hq, stem, rest⟩
        · rw [own] at stem
          cases stem
  | some stem =>
    -- Only the file at this stem changes, and no piece so far has it.
    have fresh : stem ∉ stemsOf ps := by
      rw [← h.mem_keys, ← Catalog.find?_eq_none]
      exact (accepts.2 stem own).2.2
    refine ⟨compatible, h.sources, ?_, ?_, ?_, h.ordered.insert _ _⟩
    · simp [h.names]
    · rw [recordsOf_append, List.map_append, ← h.records]
      simp [recordsOf, own]
    · intro other file
      simp only [Catalog.find?_insert, List.mem_append, List.mem_singleton]
      split
      · rename_i same
        subst other
        constructor
        · rintro ⟨⟩
          exact ⟨p, .inr rfl, own, written, rfl⟩
        · rintro ⟨q, hq | rfl, ownq, writtenq, imports⟩
          · exact absurd (List.mem_filterMap.mpr ⟨q, hq, ownq⟩) fresh
          · obtain ⟨text', needs⟩ := file
            simp_all
      · rename_i differs
        rw [h.files]
        constructor
        · rintro ⟨q, hq, rest⟩
          exact ⟨q, .inl hq, rest⟩
        · rintro ⟨q, hq | rfl, stem, rest⟩
          · exact ⟨q, hq, stem, rest⟩
          · rw [own] at stem
            exact absurd (Option.some.inj stem).symm differs

/-- One declaration: the folder holds it afterwards, and it is added exactly when it is compatible. -/
theorem Holds.add {path : String} {d : Declared} {f' : Folder} (added : (f.add path d).result = .ok f') :
    f'.Holds sources (ps ++ [.declared d]) := by
  obtain ⟨accepts, text, written, rfl⟩ := add_eq_ok.mp added
  exact h.put accepts written

theorem Holds.exists_add (path : String) {d : Declared} (fits : Compatible (ps ++ [.declared d])) :
    ∃ f', (f.add path d).result = .ok f' := by
  obtain ⟨accepts, text⟩ := h.accepts_iff.mpr fits
  obtain ⟨text, written⟩ := Option.isSome_iff_exists.mp text
  exact ⟨_, add_eq_ok.mpr ⟨accepts, text, written, rfl⟩⟩

theorem Holds.addAll {path : String} {ds : List Declared} {f' : Folder}
    (added : (f.addAll path ds).result = .ok f') : f'.Holds sources (ps ++ ds.map .declared) := by
  induction ds generalizing f ps with
  | nil =>
    rw [Folder.addAll, Report.pure_result] at added
    cases added
    simpa using h
  | cons d ds ih =>
    rw [Folder.addAll] at added
    obtain ⟨mid, first, rest⟩ := Report.bind_result_ok.mp added
    have next := ih (h.add first) rest
    rwa [List.append_assoc] at next

theorem Holds.exists_addAll (path : String) {ds : List Declared} (fits : Compatible (ps ++ ds.map .declared)) :
    ∃ f', (f.addAll path ds).result = .ok f' := by
  induction ds generalizing f ps with
  | nil => exact ⟨f, rfl⟩
  | cons d ds ih =>
    have split : ps ++ (d :: ds).map .declared = ps ++ [.declared d] ++ ds.map .declared := by simp
    rw [split] at fits
    obtain ⟨mid, first⟩ := h.exists_add path fits.of_append
    obtain ⟨f', rest⟩ := ih (h.add first) fits
    exact ⟨f', by rw [Folder.addAll]; exact Report.bind_result_ok.mpr ⟨mid, first, rest⟩⟩

theorem Holds.addBuiltIn {path : String} {t : WellKnown} (composite : t.isComposite) {f' : Folder}
    (added : f.addBuiltIn path t = .ok f') : f'.Holds sources (ps ++ [.builtIn t]) := by
  obtain ⟨accepts, text, written, rfl⟩ := (addBuiltIn_eq_ok composite).mp added
  exact h.put accepts written

theorem Holds.exists_addBuiltIn (path : String) {t : WellKnown} (composite : t.isComposite)
    (fits : Compatible (ps ++ [.builtIn t])) : ∃ f', f.addBuiltIn path t = .ok f' := by
  obtain ⟨accepts, text⟩ := h.accepts_iff.mpr fits
  obtain ⟨text, written⟩ := Option.isSome_iff_exists.mp text
  exact ⟨_, (addBuiltIn_eq_ok composite).mpr ⟨accepts, text, written, rfl⟩⟩

end step

end Folder

end SchemaGen.Output
