import SchemaGen.Proofs.Registry
/-!
# Registering file after file

A file is added if its name is new, no message in it uses a number twice, and each of its full names is new. Any other
call leaves the files and the three maps beside them as they are. So a registry holds what the files that were added
declare and nothing else, and each of these declarations is found again by its symbol.
-/
namespace SchemaGen

/-- A message or an enum of a file, with the names of the messages around it. -/
inductive Definition where
  | message (nested : Nested)
  | enum (scope : List String) (enum : EnumDef)

namespace SchemaFile

/-- All messages and enums of a file: each message, its enums and then the messages inside it, and the enums of the
file last. -/
def definitions (f : SchemaFile) : List Definition :=
  f.everyMessage.flatMap (fun n => .message n :: n.message.enums.map (.enum n.inner)) ++ f.enums.map (.enum [])

def symbolOf (f : SchemaFile) : Definition → Symbol
  | .message n => f.messageSymbol n
  | .enum scope e => f.symbol scope .enum e.name

def DistinctNumbers (f : SchemaFile) : Prop :=
  ∀ n ∈ f.everyMessage, (n.message.allFields.map (·.number)).Nodup

theorem symbols_eq_map (f : SchemaFile) : f.symbols = f.definitions.map f.symbolOf := by
  rw [symbols_eq, definitions, List.map_append, List.map_flatMap, List.map_map]
  congr 2
  funext n
  simp [symbolsAt, symbolOf]

end SchemaFile

namespace Registry

section numbers

theorem repeatedNumber?_eq_none {earlier fs : List Field} :
    repeatedNumber? earlier fs = none ↔
      (∀ x ∈ fs, x.number ∉ earlier.map (·.number)) ∧ (fs.map (·.number)).Nodup := by
  induction fs generalizing earlier with
  | nil => simp [repeatedNumber?]
  | cons f fs ih =>
    rw [repeatedNumber?]
    cases found : earlier.find? (·.number == f.number) with
    | some first =>
      have same : first.number = f.number := by simpa using List.find?_some found
      have used : f.number ∈ earlier.map (·.number) :=
        List.mem_map.mpr ⟨first, List.mem_of_find?_eq_some found, same⟩
      simp only [reduceCtorEq, false_iff, not_and]
      intro free
      exact absurd used (free f List.mem_cons_self)
    | none =>
      have free : f.number ∉ earlier.map (·.number) := by simpa using found
      simp only [ih, List.map_cons, List.mem_cons, not_or, List.nodup_cons, forall_eq_or_imp]
      constructor
      · rintro ⟨apart, distinct⟩
        refine ⟨⟨free, fun x hx => (apart x hx).2⟩, ?_, distinct⟩
        intro again
        obtain ⟨x, hx, same⟩ := List.mem_map.mp again
        exact (apart x hx).1 same
      · rintro ⟨⟨_, apart⟩, new, distinct⟩
        refine ⟨fun x hx => ⟨?_, apart x hx⟩, distinct⟩
        intro same
        exact new (List.mem_map.mpr ⟨x, hx, same⟩)

theorem checkNumbers_eq_ok {file scope : String} {m : Message} :
    checkNumbers file scope m = .ok () ↔ (m.allFields.map (·.number)).Nodup ∧
      checkAllNumbers file (if scope.isEmpty then m.name else scope ++ "." ++ m.name) m.messages = .ok () := by
  have distinct_iff : repeatedNumber? [] m.allFields = none ↔ (m.allFields.map (·.number)).Nodup := by
    rw [repeatedNumber?_eq_none]
    simp
  rw [← distinct_iff]
  cases m
  rw [checkNumbers]
  dsimp only
  split
  · rename_i found
    simp [found]
  · rename_i found
    simp [found]

theorem checkAllNumbers_cons {file scope : String} {m : Message} {ms : List Message} :
    checkAllNumbers file scope (m :: ms) = .ok () ↔
      checkNumbers file scope m = .ok () ∧ checkAllNumbers file scope ms = .ok () := by
  rw [checkAllNumbers]
  cases checkNumbers file scope m with
  | error e => simp
  | ok _ => simp

theorem checkAllNumbers_eq_ok {file scope : String} {parents : List String} {ms : List Message} :
    checkAllNumbers file scope ms = .ok () ↔
      ∀ n ∈ Message.nestedAll parents ms, (n.message.allFields.map (·.number)).Nodup := by
  induction ms using Message.forestInduction generalizing scope parents with
  | nil => simp [checkAllNumbers, Message.nestedAll]
  | cons m ms inside rest =>
    rw [checkAllNumbers_cons, checkNumbers_eq_ok, Message.nestedAll, Message.nested_eq, List.forall_mem_append,
      List.forall_mem_cons, @inside _ (parents ++ [m.name]), @rest _ parents]

end numbers

structure Accepts (r : Registry) (f : SchemaFile) : Prop where
  name : r.fileIndex.get? f.name = none
  numbers : f.DistinctNumbers
  free : ∀ s ∈ f.symbols, s.fullName ∉ r.table.map (·.1)
  fullNames : (f.symbols.map (·.fullName)).Nodup

theorem checkSymbols_ok {r : Registry} {file : String} {taken : List String} {ss : List Symbol}
    (free : ∀ s ∈ ss, s.fullName ∉ r.table.map (·.1) ∧ s.fullName ∉ taken) (distinct : (ss.map (·.fullName)).Nodup) :
    r.checkSymbols file taken ss = .ok () := by
  induction ss generalizing taken with
  | nil => rfl
  | cons s ss ih =>
    obtain ⟨⟨new, own⟩, others⟩ := List.forall_mem_cons.mp free
    rw [List.map_cons, List.nodup_cons] at distinct
    have absent : r.symbol? s.fullName = none := symbol?_eq_none.mpr new
    have fresh : taken.contains s.fullName = false := by simpa using own
    rw [checkSymbols, absent]
    simp only [fresh, Bool.false_eq_true, if_false]
    apply ih _ distinct.2
    intro t ht
    refine ⟨(others t ht).1, ?_⟩
    intro again
    rcases List.mem_cons.mp again with same | known
    · exact distinct.1 (same ▸ List.mem_map_of_mem ht)
    · exact (others t ht).2 known

section register
variable {r r' : Registry} {f : SchemaFile}

theorem checks_iff (new : r.fileIndex.get? f.name = none) : r.checks f = .ok () ↔ r.Accepts f := by
  constructor
  · intro passed
    obtain ⟨numbers, symbols⟩ := checks_eq_ok passed
    obtain ⟨free, distinct⟩ := checkSymbols_eq_ok symbols
    exact ⟨new, checkAllNumbers_eq_ok.mp numbers, fun s hs => (free s hs).1, distinct⟩
  · intro accepts
    have numbers : checkAllNumbers f.name (f.package.getD "") f.messages = .ok () :=
      checkAllNumbers_eq_ok.mpr accepts.numbers
    have symbols : r.checkSymbols f.name [] f.symbols = .ok () :=
      checkSymbols_ok (fun s hs => ⟨accepts.free s hs, by simp⟩) accepts.fullNames
    rw [checks, numbers, symbols]
    rfl

/-- All that a call can do: pass over a known name, put in a file that can be added, or refuse and change nothing. -/
theorem run_registerFile_cases (r : Registry) (f : SchemaFile) :
    ((r.fileIndex.get? f.name).isSome ∧ (registerFile f).run r = (.ok (), r)) ∨
    (r.Accepts f ∧ (registerFile f).run r = (.ok (), r.add f)) ∨
    (r.fileIndex.get? f.name = none ∧ ¬ r.Accepts f ∧ ∃ e, (registerFile f).run r = (.error e, r)) := by
  cases found : r.fileIndex.get? f.name with
  | some place => exact .inl ⟨rfl, run_registerFile_of_known (by simp [found])⟩
  | none =>
    have ran := run_registerFile_of_new found
    cases passed : r.checks f with
    | ok _ =>
      rw [passed] at ran
      exact .inr (.inl ⟨(checks_iff found).mp passed, ran⟩)
    | error e =>
      rw [passed] at ran
      refine .inr (.inr ⟨rfl, ?_, e, ran⟩)
      rw [← checks_iff found, passed]
      simp

theorem register_of_accepts (h : r.Accepts f) : r.register f = .ok (r.add f) := by
  rw [register, run_registerFile_of_new h.name, (checks_iff h.name).mpr h]
  rfl

theorem accepts_of_register (new : r.fileIndex.get? f.name = none) (h : r.register f = .ok r') : r.Accepts f := by
  rcases register_eq_ok h with ⟨known, _⟩ | ⟨_, passed, _⟩
  · rw [new] at known
    cases known
  · exact (checks_iff new).mp passed

theorem distinctNumbers_of_registerAll {files : List SchemaFile} (h : r.registerAll files = .ok r')
    (start : ∀ f ∈ r.files, f.DistinctNumbers) : ∀ f ∈ r'.files, f.DistinctNumbers := by
  induction files generalizing r with
  | nil =>
    cases h
    exact start
  | cons g files ih =>
    obtain ⟨next, first, rest⟩ := except_bind_ok.mp h
    apply ih rest
    rcases register_eq_ok first with ⟨_, rfl⟩ | ⟨new, passed, rfl⟩
    · exact start
    · intro f hf
      rcases List.mem_append.mp hf with hf | hf
      · exact start f hf
      · obtain rfl := List.mem_singleton.mp hf
        exact ((checks_iff new).mp passed).numbers

end register

section attempts

/-- Tries to add a file and goes on with the registry that the call leaves, whether it succeeds or not. -/
def attempt (r : Registry) (f : SchemaFile) : Registry :=
  ((registerFile f).run r).2

def attemptAll (r : Registry) : List SchemaFile → Registry
  | [] => r
  | f :: calls => (r.attempt f).attemptAll calls

/-- The files that are added when files are tried one after the other: those with a new name that are not refused. -/
def accepted (r : Registry) : List SchemaFile → List SchemaFile
  | [] => []
  | f :: calls =>
    let later := (r.attempt f).accepted calls
    if (r.fileIndex.get? f.name).isNone && ((registerFile f).run r).1.toBool then f :: later else later

theorem attempt_cases (r : Registry) (f : SchemaFile) (calls : List SchemaFile) :
    (r.Accepts f ∧ r.attempt f = r.add f ∧ r.accepted (f :: calls) = f :: (r.add f).accepted calls) ∨
      (r.attempt f = r ∧ r.accepted (f :: calls) = r.accepted calls) := by
  rw [accepted]
  unfold attempt
  rcases run_registerFile_cases r f with ⟨known, ran⟩ | ⟨accepts, ran⟩ | ⟨_, _, e, ran⟩
  · rw [ran]
    obtain ⟨place, found⟩ := Option.isSome_iff_exists.mp known
    exact .inr ⟨rfl, by simp [found]⟩
  · rw [ran]
    exact .inl ⟨accepts, rfl, by simp [accepts.name, Except.toBool]⟩
  · rw [ran]
    exact .inr ⟨rfl, by simp [Except.toBool]⟩

theorem registerAll_accepted (r : Registry) (calls : List SchemaFile) :
    r.registerAll (r.accepted calls) = .ok (r.attemptAll calls) := by
  induction calls generalizing r with
  | nil => rfl
  | cons f calls ih =>
    rw [attemptAll]
    rcases attempt_cases r f calls with ⟨accepts, next, added⟩ | ⟨next, added⟩
    · rw [added, next, registerAll, register_of_accepts accepts]
      exact ih (r.add f)
    · rw [added, next]
      exact ih r

theorem files_attemptAll (r : Registry) (calls : List SchemaFile) :
    (r.attemptAll calls).files = r.files ++ r.accepted calls := by
  induction calls generalizing r with
  | nil => simp [attemptAll, accepted]
  | cons f calls ih =>
    rw [attemptAll, ih]
    rcases attempt_cases r f calls with ⟨_, next, added⟩ | ⟨next, added⟩
    · rw [added, next, add, List.append_assoc, List.singleton_append]
    · rw [added, next]

theorem accepted_sublist (r : Registry) (calls : List SchemaFile) : (r.accepted calls).Sublist calls := by
  induction calls generalizing r with
  | nil => exact .slnil
  | cons f calls ih =>
    rcases attempt_cases r f calls with ⟨_, _, added⟩ | ⟨_, added⟩
    · rw [added]
      exact (ih _).cons_cons f
    · rw [added]
      exact (ih _).cons f

theorem attempt_of_register {r r' : Registry} {f : SchemaFile} (h : r.register f = .ok r') : r.attempt f = r' := by
  rcases register_eq_ok h with ⟨known, rfl⟩ | ⟨new, passed, rfl⟩
  · rw [attempt, run_registerFile_of_known known]
  · rw [attempt, run_registerFile_of_new new, passed]
    rfl

theorem attemptAll_of_registerAll {r r' : Registry} {files : List SchemaFile} (h : r.registerAll files = .ok r') :
    r.attemptAll files = r' := by
  induction files generalizing r with
  | nil =>
    cases h
    rfl
  | cons f files ih =>
    obtain ⟨next, first, rest⟩ := except_bind_ok.mp h
    rw [attemptAll, attempt_of_register first]
    exact ih rest

theorem registerAll_attemptAll {r : Registry} {files : List SchemaFile} (h : (r.registerAll files).toBool) :
    r.registerAll files = .ok (r.attemptAll files) := by
  cases registered : r.registerAll files with
  | error e => simp [registered, Except.toBool] at h
  | ok r' => rw [attemptAll_of_registerAll registered]

/-- Some files lead to the registry when they are tried one after the other. -/
def Reachable (r : Registry) : Prop :=
  ∃ calls, attemptAll {} calls = r

theorem reachable_of_registerAll {r : Registry} {files : List SchemaFile} (h : registerAll {} files = .ok r) :
    r.Reachable :=
  ⟨files, attemptAll_of_registerAll h⟩

theorem Reachable.consistent {r : Registry} (h : r.Reachable) : r.Consistent := by
  obtain ⟨calls, rfl⟩ := h
  exact consistent_empty.registerAll (registerAll_accepted {} calls)

end attempts

section keys
variable {α β : Type} {key : α → String}

theorem flatMap_key {as : List α} (distinct : (as.map key).Nodup) (k : String) (g : α → List β) :
    (as.flatMap fun a => if key a == k then g a else []) = (as.find? (key · == k)).elim [] g := by
  induction as with
  | nil => rfl
  | cons a as ih =>
    rw [List.map_cons, List.nodup_cons] at distinct
    rw [List.flatMap_cons]
    by_cases same : key a == k
    · have others : (as.flatMap fun b => if key b == k then g b else []) = [] := by
        rw [List.flatMap_eq_nil_iff]
        intro b hb
        apply if_neg
        intro again
        have equal : key b = key a := by rw [eq_of_beq again, eq_of_beq same]
        exact distinct.1 (equal ▸ List.mem_map_of_mem hb)
      rw [if_pos same, others, List.append_nil, List.find?_cons, same]
      rfl
    · rw [if_neg same, List.nil_append, ih distinct.2, List.find?_cons, Bool.of_not_eq_true same]

end keys

theorem nodup_names_of_fullNames {f : SchemaFile} {scope : List String} {enums : List EnumDef}
    (distinct : (enums.map fun e => (f.symbol scope .enum e.name).fullName).Nodup) : (enums.map (·.name)).Nodup := by
  apply List.Nodup.of_map fun name => (f.symbol scope .enum name).fullName
  rw [List.map_map]
  exact distinct

section lookups
variable {r : Registry} (c : r.Consistent) {f : SchemaFile}
include c

theorem Consistent.symbol?_eq_some_iff {fullName : String} {s : Symbol} :
    r.symbol? fullName = some s ↔ s.fullName = fullName ∧ ∃ f ∈ r.files, s ∈ f.symbols := by
  constructor
  · intro found
    have listed := Index.mem_of_get? found
    rw [c.table] at listed
    obtain ⟨f, hf, listed⟩ := List.mem_flatMap.mp listed
    obtain ⟨s, hs, same⟩ := List.mem_map.mp listed
    cases same
    exact ⟨rfl, f, hf, hs⟩
  · rintro ⟨rfl, f, hf, hs⟩
    exact c.symbol?_eq hf hs

theorem Consistent.get?_fileSymbols (name : String) :
    r.fileSymbols.get? name = (r.file? name).map fun f => f.symbols.map Symbol.fullName := by
  rw [c.file?_eq_find?, c.fileSymbols, Index.get?, List.find?_map, Option.map_map]
  rfl

theorem Consistent.symbolsIn_eq (name : String) : r.symbolsIn name = (r.file? name).elim [] (·.symbols) := by
  rw [symbolsIn, c.get?_fileSymbols]
  cases found : r.file? name with
  | none => rfl
  | some f =>
    have own : f.symbols.filterMap (r.symbol? ∘ Symbol.fullName) = f.symbols.filterMap some := by
      apply List.filterMap_congr
      intro s hs
      exact c.symbol?_eq (mem_files_of_file? found) hs
    change (f.symbols.map Symbol.fullName).filterMap r.symbol? = f.symbols
    rw [List.filterMap_map, own, List.filterMap_some]

/-- The names kept for a file lead to the symbols that a search of the whole table finds. -/
theorem Consistent.symbolsIn_eq_filter (name : String) :
    r.symbolsIn name = (r.table.map (·.2)).filter (·.file == name) := by
  have own : ∀ f : SchemaFile, f.symbols.filter (·.file == name) = if f.name == name then f.symbols else [] := by
    intro f
    split
    · rename_i same
      apply List.filter_eq_self.mpr
      intro s hs
      rw [(SchemaFile.file_of_mem_symbols hs).1, same]
    · rename_i other
      apply List.filter_eq_nil_iff.mpr
      intro s hs
      rw [(SchemaFile.file_of_mem_symbols hs).1]
      exact other
  rw [c.symbolsIn_eq, c.file?_eq_find?, ← flatMap_key c.names, c.table, List.map_flatMap, List.filter_flatMap]
  congr 1
  funext f
  rw [List.map_map, ← own]
  exact congrArg _ (List.map_id _).symm

theorem Consistent.enum?_inside {n : Nested} (hf : f ∈ r.files) (hn : n ∈ f.everyMessage) {e : EnumDef}
    (he : e ∈ n.message.enums) : r.enum? (f.symbol n.inner .enum e.name) = some e := by
  have distinct := c.nodup_symbols hf
  rw [SchemaFile.symbols_eq, List.map_append, List.map_flatMap] at distinct
  have here := (List.nodup_flatMap.mp distinct.of_append_left).1 n hn
  rw [SchemaFile.symbolsAt, List.map_cons, List.nodup_cons, List.map_map] at here
  have found : n.message.enums.find? (·.name == e.name) = some e := find?_key_eq (nodup_names_of_fullNames here.2) he
  simp only [enum?, SchemaFile.symbol, c.file?_eq hf, Option.bind_some]
  split
  · rename_i empty
    simp [Nested.inner] at empty
  · rw [c.messageAt?_eq hf hn]
    exact found

theorem Consistent.enum?_top (hf : f ∈ r.files) {e : EnumDef} (he : e ∈ f.enums) :
    r.enum? (f.symbol [] .enum e.name) = some e := by
  have distinct := c.nodup_symbols hf
  rw [SchemaFile.symbols, List.map_append, List.map_map] at distinct
  have found : f.enums.find? (·.name == e.name) = some e :=
    find?_key_eq (nodup_names_of_fullNames distinct.of_append_right) he
  simp only [enum?, SchemaFile.symbol, c.file?_eq hf, Option.bind_some]
  exact found

end lookups

/-- A definition of a file is found again by its symbol, and a message by its scope as well. -/
def Finds (r : Registry) (f : SchemaFile) (d : Definition) : Prop :=
  let s := f.symbolOf d
  match d with
  | .message n => r.message? s = some n.message ∧ r.enum? s = none ∧ r.messageSymbol? s.package s.scope = some s
  | .enum _ e => r.enum? s = some e ∧ r.message? s = none

/-- What a registry holds when `files` were added to it and no others. The place and the names kept for a file lead
where a search of the files and of the table does. -/
structure Represents (r : Registry) (files : List SchemaFile) : Prop where
  listed : r.files = files
  names : (files.map (·.name)).Nodup
  fileIndex : r.fileIndex = files.zipIdx.map fun p => (p.1.name, p.2)
  file : ∀ name f, r.file? name = some f ↔ f ∈ files ∧ f.name = name
  table : r.table = files.flatMap fun f => f.definitions.map fun d => ((f.symbolOf d).fullName, f.symbolOf d)
  fullNames : (r.table.map (·.1)).Nodup
  symbol : ∀ fullName s, r.symbol? fullName = some s ↔ (fullName, s) ∈ r.table
  fileSymbols : r.fileSymbols = files.map fun f => (f.name, f.definitions.map fun d => (f.symbolOf d).fullName)
  symbols : ∀ f ∈ files, r.symbolsIn f.name = f.definitions.map f.symbolOf ∧ (r.symbolsIn f.name).Nodup
  others : ∀ name, name ∉ files.map (·.name) → r.symbolsIn name = []
  searches : ∀ name, r.file? name = files.find? (·.name == name) ∧
    r.symbolsIn name = (r.table.map (·.2)).filter (·.file == name)
  finds : ∀ f ∈ files, ∀ d ∈ f.definitions, r.Finds f d
  numbers : ∀ f ∈ files, f.DistinctNumbers

section represents
variable {r : Registry} (c : r.Consistent)
include c

theorem Consistent.finds {f : SchemaFile} (hf : f ∈ r.files) {d : Definition} (hd : d ∈ f.definitions) :
    r.Finds f d := by
  rcases List.mem_append.mp hd with inside | top
  · obtain ⟨n, hn, here⟩ := List.mem_flatMap.mp inside
    rcases List.mem_cons.mp here with rfl | here
    · exact ⟨c.message?_eq hf hn, rfl, c.messageSymbol?_eq hf hn⟩
    · obtain ⟨e, he, rfl⟩ := List.mem_map.mp here
      exact ⟨c.enum?_inside hf hn he, rfl⟩
  · obtain ⟨e, he, rfl⟩ := List.mem_map.mp top
    exact ⟨c.enum?_top hf he, rfl⟩

theorem Consistent.represents (numbers : ∀ f ∈ r.files, f.DistinctNumbers) : r.Represents r.files where
  listed := rfl
  names := c.names
  fileIndex := c.fileIndex
  file _ _ := c.file?_eq_some_iff
  table := by
    rw [c.table]
    simp only [SchemaFile.symbols_eq_map, List.map_map, Function.comp_def]
  fullNames := c.fullNames
  symbol _ _ := Index.get?_eq_some_iff c.fullNames
  fileSymbols := by
    rw [c.fileSymbols]
    simp only [SchemaFile.symbols_eq_map, List.map_map, Function.comp_def]
  symbols f hf := by
    rw [c.symbolsIn_eq, c.file?_eq hf, ← SchemaFile.symbols_eq_map]
    exact ⟨rfl, (c.nodup_symbols hf).of_map⟩
  others name absent := by
    rw [c.symbolsIn_eq, c.file?_eq_none.mpr absent]
    rfl
  searches name := ⟨c.file?_eq_find? name, c.symbolsIn_eq_filter name⟩
  finds _ hf _ hd := c.finds hf hd
  numbers := numbers

end represents

end Registry

/-- Whatever files are tried in whatever order, the registry is that of the files that were added, whose calls all
succeed, and holds what these declare. A call whose file has a known name or is refused leaves everything as it was. -/
theorem attempts_represent_accepted (calls : List SchemaFile) :
    (Registry.accepted {} calls).Sublist calls ∧
    Registry.attemptAll {} (Registry.accepted {} calls) = Registry.attemptAll {} calls ∧
    Registry.registerAll {} (Registry.accepted {} calls) = .ok (Registry.attemptAll {} calls) ∧
    (∀ (r : Registry) (f : SchemaFile), (r.fileIndex.get? f.name).isSome ∨
      (∃ e, ((Registry.registerFile f).run r).1 = .error e) → ((Registry.registerFile f).run r).2 = r) ∧
    (Registry.attemptAll {} calls).Represents (Registry.accepted {} calls) := by
  have registered := Registry.registerAll_accepted {} calls
  refine ⟨Registry.accepted_sublist {} calls, Registry.attemptAll_of_registerAll registered, registered, ?_, ?_⟩
  · intro r f unchanged
    rcases Registry.run_registerFile_cases r f with ⟨_, ran⟩ | ⟨accepts, ran⟩ | ⟨_, _, e, ran⟩
    · rw [ran]
    · simp [ran, accepts.name] at unchanged
    · rw [ran]
  · have consistent := Registry.consistent_empty.registerAll registered
    have numbers := Registry.distinctNumbers_of_registerAll registered (by simp)
    have represents := consistent.represents numbers
    rw [Registry.files_attemptAll] at represents
    exact represents

end SchemaGen
