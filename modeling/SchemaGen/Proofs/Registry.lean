import SchemaGen.Proofs.Nesting
import SchemaGen.Proofs.Outcome
import SchemaGen.Registry.Reach
import Mathlib.Data.List.Nodup
/-!
# What a registry holds

The table of a registry lists the symbols of its files under their full names, and no two symbols share one.
So a full name leads to the one symbol that has it, and a symbol of a message leads back to the message.
-/
namespace SchemaGen

namespace SchemaFile

theorem file_of_mem_symbols {f : SchemaFile} {s : Symbol} (h : s ∈ f.symbols) :
    s.file = f.name ∧ s.package = f.package := by
  rw [symbols_eq] at h
  rcases List.mem_append.mp h with h | h
  · obtain ⟨n, _, h⟩ := List.mem_flatMap.mp h
    rcases List.mem_cons.mp h with rfl | h
    · exact ⟨rfl, rfl⟩
    · obtain ⟨e, _, rfl⟩ := List.mem_map.mp h
      exact ⟨rfl, rfl⟩
  · obtain ⟨e, _, rfl⟩ := List.mem_map.mp h
    exact ⟨rfl, rfl⟩

theorem exists_of_message_mem {f : SchemaFile} {s : Symbol} (h : s ∈ f.symbols) (kind : s.kind = .message) :
    ∃ n ∈ f.everyMessage, s = f.messageSymbol n := by
  rw [symbols_eq] at h
  rcases List.mem_append.mp h with h | h
  · obtain ⟨n, hn, h⟩ := List.mem_flatMap.mp h
    rcases List.mem_cons.mp h with rfl | h
    · exact ⟨n, hn, rfl⟩
    · obtain ⟨e, _, rfl⟩ := List.mem_map.mp h
      cases kind
  · obtain ⟨e, _, rfl⟩ := List.mem_map.mp h
    cases kind

theorem exists_of_enum_mem {f : SchemaFile} {s : Symbol} (h : s ∈ f.symbols) (kind : s.kind = .enum) :
    (∃ n ∈ f.everyMessage, ∃ e ∈ n.message.enums, s = f.symbol n.inner .enum e.name) ∨
      ∃ e ∈ f.enums, s = f.symbol [] .enum e.name := by
  rw [symbols_eq] at h
  rcases List.mem_append.mp h with h | h
  · obtain ⟨n, hn, h⟩ := List.mem_flatMap.mp h
    rcases List.mem_cons.mp h with rfl | h
    · cases kind
    · obtain ⟨e, he, rfl⟩ := List.mem_map.mp h
      exact .inl ⟨n, hn, e, he, rfl⟩
  · obtain ⟨e, he, rfl⟩ := List.mem_map.mp h
    exact .inr ⟨e, he, rfl⟩

end SchemaFile

namespace Registry

theorem messageAt?_congr {ms ms' : List Message} {name : String}
    (h : ms.find? (·.name == name) = ms'.find? (·.name == name)) (names : List String) :
    messageAt? ms (name :: names) = messageAt? ms' (name :: names) := by
  cases names with
  | nil => exact h
  | cons next names =>
    rw [messageAt?, messageAt?, h]
    · simp
    · simp

theorem messageAt?_inside {ms : List Message} {m : Message} {names : List String} {found : Message}
    (first : ms.find? (·.name == m.name) = some m) (inside : messageAt? m.messages names = some found) :
    messageAt? ms (m.name :: names) = some found := by
  cases names with
  | nil => simp [messageAt?] at inside
  | cons next names =>
    rw [messageAt?, first]
    · exact inside
    · simp

theorem messageAt?_of_mem {f : SchemaFile} {ms : List Message} {parents : List String} {n : Nested}
    (distinct : ((f.messagesSymbols parents ms).map Symbol.fullName).Nodup)
    (h : n ∈ Message.nestedAll parents ms) :
    ∃ names, n.inner = parents ++ names ∧ messageAt? ms names = some n.message := by
  induction ms using Message.forestInduction generalizing parents with
  | nil => simp [Message.nestedAll] at h
  | cons m ms inside rest =>
    rw [SchemaFile.messagesSymbols, SchemaFile.messageSymbols_eq, List.map_append, List.map_append] at distinct
    obtain ⟨own, others, apart⟩ := List.nodup_append.mp distinct
    have first : (m :: ms).find? (·.name == m.name) = some m := by simp
    rw [Message.nestedAll, Message.nested_eq] at h
    rcases List.mem_append.mp h with h | h
    · rcases List.mem_cons.mp h with rfl | h
      · exact ⟨[m.name], rfl, first⟩
      · obtain ⟨names, scope, found⟩ := inside (List.nodup_append.mp own).2.1 h
        exact ⟨m.name :: names, by rw [scope, List.append_assoc, List.singleton_append],
          messageAt?_inside first found⟩
    · obtain ⟨names, scope, found⟩ := rest others h
      refine ⟨names, scope, ?_⟩
      cases names with
      | nil => simp [messageAt?] at found
      | cons name names =>
        rw [← found]
        refine messageAt?_congr ?_ names
        -- A sibling that answers to the same name would have the same full name.
        have differs : m.name ≠ name := by
          rintro rfl
          have answered : (ms.find? (·.name == m.name)).isSome := by
            cases hm : ms.find? (·.name == m.name) with
            | some k => rfl
            | none =>
              exfalso
              cases names <;> simp [messageAt?, hm] at found
          obtain ⟨k, hk⟩ := Option.isSome_iff_exists.mp answered
          have same : k.name = m.name := by simpa using List.find?_some hk
          have second : f.symbol parents .message m.name ∈ f.messagesSymbols parents ms := by
            rw [SchemaFile.messagesSymbols_eq]
            refine List.mem_flatMap.mpr ⟨⟨parents, k⟩, ?_, ?_⟩
            · refine Message.mem_nestedAll.mpr ⟨k, List.mem_of_find?_eq_some hk, ?_⟩
              rw [Message.nested_eq]
              exact List.mem_cons_self
            · rw [← same]
              exact List.mem_cons_self
          exact apart _ (by simp [SchemaFile.symbolsAt, SchemaFile.messageSymbol]) _
            (List.mem_map_of_mem second) rfl
        rw [List.find?_cons_of_neg (by simpa using differs)]

theorem find?_key_eq_none {α : Type} {key : α → String} {as : List α} {k : String} :
    as.find? (key · == k) = none ↔ k ∉ as.map key := by
  rw [List.find?_eq_none, List.mem_map]
  constructor
  · rintro none ⟨a, ha, rfl⟩
    simpa using none a ha
  · intro absent a ha same
    exact absent ⟨a, ha, by simpa using same⟩

theorem find?_key_eq {α : Type} {key : α → String} {as : List α} (distinct : (as.map key).Nodup) {a : α}
    (h : a ∈ as) : as.find? (key · == key a) = some a := by
  cases found : as.find? (key · == key a) with
  | none => exact absurd (List.mem_map_of_mem h) (find?_key_eq_none.mp found)
  | some b =>
    have same : key b = key a := by simpa using List.find?_some found
    rw [List.inj_on_of_nodup_map distinct (List.mem_of_find?_eq_some found) h same]

end Registry

namespace Index
variable {ν : Type} {m : Index ν} {name : String} {v : ν}

theorem get?_eq_none : m.get? name = none ↔ name ∉ m.map (·.1) := by
  rw [get?, Option.map_eq_none_iff, Registry.find?_key_eq_none]

theorem mem_of_get? (found : m.get? name = some v) : (name, v) ∈ m := by
  obtain ⟨entry, first, rfl⟩ := Option.map_eq_some_iff.mp found
  have key : entry.1 = name := by simpa using List.find?_some first
  rw [← key]
  exact List.mem_of_find?_eq_some first

theorem get?_eq_some_iff (distinct : (m.map (·.1)).Nodup) : m.get? name = some v ↔ (name, v) ∈ m := by
  constructor
  · exact mem_of_get?
  · intro entry
    rw [get?, Registry.find?_key_eq distinct entry]
    rfl

theorem put_of_notMem (new : name ∉ m.map (·.1)) : put name v m = m ++ [(name, v)] := by
  induction m with
  | nil => rfl
  | cons entry m ih =>
    rw [List.map_cons, List.mem_cons, not_or] at new
    have other : (entry.1 == name) = false := by simpa using fun same => new.1 same.symm
    change (if entry.1 == name then _ else entry :: put name v m) = _
    rw [other, ih new.2]
    rfl

theorem foldl_put {α : Type} {key : α → String} {value : α → ν} {as : List α}
    (new : ∀ a ∈ as, key a ∉ m.map (·.1)) (distinct : (as.map key).Nodup) :
    as.foldl (fun m a => put (key a) (value a) m) m = m ++ as.map fun a => (key a, value a) := by
  induction as generalizing m with
  | nil => simp
  | cons a as ih =>
    obtain ⟨here, later⟩ := List.forall_mem_cons.mp new
    rw [List.map_cons, List.nodup_cons] at distinct
    rw [List.foldl_cons, put_of_notMem here, ih _ distinct.2]
    · simp
    · intro b hb
      rw [List.map_append, List.mem_append, not_or]
      refine ⟨later b hb, ?_⟩
      intro same
      have equal : key b = key a := by simpa using same
      exact distinct.1 (equal ▸ List.mem_map_of_mem hb)

end Index

namespace Registry

/-- The maps list what the files declare: the place of each file, its symbols and their full names. Neither files nor
symbols share a name. -/
structure Consistent (r : Registry) : Prop where
  names : (r.files.map (·.name)).Nodup
  fileIndex : r.fileIndex = r.files.zipIdx.map fun p => (p.1.name, p.2)
  table : r.table = r.files.flatMap fun f => f.symbols.map fun s => (s.fullName, s)
  fullNames : (r.table.map (·.1)).Nodup
  fileSymbols : r.fileSymbols = r.files.map fun f => (f.name, f.symbols.map Symbol.fullName)

theorem symbol?_eq_none {r : Registry} {n : String} : r.symbol? n = none ↔ n ∉ r.table.map (·.1) :=
  Index.get?_eq_none

theorem checkSymbols_eq_ok {r : Registry} {file : String} {taken : List String} {ss : List Symbol}
    (h : r.checkSymbols file taken ss = .ok ()) :
    (∀ s ∈ ss, s.fullName ∉ r.table.map (·.1) ∧ s.fullName ∉ taken) ∧ (ss.map (·.fullName)).Nodup := by
  induction ss generalizing taken with
  | nil => simp
  | cons s ss ih =>
    unfold checkSymbols at h
    split at h
    · cases h
    · rename_i free
      split at h
      · cases h
      · rename_i fresh
        obtain ⟨free', nodup⟩ := ih h
        have fresh : s.fullName ∉ taken := by simpa using fresh
        refine ⟨?_, ?_⟩
        · intro t ht
          rcases List.mem_cons.mp ht with rfl | ht
          · exact ⟨symbol?_eq_none.mp free, fresh⟩
          · exact ⟨(free' t ht).1, fun hk => (free' t ht).2 (List.mem_cons_of_mem _ hk)⟩
        · rw [List.map_cons, List.nodup_cons]
          refine ⟨?_, nodup⟩
          intro hs
          obtain ⟨t, ht, same⟩ := List.mem_map.mp hs
          exact (free' t ht).2 (by simp [same])

def add (r : Registry) (f : SchemaFile) : Registry where
  files := r.files ++ [f]
  fileIndex := r.fileIndex.put f.name r.files.length
  table := f.symbols.foldl (fun t s => t.put s.fullName s) r.table
  fileSymbols := r.fileSymbols.put f.name (f.symbols.map Symbol.fullName)

section registerFile
variable {r r' : Registry} {f : SchemaFile}

theorem run_bind {α β : Type} {x : Registration α} {a : α} (ran : x.run r = (.ok a, r')) (next : α → Registration β) :
    (x >>= next).run r = (next a).run r' := by
  have same : x r = (.ok a, r') := ran
  simp [bind, ExceptT.bind, ExceptT.mk, ExceptT.run, StateT.bind, ExceptT.bindCont, same]

theorem run_putSymbols (r : Registry) (ss : List Symbol) :
    (ss.forM fun s => modify fun r => { r with table := r.table.put s.fullName s } : Registration Unit).run r =
      (.ok (), { r with table := ss.foldl (fun t s => t.put s.fullName s) r.table }) := by
  induction ss generalizing r with
  | nil => rfl
  | cons s ss ih =>
    exact ih { r with table := r.table.put s.fullName s }

def checks (r : Registry) (f : SchemaFile) : Except SchemaError Unit := do
  checkAllNumbers f.name (f.package.getD "") f.messages
  r.checkSymbols f.name [] f.symbols

theorem run_registerFile_of_known (known : (r.fileIndex.get? f.name).isSome) :
    (registerFile f).run r = (.ok (), r) := by
  unfold registerFile
  change (ite _ (pure ()) _ : Registration Unit) r = _
  rw [if_pos known]
  rfl

theorem run_registerFile_of_new (new : r.fileIndex.get? f.name = none) :
    (registerFile f).run r = (r.checks f, if (r.checks f).toBool then r.add f else r) := by
  unfold registerFile
  change (ite _ (pure ()) _ : Registration Unit) r = _
  rw [if_neg (by simp [new])]
  unfold checks
  cases numbers : checkAllNumbers f.name (f.package.getD "") f.messages with
  | error e => rfl
  | ok _ =>
    cases symbols : r.checkSymbols f.name [] f.symbols with
    | error e => rfl
    | ok _ =>
      exact (run_bind (run_putSymbols r f.symbols) _).trans rfl

/-- A file is passed over if its name is known, and otherwise checked and put in with its symbols. -/
theorem register_eq_ok (h : r.register f = .ok r') :
    ((r.fileIndex.get? f.name).isSome ∧ r' = r) ∨
    (r.fileIndex.get? f.name = none ∧ r.checks f = .ok () ∧ r' = r.add f) := by
  unfold register at h
  cases found : r.fileIndex.get? f.name with
  | some place =>
    rw [run_registerFile_of_known (by simp [found])] at h
    cases h
    exact .inl ⟨rfl, rfl⟩
  | none =>
    rw [run_registerFile_of_new found] at h
    cases passed : r.checks f with
    | error e =>
      rw [passed] at h
      cases h
    | ok _ =>
      rw [passed] at h
      cases h
      exact .inr ⟨rfl, rfl, rfl⟩

theorem checks_eq_ok (h : r.checks f = .ok ()) :
    checkAllNumbers f.name (f.package.getD "") f.messages = .ok () ∧ r.checkSymbols f.name [] f.symbols = .ok () := by
  obtain ⟨⟨⟩, numbers, symbols⟩ := except_bind_ok.mp h
  exact ⟨numbers, symbols⟩

end registerFile

section consistent
variable {r r' : Registry} (c : r.Consistent) {f : SchemaFile} {name : String}

theorem consistent_empty : Consistent {} := ⟨by simp, rfl, rfl, by simp, rfl⟩

include c

theorem Consistent.names_fileIndex : r.fileIndex.map (·.1) = r.files.map (·.name) := by
  rw [c.fileIndex, List.map_map]
  conv_rhs => rw [← List.zipIdx_map_fst 0 r.files, List.map_map]
  rfl

theorem Consistent.names_fileSymbols : r.fileSymbols.map (·.1) = r.files.map (·.name) := by
  rw [c.fileSymbols, List.map_map]
  rfl

theorem Consistent.get?_fileIndex_iff {place : Nat} :
    r.fileIndex.get? name = some place ↔ ∃ f, r.files[place]? = some f ∧ f.name = name := by
  rw [Index.get?_eq_some_iff (by rw [c.names_fileIndex]; exact c.names), c.fileIndex]
  simp [List.mem_zipIdx_iff_getElem?]

theorem Consistent.file?_eq_some_iff : r.file? name = some f ↔ f ∈ r.files ∧ f.name = name := by
  rw [file?, Option.bind_eq_some_iff]
  simp only [c.get?_fileIndex_iff]
  constructor
  · rintro ⟨place, ⟨g, here, same⟩, found⟩
    obtain rfl : g = f := Option.some.inj (here.symm.trans found)
    exact ⟨List.mem_of_getElem? found, same⟩
  · rintro ⟨listed, same⟩
    obtain ⟨place, found⟩ := List.mem_iff_getElem?.mp listed
    exact ⟨place, ⟨f, found, same⟩, found⟩

theorem Consistent.file?_eq (h : f ∈ r.files) : r.file? f.name = some f :=
  c.file?_eq_some_iff.mpr ⟨h, rfl⟩

theorem Consistent.name_of_file? (found : r.file? name = some f) : f.name = name :=
  (c.file?_eq_some_iff.mp found).2

theorem Consistent.file?_eq_find? (name : String) : r.file? name = r.files.find? (·.name == name) := by
  apply Option.ext
  intro f
  rw [c.file?_eq_some_iff]
  constructor
  · rintro ⟨listed, rfl⟩
    exact find?_key_eq c.names listed
  · intro found
    exact ⟨List.mem_of_find?_eq_some found, by simpa using List.find?_some found⟩

theorem Consistent.get?_fileIndex_eq_none : r.fileIndex.get? name = none ↔ name ∉ r.files.map (·.name) := by
  rw [Index.get?_eq_none, c.names_fileIndex]

theorem Consistent.file?_eq_none : r.file? name = none ↔ name ∉ r.files.map (·.name) := by
  rw [c.file?_eq_find?, find?_key_eq_none]

/-- With the full names of a file that are new and distinct, all four collections grow at their end. -/
theorem Consistent.add_eq (new : r.fileIndex.get? f.name = none) (checked : r.checks f = .ok ()) :
    r.add f = {
      files := r.files ++ [f]
      fileIndex := r.fileIndex ++ [(f.name, r.files.length)]
      table := r.table ++ f.symbols.map fun s => (s.fullName, s)
      fileSymbols := r.fileSymbols ++ [(f.name, f.symbols.map Symbol.fullName)] } := by
  obtain ⟨free, distinct⟩ := checkSymbols_eq_ok (checks_eq_ok checked).2
  have unlisted := c.get?_fileIndex_eq_none.mp new
  rw [add, Index.put_of_notMem (by rwa [c.names_fileIndex]), Index.put_of_notMem (by rwa [c.names_fileSymbols]),
    Index.foldl_put (fun s hs => (free s hs).1) distinct]

theorem Consistent.add (new : r.fileIndex.get? f.name = none) (checked : r.checks f = .ok ()) :
    (r.add f).Consistent := by
  obtain ⟨free, distinct⟩ := checkSymbols_eq_ok (checks_eq_ok checked).2
  rw [c.add_eq new checked]
  refine ⟨?_, ?_, ?_, ?_, ?_⟩
  · rw [List.map_append, List.nodup_append]
    refine ⟨c.names, by simp, ?_⟩
    rintro a ha b hb rfl
    obtain rfl : a = f.name := by simpa using hb
    exact c.get?_fileIndex_eq_none.mp new ha
  · rw [c.fileIndex, List.zipIdx_append]
    simp
  · rw [List.flatMap_append, ← c.table]
    simp
  · rw [List.map_append, List.map_map, List.nodup_append]
    refine ⟨c.fullNames, distinct, ?_⟩
    rintro a ha b hb rfl
    obtain ⟨s, hs, rfl⟩ := List.mem_map.mp hb
    exact (free s hs).1 ha
  · rw [c.fileSymbols, List.map_append]
    rfl

theorem Consistent.register (h : r.register f = .ok r') : r'.Consistent := by
  rcases register_eq_ok h with ⟨_, rfl⟩ | ⟨new, checked, rfl⟩
  · exact c
  · exact c.add new checked

end consistent

theorem Consistent.registerAll {r r' : Registry} {fs : List SchemaFile} (c : r.Consistent)
    (h : r.registerAll fs = .ok r') : r'.Consistent := by
  induction fs generalizing r with
  | nil =>
    cases h
    exact c
  | cons f fs ih =>
    obtain ⟨next, first, h⟩ := except_bind_ok.mp h
    exact ih (c.register first) h

theorem mem_files_of_registerAll {r r' : Registry} {fs : List SchemaFile} (h : r.registerAll fs = .ok r')
    {f : SchemaFile} (hf : f ∈ r'.files) : f ∈ r.files ∨ f ∈ fs := by
  induction fs generalizing r with
  | nil =>
    cases h
    exact .inl hf
  | cons g fs ih =>
    obtain ⟨next, first, h⟩ := except_bind_ok.mp h
    rcases ih h with known | later
    · rcases register_eq_ok first with ⟨_, rfl⟩ | ⟨_, _, rfl⟩
      · exact .inl known
      · rcases List.mem_append.mp known with known | new
        · exact .inl known
        · exact .inr (by simp_all)
    · exact .inr (List.mem_cons_of_mem _ later)

theorem Consistent.files_of_registerAll {r r' : Registry} (c : r.Consistent) {fs : List SchemaFile}
    (distinct : ((r.files ++ fs).map (·.name)).Nodup) (h : r.registerAll fs = .ok r') : r'.files = r.files ++ fs := by
  induction fs generalizing r with
  | nil =>
    cases h
    simp
  | cons f fs ih =>
    obtain ⟨next, first, h⟩ := except_bind_ok.mp h
    have new : r.fileIndex.get? f.name = none := by
      rw [c.get?_fileIndex_eq_none]
      rw [List.map_append, List.nodup_append] at distinct
      exact fun known => distinct.2.2 _ known _ (by simp) rfl
    rcases register_eq_ok first with ⟨known, _⟩ | ⟨_, checked, rfl⟩
    · rw [new] at known
      cases known
    · rw [ih (c.add new checked) (by simpa [Registry.add] using distinct) h]
      simp [Registry.add]

section lookups
variable {r : Registry} (c : r.Consistent)
include c

theorem Consistent.mem_table_iff {s : Symbol} :
    s ∈ r.table.map (·.2) ↔ ∃ f ∈ r.files, s ∈ f.symbols := by
  rw [c.table]
  simp

theorem Consistent.symbol?_eq {f : SchemaFile} {s : Symbol} (hf : f ∈ r.files) (hs : s ∈ f.symbols) :
    r.symbol? s.fullName = some s := by
  have entry : (s.fullName, s) ∈ r.table := by
    rw [c.table]
    exact List.mem_flatMap.mpr ⟨f, hf, List.mem_map.mpr ⟨s, hs, rfl⟩⟩
  exact (Index.get?_eq_some_iff c.fullNames).mpr entry

theorem Consistent.eq_of_fullName {s t : Symbol} (hs : s ∈ r.table.map (·.2)) (ht : t ∈ r.table.map (·.2))
    (h : s.fullName = t.fullName) : s = t := by
  obtain ⟨f, hf, hs⟩ := c.mem_table_iff.mp hs
  obtain ⟨g, hg, ht⟩ := c.mem_table_iff.mp ht
  have found := c.symbol?_eq hf hs
  rw [h, c.symbol?_eq hg ht] at found
  exact (Option.some.inj found).symm

theorem Consistent.messageSymbol?_eq {f : SchemaFile} {n : Nested} (hf : f ∈ r.files) (hn : n ∈ f.everyMessage) :
    r.messageSymbol? f.package n.inner = some (f.messageSymbol n) := by
  have found := c.symbol?_eq hf (SchemaFile.messageSymbol_mem hn)
  change (r.symbol? (f.messageSymbol n).fullName).filter _ = _
  rw [found]
  rfl

theorem Consistent.nodup_symbols {f : SchemaFile} (hf : f ∈ r.files) : (f.symbols.map Symbol.fullName).Nodup := by
  have all := c.fullNames
  rw [c.table, List.map_flatMap] at all
  have own := (List.nodup_flatMap.mp all).1 f hf
  rwa [List.map_map] at own

theorem Consistent.messageAt?_eq {f : SchemaFile} {n : Nested} (hf : f ∈ r.files) (hn : n ∈ f.everyMessage) :
    messageAt? f.messages n.inner = some n.message := by
  have distinct := c.nodup_symbols hf
  rw [SchemaFile.symbols, List.map_append] at distinct
  obtain ⟨names, scope, found⟩ := messageAt?_of_mem distinct.of_append_left hn
  rw [scope]
  exact found

theorem Consistent.message?_eq {f : SchemaFile} {n : Nested} (hf : f ∈ r.files) (hn : n ∈ f.everyMessage) :
    r.message? (f.messageSymbol n) = some n.message := by
  change (r.file? f.name).bind (fun g => messageAt? g.messages n.inner) = _
  rw [c.file?_eq hf]
  exact c.messageAt?_eq hf hn

end lookups

end Registry

end SchemaGen
