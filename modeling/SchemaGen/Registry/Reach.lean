import SchemaGen.Registry.Resolve
/-!
Containment of messages: a message contains those that its singular fields and oneof members hold directly, and
what these contain in turn. A repeated field or a map holds its messages elsewhere and does not count.
-/
namespace SchemaGen.Registry

def placeIn (s : Symbol) : Place :=
  ⟨s.file, s.package, s.scope⟩

def held? (r : Registry) (p : Place) (f : Field) : Option Symbol :=
  match f.label, f.type with
  | .singular, .named name =>
    match r.resolve? p name with
    | some (.message target) => some target
    | _ => none
  | _, _ => none

def holds (r : Registry) (s : Symbol) : List Symbol :=
  (r.message? s).elim [] fun m => m.allFields.filterMap (r.held? (placeIn s))

theorem mem_table_of_symbol? {r : Registry} {n : String} {s : Symbol} (h : r.symbol? n = some s) :
    s ∈ r.table.map (·.2) := by
  obtain ⟨e, found, rfl⟩ := Option.map_eq_some_iff.mp h
  exact List.mem_map.mpr ⟨e, List.mem_of_find?_eq_some found, rfl⟩

def Possible (r : Registry) (resolved : Resolved) : Prop :=
  (∃ kind, resolved = .scalar kind) ∨ (∃ e, resolved = .ofEntry e) ∨
    ∃ t ∈ r.table.map (·.2), resolved = .ofSymbol t

theorem possible_of_declared? {r : Registry} {n : String} {resolved : Resolved}
    (h : r.declared? n = some resolved) : r.Possible resolved := by
  obtain ⟨s, found, rfl⟩ := Option.map_eq_some_iff.mp h
  exact .inr (.inr ⟨s, mem_table_of_symbol? found, rfl⟩)

theorem possible_of_meaning? {r : Registry} {c : Candidate} {resolved : Resolved}
    (h : r.meaning? c = some resolved) : r.Possible resolved := by
  cases c with
  | declared n => exact possible_of_declared? h
  | inFile file n =>
    obtain ⟨s, found, rfl⟩ := Option.map_eq_some_iff.mp h
    obtain ⟨n, _, found⟩ := List.mem_filterMap.mp (List.mem_of_find?_eq_some found)
    exact .inr (.inr ⟨s, mem_table_of_symbol? found, rfl⟩)
  | builtIn n =>
    obtain ⟨e, _, rfl⟩ := Option.map_eq_some_iff.mp h
    exact .inr (.inl ⟨e, rfl⟩)

theorem possible_of_resolve? {r : Registry} {p : Place} {name : String} {resolved : Resolved}
    (h : r.resolve? p name = some resolved) : r.Possible resolved := by
  have ofName : ∀ absolute n, r.resolveName? p absolute n = some resolved → r.Possible resolved := by
    intro absolute n h
    unfold resolveName? at h
    split at h
    · obtain ⟨e, _, rfl⟩ := Option.map_eq_some_iff.mp h
      exact .inr (.inl ⟨e, rfl⟩)
    · split at h
      · exact possible_of_declared? h
      · split at h
        · rename_i kind _
          exact .inl ⟨kind, (Option.some.inj h).symm⟩
        · obtain ⟨c, _, hc⟩ := List.exists_of_findSome?_eq_some h
          exact possible_of_meaning? hc
  unfold resolve? at h
  split at h
  · exact ofName _ _ h
  · exact ofName _ _ h

theorem mem_table_of_resolve? {r : Registry} {p : Place} {name : String} {resolved : Resolved} {t : Symbol}
    (h : r.resolve? p name = some resolved) (declared : resolved = .message t ∨ resolved = .enum t) :
    t ∈ r.table.map (·.2) := by
  rcases possible_of_resolve? h with ⟨kind, rfl⟩ | ⟨e, rfl⟩ | ⟨s, hs, rfl⟩
  · simp at declared
  · cases e <;> simp [Resolved.ofEntry] at declared
  · unfold Resolved.ofSymbol at declared
    split at declared <;> simp at declared <;> exact declared ▸ hs

theorem mem_table_of_holds {r : Registry} {s t : Symbol} (h : t ∈ r.holds s) : t ∈ r.table.map (·.2) := by
  unfold holds at h
  cases hm : r.message? s with
  | none => simp [hm] at h
  | some m =>
    rw [hm] at h
    obtain ⟨f, _, hf⟩ := List.mem_filterMap.mp h
    unfold held? at hf
    split at hf
    · split at hf
      · cases hf
        exact mem_table_of_resolve? ‹_› (.inl rfl)
      · simp at hf
    · simp at hf

/-- From a message to the messages it holds. -/
def messageWalk (r : Registry) : Walk Symbol (List Symbol) where
  key := Symbol.fullName
  visit s := (r.holds s, r.holds s)
  keys := r.table.map (·.2.fullName)
  found_mem := by
    intro s t h
    obtain ⟨e, he, rfl⟩ := List.mem_map.mp (mem_table_of_holds h)
    exact List.mem_map.mpr ⟨e, he, rfl⟩

/-- The message `start` contains the message `target`, directly or inside another. -/
def reaches (r : Registry) (start target : Symbol) : Bool :=
  (r.messageWalk.run .depthFirst [start] []).any (·.contains target)

end SchemaGen.Registry
