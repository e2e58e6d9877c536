import SchemaGen.Proofs.ModuleTree
import SchemaGen.Proofs.Resolution
/-!
# Nested declarations stay inside

A declaration inside a message is known by its simple name inside that message only, as long as no message that
declares something has the full name of a package or of a part of one. Full names do not tell packages from messages:
where a message and a package share one, the files of the package see what is declared inside the message.
-/
namespace SchemaGen
open Text Lexeme

section packages

theorem joinWith_partsOf {package : String} (dotted : dottedChars package.toList) :
    joinWith "." (partsOf '.' package) = package := by
  have whole : (piecesOf '.' package.toList).filter (!·.isEmpty) = piecesOf '.' package.toList := by
    refine List.filter_eq_self.mpr fun piece hp => ?_
    have identifier := List.all_eq_true.mp dotted piece hp
    cases piece with
    | nil => cases identifier
    | cons c cs => rfl
  rw [partsOf, whole]
  exact joinWith_piecesOf '.' package

theorem partsOf_ne_nil {package : String} (dotted : dottedChars package.toList) : partsOf '.' package ≠ [] := by
  intro none
  have joined := joinWith_partsOf dotted
  rw [none] at joined
  rw [← joined] at dotted
  cases dotted

theorem notMem_of_mem_packageParts {package : Option String} {part : String} (h : part ∈ packageParts package) :
    '.' ∉ part.toList := by
  cases package with
  | none => cases h
  | some package =>
    obtain ⟨piece, hp, rfl⟩ := List.mem_map.mp h
    rw [String.toList_ofList]
    exact notMem_of_mem_piecesOf (List.mem_filter.mp hp).1

theorem packageParts_inj {p q : Option String} (hp : ∀ x ∈ p, dottedChars x.toList)
    (hq : ∀ x ∈ q, dottedChars x.toList) (h : packageParts p = packageParts q) : p = q := by
  cases p with
  | none =>
    cases q with
    | none => rfl
    | some q => exact absurd h.symm (partsOf_ne_nil (hq q rfl))
  | some p =>
    cases q with
    | none => exact absurd h (partsOf_ne_nil (hp p rfl))
    | some q =>
      have same : partsOf '.' p = partsOf '.' q := h
      rw [← joinWith_partsOf (hp p rfl), ← joinWith_partsOf (hq q rfl), same]

end packages

/-- The parts of the package, the messages around a declaration and its own name. -/
def Symbol.path (s : Symbol) : List String :=
  packageParts s.package ++ s.scope

section messages

/-- A message that other messages or enums stand in. -/
def Message.Declares (m : Message) : Prop :=
  m.messages ≠ [] ∨ m.enums ≠ []

instance (m : Message) : Decidable m.Declares :=
  inferInstanceAs (Decidable (_ ∨ _))

theorem Message.prefix_of_mem_nestedAll {scope : List String} {ms : List Message} {n : Nested}
    (hn : n ∈ nestedAll scope ms) : scope <+: n.scope := by
  induction ms using forestInduction generalizing scope with
  | nil => simp [nestedAll] at hn
  | cons m ms inside rest =>
    rw [nestedAll, nested_eq] at hn
    rcases List.mem_append.mp hn with hn | hn
    · rcases List.mem_cons.mp hn with rfl | hn
      · exact List.prefix_refl scope
      · exact (List.prefix_append scope [m.name]).trans (inside hn)
    · exact rest hn

namespace SchemaFile
variable {f : SchemaFile}

theorem top_or_inside {n : Nested} (hn : n ∈ f.everyMessage) :
    (n.scope = [] ∧ n.message ∈ f.messages) ∨ ∃ m ∈ f.messages, m.Declares ∧ [m.name] <+: n.scope := by
  obtain ⟨m, hm, hn⟩ := Message.mem_nestedAll.mp hn
  rcases Message.mem_nested.mp hn with rfl | ⟨k, hk, hn⟩
  · exact .inl ⟨rfl, hm⟩
  · refine .inr ⟨m, hm, .inl (List.ne_nil_of_mem hk), ?_⟩
    exact Message.prefix_of_mem_nestedAll (Message.mem_nestedAll.mpr ⟨k, hk, hn⟩)

theorem exists_declares {s : Symbol} (hs : s ∈ f.symbols) (nested : s.parents ≠ []) :
    ∃ m ∈ f.messages, m.Declares ∧ [m.name] <+: s.parents := by
  cases kind : s.kind with
  | message =>
    obtain ⟨n, hn, rfl⟩ := exists_of_message_mem hs kind
    rcases top_or_inside hn with ⟨top, _⟩ | inside
    · exact absurd top nested
    · exact inside
  | enum =>
    rcases exists_of_enum_mem hs kind with ⟨n, hn, e, he, rfl⟩ | ⟨e, _, rfl⟩
    · rcases top_or_inside hn with ⟨top, hm⟩ | ⟨m, hm, declares, inside⟩
      · refine ⟨n.message, hm, .inr (List.ne_nil_of_mem he), ?_⟩
        change [n.message.name] <+: n.scope ++ [n.message.name]
        rw [top, List.nil_append]
      · exact ⟨m, hm, declares, inside.trans (List.prefix_append n.scope _)⟩
    · exact absurd rfl nested

theorem exists_right_inside {m : Message} (hm : m ∈ f.messages) (declares : m.Declares) :
    ∃ s ∈ f.symbols, s.parents = [m.name] := by
  have top : ⟨[], m⟩ ∈ m.nested [] := Message.mem_nested.mpr (.inl rfl)
  rcases declares with messages | enums
  · obtain ⟨k, hk⟩ := List.exists_mem_of_ne_nil _ messages
    have inside : ⟨[m.name], k⟩ ∈ m.nested [] :=
      Message.mem_nested.mpr (.inr ⟨k, hk, Message.mem_nested.mpr (.inl rfl)⟩)
    exact ⟨_, messageSymbol_mem (Message.mem_nestedAll.mpr ⟨m, hm, inside⟩), rfl⟩
  · obtain ⟨e, he⟩ := List.exists_mem_of_ne_nil _ enums
    refine ⟨f.symbol [m.name] .enum e.name, ?_, rfl⟩
    rw [symbols_eq]
    refine List.mem_append_left _ (List.mem_flatMap.mpr ⟨⟨[], m⟩, Message.mem_nestedAll.mpr ⟨m, hm, top⟩, ?_⟩)
    exact List.mem_cons_of_mem _ (List.mem_map_of_mem he)

inductive Offers (f : SchemaFile) : Place → Prop
  | top : Offers f ⟨f.name, f.package, []⟩
  | inside {n : Nested} (listed : n ∈ f.everyMessage) : Offers f (f.placeAt n)

theorem Offers.package_eq {p : Place} (h : f.Offers p) : p.package = f.package := by
  cases h <;> rfl

theorem Offers.exists_declares {p : Place} (h : f.Offers p) (deep : 2 ≤ p.scope.length) :
    ∃ m ∈ f.messages, m.Declares ∧ [m.name] <+: p.scope := by
  cases h with
  | top => simp at deep
  | @inside n listed =>
    change 2 ≤ (n.scope ++ [n.message.name]).length at deep
    rcases top_or_inside listed with ⟨top, _⟩ | ⟨m, hm, declares, inside⟩
    · simp [top] at deep
    · exact ⟨m, hm, declares, inside.trans (List.prefix_append n.scope _)⟩

section formed
variable (formed : f.toSchema.WellFormed)
include formed

theorem Offers.notMem_scope {p : Place} (h : f.Offers p) : ∀ x ∈ p.scope, '.' ∉ x.toList := by
  cases h with
  | top => simp
  | inside listed => exact fun x hx => (isName_of_mem_inner formed listed x hx).notMem (by decide)

theorem notMem_of_mem_scope {s : Symbol} (hs : s ∈ f.symbols) : ∀ x ∈ s.scope, '.' ∉ x.toList := by
  have named : ∀ x ∈ s.scope, IsName x := by
    cases kind : s.kind with
    | message =>
      obtain ⟨n, hn, rfl⟩ := exists_of_message_mem hs kind
      exact isName_of_mem_inner formed hn
    | enum =>
      rcases exists_of_enum_mem hs kind with ⟨n, hn, e, he, rfl⟩ | ⟨e, he, rfl⟩
      · refine List.forall_mem_append.mpr ⟨isName_of_mem_inner formed hn, ?_⟩
        exact List.forall_mem_singleton.mpr (isName_of_isIdentifier ((formed.messages n hn).enums e he).name)
      · exact List.forall_mem_singleton.mpr (isName_of_isIdentifier (formed.enums e he).name)
  exact fun x hx => (named x hx).notMem (by decide)

theorem notMem_of_mem_path {s : Symbol} (hs : s ∈ f.symbols) : ∀ x ∈ s.path, '.' ∉ x.toList :=
  List.forall_mem_append.mpr ⟨fun _ => notMem_of_mem_packageParts, notMem_of_mem_scope formed hs⟩

theorem fullName_eq {s : Symbol} (hs : s ∈ f.symbols) : s.fullName = joinWith "." s.path := by
  have dotted : ∀ p ∈ s.package, dottedChars p.toList := by
    rw [(file_of_mem_symbols hs).2]
    exact formed.package
  rw [Symbol.fullName, Symbol.path]
  cases package : s.package with
  | none => rfl
  | some p =>
    have parts := partsOf_ne_nil (dotted p package)
    have nonempty : ¬ p.isEmpty := by
      intro empty
      rw [String.isEmpty_iff.mp empty] at parts
      exact parts rfl
    rw [qualified, if_neg nonempty]
    change _ = joinWith "." (partsOf '.' p ++ s.scope)
    rw [joinWith_append "." parts (by simp [Symbol.scope]), joinWith_partsOf (dotted p package)]
    rfl

/-- A full name tells the names around a declaration. -/
theorem around_of_fullName {s : Symbol} (hs : s ∈ f.symbols) {around : List String} {name : String}
    (nonempty : around ≠ []) (free : ∀ x ∈ around, '.' ∉ x.toList) (simple : '.' ∉ name.toList)
    (h : s.fullName = joinWith "." around ++ "." ++ name) : packageParts s.package ++ s.parents = around := by
  have joined : joinWith "." s.path = joinWith "." (around ++ [name]) := by
    rw [← fullName_eq formed hs, h, joinWith_append "." nonempty (by simp)]
    rfl
  have whole : s.path = around ++ [name] :=
    joinWith_inj '.' (by simp [Symbol.path, Symbol.scope]) (by simp) (notMem_of_mem_path formed hs)
      (List.forall_mem_append.mpr ⟨free, List.forall_mem_singleton.mpr simple⟩) joined
  rw [Symbol.path, Symbol.scope, ← List.append_assoc] at whole
  exact (List.append_inj' whole rfl).1

theorem parents_of_nestedName {s : Symbol} (hs : s ∈ f.symbols) (simple : '.' ∉ s.nestedName.toList) :
    s.parents = [] := by
  have alone : s.scope = [s.nestedName] :=
    joinWith_inj '.' (by simp [Symbol.scope]) (by simp) (notMem_of_mem_scope formed hs)
      (List.forall_mem_singleton.mpr simple) rfl
  simpa [Symbol.scope] using congrArg List.dropLast alone

theorem parents_of_fullName {s : Symbol} (hs : s ∈ f.symbols) (simple : '.' ∉ s.fullName.toList) :
    s.parents = [] := by
  have alone : s.path = [s.fullName] :=
    joinWith_inj '.' (by simp [Symbol.path, Symbol.scope]) (by simp) (notMem_of_mem_path formed hs)
      (List.forall_mem_singleton.mpr simple) (fullName_eq formed hs).symm
  rw [Symbol.path, Symbol.scope, ← List.append_assoc] at alone
  have nothing := congrArg List.dropLast alone
  simp only [List.dropLast_concat, List.dropLast_singleton, List.append_eq_nil_iff] at nothing
  exact nothing.2

end formed

end SchemaFile

end messages

namespace Registry

/-- A declaration that a name could mean at a place, also where a nearer one hides it. -/
def Visible (r : Registry) (p : Place) (name : String) (s : Symbol) : Prop :=
  ∃ c ∈ p.visible (r.importedPackages p.file) name, r.Stands c (.ofSymbol s)

/-- No message that declares something has the full name of a package or of a part of one. -/
def PackagesApart (r : Registry) : Prop :=
  ∀ f ∈ r.files, ∀ m ∈ f.messages, m.Declares →
    ∀ g ∈ r.files, ¬ packageParts f.package ++ [m.name] <+: packageParts g.package

instance (r : Registry) : Decidable r.PackagesApart :=
  inferInstanceAs (Decidable (∀ f ∈ r.files, _))

section visible
variable {r : Registry}

theorem ofSymbol_inj {s t : Symbol} (h : Resolved.ofSymbol s = .ofSymbol t) : s = t := by
  unfold Resolved.ofSymbol at h
  split at h <;> split at h <;> cases h <;> rfl

theorem ofEntry_ne_ofSymbol (e : WellKnown.Entry) (s : Symbol) : Resolved.ofEntry e ≠ .ofSymbol s := by
  unfold Resolved.ofSymbol
  cases e <;> split <;> simp [Resolved.ofEntry]

theorem Stands.exists_symbol {c : Candidate} {s : Symbol} (h : r.Stands c (.ofSymbol s)) :
    ∃ f ∈ r.files, s ∈ f.symbols ∧ (c = .declared s.fullName ∨ c = .inFile f.name s.nestedName) := by
  generalize same : Resolved.ofSymbol s = x at h
  cases h with
  | declared file listed =>
    obtain rfl := ofSymbol_inj same
    exact ⟨_, file, listed, .inl rfl⟩
  | inFile file listed =>
    obtain rfl := ofSymbol_inj same
    exact ⟨_, file, listed, .inr rfl⟩
  | builtIn => exact absurd same.symm (ofEntry_ne_ofSymbol _ s)

theorem Consistent.of_packageAt? (c : r.Consistent) {path package : String} (h : r.packageAt? path = some package) :
    package = WellKnown.package ∨ ∃ f ∈ r.files, f.package = some package := by
  unfold packageAt? at h
  split at h
  · exact .inl (Option.some.inj h).symm
  · obtain ⟨f, known, named⟩ := Option.bind_eq_some_iff.mp (Option.filter_eq_some_iff.mp h).1
    exact .inr ⟨f, (c.file?_eq_some_iff.mp known).1, named⟩

/-- What a simple name could mean stands inside nothing, or right inside one of the enclosing names of its place, or
right inside a package. -/
theorem Consistent.around_of_visible (c : r.Consistent) (formed : ∀ f ∈ r.files, f.toSchema.WellFormed) {p : Place}
    {name : String} {s : Symbol} (free : ∀ x ∈ p.scope, '.' ∉ x.toList) (simple : '.' ∉ name.toList)
    (h : r.Visible p name s) :
    ∃ g ∈ r.files, s ∈ g.symbols ∧ (s.parents = [] ∨ packageParts s.package ++ s.parents <+: p.segments ∨
      ∃ k ∈ r.files, packageParts s.package ++ s.parents = packageParts k.package) := by
  obtain ⟨candidate, listed, stands⟩ := h
  obtain ⟨g, hg, hs, is⟩ := stands.exists_symbol
  refine ⟨g, hg, hs, ?_⟩
  simp only [Place.visible, List.mem_append, List.mem_map, List.mem_singleton, or_assoc] at listed
  rcases listed with ⟨around, enclosing, rfl⟩ | rfl | ⟨q, imported, rfl⟩ | rfl
  · -- An enclosing name.
    obtain ⟨nonempty, start⟩ := mem_tail_inits.mp (List.mem_reverse.mp enclosing)
    have segments : ∀ x ∈ p.segments, '.' ∉ x.toList :=
      List.forall_mem_append.mpr ⟨fun _ => notMem_of_mem_packageParts, free⟩
    have named : s.fullName = joinWith "." around ++ "." ++ name := by simpa [eq_comm] using is
    right; left
    rwa [SchemaFile.around_of_fullName (formed g hg) hs nonempty (fun x hx => segments x (start.mem hx)) simple named]
  · -- A nested name of the file.
    left
    have named : s.nestedName = name := by
      rcases is with is | is
      · cases is
      · exact (Candidate.inFile.inj is).2.symm
    exact SchemaFile.parents_of_nestedName (formed g hg) hs (named ▸ simple)
  · -- A name in a package, which is not that of the built-in types.
    right; right
    obtain ⟨path, _, brings⟩ := ((r.listsPackages p.file).mem_iff q).mp imported
    unfold Candidate.within at is
    split at is
    · simp at is
    · rename_i declared
      obtain ⟨k, hk, package⟩ := (c.of_packageAt? brings).resolve_left declared
      have dotted := (formed k hk).package q package
      have parts : packageParts k.package = partsOf '.' q := by
        rw [package]
        rfl
      have named : s.fullName = joinWith "." (packageParts k.package) ++ "." ++ name := by
        rw [parts, joinWith_partsOf dotted]
        simpa [eq_comm] using is
      exact ⟨k, hk, SchemaFile.around_of_fullName (formed g hg) hs (parts ▸ partsOf_ne_nil dotted)
        (fun _ => notMem_of_mem_packageParts) simple named⟩
  · -- A full name.
    left
    have named : s.fullName = name := by simpa [eq_comm] using is
    exact SchemaFile.parents_of_fullName (formed g hg) hs (named ▸ simple)

theorem visible_of_prefix {f : SchemaFile} {s : Symbol} {p : Place} (hf : f ∈ r.files)
    (formed : f.toSchema.WellFormed) (hs : s ∈ f.symbols) (nonempty : packageParts s.package ++ s.parents ≠ [])
    (h : packageParts s.package ++ s.parents <+: p.segments) : r.Visible p s.name s := by
  have named : joinWith "." (packageParts s.package ++ s.parents) ++ "." ++ s.name = s.fullName := by
    rw [SchemaFile.fullName_eq formed hs, Symbol.path, Symbol.scope, ← List.append_assoc,
      joinWith_append "." nonempty (by simp)]
    rfl
  refine ⟨.declared s.fullName, ?_, .declared hf hs⟩
  rw [Place.visible, ← named]
  simp only [List.append_assoc]
  refine List.mem_append_left _ (List.mem_map.mpr ⟨_, ?_, rfl⟩)
  exact List.mem_reverse.mpr (mem_tail_inits.mpr ⟨nonempty, h⟩)

/-- Where packages and messages stay apart, a declaration around which all names enclose a place has its messages
around the place. -/
theorem PackagesApart.inside (apart : r.PackagesApart) (formed : ∀ f ∈ r.files, f.toSchema.WellFormed)
    {f g : SchemaFile} (hf : f ∈ r.files) (hg : g ∈ r.files) {p : Place} (offers : f.Offers p) {s : Symbol}
    (hs : s ∈ g.symbols) (nested : s.parents ≠ []) (h : packageParts s.package ++ s.parents <+: p.segments) :
    s.package = p.package ∧ s.parents <+: p.scope := by
  obtain ⟨m, hm, declares, first⟩ := SchemaFile.exists_declares hs nested
  have package := (SchemaFile.file_of_mem_symbols hs).2
  have package' := offers.package_eq
  rw [package] at h ⊢
  rw [Place.segments, package'] at h
  rw [package']
  have own : packageParts g.package <+: packageParts f.package ++ p.scope := (List.prefix_append _ _).trans h
  have other : packageParts f.package <+: packageParts f.package ++ p.scope := List.prefix_append _ _
  -- Of the two packages one begins with the other, since both begin the names around the place.
  rcases lt_trichotomy (packageParts g.package).length (packageParts f.package).length with shorter | same | longer
  · have start : packageParts g.package ++ [m.name] <+: packageParts f.package ++ p.scope :=
      ((List.prefix_append_right_inj _).mpr first).trans h
    have within : (packageParts g.package ++ [m.name]).length ≤ (packageParts f.package).length := by simp; omega
    exact absurd (List.prefix_of_prefix_length_le start other within) (apart g hg m hm declares f hf)
  · have parts : packageParts g.package = packageParts f.package :=
      (List.prefix_of_prefix_length_le own other same.le).eq_of_length same
    rw [parts, List.prefix_append_right_inj] at h
    exact ⟨packageParts_inj (formed g hg).package (formed f hf).package parts, h⟩
  · have deep : 2 ≤ p.scope.length := by
      have := h.length_le
      have := List.length_pos_iff.mpr nested
      simp only [List.length_append] at *
      omega
    obtain ⟨k, hk, declares, first⟩ := offers.exists_declares deep
    have start : packageParts f.package ++ [k.name] <+: packageParts f.package ++ p.scope :=
      (List.prefix_append_right_inj _).mpr first
    have within : (packageParts f.package ++ [k.name]).length ≤ (packageParts g.package).length := by simp; omega
    exact absurd (List.prefix_of_prefix_length_le start own within) (apart f hf k hk declares g hg)

theorem Consistent.inside_of_visible (c : r.Consistent) (formed : ∀ f ∈ r.files, f.toSchema.WellFormed)
    (apart : r.PackagesApart) {f : SchemaFile} (hf : f ∈ r.files) {p : Place} (offers : f.Offers p) {name : String}
    (simple : '.' ∉ name.toList) {s : Symbol} (visible : r.Visible p name s) (nested : s.parents ≠ []) :
    s.package = p.package ∧ s.parents <+: p.scope := by
  obtain ⟨g, hg, hs, around⟩ := c.around_of_visible formed (offers.notMem_scope (formed f hf)) simple visible
  rcases around with top | enclosing | ⟨k, hk, around⟩
  · exact absurd top nested
  · exact apart.inside formed hf hg offers hs nested enclosing
  · obtain ⟨m, hm, declares, first⟩ := SchemaFile.exists_declares hs nested
    rw [(SchemaFile.file_of_mem_symbols hs).2] at around
    have start : packageParts g.package ++ [m.name] <+: packageParts k.package :=
      around ▸ (List.prefix_append_right_inj _).mpr first
    exact absurd start (apart g hg m hm declares k hk)

theorem Consistent.visible_of_resolve? (c : r.Consistent) {p : Place} {name : String} (simple : '.' ∉ name.toList)
    {x : Resolved} {s : Symbol} (found : r.resolve? p name = some x) (declared : x = .message s ∨ x = .enum s) :
    r.Visible p name s := by
  have relative : name.toList.head? ≠ some '.' := fun first => simple (List.mem_of_head? first)
  have free : ¬ WellKnown.inPackage name := by
    intro inside
    obtain ⟨rest, known⟩ := Option.isSome_iff_exists.mp inside
    rw [WellKnown.simpleName?_eq_some.mp known] at simple
    simp at simple
  have same := (mem_table_of_declared found declared).2
  cases keyword : Scalar.ofKeyword? name with
  | some kind =>
    unfold resolve? at found
    split at found
    · rename_i start
      simp [start] at relative
    · rw [resolveName?, if_neg free, keyword] at found
      cases found
      simp at declared
  | none =>
    rw [resolve?_relative relative free keyword] at found
    obtain ⟨candidate, listed, meaning⟩ := List.exists_of_findSome?_eq_some found
    exact ⟨candidate, listed, same ▸ c.meaning?_eq_some_iff.mp meaning⟩

end visible

end Registry

/-- A declaration inside a message is visible by its simple name inside that message only, exactly if no message that
declares something has the full name of a package or of a part of one. In particular no simple name means it outside. -/
theorem nested_names_stay_inside {r : Registry} (reachable : r.Reachable) (parsed : ∀ f ∈ r.files, f.Parsed) :
    (r.PackagesApart ↔ ∀ f ∈ r.files, ∀ p, f.Offers p → ∀ name s, '.' ∉ name.toList → r.Visible p name s →
      s.parents ≠ [] → s.package = p.package ∧ s.parents <+: p.scope) ∧
    (r.PackagesApart → ∀ f ∈ r.files, ∀ p, f.Offers p → ∀ name x s, '.' ∉ name.toList → r.resolve? p name = some x →
      (x = .message s ∨ x = .enum s) → s.parents ≠ [] → s.package = p.package ∧ s.parents <+: p.scope) := by
  have c := reachable.consistent
  have formed : ∀ f ∈ r.files, f.toSchema.WellFormed := fun f hf => (parsed f hf).wellFormed
  refine ⟨⟨?_, ?_⟩, ?_⟩
  · intro apart f hf p offers name s simple visible nested
    exact c.inside_of_visible formed apart hf offers simple visible nested
  · intro inside f hf m hm declares g hg clash
    -- The top of the file with the clashing package sees what is declared inside the message.
    obtain ⟨s, hs, parents⟩ := SchemaFile.exists_right_inside hm declares
    have package := (SchemaFile.file_of_mem_symbols hs).2
    have simple : '.' ∉ s.name.toList :=
      SchemaFile.notMem_of_mem_scope (formed f hf) hs s.name (List.mem_append_right _ List.mem_cons_self)
    have visible : r.Visible ⟨g.name, g.package, []⟩ s.name s := by
      apply Registry.visible_of_prefix hf (formed f hf) hs
      · simp [parents]
      · rw [package, parents, Place.segments, List.append_nil]
        exact clash
    have same := (inside g hg _ .top s.name s simple visible (by simp [parents])).1
    rw [package] at same
    have length := clash.length_le
    rw [same] at length
    simp at length
  · intro apart f hf p offers name x s simple found declared nested
    exact c.inside_of_visible formed apart hf offers simple (c.visible_of_resolve? simple found declared) nested

/-- A message with a part, and a file in a package below that of the message. -/
def engineFile : SchemaFile :=
  .ofText "engine" "package car;message Engine\x7bmessage Valve\x7b\x7dValve left=1;\x7d"

def garageFile : SchemaFile :=
  .ofText "garage" "package car.garage;import \"engine\";message Shelf\x7bEngine spare=1;\x7d"

def valveSymbol : Symbol :=
  { name := "Valve", parents := ["Engine"], package := some "car", file := "engine", kind := .message }

theorem nested_names_stay_inside_garage :
    ∃ r, Registry.registerAll {} [engineFile, garageFile] = .ok r ∧ r.PackagesApart ∧
      r.resolve? ⟨"engine", some "car", ["Engine"]⟩ "Valve" = some (.message valveSymbol) ∧
      ∀ f ∈ r.files, ∀ p, f.Offers p → r.resolve? p "Valve" = some (.message valveSymbol) →
        some "car" = p.package ∧ ["Engine"] <+: p.scope := by
  have facts : ((SchemaFile.parse true "engine"
        "package car;message Engine\x7bmessage Valve\x7b\x7dValve left=1;\x7d").result.toBool ∧
      (SchemaFile.parse true "garage"
        "package car.garage;import \"engine\";message Shelf\x7bEngine spare=1;\x7d").result.toBool) ∧
      (Registry.registerAll {} [engineFile, garageFile]).toOption.map (fun r =>
        (decide r.PackagesApart, r.resolve? ⟨"engine", some "car", ["Engine"]⟩ "Valve")) =
        some (true, some (.message valveSymbol)) := by
    decide +kernel
  obtain ⟨⟨engine, garage⟩, registers⟩ := facts
  obtain ⟨r, registered, same⟩ := toOption_map_eq_some.mp registers
  simp only [Prod.mk.injEq, decide_eq_true_eq] at same
  obtain ⟨apart, found⟩ := same
  have parsed : ∀ f ∈ r.files, f.Parsed := by
    intro f hf
    rcases Registry.mem_files_of_registerAll registered hf with none | listed
    · cases none
    · simp only [List.mem_cons, List.not_mem_nil, or_false] at listed
      rcases listed with rfl | rfl
      · exact SchemaFile.parsed_ofText engine
      · exact SchemaFile.parsed_ofText garage
  refine ⟨r, registered, apart, found, ?_⟩
  intro f hf p offers resolved
  exact (nested_names_stay_inside (Registry.reachable_of_registerAll registered) parsed).2 apart f hf p offers "Valve" _
    valveSymbol (by decide) resolved (.inl rfl) (by decide)

/-- A message that shares its full name with the package of another file. -/
def vaultFile : SchemaFile :=
  .ofText "vault" "package a;message b\x7bmessage Secret\x7b\x7d\x7d"

def visitorFile : SchemaFile :=
  .ofText "visitor" "package a.b;message User\x7bSecret s=1;\x7d"

def secretSymbol : Symbol :=
  { name := "Secret", parents := ["b"], package := some "a", file := "vault", kind := .message }

/-- From another package, and with no import, the simple name means a declaration inside the message. -/
theorem nested_names_leak :
    vaultFile.Parsed ∧ visitorFile.Parsed ∧
      ∃ r, Registry.registerAll {} [vaultFile, visitorFile] = .ok r ∧ ∃ n ∈ visitorFile.everyMessage,
        r.resolve? (visitorFile.placeAt n) "Secret" = some (.message secretSymbol) ∧
        secretSymbol.package ≠ (visitorFile.placeAt n).package ∧ ¬ secretSymbol.parents <+: n.inner := by
  have facts : ((SchemaFile.parse true "vault"
        "package a;message b\x7bmessage Secret\x7b\x7d\x7d").result.toBool ∧
      (SchemaFile.parse true "visitor" "package a.b;message User\x7bSecret s=1;\x7d").result.toBool) ∧
      (Registry.registerAll {} [vaultFile, visitorFile]).toOption.map (fun r =>
        decide (∃ n ∈ visitorFile.everyMessage,
          r.resolve? (visitorFile.placeAt n) "Secret" = some (.message secretSymbol) ∧
          secretSymbol.package ≠ (visitorFile.placeAt n).package ∧ ¬ secretSymbol.parents <+: n.inner)) =
        some true := by
    decide +kernel
  obtain ⟨⟨vault, visitor⟩, registers⟩ := facts
  obtain ⟨r, registered, same⟩ := toOption_map_eq_some.mp registers
  exact ⟨SchemaFile.parsed_ofText vault, SchemaFile.parsed_ofText visitor, r, registered, of_decide_eq_true same⟩

end SchemaGen
