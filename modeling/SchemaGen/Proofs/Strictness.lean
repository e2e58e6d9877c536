import SchemaGen.Proofs.WellFormed
/-!
# Strict and lenient reading

The two readings of a text go side by side up to the first statement that the lenient one skips, and there the
strict one ends. So the strict reading is the lenient one where nothing is skipped, and fails everywhere else.
-/
namespace SchemaGen

def Notice.skipsField : Notice → Bool
  | .malformedField .. => true
  | .malformedMethod .. => false

namespace Report
variable {α β : Type}

def KeepsFields (r : Parsed α) : Prop :=
  ∀ n ∈ r.warnings, ¬ n.skipsField

/-- `strict` does the same as `lenient` if that skips no field, and fails if it does. -/
structure Tightens (strict lenient : Parsed α) : Prop where
  same : lenient.KeepsFields → strict = lenient
  fails : ¬ lenient.KeepsFields → ∃ e, strict.result = .error e

theorem Tightens.refl {r : Parsed α} (h : r.KeepsFields) : Tightens r r :=
  ⟨fun _ => rfl, fun skips => (skips h).elim⟩

theorem keepsFields_of_silent {r : Parsed α} (h : r.warnings = []) : r.KeepsFields := by
  simp [KeepsFields, h]

theorem Tightens.pure (a : α) : Tightens (pure a) (pure a) :=
  .refl (keepsFields_of_silent rfl)

theorem Tightens.faultAt (p : Position) (f : Fault) : Tightens (α := α) (Reading.faultAt p f) (Reading.faultAt p f) :=
  .refl (keepsFields_of_silent rfl)

theorem bind_of_error {r : Parsed α} {e : Misread} (h : r.result = .error e) (next : α → Parsed β) :
    r >>= next = ⟨r.warnings, .error e⟩ := by
  change r.andThen next = _
  rw [andThen, h]

theorem bind_of_ok {r : Parsed α} {a : α} (h : r.result = .ok a) (next : α → Parsed β) :
    r >>= next = ⟨r.warnings ++ (next a).warnings, (next a).result⟩ := by
  change r.andThen next = _
  rw [andThen, h]

/-- One step after the other: the first that skips a field ends the strict reading. -/
theorem Tightens.bind {s l : Parsed α} {f g : α → Parsed β} (first : Tightens s l)
    (next : ∀ a, Tightens (f a) (g a)) : Tightens (s >>= f) (l >>= g) := by
  by_cases kept : l.KeepsFields
  · obtain rfl := first.same kept
    cases h : s.result with
    | error e =>
      rw [bind_of_error h, bind_of_error h]
      exact .refl kept
    | ok a =>
      rw [bind_of_ok h, bind_of_ok h]
      constructor
      · intro all
        have rest : (g a).KeepsFields := fun n hn => all n (List.mem_append_right _ hn)
        rw [(next a).same rest]
      · intro skips
        apply (next a).fails
        intro rest
        refine skips fun n hn => ?_
        rcases List.mem_append.mp hn with hn | hn
        · exact kept n hn
        · exact rest n hn
  · obtain ⟨e, failed⟩ := first.fails kept
    have stopped : (s >>= f).result = .error e := bind_result_of_error failed f
    refine ⟨fun all => (kept ?_).elim, fun _ => ⟨e, stopped⟩⟩
    intro n hn
    refine all n ?_
    cases h : l.result with
    | error e => rwa [bind_of_error h]
    | ok a =>
      rw [bind_of_ok h]
      exact List.mem_append_left _ hn

theorem Tightens.gather {f g : α → Parsed (List β)} (each : ∀ a, Tightens (f a) (g a)) (as : List α) :
    Tightens (gather f as) (gather g as) := by
  induction as with
  | nil => exact .pure []
  | cons a as ih => exact (each a).bind fun _ => ih.bind fun _ => .pure _

/-- Strict work succeeds exactly where lenient work does and skips nothing. -/
theorem Tightens.result_iff {s l : Parsed α} (h : Tightens s l) {a : α} :
    s.result = .ok a ↔ l.result = .ok a ∧ l.KeepsFields := by
  by_cases kept : l.KeepsFields
  · rw [h.same kept]
    simp [kept]
  · obtain ⟨e, failed⟩ := h.fails kept
    simp [failed, kept]

end Report

namespace Reading
open Report
variable {α : Type}

abbrev strictly (stop : Position) : Reading := ⟨true, stop⟩

abbrev leniently (stop : Position) : Reading := ⟨false, stop⟩

variable (stop : Position)

theorem field_tightens (inOneof : Bool) (c : Clause) :
    Tightens ((strictly stop).field inOneof c) ((leniently stop).field inOneof c) := by
  unfold field
  split
  · exact .pure _
  · refine ⟨fun kept => ?_, fun _ => ⟨_, rfl⟩⟩
    exact (kept _ List.mem_cons_self rfl).elim

theorem oneofFields_tightens (body : List Clause) :
    Tightens ((strictly stop).oneofFields body) ((leniently stop).oneofFields body) := by
  refine .gather (fun c => ?_) body
  split
  · exact .pure _
  · exact .pure _
  · exact field_tightens stop true c

theorem oneof_tightens (name : Token) (body : List Clause) :
    Tightens ((strictly stop).oneof name body) ((leniently stop).oneof name body) := by
  refine (oneofFields_tightens stop body).bind fun fields => ?_
  split
  · exact .faultAt _ _
  · exact .pure _

theorem enum_tightens (name : Token) (body : List Clause) : Tightens (enum name body) (enum name body) := by
  unfold enum
  dsimp only
  split
  · exact .faultAt _ _
  · exact .pure _

theorem methods_tightens (service : Token) (body : List Clause) :
    Tightens (methods service body) (methods service body) := by
  refine .gather (fun c => ?_) body
  split
  · split
    · exact .pure _
    · refine .refl fun n hn => ?_
      obtain rfl := List.mem_singleton.mp hn
      simp [Notice.skipsField]
  · exact .pure _

theorem statement_tightens (c : Clause) :
    Tightens ((strictly stop).statement c) ((leniently stop).statement c) := by
  unfold statement
  split
  iterate 5 exact .pure _
  exact (field_tightens stop false c).bind fun _ => .pure _

theorem member_tightens {c : Clause}
    (inside : Tightens ((strictly stop).members c.body) ((leniently stop).members c.body)) :
    Tightens ((strictly stop).member c) ((leniently stop).member c) := by
  cases c with
  | plain words mark =>
    simp only [member]
    exact statement_tightens stop _
  | bare words next =>
    simp only [member]
    exact statement_tightens stop _
  | block words opening body closing =>
    simp only [member]
    split
    · exact inside.bind fun _ => .pure _
    · exact (enum_tightens _ body).bind fun _ => .pure _
    · exact (oneof_tightens stop _ body).bind fun _ => .pure _
    · exact statement_tightens stop _

theorem members_tightens (cs : List Clause) :
    Tightens ((strictly stop).members cs) ((leniently stop).members cs) := by
  induction cs using Clause.forestInduction with
  | nil =>
    simp only [members]
    exact .pure _
  | cons c cs inside rest =>
    simp only [members]
    exact (member_tightens stop inside).bind fun _ => rest.bind fun _ => .pure _

theorem visit_tightens (kind : BlockKind) (name : Token) (body : List Clause) :
    Tightens ((strictly stop).visit kind name body) ((leniently stop).visit kind name body) := by
  cases kind with
  | message => exact (members_tightens stop body).bind fun _ => .pure _
  | oneof => exact (oneofFields_tightens stop body).bind fun _ => .pure _
  | enum => exact .pure _
  | service => exact (methods_tightens name body).bind fun _ => .pure _

theorem leftOpen_tightens (kind : BlockKind) (name : Token) (rest : Remainder) :
    Tightens (α := α) ((strictly stop).leftOpen kind name rest) ((leniently stop).leftOpen kind name rest) := by
  induction rest generalizing kind name with
  | nothing => exact .faultAt _ _
  | statement start more => exact .faultAt _ _
  | block words opening body rest ih =>
    unfold leftOpen
    split
    · exact (visit_tightens stop _ _ body).bind fun _ => ih _ _
    · exact .faultAt _ _

theorem blockFault_tightens (kind : BlockKind) (lead : List Token) :
    Tightens (α := α) ((strictly stop).blockFault kind lead) ((leniently stop).blockFault kind lead) := by
  unfold blockFault
  split
  · exact .faultAt _ _
  · split
    · split
      · exact .faultAt _ _
      · exact .faultAt _ _
    · exact .faultAt _ _

theorem expect_tightens (what : Expected) (test : String → Bool) (ts : List Token) :
    Tightens ((strictly stop).expect what test ts) ((leniently stop).expect what test ts) := by
  unfold expect
  split
  · exact .faultAt _ _
  · split
    · exact .pure _
    · exact .faultAt _ _

theorem expectText_tightens (text : String) (ts : List Token) :
    Tightens ((strictly stop).expectText text ts) ((leniently stop).expectText text ts) :=
  (expect_tightens stop _ _ ts).bind fun _ => .pure _

theorem version_tightens (schema : Schema) (lead : List Token) :
    Tightens ((strictly stop).version schema lead) ((leniently stop).version schema lead) :=
  (expectText_tightens stop _ _).bind fun _ => (expect_tightens stop _ _ _).bind fun _ =>
    (expectText_tightens stop _ _).bind fun _ => .pure _

theorem package_tightens (schema : Schema) (lead : List Token) :
    Tightens ((strictly stop).package schema lead) ((leniently stop).package schema lead) := by
  have named := (expect_tightens stop .package isTypeName (lead.drop 1)).bind fun found =>
    (expectText_tightens stop ";" found.2).bind fun _ =>
      Tightens.pure { schema with package := some (.ofList (found.1.text.toList.dropWhile (· == '.'))) }
  unfold package
  split
  · exact (Tightens.faultAt _ _).bind fun _ => named
  · exact named

theorem importPath_tightens (schema : Schema) (lead : List Token) :
    Tightens ((strictly stop).importPath schema lead) ((leniently stop).importPath schema lead) :=
  (expect_tightens stop _ _ _).bind fun _ => (expectText_tightens stop _ _).bind fun _ => .pure _

theorem fileStatement_tightens (schema : Schema) (first : Token) (lead : List Token) :
    Tightens ((strictly stop).fileStatement schema first lead)
      ((leniently stop).fileStatement schema first lead) := by
  unfold fileStatement
  split
  · exact version_tightens stop schema lead
  · exact version_tightens stop schema lead
  · exact package_tightens stop schema lead
  · exact importPath_tightens stop schema lead
  · exact blockFault_tightens stop _ lead
  · exact blockFault_tightens stop _ lead
  · exact blockFault_tightens stop _ lead
  · exact .faultAt _ _

theorem clause_tightens (schema : Schema) (c : Clause) :
    Tightens ((strictly stop).clause schema c) ((leniently stop).clause schema c) := by
  unfold clause
  split
  iterate 3 exact .pure _
  split
  · split
    · exact (members_tightens stop _).bind fun _ => .pure _
    · exact (enum_tightens _ _).bind fun _ => .pure _
    · exact ((methods_tightens _ _).bind fun _ => .pure _).bind fun _ => .pure _
    · exact fileStatement_tightens stop schema _ _
  · exact fileStatement_tightens stop schema _ _

theorem clauses_tightens (schema : Schema) (cs : List Clause) :
    Tightens ((strictly stop).clauses schema cs) ((leniently stop).clauses schema cs) := by
  induction cs generalizing schema with
  | nil => exact .pure _
  | cons c cs ih => exact (clause_tightens stop schema c).bind fun next => ih next

theorem ending_tightens (schema : Schema) (e : Ending) :
    Tightens ((strictly stop).ending schema e) ((leniently stop).ending schema e) := by
  unfold ending
  split
  · exact .faultAt _ _
  · exact .pure _
  · split
    · exact .faultAt _ _
    · exact .faultAt _ _
    · exact fileStatement_tightens stop schema _ _
  · dsimp only
    split
    · exact .faultAt _ _
    · exact .faultAt _ _
    · split
      · exact (visit_tightens stop _ _ _).bind fun _ => leftOpen_tightens stop _ _ _
      · exact fileStatement_tightens stop schema _ _

end Reading

theorem Schema.read_tightens (text : String) :
    Report.Tightens (Schema.read true text) (Schema.read false text) := by
  unfold Schema.read
  split
  · exact .faultAt _ _
  · rename_i ts _
    exact (Reading.clauses_tightens ts.stop {} _).bind fun schema => Reading.ending_tightens ts.stop schema _

def Warning.skipsField : Warning → Bool
  | .notice _ n => n.skipsField
  | .enumAlias .. => false

namespace SchemaFile

theorem parse_warnings (strict : Bool) (name text : String) :
    (parse strict name text).warnings = (Schema.read strict text).warnings.map (Warning.notice name) := rfl

theorem parse_result_ok {strict : Bool} {name text : String} {f : SchemaFile} :
    (parse strict name text).result = .ok f ↔
      (Schema.read strict text).result = .ok f.toSchema ∧ f.name = name := by
  refine ⟨parse_eq_ok, ?_⟩
  rintro ⟨read, rfl⟩
  simp only [parse, Report.relabel, read]
  rfl

theorem parse_result_error {strict : Bool} {name text : String} {e : SchemaError} :
    (parse strict name text).result = .error e ↔
      ∃ m, (Schema.read strict text).result = .error m ∧ e = .parse name m := by
  simp only [parse, Report.relabel]
  cases (Schema.read strict text).result with
  | error m => simp [Except.map, eq_comm]
  | ok schema => simp [Except.map]

/-- A strict reading gives a file exactly if a lenient one gives it and skips no field on the way, and it gives
none where the lenient one gives none. -/
theorem parse_strict_iff_skips_nothing (name text : String) :
    (∀ f, (parse true name text).result = .ok f ↔
      (parse false name text).result = .ok f ∧ ∀ w ∈ (parse false name text).warnings, ¬ w.skipsField) ∧
    ∀ e, (parse false name text).result = .error e → ∃ e', (parse true name text).result = .error e' := by
  have tight := Schema.read_tightens text
  constructor
  · intro f
    have kept : (∀ w ∈ (parse false name text).warnings, ¬ w.skipsField) ↔ (Schema.read false text).KeepsFields := by
      rw [parse_warnings, List.forall_mem_map]
      rfl
    rw [parse_result_ok, parse_result_ok, tight.result_iff, kept]
    tauto
  · intro e failed
    obtain ⟨m, failed, -⟩ := parse_result_error.mp failed
    cases strict : (Schema.read true text).result with
    | error m' => exact ⟨_, parse_result_error.mpr ⟨m', strict, rfl⟩⟩
    | ok schema =>
      have lenient := (tight.result_iff.mp strict).1
      rw [failed] at lenient
      cases lenient

/-- A oneof whose only member is skipped is empty, so that the lenient reading fails after its warning. -/
theorem parse_strict_iff_skips_nothing_emptied :
    (parse false "a.proto" "message A \x7b oneof pick \x7b int32 = 1; \x7d \x7d").result.toBool = false ∧
      ∃ e, (parse true "a.proto" "message A \x7b oneof pick \x7b int32 = 1; \x7d \x7d").result = .error e := by
  have failed :
      (parse false "a.proto" "message A \x7b oneof pick \x7b int32 = 1; \x7d \x7d").result.toBool = false := by
    decide +kernel
  refine ⟨failed, ?_⟩
  cases h : (parse false "a.proto" "message A \x7b oneof pick \x7b int32 = 1; \x7d \x7d").result with
  | error e => exact (parse_strict_iff_skips_nothing _ _).2 e h
  | ok f => simp [h, Except.toBool] at failed

end SchemaFile

end SchemaGen
