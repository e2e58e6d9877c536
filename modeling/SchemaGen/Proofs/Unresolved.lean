import SchemaGen.Proofs.References
/-!
# Type names without a meaning

Generating fails over a type name only where a field of a scheduled file has that name and it means nothing in the
message of the field. The failure tells which file, message and field these are. No such field is passed over.
-/
namespace SchemaGen
open Code Output

namespace Code.Site
variable {s : Site} {x : Field} {e : SchemaError}

/-- The failure `e` says that the type of the field `x` of the innermost message is a name without a meaning. -/
def Lacks (s : Site) (x : Field) (e : SchemaError) : Prop :=
  ∃ name, x.Names name ∧ s.registry.resolve? s.place name = none ∧ e = s.unresolved x name

theorem meaning_eq_error {type : FieldType} (plain : type.Plain) (h : s.meaning x type = .error e) :
    ∃ name, type = .named name ∧ s.registry.resolve? s.place name = none ∧ e = s.unresolved x name := by
  cases type with
  | scalar kind => cases h
  | named name =>
    rw [meaning] at h
    split at h
    · cases h
    · rename_i none
      cases h
      exact ⟨name, rfl, none, rfl⟩
  | map key value => exact plain.elim

theorem member_eq_error (formed : x.WellFormed) (h : s.member x = .error e) : s.Lacks x e := by
  unfold member at h
  dsimp only at h
  split at h
  · rename_i key value map
    have type := formed.type
    rw [map] at type
    rcases except_bind_error.mp h with failed | ⟨_, _, written⟩
    · obtain ⟨name, rfl, rest⟩ := meaning_eq_error type.2 failed
      exact ⟨name, .inr ⟨key, map⟩, rest⟩
    · cases written
  · rename_i notMap
    rcases except_bind_error.mp h with failed | ⟨_, _, written⟩
    · obtain ⟨name, named, rest⟩ := meaning_eq_error (formed.plain notMap) failed
      exact ⟨name, .inl named, rest⟩
    · split at written
      · cases written
      · cases written

theorem variant_eq_error (formed : x.Alternative) (h : s.variant x = .error e) : s.Lacks x e := by
  rcases except_bind_error.mp h with failed | ⟨_, _, written⟩
  · obtain ⟨name, named, rest⟩ := meaning_eq_error formed.plain failed
    exact ⟨name, .inl named, rest⟩
  · cases written

theorem record_eq_error {m : Message} (formed : m.WellFormed) (h : s.record m = .error e) :
    ∃ x ∈ m.fields, (s.inside m.name).Lacks x e := by
  unfold record at h
  split at h
  · cases h
  · rcases except_bind_error.mp h with failed | ⟨_, _, written⟩
    · obtain ⟨x, hx, failed⟩ := exists_of_mapM_error failed
      exact ⟨x, hx, member_eq_error (formed.fields x hx) failed⟩
    · cases written

theorem union_eq_error {o : Oneof} (formed : o.WellFormed) (h : s.union o = .error e) :
    ∃ x ∈ o.fields, s.Lacks x e := by
  rcases except_bind_error.mp h with failed | ⟨_, _, written⟩
  · obtain ⟨x, hx, failed⟩ := exists_of_mapM_error failed
    exact ⟨x, hx, variant_eq_error (formed.fields x hx) failed⟩
  · cases written

end Code.Site

namespace Output

def Collides (e : SchemaError) : Prop :=
  ∃ name path first second, e = .duplicateDeclaration name path first second

namespace Folder
variable {f : Folder} {path : String} {e : SchemaError}

theorem declare_eq_error {name origin : String} (h : f.declare path name origin = .error e) : Collides e := by
  unfold declare at h
  split at h
  · cases h
    exact ⟨_, _, _, _, rfl⟩
  · cases h

theorem addFile_eq_error {typeName : String} {file : OwnFile} (h : f.addFile path typeName file = .error e) :
    Collides e := by
  unfold addFile at h
  dsimp only at h
  split at h
  · cases h
    exact ⟨_, _, _, _, rfl⟩
  · cases h

theorem add_result_error {d : Declared} (h : (f.add path d).result = .error e) :
    Collides e ∨ d.declaration.result = .error e := by
  rcases Report.bind_result_error.mp h with taken | ⟨named, _, h⟩
  · exact .inl (declare_eq_error taken)
  · rcases Report.bind_result_error.mp h with failed | ⟨code, _, h⟩
    · exact .inr failed
    · obtain ⟨site, item⟩ := d
      cases item with
      | message m => cases h
      | oneof _ | enum _ =>
        dsimp only [Report.ofExcept_result] at h
        exact .inl (addFile_eq_error h)

theorem addAll_result_error {ds : List Declared} (h : (f.addAll path ds).result = .error e) :
    Collides e ∨ ∃ d ∈ ds, d.declaration.result = .error e := by
  induction ds generalizing f with
  | nil => cases h
  | cons d ds ih =>
    rcases Report.bind_result_error.mp h with here | ⟨mid, _, later⟩
    · rcases add_result_error here with collides | failed
      · exact .inl collides
      · exact .inr ⟨d, List.mem_cons_self, failed⟩
    · rcases ih later with collides | ⟨d', hd, failed⟩
      · exact .inl collides
      · exact .inr ⟨d', List.mem_cons_of_mem _ hd, failed⟩

theorem addBuiltIn_eq_error {t : WellKnown} (h : f.addBuiltIn path t = .error e) : Collides e := by
  unfold addBuiltIn at h
  split at h
  · cases declared : f.declare path t.simpleName t.fullName with
    | error first =>
      rw [declared] at h
      cases h
      exact declare_eq_error declared
    | ok named =>
      rw [declared] at h
      cases h
  · cases h

end Folder

theorem checkStems_eq_error {config : Config} {directory children stems : List String} {e : SchemaError}
    (h : checkStems config directory children stems = .error e) : Collides e := by
  induction stems with
  | nil => cases h
  | cons stem stems ih =>
    rw [checkStems] at h
    split at h
    · cases h
      exact ⟨_, _, _, _, rfl⟩
    · exact ih h

theorem assemble_eq_error {config : Config} {folders : Folders} {e : SchemaError}
    (h : assemble config folders = .error e) : Collides e := by
  rcases except_bind_error.mp h with failed | ⟨_, _, assembled⟩
  · obtain ⟨directory, _, failed⟩ := exists_of_mapM_error failed
    rcases except_bind_error.mp failed with failed | ⟨_, _, written⟩
    · exact checkStems_eq_error failed
    · cases written
  · cases assembled

namespace Schedule
variable {s : Schedule} {e : SchemaError}

/-- A field of a message at some depth of a scheduled file has a type name, or a map with one for its values, that
means nothing in that message. -/
structure Unresolved (s : Schedule) (f : SchemaFile) (n : Nested) (x : Field) (type : String) : Prop where
  scheduled : f ∈ s.files
  declared : n ∈ f.everyMessage
  field : x ∈ n.message.allFields
  names : x.Names type
  meaningless : s.registry.resolve? (f.placeAt n) type = none

def Blames (s : Schedule) (e : SchemaError) : Prop :=
  ∃ f n x type, s.Unresolved f n x type ∧
    e = .unresolvedType f.name (f.messageSymbol n).fullName x.name type

theorem blames_of_lacks {f : SchemaFile} (hf : f ∈ s.files) {n : Nested} (hn : n ∈ f.everyMessage) {x : Field}
    (hx : x ∈ n.message.allFields) (lacks : (within (s.siteOf f) n.inner).Lacks x e) : s.Blames e := by
  obtain ⟨name, names, meaningless, rfl⟩ := lacks
  exact ⟨f, n, x, name, ⟨hf, hn, hx, names, meaningless⟩, rfl⟩

theorem declaration_result_error (formed : ∀ f ∈ s.files, f.toSchema.WellFormed) {f : SchemaFile} (hf : f ∈ s.files)
    {d : Declared} (hd : d ∈ s.declared f) (h : d.declaration.result = .error e) : s.Blames e := by
  have hp : Piece.declared d ∈ s.piecesOfFile f := declared_eq f ▸ List.mem_map_of_mem hd
  revert h
  refine piecesOfFile_cases (P := fun p => ∀ d, p = .declared d → d.declaration.result = .error e → s.Blames e)
    ?_ ?_ ?_ ?_ hp d rfl
  · rintro n hn _ ⟨⟩ failed
    obtain ⟨x, hx, lacks⟩ := Site.record_eq_error ((formed f hf).messages n hn) failed
    exact blames_of_lacks hf hn (List.mem_append_left _ hx) lacks
  · rintro n hn o ho _ ⟨⟩ failed
    obtain ⟨x, hx, lacks⟩ := Site.union_eq_error (((formed f hf).messages n hn).oneofs o ho) failed
    exact blames_of_lacks hf hn (List.mem_append_right _ (List.mem_flatMap.mpr ⟨o, ho, hx⟩)) lacks
  · rintro n _ enum _ _ ⟨⟩ failed
    cases failed
  · rintro enum _ _ ⟨⟩ failed
    cases failed

theorem folders_result_error (formed : ∀ f ∈ s.files, f.toSchema.WellFormed) (h : s.folders.result = .error e) :
    Collides e ∨ s.Blames e := by
  rcases Report.bind_result_error.mp h with files | ⟨mid, _, known⟩
  · obtain ⟨f, hf, folders, failed⟩ := Report.foldlM_result_error files
    rcases Report.bind_result_error.mp failed with filling | ⟨_, _, filled⟩
    · rcases Folder.addAll_result_error filling with collides | ⟨d, hd, failed⟩
      · exact .inl collides
      · exact .inr (declaration_result_error formed hf hd failed)
    · cases filled
  · obtain ⟨t, _, folders, failed⟩ := Report.foldlM_result_error known
    rcases Report.bind_result_error.mp failed with filling | ⟨_, _, filled⟩
    · exact .inl (Folder.addBuiltIn_eq_error filling)
    · cases filled

/-- Generating fails over two declarations that collide, or over a type name without a meaning. -/
theorem generate_result_error (formed : ∀ f ∈ s.files, f.toSchema.WellFormed) (h : s.generate.result = .error e) :
    Collides e ∨ s.Blames e := by
  rcases Report.bind_result_error.mp h with filling | ⟨folders, _, assembling⟩
  · exact folders_result_error formed filling
  · exact .inl (assemble_eq_error assembling)

/-- Where everything is generated, every type name has a meaning. -/
theorem resolves_of_generate {out : Files} (generated : s.generate.result = .ok out) : s.Resolves := by
  intro f hf n hn x hx name names
  obtain ⟨_, _, emits⟩ := exists_emits_of_generate generated hf hn hx
  obtain ⟨resolved, found, _⟩ := emits.writes names
  exact Option.isSome_iff_exists.mpr ⟨resolved, found⟩

end Schedule

end Output

/-- A failure over a type name is true: the file is scheduled, it has the message at some depth, the message has the
field with that type name, and there the name means nothing. Where such a field exists, generating fails. -/
theorem unresolved_failure_true {s : Schedule} (parsed : ∀ f ∈ s.files, f.Parsed) :
    (∀ file message field type, s.generate.result = .error (.unresolvedType file message field type) →
      ∃ f n x, s.Unresolved f n x type ∧ f.name = file ∧ (f.messageSymbol n).fullName = message ∧ x.name = field) ∧
    ∀ f n x type, s.Unresolved f n x type → ∃ e, s.generate.result = .error e ∧ (Collides e ∨ s.Blames e) := by
  have formed : ∀ f ∈ s.files, f.toSchema.WellFormed := fun f hf => (parsed f hf).wellFormed
  constructor
  · intro file message field type failed
    rcases Schedule.generate_result_error formed failed with ⟨_, _, _, _, other⟩ | ⟨f, n, x, _, unresolved, same⟩
    · cases other
    · cases same
      exact ⟨f, n, x, unresolved, rfl, rfl, rfl⟩
  · intro f n x type unresolved
    cases result : s.generate.result with
    | error e => exact ⟨e, rfl, Schedule.generate_result_error formed result⟩
    | ok out =>
      have found := Schedule.resolves_of_generate result f unresolved.scheduled n unresolved.declared x
        unresolved.field type unresolved.names
      rw [unresolved.meaningless] at found
      cases found

def blamed? {α : Type} : Except SchemaError α → Option (String × String × String × String)
  | .error (.unresolvedType file message field type) => some (file, message, field, type)
  | _ => none

theorem blamed?_eq_some {α : Type} {r : Except SchemaError α} {file message field type : String}
    (h : blamed? r = some (file, message, field, type)) : r = .error (.unresolvedType file message field type) := by
  unfold blamed? at h
  split at h
  · cases h
    rfl
  · cases h

/-- A message inside another, with a oneof that has a member of an unknown type. -/
def order : SchemaFile :=
  .ofText "order"
    "package shop;message Order\x7bmessage Line\x7boneof k\x7bint32 n=1;.shop.Lost l=2;\x7d\x7drepeated Line a=1;\x7d"

def orderSchedule : Schedule :=
  ⟨.attemptAll {} [order], {}, [order]⟩

theorem unresolved_failure_true_order :
    order.Parsed ∧
    orderSchedule.generate.result = .error (.unresolvedType "order" "shop.Order.Line" "l" ".shop.Lost") ∧
    ∃ f n x, orderSchedule.Unresolved f n x ".shop.Lost" ∧ f.name = "order" ∧
      (f.messageSymbol n).fullName = "shop.Order.Line" ∧ x.name = "l" := by
  have parsed : order.Parsed := SchemaFile.parsed_ofText (by decide +kernel)
  have failed : orderSchedule.generate.result = .error (.unresolvedType "order" "shop.Order.Line" "l" ".shop.Lost") :=
    blamed?_eq_some (by decide +kernel)
  have all : ∀ f ∈ orderSchedule.files, f.Parsed := List.forall_mem_singleton.mpr parsed
  exact ⟨parsed, failed, (unresolved_failure_true all).1 _ _ _ _ failed⟩

end SchemaGen
