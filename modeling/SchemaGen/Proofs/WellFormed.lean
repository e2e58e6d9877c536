import SchemaGen.Proofs.Nesting
import SchemaGen.Proofs.Outcome
import SchemaGen.Schema.Read
/-!
# Schemas that reading gives

Whatever text is read, the schema that comes out of it is well formed: names are identifiers, field numbers fit
the wire format, a oneof holds plain single fields, and a map never holds another map.
-/
namespace SchemaGen
open Text Lexeme

/-- A scalar, or a type name that is no keyword of one. -/
def FieldType.Plain : FieldType → Prop
  | .scalar _ => True
  | .named name => isTypeName name ∧ Scalar.ofKeyword? name = none
  | .map _ _ => False

def FieldType.WellFormed : FieldType → Prop
  | .map key value => key.validKey ∧ value.Plain
  | type => type.Plain

structure Field.WellFormed (f : Field) : Prop where
  name : isIdentifier f.name
  number : 1 ≤ f.number ∧ f.number ≤ maxFieldNumber
  type : f.type.WellFormed
  map_singular : f.type.isMap → f.label = .singular

/-- A field as a oneof may hold it. -/
structure Field.Alternative (f : Field) : Prop where
  wellFormed : f.WellFormed
  singular : f.label = .singular
  plain : f.type.Plain

structure Oneof.WellFormed (o : Oneof) : Prop where
  name : isIdentifier o.name
  nonempty : o.fields ≠ []
  fields : ∀ f ∈ o.fields, f.Alternative

structure EnumDef.WellFormed (e : EnumDef) : Prop where
  name : isIdentifier e.name
  nonempty : e.values ≠ []
  values : ∀ v ∈ e.values, isIdentifier v.name

/-- What a message holds is well formed, the messages inside it apart. -/
structure Message.WellFormed (m : Message) : Prop where
  name : isIdentifier m.name
  fields : ∀ f ∈ m.fields, f.WellFormed
  oneofs : ∀ o ∈ m.oneofs, o.WellFormed
  enums : ∀ e ∈ m.enums, e.WellFormed

structure Service.WellFormed (s : Service) : Prop where
  name : isIdentifier s.name
  methods : ∀ m ∈ s.methods, isIdentifier m.name

structure Schema.WellFormed (s : Schema) : Prop where
  package : ∀ p ∈ s.package, dottedChars p.toList
  messages : ∀ n ∈ Message.nestedAll [] s.messages, n.message.WellFormed
  enums : ∀ e ∈ s.enums, e.WellFormed
  services : ∀ v ∈ s.services, v.WellFormed

section statements

theorem FieldType.plain_ofWord {word : String} (h : isTypeName word) : (FieldType.ofWord word).Plain := by
  unfold ofWord
  split
  · trivial
  · rename_i none
    exact ⟨h, none⟩

theorem FieldType.WellFormed.of_plain {type : FieldType} (h : type.Plain) : type.WellFormed := by
  cases type with
  | scalar kind => trivial
  | named name => exact h
  | map key value => exact h.elim

theorem FieldType.plain_of_not_isMap {type : FieldType} (h : type.WellFormed) (single : ¬ type.isMap) :
    type.Plain := by
  cases type with
  | scalar kind => trivial
  | named name => exact h
  | map key value => exact (single rfl).elim

theorem mapType_eq_ok {ts rest : List Token} {type : FieldType} (h : mapType ts = .ok (type, rest)) :
    type.WellFormed := by
  unfold mapType at h
  split at h
  · split at h
    · split at h
      · cases h
      · rename_i kind valid
        split at h
        · cases h
        · rename_i named
          cases h
          simp only [Bool.or_eq_true, Bool.not_eq_true', not_or, Bool.not_eq_false] at named
          exact ⟨(Option.filter_eq_some_iff.mp valid).2, FieldType.plain_ofWord named.2⟩
    · cases h
  · cases h

theorem fieldType_eq_ok {ts rest : List Token} {type : FieldType} (h : fieldType ts = .ok (type, rest)) :
    type.WellFormed := by
  unfold fieldType at h
  split at h
  · split at h
    · exact mapType_eq_ok h
    · split at h
      · rename_i named
        cases h
        exact .of_plain (FieldType.plain_ofWord named)
      · cases h
  · cases h

theorem nameAndNumber_eq_ok {ts : List Token} {name : Token} {number : Int}
    (h : nameAndNumber ts = .ok (name, number)) :
    isIdentifier name.text ∧ 1 ≤ number ∧ number ≤ maxFieldNumber := by
  unfold nameAndNumber at h
  split at h
  · split at h
    · cases h
    · split at h
      · cases h
      · rename_i identifier
        split at h
        · cases h
        · split at h
          · rename_i range
            cases h
            simp only [Bool.and_eq_true, decide_eq_true_eq] at range
            simp only [Bool.not_eq_true', Bool.not_eq_false] at identifier
            exact ⟨identifier, range⟩
          · cases h
  · cases h

theorem throw_eq_error {ε α : Type} (e : ε) : (throw e : Except ε α) = .error e := rfl

theorem Field.ofTokens_eq_ok {inOneof : Bool} {statement : List Token} {f : Field}
    (h : ofTokens inOneof statement = .ok f) : f.WellFormed ∧ (inOneof → f.Alternative) := by
  unfold ofTokens at h
  simp only [throw_eq_error] at h
  generalize splitLabel (bodyOf statement) = labelled at h
  obtain ⟨label, unlabelled⟩ := labelled
  split at h
  · cases h
  split at h
  · cases h
  rename_i noLabel
  obtain ⟨⟨type, rest⟩, typed, h⟩ := except_bind_ok.mp h
  simp only at h noLabel
  split at h
  · cases h
  rename_i notRepeated
  split at h
  · cases h
  rename_i notAMap
  obtain ⟨⟨name, number⟩, named, h⟩ := except_bind_ok.mp h
  cases h
  obtain ⟨identifier, range⟩ := nameAndNumber_eq_ok named
  have formed := fieldType_eq_ok typed
  have wellFormed : Field.WellFormed ⟨name.text, name.position, type, number, label.getD .singular,
      marksDeprecated (optionsOf statement)⟩ := by
    refine ⟨identifier, range, formed, ?_⟩
    intro map
    have map : type.isMap := map
    rcases label with _ | _ | _
    · rfl
    · rfl
    · simp [map] at notRepeated
  refine ⟨wellFormed, ?_⟩
  rintro rfl
  refine ⟨wellFormed, ?_, ?_⟩
  · cases label with
    | none => rfl
    | some label => simp at noLabel
  · exact FieldType.plain_of_not_isMap formed (by simpa using notAMap)

theorem EnumValue.ofTokens?_eq_some {statement : List Token} {v : EnumValue}
    (h : ofTokens? statement = some v) : isIdentifier v.name := by
  unfold ofTokens? at h
  split at h
  · split at h
    · rename_i named
      obtain ⟨number, _, rfl⟩ := Option.map_eq_some_iff.mp h
      exact (Bool.and_eq_true _ _ ▸ named).1
    · cases h
  · cases h

theorem Method.ofTokens?_eq_some {statement : List Token} {m : Method}
    (h : ofTokens? statement = some m) : isIdentifier m.name := by
  unfold ofTokens? at h
  split at h
  · split at h
    · rename_i identifier
      split at h
      · obtain ⟨_, _, rfl⟩ := Option.map_eq_some_iff.mp h
        exact identifier
      · cases h
    · cases h
  · cases h

end statements

namespace Clause

def body : Clause → List Clause
  | block _ _ body _ => body
  | _ => []

@[elab_as_elim] theorem forestInduction {P : List Clause → Prop} (nil : P [])
    (cons : ∀ c cs, P c.body → P cs → P (c :: cs)) (cs : List Clause) : P cs := by
  cases cs with
  | nil => exact nil
  | cons c cs => exact cons c cs (forestInduction nil cons c.body) (forestInduction nil cons cs)
termination_by cs
decreasing_by
  · cases c <;> simp only [body, List.cons.sizeOf_spec, List.nil.sizeOf_spec, block.sizeOf_spec,
      plain.sizeOf_spec, bare.sizeOf_spec] <;> omega
  · simp only [List.cons.sizeOf_spec]
    omega

end Clause

theorem blockHead?_eq_some {kinds : List BlockKind} {words : List Token} {kind : BlockKind} {name : Token}
    (h : blockHead? kinds words = some (kind, name)) : isIdentifier name.text := by
  unfold blockHead? at h
  split at h
  · split at h
    · rename_i identifier
      obtain ⟨_, _, same⟩ := Option.map_eq_some_iff.mp h
      cases same
      exact identifier
    · cases h
  · cases h

def Member.WellFormed : Member → Prop
  | .field f => f.WellFormed
  | .oneof o => o.WellFormed
  | .message m => ∀ scope, ∀ n ∈ m.nested scope, n.message.WellFormed
  | .enum e => e.WellFormed

theorem Message.ofMembers_wellFormed {name : Token} {members : List Member} (identifier : isIdentifier name.text)
    (h : ∀ x ∈ members, x.WellFormed) : (Member.message (.ofMembers name members)).WellFormed := by
  intro scope n hn
  rcases mem_nested.mp hn with rfl | ⟨k, hk, hn⟩
  · refine ⟨identifier, ?_, ?_, ?_⟩
    · intro f hf
      obtain ⟨x, hx, same⟩ := List.mem_filterMap.mp hf
      cases x <;> cases same
      exact h _ hx
    · intro o ho
      obtain ⟨x, hx, same⟩ := List.mem_filterMap.mp ho
      cases x <;> cases same
      exact h _ hx
    · intro e he
      obtain ⟨x, hx, same⟩ := List.mem_filterMap.mp he
      cases x <;> cases same
      exact h _ hx
  · obtain ⟨x, hx, same⟩ := List.mem_filterMap.mp hk
    cases x <;> cases same
    exact h _ hx _ n hn

namespace Reading
open Report

theorem field_wellFormed {r : Reading} {inOneof : Bool} {c : Clause} {fs : List Field}
    (h : (r.field inOneof c).result = .ok fs) {f : Field} (hf : f ∈ fs) :
    f.WellFormed ∧ (inOneof → f.Alternative) := by
  unfold field at h
  split at h
  · rename_i f' read
    cases h
    obtain rfl := List.mem_singleton.mp hf
    exact Field.ofTokens_eq_ok read
  · dsimp only at h
    split at h
    · cases h
    · cases h
      simp at hf

theorem oneof_wellFormed {r : Reading} {name : Token} {body : List Clause} {o : Oneof}
    (identifier : isIdentifier name.text) (h : (r.oneof name body).result = .ok o) : o.WellFormed := by
  obtain ⟨fields, gathered, h⟩ := bind_result_ok.mp h
  split at h
  · cases h
  · rename_i nonempty
    cases h
    refine ⟨identifier, by simpa using nonempty, ?_⟩
    intro f hf
    obtain ⟨c, _, found, read, hf⟩ := gather_result_mem gathered hf
    split at read
    · cases read
      simp at hf
    · cases read
      simp at hf
    · exact (field_wellFormed read hf).2 rfl

theorem enum_wellFormed {name : Token} {body : List Clause} {e : EnumDef}
    (identifier : isIdentifier name.text) (h : (enum name body).result = .ok e) : e.WellFormed := by
  unfold enum at h
  dsimp only at h
  split at h
  · cases h
  · rename_i nonempty
    cases h
    refine ⟨identifier, by simpa using nonempty, ?_⟩
    intro v hv
    obtain ⟨c, _, hv⟩ := List.mem_flatMap.mp hv
    split at hv
    · simp at hv
    · simp at hv
    · simp at hv
    · exact EnumValue.ofTokens?_eq_some (Option.mem_toList.mp hv)

theorem service_wellFormed {name : Token} {body : List Clause} {v : Service}
    (identifier : isIdentifier name.text) (h : (service name body).result = .ok v) : v.WellFormed := by
  obtain ⟨methods, gathered, h⟩ := bind_result_ok.mp h
  cases h
  refine ⟨identifier, ?_⟩
  intro m hm
  obtain ⟨c, _, found, read, hm⟩ := gather_result_mem gathered hm
  split at read
  · split at read
    · rename_i m' parsed
      cases read
      obtain rfl := List.mem_singleton.mp hm
      exact Method.ofTokens?_eq_some parsed
    · cases read
      simp at hm
  · cases read
    simp at hm

theorem statement_eq (r : Reading) (c : Clause) :
    r.statement c = pure [] ∨ r.statement c = (do return (← r.field false c).map .field) := by
  unfold statement
  split <;> simp

theorem statement_wellFormed {r : Reading} {c : Clause} {ms : List Member}
    (h : (r.statement c).result = .ok ms) {x : Member} (hx : x ∈ ms) : x.WellFormed := by
  rcases r.statement_eq c with skipped | read
  · rw [skipped] at h
    cases h
    simp at hx
  · rw [read] at h
    obtain ⟨fs, read, h⟩ := bind_result_ok.mp h
    cases h
    obtain ⟨f, hf, rfl⟩ := List.mem_map.mp hx
    exact (field_wellFormed read hf).1

/-- The clause itself is what gives a part; the block of a message is read by `inside`. -/
theorem member_wellFormed {r : Reading} {c : Clause} {ms : List Member}
    (inside : ∀ {ms}, (r.members c.body).result = .ok ms → ∀ x ∈ ms, x.WellFormed)
    (h : (r.member c).result = .ok ms) {x : Member} (hx : x ∈ ms) : x.WellFormed := by
  cases c with
  | plain words mark =>
    have h : (r.statement (.plain words mark)).result = .ok ms := by simpa [member] using h
    exact statement_wellFormed h hx
  | bare words next =>
    have h : (r.statement (.bare words next)).result = .ok ms := by simpa [member] using h
    exact statement_wellFormed h hx
  | block words opening body closing =>
    rw [member] at h
    split at h
    · rename_i name head
      obtain ⟨parts, read, h⟩ := bind_result_ok.mp h
      cases h
      obtain rfl := List.mem_singleton.mp hx
      exact Message.ofMembers_wellFormed (blockHead?_eq_some head) (inside read)
    · rename_i name head
      obtain ⟨e, read, h⟩ := bind_result_ok.mp h
      cases h
      obtain rfl := List.mem_singleton.mp hx
      exact enum_wellFormed (blockHead?_eq_some head) read
    · rename_i name head
      obtain ⟨o, read, h⟩ := bind_result_ok.mp h
      cases h
      obtain rfl := List.mem_singleton.mp hx
      exact oneof_wellFormed (blockHead?_eq_some head) read
    · exact statement_wellFormed h hx

theorem members_wellFormed {r : Reading} {cs : List Clause} {ms : List Member}
    (h : (r.members cs).result = .ok ms) : ∀ x ∈ ms, x.WellFormed := by
  induction cs using Clause.forestInduction generalizing ms with
  | nil =>
    rw [members] at h
    cases h
    simp
  | cons c cs inside rest =>
    rw [members] at h
    obtain ⟨head, first, h⟩ := bind_result_ok.mp h
    obtain ⟨tail, others, h⟩ := bind_result_ok.mp h
    cases h
    intro x hx
    rcases List.mem_append.mp hx with hx | hx
    · exact member_wellFormed inside first hx
    · exact rest others x hx

theorem dropDots_of_dottedChars {cs : List Char} (h : dottedChars cs) : cs.dropWhile (· == '.') = cs := by
  cases cs with
  | nil => rfl
  | cons c cs =>
    by_cases dot : c = '.'
    · subst dot
      simp [dottedChars, piecesOf, identifierChars] at h
    · simp [dot]

theorem dropDots_of_isTypeName {word : String} (h : isTypeName word) :
    dottedChars (word.toList.dropWhile (· == '.')) := by
  unfold isTypeName at h
  split at h
  · rename_i cs start
    rw [start, List.dropWhile_cons_of_pos (by simp), dropDots_of_dottedChars h]
    exact h
  · rw [dropDots_of_dottedChars h]
    exact h

theorem expect_ok {r : Reading} {what : Expected} {test : String → Bool} {ts rest : List Token} {t : Token}
    (h : (r.expect what test ts).result = .ok (t, rest)) : test t.text := by
  unfold expect at h
  split at h
  · cases h
  · split at h
    · rename_i passed
      cases h
      exact passed
    · cases h

theorem package_wellFormed {r : Reading} {schema schema' : Schema} {lead : List Token} (formed : schema.WellFormed)
    (h : (r.package schema lead).result = .ok schema') : schema'.WellFormed := by
  unfold package at h
  split at h
  · obtain ⟨_, failed, _⟩ := bind_result_ok.mp h
    cases failed
  · obtain ⟨⟨name, ts⟩, named, h⟩ := bind_result_ok.mp h
    obtain ⟨_, _, h⟩ := bind_result_ok.mp h
    cases h
    refine ⟨?_, formed.messages, formed.enums, formed.services⟩
    rintro p ⟨⟩
    rw [String.toList_ofList]
    exact dropDots_of_isTypeName (expect_ok named)

theorem version_wellFormed {r : Reading} {schema schema' : Schema} {lead : List Token} (formed : schema.WellFormed)
    (h : (r.version schema lead).result = .ok schema') : schema'.WellFormed := by
  obtain ⟨_, _, h⟩ := bind_result_ok.mp h
  obtain ⟨⟨_, _⟩, _, h⟩ := bind_result_ok.mp h
  obtain ⟨_, _, h⟩ := bind_result_ok.mp h
  cases h
  exact ⟨formed.package, formed.messages, formed.enums, formed.services⟩

theorem importPath_wellFormed {r : Reading} {schema schema' : Schema} {lead : List Token}
    (formed : schema.WellFormed) (h : (r.importPath schema lead).result = .ok schema') : schema'.WellFormed := by
  obtain ⟨⟨_, _⟩, _, h⟩ := bind_result_ok.mp h
  obtain ⟨_, _, h⟩ := bind_result_ok.mp h
  cases h
  exact ⟨formed.package, formed.messages, formed.enums, formed.services⟩

theorem blockFault_ne_ok {α : Type} {r : Reading} {kind : BlockKind} {lead : List Token} {a : α} :
    (r.blockFault kind lead : Parsed α).result ≠ .ok a := by
  unfold blockFault
  split
  · simp [faultAt]
  · split
    · split <;> simp [faultAt]
    · simp [faultAt]

theorem fileStatement_wellFormed {r : Reading} {schema schema' : Schema} {first : Token} {lead : List Token}
    (formed : schema.WellFormed) (h : (r.fileStatement schema first lead).result = .ok schema') :
    schema'.WellFormed := by
  unfold fileStatement at h
  split at h
  · exact version_wellFormed formed h
  · exact version_wellFormed formed h
  · exact package_wellFormed formed h
  · exact importPath_wellFormed formed h
  · exact (blockFault_ne_ok h).elim
  · exact (blockFault_ne_ok h).elim
  · exact (blockFault_ne_ok h).elim
  · cases h

theorem messages_snoc_wellFormed {schema : Schema} {m : Message} (formed : schema.WellFormed)
    (h : (Member.message m).WellFormed) :
    Schema.WellFormed { schema with messages := schema.messages ++ [m] } := by
  refine ⟨formed.package, ?_, formed.enums, formed.services⟩
  intro n hn
  obtain ⟨m', hm, inside⟩ := Message.mem_nestedAll.mp hn
  rcases List.mem_append.mp hm with hm | hm
  · exact formed.messages n (Message.mem_nestedAll.mpr ⟨m', hm, inside⟩)
  · obtain rfl := List.mem_singleton.mp hm
    exact h _ n inside

theorem clause_wellFormed {r : Reading} {schema schema' : Schema} {c : Clause} (formed : schema.WellFormed)
    (h : (r.clause schema c).result = .ok schema') : schema'.WellFormed := by
  have snoc : ∀ {α : Type} {P : α → Prop} {as : List α} {a : α}, (∀ x ∈ as, P x) → P a → ∀ x ∈ as ++ [a], P x := by
    intro α P as a old new x hx
    rcases List.mem_append.mp hx with hx | hx
    · exact old x hx
    · obtain rfl := List.mem_singleton.mp hx
      exact new
  unfold clause at h
  split at h
  · cases h
    exact formed
  · cases h
    exact formed
  · cases h
    exact formed
  · split at h
    · split at h
      · rename_i name head
        obtain ⟨parts, read, h⟩ := bind_result_ok.mp h
        cases h
        have identifier := blockHead?_eq_some head
        exact messages_snoc_wellFormed formed (Message.ofMembers_wellFormed identifier (members_wellFormed read))
      · rename_i name head
        obtain ⟨e, read, h⟩ := bind_result_ok.mp h
        cases h
        have new := enum_wellFormed (blockHead?_eq_some head) read
        exact ⟨formed.package, formed.messages, snoc formed.enums new, formed.services⟩
      · rename_i name head
        obtain ⟨v, read, h⟩ := bind_result_ok.mp h
        cases h
        have new := service_wellFormed (blockHead?_eq_some head) read
        exact ⟨formed.package, formed.messages, formed.enums, snoc formed.services new⟩
      · exact fileStatement_wellFormed formed h
    · exact fileStatement_wellFormed formed h

theorem clauses_wellFormed {r : Reading} {schema schema' : Schema} {cs : List Clause} (formed : schema.WellFormed)
    (h : (r.clauses schema cs).result = .ok schema') : schema'.WellFormed := by
  induction cs generalizing schema with
  | nil =>
    cases h
    exact formed
  | cons c cs ih =>
    obtain ⟨next, first, h⟩ := bind_result_ok.mp h
    exact ih (clause_wellFormed formed first) h

theorem leftOpen_ne_ok {α : Type} {r : Reading} {kind : BlockKind} {name : Token} {rest : Remainder} {a : α} :
    (r.leftOpen kind name rest : Parsed α).result ≠ .ok a := by
  induction rest generalizing kind name with
  | nothing => simp [leftOpen, faultAt]
  | statement start more => simp [leftOpen, openStatement, faultAt]
  | block words opening body rest ih =>
    intro h
    unfold leftOpen at h
    split at h
    · obtain ⟨_, _, h⟩ := bind_result_ok.mp h
      exact ih h
    · cases h

theorem ending_wellFormed {r : Reading} {schema schema' : Schema} {e : Ending} (formed : schema.WellFormed)
    (h : (r.ending schema e).result = .ok schema') : schema'.WellFormed := by
  unfold ending at h
  split at h
  · cases h
  · cases h
    exact formed
  · split at h
    · cases h
    · cases h
    · exact fileStatement_wellFormed formed h
  · dsimp only at h
    split at h
    · cases h
    · cases h
    · split at h
      · obtain ⟨_, _, h⟩ := bind_result_ok.mp h
        exact (leftOpen_ne_ok h).elim
      · exact fileStatement_wellFormed formed h

end Reading

theorem Schema.read_wellFormed {strict : Bool} {text : String} {schema : Schema}
    (h : (Schema.read strict text).result = .ok schema) : schema.WellFormed := by
  unfold Schema.read at h
  split at h
  · cases h
  · obtain ⟨read, clauses, h⟩ := Report.bind_result_ok.mp h
    have start : Schema.WellFormed {} := by
      refine ⟨?_, ?_, ?_, ?_⟩ <;> simp [Message.nestedAll]
    exact Reading.ending_wellFormed (Reading.clauses_wellFormed start clauses) h

/-- The file is what some text reads as. -/
def SchemaFile.Parsed (f : SchemaFile) : Prop :=
  ∃ strict text, (SchemaFile.parse strict f.name text).result = .ok f

theorem SchemaFile.parsed_of_parse {strict : Bool} {name text : String} {f : SchemaFile}
    (h : (SchemaFile.parse strict name text).result = .ok f) : f.Parsed := by
  refine ⟨strict, text, ?_⟩
  rw [(SchemaFile.parse_eq_ok h).2]
  exact h

theorem SchemaFile.Parsed.wellFormed {f : SchemaFile} (h : f.Parsed) : f.toSchema.WellFormed := by
  obtain ⟨strict, text, read⟩ := h
  exact Schema.read_wellFormed (SchemaFile.parse_eq_ok read).1

/-- The file that a text reads as, or one with nothing in it. -/
def SchemaFile.ofText (name text : String) : SchemaFile :=
  (SchemaFile.parse true name text).result.toOption.getD { name }

theorem SchemaFile.parse_ofText {name text : String} (h : (SchemaFile.parse true name text).result.toBool) :
    (SchemaFile.parse true name text).result = .ok (ofText name text) := by
  unfold ofText
  cases read : (SchemaFile.parse true name text).result with
  | error e => simp [read, Except.toBool] at h
  | ok f => rfl

theorem SchemaFile.parsed_ofText {name text : String} (h : (SchemaFile.parse true name text).result.toBool) :
    (ofText name text).Parsed :=
  parsed_of_parse (parse_ofText h)

end SchemaGen
