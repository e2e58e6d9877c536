import SchemaGen.Proofs.Strictness
import SchemaGen.Proofs.Written
/-!
# Reading a written schema back

The words that a file is written with are read as the same file, strictly or not, without a warning and however they
are laid out. Each clause is read as what it was written from; names that are keywords elsewhere do no harm.
-/
namespace SchemaGen
open Text Lexeme

section fields

theorem withoutMark_line (words : List String) : withoutMark (Clause.line words).tokens = words.map .ofWord := by
  simp [Clause.line, Clause.tokens, withoutMark, Token.ofWord]

theorem split_line {words options : List String} (plain : "[" ∉ words) (bracket : ∀ word ∈ options.head?, word = "[") :
    bodyOf (Clause.line (words ++ options)).tokens = words.map .ofWord ∧
      optionsOf (Clause.line (words ++ options)).tokens = options.map .ofWord := by
  have before : ∀ t ∈ words.map Token.ofWord, (t.text != "[") = true := by
    intro t ht
    obtain ⟨word, hword, rfl⟩ := List.mem_map.mp ht
    simpa [Token.ofWord] using fun same : word = "[" => plain (same ▸ hword)
  rw [bodyOf, optionsOf, withoutMark_line, List.map_append, List.takeWhile_append_of_pos before,
    List.dropWhile_append_of_pos before]
  cases options with
  | nil => simp
  | cons word options =>
    obtain rfl := bracket word rfl
    simp [Token.ofWord]

theorem FieldType.Plain.written_eq {type : FieldType} (h : type.Plain) :
    ∃ word, type.written = [word] ∧ isTypeName word ∧ FieldType.ofWord word = type := by
  cases type with
  | scalar kind => exact ⟨kind.keyword, rfl, kind.isTypeName_keyword, by cases kind <;> rfl⟩
  | named name => exact ⟨name, rfl, h.1, by simp [FieldType.ofWord, h.2]⟩
  | map key value => exact h.elim

theorem fieldType_plain {type : FieldType} (h : type.Plain) {rest : List String} (next : rest.head? ≠ some "<") :
    fieldType ((type.written ++ rest).map .ofWord) = .ok (type, rest.map .ofWord) := by
  obtain ⟨word, written, typeName, same⟩ := h.written_eq
  have noMap : (rest.map Token.ofWord).head?.any (·.text == "<") = false := by
    cases rest with
    | nil => rfl
    | cons first rest => simpa [Token.ofWord] using next
  rw [written, List.singleton_append, List.map_cons, fieldType, noMap]
  simp [Token.ofWord, typeName, same]

theorem fieldType_map_written {key : Scalar} {value : FieldType} (valid : key.validKey) (plain : value.Plain)
    (other : value ≠ .named "map") (rest : List String) :
    fieldType (((FieldType.map key value).written ++ rest).map .ofWord) = .ok (.map key value, rest.map .ofWord) := by
  obtain ⟨word, written, typeName, same⟩ := plain.written_eq
  have notMap : word ≠ "map" := by
    rintro rfl
    exact other (same.symm.trans rfl)
  have keyword : (Scalar.ofKeyword? key.keyword).filter (·.validKey) = some key := by
    cases key <;> first | rfl | cases valid
  simp [FieldType.written, written, fieldType, mapType, Token.ofWord, keyword, notMap, typeName, same]

theorem fieldType_written {type : FieldType} (h : type.WellFormed) (other : ∀ key, type ≠ .map key (.named "map"))
    {rest : List String} (next : rest.head? ≠ some "<") :
    fieldType ((type.written ++ rest).map .ofWord) = .ok (type, rest.map .ofWord) := by
  cases type with
  | scalar kind => exact fieldType_plain (FieldType.plain_of_not_isMap h (by simp [FieldType.isMap])) next
  | named name => exact fieldType_plain (FieldType.plain_of_not_isMap h (by simp [FieldType.isMap])) next
  | map key value => exact fieldType_map_written h.1 h.2 (fun same => other key (by rw [same])) rest

/-- A name that follows the type is no bracket of a map. -/
theorem fieldType_before_name {type : FieldType} (h : type.WellFormed) (other : ∀ key, type ≠ .map key (.named "map"))
    {name : String} (identifier : isIdentifier name) (rest : List String) :
    fieldType ((type.written ++ name :: rest).map .ofWord) = .ok (type, (name :: rest).map .ofWord) := by
  refine fieldType_written h other ?_
  intro same
  have bracket : name = "<" := by simpa using same
  rw [bracket] at identifier
  exact absurd identifier (by decide)

theorem nameAndNumber_written {x : Field} (h : x.WellFormed) :
    nameAndNumber ([x.name, "=", x.number.repr].map .ofWord) = .ok (.ofWord x.name, x.number) := by
  obtain ⟨low, high⟩ := h.number
  have value : integer? x.number.repr = some x.number := by
    refine integer?_repr ?_
    unfold maxFieldNumber at high
    omega
  simp [nameAndNumber, Token.ofWord, h.name, value, low, high]

theorem bracket_ne_of_isTypeName {word : String} (h : isTypeName word) : "[" ≠ word := by
  rintro rfl
  exact absurd h (by decide)

theorem bracket_ne_repr (n : Int) : "[" ≠ n.repr := by
  intro same
  exact notMem_repr n (c := '[') (by decide) (by decide) (by simp [← same])

theorem FieldType.Plain.notMem_written {type : FieldType} (h : type.Plain) : "[" ∉ type.written := by
  obtain ⟨word, written, typeName, _⟩ := h.written_eq
  simpa [written] using bracket_ne_of_isTypeName typeName

theorem FieldType.WellFormed.notMem_written {type : FieldType} (h : type.WellFormed) : "[" ∉ type.written := by
  cases type with
  | scalar kind => exact FieldType.Plain.notMem_written trivial
  | named word => exact FieldType.Plain.notMem_written h
  | map key value =>
    have key := bracket_ne_of_isTypeName key.isTypeName_keyword
    simp [FieldType.written, key, FieldType.Plain.notMem_written h.2]

theorem Field.WellFormed.notMem_front {x : Field} (h : x.WellFormed) : "[" ∉ x.front := by
  have name := bracket_ne_of_isTypeName (isTypeName_of_isIdentifier h.name)
  have type := FieldType.WellFormed.notMem_written h.type
  simp [Field.front, type, name, bracket_ne_repr]

theorem Field.marksDeprecated_options (x : Field) : marksDeprecated (x.options.map .ofWord) = x.deprecated := by
  unfold Field.options
  split
  · rename_i deprecated
    rw [deprecated]
    rfl
  · rename_i kept
    simp [marksDeprecated, kept]

theorem Field.bracket_options (x : Field) : ∀ word ∈ x.options.head?, word = "[" := by
  unfold Field.options
  split <;> simp

theorem Field.WellFormed.afterLabel {x : Field} (h : x.WellFormed) {inOneof : Bool} {label : Option Label}
    (same : label.getD .singular = x.label) (single : inOneof → x.type.isMap = false) :
    fieldAfterLabel inOneof label x.deprecated (x.type, [x.name, "=", x.number.repr].map .ofWord) = .ok x.unplaced := by
  have notRepeated : (x.type.isMap && label == some .repeated) = false := by
    by_contra both
    simp only [Bool.not_eq_false, Bool.and_eq_true, beq_iff_eq] at both
    obtain ⟨isMap, rfl⟩ := both
    have singular := h.map_singular isMap
    rw [← same] at singular
    cases singular
  have notAMap : (x.type.isMap && inOneof) = false := by
    cases inOneof with
    | false => simp
    | true => simp [single rfl]
  rw [fieldAfterLabel, notRepeated, notAMap, nameAndNumber_written h]
  simp [Except.map, Field.unplaced, same, Token.ofWord]

theorem Field.WellFormed.fieldType_front {x : Field} (h : x.WellFormed)
    (other : ∀ key, x.type ≠ .map key (.named "map")) :
    fieldType (x.front.map .ofWord) = .ok (x.type, [x.name, "=", x.number.repr].map .ofWord) :=
  fieldType_before_name h.type other h.name _

theorem Field.WellFormed.ofTokens_line {x : Field} (h : x.WellFormed) (other : ∀ key, x.type ≠ .map key (.named "map"))
    {inOneof : Bool} {label : Option Label} {words : List String} (plain : "[" ∉ words) (long : 3 ≤ words.length)
    (labelled : splitLabel (words.map .ofWord) = (label, x.front.map .ofWord))
    (allowed : (inOneof && label.isSome) = false) (same : label.getD .singular = x.label)
    (single : inOneof → x.type.isMap = false) :
    Field.ofTokens inOneof (Clause.line (words ++ x.options)).tokens = .ok x.unplaced := by
  obtain ⟨body, options⟩ := split_line plain x.bracket_options
  have enough : ¬ (words.map Token.ofWord).length < 3 := by simpa using long
  rw [Field.ofTokens_eq, body, options]
  dsimp only
  rw [if_neg enough, labelled, allowed, h.fieldType_front other, x.marksDeprecated_options]
  exact h.afterLabel same single

theorem Field.WellFormed.ofTokens_clause {x : Field} (h : x.WellFormed)
    (other : ∀ key, x.type ≠ .map key (.named "map")) : Field.ofTokens false x.clause.tokens = .ok x.unplaced := by
  have plain : "[" ∉ x.label.written :: x.front := by
    have label : "[" ≠ x.label.written := by cases x.label <;> decide
    simp [label, h.notMem_front]
  have labelled : splitLabel ((x.label.written :: x.front).map .ofWord) = (some x.label, x.front.map .ofWord) := by
    cases x.label <;> rfl
  exact h.ofTokens_line other plain (by simp [Field.front]) labelled rfl rfl (by simp)

/-- A word that a oneof would take for something else is no keyword of a scalar. -/
theorem FieldType.Plain.written_free {type : FieldType} (h : type.Plain) (free : type.StartsMember) :
    ∀ word ∈ type.written, word ∉ ["option", "repeated", "optional", "required"] := by
  cases type with
  | scalar kind =>
    intro word hword
    obtain rfl := List.mem_singleton.mp hword
    cases kind <;> decide
  | named name => exact free
  | map key value => exact h.elim

theorem Field.Alternative.ofTokens_unlabelled {x : Field} (h : x.Alternative) (free : x.type.StartsMember) :
    Field.ofTokens true x.unlabelled.tokens = .ok x.unplaced := by
  obtain ⟨word, written, _, _⟩ := h.plain.written_eq
  have free := h.plain.written_free free word (by simp [written])
  simp only [List.mem_cons, List.not_mem_nil, or_false, not_or] at free
  obtain ⟨_, repeated, optional, required⟩ := free
  have unlabelled : splitLabel (x.front.map .ofWord) = (none, x.front.map .ofWord) := by
    rw [Field.front, written, List.singleton_append, List.map_cons, splitLabel]
    split
    · exact absurd ‹_› repeated
    · exact absurd ‹_› optional
    · exact absurd ‹_› required
    · rfl
  have single : x.type.isMap = false := by
    cases type : x.type with
    | scalar kind => rfl
    | named name => rfl
    | map key value => exact absurd type (h.plain.ne_map key value)
  exact h.wellFormed.ofTokens_line (fun key => h.plain.ne_map key _) h.wellFormed.notMem_front (by simp [Field.front])
    unlabelled rfl h.singular.symm fun _ => single

end fields

section statements

theorem EnumValue.ofTokens?_clause {v : EnumValue} (name : isIdentifier v.name) (number : fitsInt32 v.number) :
    EnumValue.ofTokens? v.clause.tokens = some v := by
  have plain : "[" ∉ [v.name, "=", v.number.repr] := by
    simp [bracket_ne_of_isTypeName (isTypeName_of_isIdentifier name), bracket_ne_repr]
  obtain ⟨body, _⟩ := split_line plain (by simp : ∀ word ∈ ([] : List String).head?, word = "[")
  have value : integer? v.number.repr = some v.number := by
    refine integer?_repr ?_
    simp only [fitsInt32, Bool.and_eq_true, decide_eq_true_eq] at number
    omega
  rw [List.append_nil] at body
  rw [EnumValue.ofTokens?, EnumValue.clause, body]
  simp [Token.ofWord, name, value, number]

theorem argument?_written (streams : Bool) {type : String} (h : isTypeName type) (rest : List String) :
    argument? (Method.argument streams type ++ rest) = some (streams, type, rest) := by
  have closing : type ≠ ")" := by
    rintro rfl
    exact absurd h (by decide)
  cases streams with
  | false =>
    -- A type that is called `stream` is none before the parenthesis that closes.
    by_cases stream : type = "stream"
    · simp [Method.argument, argument?, stream, show isTypeName "stream" by decide]
    · simp [Method.argument, argument?, stream, h]
  | true => simp [Method.argument, argument?, closing, h]

theorem Method.ofTokens?_clause {m : Method} (name : isIdentifier m.name) (input : isTypeName m.inputType)
    (output : isTypeName m.outputType) : Method.ofTokens? m.clause.tokens = some m := by
  have texts : m.clause.tokens.map (·.text) = "rpc" :: m.name :: (argument m.clientStreaming m.inputType ++
      "returns" :: (argument m.serverStreaming m.outputType ++ [";"])) := by
    simp [Method.clause, Clause.line, Clause.tokens, Token.ofWord, Function.comp_def]
  rw [Method.ofTokens?, texts]
  simp [name, argument?_written, input, output]

end statements

theorem Report.pure_bind {ω ε α β : Type} (a : α) (next : α → Report ω ε β) :
    (pure a : Report ω ε α) >>= next = next a :=
  rfl

theorem Report.gather_map {ω ε α β γ : Type} {each : β → Report ω ε (List γ)} {write : α → β} {value : α → γ}
    {as : List α} (h : ∀ a ∈ as, each (write a) = pure [value a]) :
    gather each (as.map write) = pure (as.map value) := by
  induction as with
  | nil => rfl
  | cons a as ih =>
    rw [List.map_cons, gather, h a List.mem_cons_self, ih fun b hb => h b (List.mem_cons_of_mem a hb)]
    rfl

namespace Reading
open Report
variable (r : Reading)

theorem oneof_written {o : Oneof} (h : o.WellFormed) (free : ∀ x ∈ o.fields, x.type.StartsMember) :
    r.oneof (.ofWord o.name) (o.fields.map Field.unlabelled) = pure o.unplaced := by
  have fields : r.oneofFields (o.fields.map Field.unlabelled) = pure (o.fields.map Field.unplaced) := by
    refine gather_map fun x hx => ?_
    have member := h.fields x hx
    obtain ⟨word, written, typeName, _⟩ := member.plain.written_eq
    have first : x.unlabelled.first.text = word := by
      rw [Field.unlabelled, Field.front, written]
      rfl
    have option : word ≠ "option" := by
      rintro rfl
      exact member.plain.written_free (free x hx) "option" (by simp [written]) (by simp)
    have semicolon : word ≠ ";" := by
      rintro rfl
      exact absurd typeName (by decide)
    rw [first]
    split
    · exact absurd rfl semicolon
    · exact absurd rfl option
    · rw [field, member.ofTokens_unlabelled (free x hx)]
  have nonempty : (o.fields.map Field.unplaced).isEmpty = false := by simpa using h.nonempty
  rw [oneof, fields, pure_bind, nonempty]
  rfl

theorem enum_written {e : EnumDef} (h : e.WellFormed) (values : ∀ v ∈ e.values, v.Writable) :
    enum (.ofWord e.name) (e.values.map EnumValue.clause) = pure e.unplaced := by
  have read : enumValues (e.values.map EnumValue.clause) = e.values := by
    rw [enumValues, List.flatMap_map, List.flatMap_congr (g := fun v => [v]), List.flatMap_singleton']
    intro v hv
    obtain ⟨free, number⟩ := values v hv
    have name := h.values v hv
    have semicolon : v.name ≠ ";" := by
      intro same
      rw [same] at name
      exact absurd name (by decide)
    have first : v.clause.first.text = v.name := rfl
    simp only [List.mem_cons, List.not_mem_nil, or_false, not_or] at free
    rw [EnumValue.ofTokens?_clause name number, first]
    split
    · exact absurd ‹_› semicolon
    · exact absurd ‹_› free.1
    · exact absurd ‹_› free.2
    · rfl
  have nonempty : e.values.isEmpty = false := by simpa using h.nonempty
  rw [enum, read, nonempty]
  rfl

theorem service_written {s : Service} (h : s.WellFormed)
    (types : ∀ m ∈ s.methods, isTypeName m.inputType ∧ isTypeName m.outputType) :
    service (.ofWord s.name) (s.methods.map Method.clause) = pure s := by
  have read : methods (.ofWord s.name) (s.methods.map Method.clause) = pure (s.methods.map id) := by
    refine gather_map fun m hm => ?_
    obtain ⟨input, output⟩ := types m hm
    rw [Method.ofTokens?_clause (h.methods m hm) input output]
    rfl
  rw [List.map_id] at read
  rw [service, read]
  rfl

theorem blockHead?_written (kinds : List BlockKind) (kind : BlockKind) {name : String}
    (listed : kinds.find? (·.keyword == kind.keyword) = some kind) (identifier : isIdentifier name) :
    blockHead? kinds ([kind.keyword, name].map .ofWord) = some (kind, .ofWord name) := by
  simp [blockHead?, Token.ofWord, identifier, listed]

theorem member_field {x : Field} (h : x.WellFormed) (other : ∀ key, x.type ≠ .map key (.named "map")) :
    r.member x.clause = pure [.field x.unplaced] := by
  have read : r.field false x.clause = pure [x.unplaced] := by rw [field, h.ofTokens_clause other]
  have statement : r.member x.clause = r.statement x.clause := by
    rw [Field.clause, Clause.line, member]
    simp
  have kept : r.statement x.clause = (do return (← r.field false x.clause).map .field) := by
    have first : x.clause.first.text = x.label.written := rfl
    rw [Reading.statement, first]
    cases x.label <;> rfl
  rw [statement, kept, read]
  rfl

theorem members_eq (cs : List Clause) : r.members cs = gather r.member cs := by
  induction cs with
  | nil => rw [members, gather]
  | cons c cs ih => rw [members, gather, ih]

theorem members_map {α : Type} {write : α → Clause} {part : α → Member} {as : List α}
    (h : ∀ a ∈ as, r.member (write a) = pure [part a]) : r.members (as.map write) = pure (as.map part) := by
  rw [members_eq]
  exact gather_map h

theorem member_oneof {o : Oneof} (h : o.WellFormed) (free : ∀ x ∈ o.fields, x.type.StartsMember) :
    r.member o.clause = pure [.oneof o.unplaced] := by
  have head : blockHead? [.message, .enum, .oneof] (["oneof", o.name].map .ofWord) = some (.oneof, .ofWord o.name) :=
    blockHead?_written _ .oneof (by decide) h.name
  rw [Oneof.clause, Clause.braces, member, head]
  dsimp only
  rw [r.oneof_written h free]
  rfl

theorem member_enum {e : EnumDef} (h : e.WellFormed) (values : ∀ v ∈ e.values, v.Writable) :
    r.member e.clause = pure [.enum e.unplaced] := by
  have head : blockHead? [.message, .enum, .oneof] (["enum", e.name].map .ofWord) = some (.enum, .ofWord e.name) :=
    blockHead?_written _ .enum (by decide) h.name
  rw [EnumDef.clause, Clause.braces, member, head]
  dsimp only
  rw [enum_written h values]
  rfl

end Reading

theorem Message.ofMembers_members (m : Message) :
    Message.ofMembers (.ofWord m.name) (m.members.map Member.unplaced) = m.unplaced := by
  have parts : Message.ofMembers (.ofWord m.name) m.members = { m with position := .start } := by
    simp [ofMembers, members, List.filterMap_append, List.filterMap_map, Token.ofWord]
  have moved := Message.ofMembers_unplaced (.ofWord m.name) m.members
  rw [parts, unplaced_eq] at moved
  rw [unplaced_eq]
  exact moved.symm

namespace Reading
open Report
variable (r : Reading)

theorem member_message {m : Message} (name : isIdentifier m.name)
    (read : r.members (m.members.map Member.clause) = pure (m.members.map Member.unplaced)) :
    r.member m.clause = pure [.message m.unplaced] := by
  have head : blockHead? [.message, .enum, .oneof] (["message", m.name].map .ofWord) =
      some (.message, .ofWord m.name) := blockHead?_written _ .message (by decide) name
  rw [Message.clause_eq, Clause.braces, member, head]
  dsimp only
  rw [read, pure_bind, Message.ofMembers_members]

theorem members_written {scope : List String} {ms : List Message}
    (h : ∀ n ∈ Message.nestedAll scope ms, n.message.Writable) :
    ∀ m ∈ ms, isIdentifier m.name ∧
      r.members (m.members.map Member.clause) = pure (m.members.map Member.unplaced) := by
  refine Message.nestedInduction (fun m formed inside => ⟨formed.name, ?_⟩) h
  refine r.members_map (Message.forall_mem_members.mpr ⟨?_, ?_, ?_, ?_⟩)
  · exact fun x hx => r.member_field (formed.fields x hx) (formed.mapValues x hx)
  · exact fun o ho => r.member_oneof (formed.oneofs o ho) (formed.alternatives o ho)
  · exact fun k hk => r.member_message (inside k hk).1 (inside k hk).2
  · exact fun e he => r.member_enum (formed.enums e he) (formed.values e he)

section file
variable (schema : Schema)

theorem expectText_written (word : String) (rest : List String) :
    r.expectText word ((word :: rest).map .ofWord) = pure (rest.map .ofWord) := by
  simp [expectText, expect, Token.ofWord, pure_bind]

theorem expect_written {what : Expected} {test : String → Bool} {word : String} (passes : test word)
    (rest : List String) :
    r.expect what test ((word :: rest).map .ofWord) = pure (.ofWord word, rest.map .ofWord) := by
  simp [expect, Token.ofWord, passes]

theorem clause_version {v : String} (h : Quotable v) :
    r.clause schema (.line ["syntax", "=", quote v]) = pure { schema with version := some v } := by
  have read : r.clause schema (.line ["syntax", "=", quote v]) =
      r.version schema (["syntax", "=", quote v, ";"].map .ofWord) := rfl
  have rest : (["syntax", "=", quote v, ";"].map Token.ofWord).drop 1 = ["=", quote v, ";"].map .ofWord := rfl
  rw [read, version, rest, expectText_written, pure_bind, r.expect_written (isStringLiteral_quote v), pure_bind]
  dsimp only
  rw [expectText_written, pure_bind, Token.ofWord, unquote_quote h]

theorem clause_package (first : schema.package = none) {p : String} (h : dottedChars p.toList) :
    r.clause schema (.line ["package", p]) = pure { schema with package := some p } := by
  have read : r.clause schema (.line ["package", p]) = r.package schema (["package", p, ";"].map .ofWord) := rfl
  have rest : (["package", p, ";"].map Token.ofWord).drop 1 = [p, ";"].map .ofWord := rfl
  have typeName : isTypeName p := isTypeName_iff.mpr (.inl (dottedChars_iff.mp h))
  rw [read, package, first, rest, r.expect_written typeName]
  simp only [Option.isSome_none, Bool.false_eq_true, if_false, pure_bind]
  rw [expectText_written, pure_bind]
  simp [Token.ofWord, dropDots_of_dottedChars h]

theorem importPath_written {lead : List Token} {isPublic : Bool} {path : String} (h : Quotable path)
    (marked : (lead.drop 1).head?.any (·.text == "public") = isPublic)
    (rest : (if isPublic || (lead.drop 1).head?.any (·.text == "weak") then (lead.drop 1).drop 1 else lead.drop 1) =
      [quote path, ";"].map .ofWord) :
    r.importPath schema lead = pure { schema with imports := schema.imports ++ [⟨path, isPublic⟩] } := by
  rw [importPath]
  dsimp only
  rw [marked, rest, r.expect_written (isStringLiteral_quote path), pure_bind]
  dsimp only
  rw [expectText_written, pure_bind, Token.ofWord, unquote_quote h]

theorem clause_import {i : Import} (h : Quotable i.path) :
    r.clause schema i.clause = pure { schema with imports := schema.imports ++ [i] } := by
  obtain ⟨path, isPublic⟩ := i
  have keyword {word : String} (plain : isStringLiteral word = false) : quote path ≠ word := by
    rintro rfl
    simp [isStringLiteral_quote] at plain
  cases isPublic with
  | false =>
    have read : r.clause schema (Import.clause ⟨path, false⟩) =
        r.importPath schema (["import", quote path, ";"].map .ofWord) := rfl
    have notPublic := keyword (show isStringLiteral "public" = false by decide)
    have notWeak := keyword (show isStringLiteral "weak" = false by decide)
    rw [read]
    exact r.importPath_written schema h (by simp [Token.ofWord, notPublic]) (by simp [Token.ofWord, notWeak])
  | true =>
    have read : r.clause schema (Import.clause ⟨path, true⟩) =
        r.importPath schema (["import", "public", quote path, ";"].map .ofWord) := rfl
    rw [read]
    exact r.importPath_written schema h rfl rfl

theorem clause_message {m : Message} (name : isIdentifier m.name)
    (read : r.members (m.members.map Member.clause) = pure (m.members.map Member.unplaced)) :
    r.clause schema m.clause = pure { schema with messages := schema.messages ++ [m.unplaced] } := by
  have head : blockHead? [.message, .enum, .service] (["message", m.name].map .ofWord) =
      some (.message, .ofWord m.name) := blockHead?_written _ .message (by decide) name
  rw [Message.clause_eq, Clause.braces, clause]
  simp only [head]
  rw [read, pure_bind, Message.ofMembers_members]
  rfl

theorem clause_enum {e : EnumDef} (h : e.WellFormed) (values : ∀ v ∈ e.values, v.Writable) :
    r.clause schema e.clause = pure { schema with enums := schema.enums ++ [e.unplaced] } := by
  have head : blockHead? [.message, .enum, .service] (["enum", e.name].map .ofWord) =
      some (.enum, .ofWord e.name) := blockHead?_written _ .enum (by decide) h.name
  rw [EnumDef.clause, Clause.braces, clause]
  simp only [head]
  rw [enum_written h values]
  rfl

theorem clause_service {s : Service} (h : s.WellFormed)
    (types : ∀ m ∈ s.methods, isTypeName m.inputType ∧ isTypeName m.outputType) :
    r.clause schema s.clause = pure { schema with services := schema.services ++ [s] } := by
  have head : blockHead? [.message, .enum, .service] (["service", s.name].map .ofWord) =
      some (.service, .ofWord s.name) := blockHead?_written _ .service (by decide) h.name
  rw [Service.clause, Clause.braces, clause]
  simp only [head]
  rw [service_written h types]
  rfl

theorem clauses_version {version : Option String} (h : ∀ v ∈ version, Quotable v) (rest : List Clause) :
    r.clauses {} (version.toList.map (fun v => .line ["syntax", "=", quote v]) ++ rest) =
      r.clauses { version } rest := by
  cases version with
  | none => rfl
  | some v =>
    change r.clauses {} (.line ["syntax", "=", quote v] :: rest) = _
    rw [clauses, r.clause_version _ (h v rfl), pure_bind]

theorem clauses_package {version package : Option String} (h : ∀ p ∈ package, dottedChars p.toList)
    (rest : List Clause) :
    r.clauses { version } (package.toList.map (fun p => .line ["package", p]) ++ rest) =
      r.clauses { version, package } rest := by
  cases package with
  | none => rfl
  | some p =>
    change r.clauses { version } (.line ["package", p] :: rest) = _
    rw [clauses, r.clause_package _ rfl (h p rfl), pure_bind]

theorem clauses_map {α β : Type} (put : List β → Schema) {write : α → Clause} {value : α → β} {as : List α}
    (h : ∀ a ∈ as, ∀ bs, r.clause (put bs) (write a) = pure (put (bs ++ [value a]))) (bs : List β)
    (rest : List Clause) :
    r.clauses (put bs) (as.map write ++ rest) = r.clauses (put (bs ++ as.map value)) rest := by
  induction as generalizing bs with
  | nil => simp
  | cons a as ih =>
    rw [List.map_cons, List.cons_append, clauses, h a List.mem_cons_self, pure_bind,
      ih (fun b hb => h b (List.mem_cons_of_mem a hb)), List.append_assoc, List.singleton_append, List.map_cons]

end file

/-- The clauses of a written file are read as the file. -/
theorem clauses_written {f : SchemaFile} (h : f.Writable) : r.clauses {} f.clauses = pure f.toSchema.unplaced := by
  have formed := h.wellFormed
  have messages := r.members_written h.message
  have values : ∀ e ∈ f.enums, ∀ v ∈ e.values, v.Writable :=
    fun e he => h.values e (List.mem_append_right _ he)
  have types : ∀ s ∈ f.services, ∀ m ∈ s.methods, isTypeName m.inputType ∧ isTypeName m.outputType := by
    intro s hs m hm
    obtain ⟨input, output⟩ := h.methods s hs m hm
    exact ⟨isTypeName_iff.mpr input, isTypeName_iff.mpr output⟩
  rw [Schema.clauses]
  simp only [List.append_assoc]
  -- One kind of clause after the other fills its own part of the schema; the parts before it are done.
  rw [r.clauses_version h.version, r.clauses_package formed.package]
  refine (r.clauses_map (fun imports => { version := f.version, package := f.package, imports })
    (fun i hi _ => r.clause_import _ (h.paths i hi)) [] _).trans ?_
  refine (r.clauses_map (fun messages => { version := f.version, package := f.package, imports := _, messages })
    (fun m hm _ => r.clause_message _ (messages m hm).1 (messages m hm).2) [] _).trans ?_
  refine (r.clauses_map (fun enums =>
      { version := f.version, package := f.package, imports := _, messages := _, enums })
    (fun e he _ => r.clause_enum _ (formed.enums e he) (values e he)) [] _).trans ?_
  rw [← List.append_nil (f.services.map Service.clause)]
  refine (r.clauses_map (fun services =>
      { version := f.version, package := f.package, imports := _, messages := _, enums := _, services })
    (fun s hs _ => r.clause_service _ (formed.services s hs) (types s hs)) [] _).trans ?_
  simp [clauses, Schema.unplaced]

end Reading

theorem Report.unplaced_eq_pure {α β : Type} {f : α → β} {r : Parsed α} {b : β} (h : r.unplaced f = pure b) :
    r.warnings = [] ∧ ∃ a, r.result = .ok a ∧ f a = b := by
  obtain ⟨warnings, result⟩ := r
  cases result with
  | error e => cases congrArg Report.result h
  | ok a =>
    exact ⟨List.map_eq_nil_iff.mp (congrArg Report.warnings h), a, rfl, Except.ok.inj (congrArg Report.result h)⟩

namespace SchemaFile

theorem Writable.isToken_written {f : SchemaFile} (h : f.Writable) : ∀ word ∈ f.written, isToken word := by
  intro word hword
  obtain ⟨t, ht, rfl⟩ := List.mem_map.mp hword
  obtain ⟨c, hc, ht⟩ := Clause.mem_tokensOf.mp ht
  exact ((h.clauses_spelled c hc).isToken t ht).1

theorem Writable.map_written {f : SchemaFile} (h : f.Writable) :
    f.written.map .ofWord = Clause.tokensOf f.clauses := by
  rw [Schema.written, List.map_map]
  have same : ∀ t ∈ Clause.tokensOf f.clauses, (Token.ofWord ∘ Token.text) t = id t := by
    intro t ht
    obtain ⟨c, hc, ht⟩ := Clause.mem_tokensOf.mp ht
    exact ((h.clauses_spelled c hc).isToken t ht).2.symm
  rw [List.map_congr_left same, List.map_id]

theorem Writable.file_written {f : SchemaFile} (h : f.Writable) (r : Reading) :
    r.file (f.written.map .ofWord) = pure f.toSchema.unplaced := by
  rw [h.map_written, Reading.file, Outline.read_spelled h.clauses_spelled, r.clauses_written h]
  rfl

/-- A file that can be written is read back unchanged: its words are the tokens of a text, and every text with these
tokens is read as the file, strictly or not, without a warning. -/
theorem parse_written {f : SchemaFile} (h : f.Writable) :
    (∃ ts, Tokens.scan (joinWith " " f.written) = .ok ts ∧ ts.texts = f.written) ∧
      ∀ text ts, Tokens.scan text = .ok ts → ts.texts = f.written → ∀ strict,
        ∃ g, (parse strict f.name text).result = .ok g ∧ g.unplaced = f.unplaced ∧
          (parse strict f.name text).warnings = [] := by
  refine ⟨Tokens.scan_joinWith h.isToken_written, ?_⟩
  intro text ts scan same strict
  have read := Schema.read_unplaced scan strict
  rw [same, h.file_written] at read
  obtain ⟨noWarning, schema, result, alike⟩ := Report.unplaced_eq_pure read
  refine ⟨⟨schema, f.name⟩, parse_result_ok.mpr ⟨result, rfl⟩, ?_, ?_⟩
  · rw [SchemaFile.unplaced, SchemaFile.unplaced, alike]
  · rw [parse_warnings, noWarning, List.map_nil]

/-- A file whose names are keywords of the language. -/
def keywordFile : SchemaFile where
  name := "k.proto"
  package := some "package.import"
  version := some "\"\\\n"
  imports := [⟨"\t.proto", true⟩]
  messages := [{
    name := "message", position := ⟨7, 9⟩
    fields := [⟨"optional", .start, .named "map", 1, .repeated, true⟩,
      ⟨"map", .start, .map .bool (.named "stream"), 2, .singular, false⟩]
    oneofs := [⟨"oneof", [⟨"required", .start, .named "reserved", 3, .singular, false⟩]⟩]
    messages := [⟨"enum", .start, [], [], [], []⟩]
    enums := [⟨"extend", .start, [⟨"message", -1⟩]⟩] }]
  services := [⟨"service", [⟨"rpc", "stream", ".stream", false, true⟩]⟩]

theorem keywordFile_writable : keywordFile.Writable := by
  have fields : keywordFile.everyField = [⟨"optional", .start, .named "map", 1, .repeated, true⟩,
      ⟨"map", .start, .map .bool (.named "stream"), 2, .singular, false⟩,
      ⟨"required", .start, .named "reserved", 3, .singular, false⟩] := rfl
  have oneofs : keywordFile.everyOneof =
      [⟨"oneof", [⟨"required", .start, .named "reserved", 3, .singular, false⟩]⟩] := rfl
  refine {
    package := by decide +kernel, messages := by decide +kernel, fields := by decide +kernel
    types := by decide +kernel, maps := ?maps, oneofs := ?oneofs, enums := by decide +kernel
    services := by decide +kernel, version := by decide +kernel, paths := by decide +kernel
    values := by decide +kernel, mapValues := ?mapValues, alternatives := by decide +kernel
    methods := by decide +kernel }
  case maps =>
    rw [fields]
    simp
  case oneofs =>
    rw [oneofs]
    simp
    decide
  case mapValues =>
    rw [fields]
    simp

theorem parse_written_keywords :
    ∃ g, (parse true "k.proto" (joinWith " " keywordFile.written)).result = .ok g ∧ g.unplaced = keywordFile.unplaced ∧
      (parse true "k.proto" (joinWith " " keywordFile.written)).warnings = [] := by
  obtain ⟨⟨ts, scan, same⟩, read⟩ := parse_written keywordFile_writable
  exact read _ ts scan same true

end SchemaFile

end SchemaGen
