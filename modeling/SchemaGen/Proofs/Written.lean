import SchemaGen.Proofs.Grammar
import SchemaGen.Proofs.Placement
import SchemaGen.Proofs.Spelling
/-!
# Written schemas

A file is written clause by clause: a line of words that ends with a semicolon, or words with a block of clauses after
them. What is written for a file that keeps to the grammar is made of tokens, and its outline is the clauses it was
written from.
-/
namespace SchemaGen
open Text Lexeme

namespace Clause

def line (words : List String) : Clause :=
  .plain (words.map .ofWord) (.ofWord ";")

def braces (words : List String) (body : List Clause) : Clause :=
  .block (words.map .ofWord) (.ofWord "\x7b") body (.ofWord "\x7d")

end Clause

section writing

def FieldType.written : FieldType → List String
  | .scalar kind => [kind.keyword]
  | .named name => [name]
  | .map key value => "map" :: "<" :: key.keyword :: "," :: value.written ++ [">"]

def Label.written : Label → String
  | .singular => "optional"
  | .repeated => "repeated"

namespace Field

def front (x : Field) : List String :=
  x.type.written ++ [x.name, "=", x.number.repr]

def options (x : Field) : List String :=
  if x.deprecated then ["[", "deprecated", "=", "true", "]"] else []

def clause (x : Field) : Clause :=
  .line (x.label.written :: x.front ++ x.options)

/-- A field of a oneof, which has no label. -/
def unlabelled (x : Field) : Clause :=
  .line (x.front ++ x.options)

end Field

def Oneof.clause (o : Oneof) : Clause :=
  .braces ["oneof", o.name] (o.fields.map Field.unlabelled)

def EnumValue.clause (v : EnumValue) : Clause :=
  .line [v.name, "=", v.number.repr]

def EnumDef.clause (e : EnumDef) : Clause :=
  .braces ["enum", e.name] (e.values.map EnumValue.clause)

namespace Message

mutual

def clause : Message → Clause
  | ⟨name, _, fields, oneofs, messages, enums⟩ =>
    .braces ["message", name]
      (fields.map Field.clause ++ oneofs.map Oneof.clause ++ clausesOf messages ++ enums.map EnumDef.clause)

def clausesOf : List Message → List Clause
  | [] => []
  | m :: ms => m.clause :: clausesOf ms

end

theorem clausesOf_eq (ms : List Message) : clausesOf ms = ms.map clause := by
  induction ms with
  | nil => rfl
  | cons m ms ih => rw [clausesOf, ih, List.map_cons]

def members (m : Message) : List Member :=
  m.fields.map .field ++ m.oneofs.map .oneof ++ m.messages.map .message ++ m.enums.map .enum

end Message

def Member.clause : Member → Clause
  | .field x => x.clause
  | .oneof o => o.clause
  | .message m => m.clause
  | .enum e => e.clause

theorem Message.clause_eq (m : Message) : m.clause = .braces ["message", m.name] (m.members.map Member.clause) := by
  cases m
  simp only [clause, clausesOf_eq, members, List.map_append, List.map_map]
  rfl

theorem Message.forall_mem_members {m : Message} {P : Member → Prop} :
    (∀ part ∈ m.members, P part) ↔ (∀ x ∈ m.fields, P (.field x)) ∧ (∀ o ∈ m.oneofs, P (.oneof o)) ∧
      (∀ k ∈ m.messages, P (.message k)) ∧ ∀ e ∈ m.enums, P (.enum e) := by
  simp only [members, List.forall_mem_append, List.forall_mem_map, and_assoc]

namespace Method

def argument (streams : Bool) (type : String) : List String :=
  "(" :: (if streams then ["stream"] else []) ++ [type, ")"]

def clause (m : Method) : Clause :=
  .line ("rpc" :: m.name :: argument m.clientStreaming m.inputType ++
    "returns" :: argument m.serverStreaming m.outputType)

end Method

def Service.clause (s : Service) : Clause :=
  .braces ["service", s.name] (s.methods.map Method.clause)

def Import.clause (i : Import) : Clause :=
  .line ("import" :: (if i.isPublic then ["public"] else []) ++ [quote i.path])

namespace Schema

def clauses (s : Schema) : List Clause :=
  s.version.toList.map (fun v => .line ["syntax", "=", quote v]) ++
    s.package.toList.map (fun p => .line ["package", p]) ++ s.imports.map Import.clause ++
    s.messages.map Message.clause ++ s.enums.map EnumDef.clause ++ s.services.map Service.clause

def written (s : Schema) : List String :=
  (Clause.tokensOf s.clauses).map (·.text)

end Schema

end writing

/-- A value of 32 bits that is not taken for another statement of an enum. -/
def EnumValue.Writable (v : EnumValue) : Prop :=
  v.name ∉ ["option", "reserved"] ∧ fitsInt32 v.number

/-- A type that is not taken for a label or a keyword where a member of a oneof begins. -/
def FieldType.StartsMember (type : FieldType) : Prop :=
  ∀ t ∈ type.names, t ∉ ["option", "repeated", "optional", "required"]

instance (v : EnumValue) : Decidable v.Writable :=
  inferInstanceAs (Decidable (_ ∧ _))

instance (type : FieldType) : Decidable type.StartsMember :=
  inferInstanceAs (Decidable (∀ t ∈ type.names, t ∉ ["option", "repeated", "optional", "required"]))

/-- A file that can be written: it keeps to the grammar, its texts can stand between quotes, its values have 32 bits,
and no word of it would be taken for a keyword where it stands. -/
structure SchemaFile.Writable (f : SchemaFile) : Prop extends f.Grammatical where
  version : ∀ v ∈ f.version, Quotable v
  paths : ∀ i ∈ f.imports, Quotable i.path
  values : ∀ e ∈ f.everyEnum, ∀ v ∈ e.values, v.Writable
  mapValues : ∀ x ∈ f.everyField, ∀ key, x.type ≠ .map key (.named "map")
  alternatives : ∀ o ∈ f.everyOneof, ∀ x ∈ o.fields, x.type.StartsMember
  methods : ∀ s ∈ f.services, ∀ m ∈ s.methods, TypeName m.inputType ∧ TypeName m.outputType

/-- What makes a message writable, the messages inside it apart. -/
structure Message.Writable (m : Message) : Prop extends m.WellFormed where
  values : ∀ e ∈ m.enums, ∀ v ∈ e.values, v.Writable
  mapValues : ∀ x ∈ m.fields, ∀ key, x.type ≠ .map key (.named "map")
  alternatives : ∀ o ∈ m.oneofs, ∀ x ∈ o.fields, x.type.StartsMember

theorem SchemaFile.Writable.message {f : SchemaFile} (h : f.Writable) :
    ∀ n ∈ Message.nestedAll [] f.messages, n.message.Writable := by
  intro n hn
  refine ⟨h.wellFormed.messages n hn, ?_, ?_, ?_⟩
  · exact fun e he => h.values e (List.mem_append_left _ (List.mem_flatMap.mpr ⟨n, hn, he⟩))
  · exact fun x hx => h.mapValues x (List.mem_flatMap.mpr ⟨n, hn, List.mem_append_left _ hx⟩)
  · exact fun o ho => h.alternatives o (List.mem_flatMap.mpr ⟨n, hn, ho⟩)

section words

/-- A token that neither ends a clause nor opens or closes a block. -/
def isInner (word : String) : Bool :=
  isToken word && word != ";" && word != "\x7b" && word != "\x7d"

theorem isInner_iff {word : String} :
    isInner word ↔ isToken word ∧ word ≠ ";" ∧ word ≠ "\x7b" ∧ word ≠ "\x7d" := by
  simp [isInner, and_assoc]

theorem free_of_isInner {word : String} (h : isInner word) : word ∉ [";", "\x7b", "\x7d"] := by
  simpa using (isInner_iff.mp h).2

theorem isInner_of_isTypeName {word : String} (h : isTypeName word) : isInner word := by
  refine isInner_iff.mpr ⟨isToken_of_isTypeName h, ?_, ?_, ?_⟩
  all_goals
    rintro rfl
    exact absurd h (by decide)

theorem isInner_of_isIdentifier {word : String} (h : isIdentifier word) : isInner word :=
  isInner_of_isTypeName (isTypeName_of_isIdentifier h)

theorem isInner_repr (n : Int) : isInner n.repr := by
  have other (c : Char) (sign : c ≠ '-') (digit : ¬ c.isDigit) : n.repr ≠ .singleton c := by
    intro same
    exact notMem_repr n sign digit (by simp [same])
  exact isInner_iff.mpr ⟨isToken_repr n, other ';' (by decide) (by decide), other '\x7b' (by decide) (by decide),
    other '\x7d' (by decide) (by decide)⟩

def fixedWords : List String :=
  ["syntax", "package", "import", "public", "message", "oneof", "enum", "service", "rpc", "returns", "stream",
    "optional", "repeated", "map", "deprecated", "true", "=", "<", ",", ">", "[", "]", "(", ")"]

theorem isInner_fixed : ∀ word ∈ fixedWords, isInner word := by
  decide +kernel

theorem isInner_quote (text : String) : isInner (quote text) := by
  have other (c : Char) (mark : c ≠ '"') : quote text ≠ .singleton c := by
    intro same
    have head := congrArg (·.toList.head?) same
    simp only [quote, String.toList_ofList, List.cons_append, List.head?_cons, String.toList_singleton,
      Option.some.injEq] at head
    exact mark head.symm
  exact isInner_iff.mpr ⟨isToken_quote text, other ';' (by decide), other '\x7b' (by decide), other '\x7d' (by decide)⟩

end words

namespace Clause

/-- A clause that is spelled with tokens and has its marks where they belong. -/
inductive Spelled : Clause → Prop where
  | line {words : List String} (inner : ∀ word ∈ words, isInner word) : Spelled (line words)
  | braces {words : List String} {body : List Clause} (inner : ∀ word ∈ words, isInner word)
      (inside : ∀ c ∈ body, Spelled c) : Spelled (braces words body)

theorem mem_tokensOf {cs : List Clause} {t : Token} : t ∈ tokensOf cs ↔ ∃ c ∈ cs, t ∈ c.tokens := by
  induction cs with
  | nil => simp [tokensOf]
  | cons c cs ih => simp [tokensOf, ih]

theorem isToken_of_mem_words {words : List String} (inner : ∀ word ∈ words, isInner word) {t : Token}
    (ht : t ∈ words.map Token.ofWord) : isToken t.text ∧ t = .ofWord t.text := by
  obtain ⟨word, hword, rfl⟩ := List.mem_map.mp ht
  exact ⟨(isInner_iff.mp (inner word hword)).1, rfl⟩

theorem isToken_marks : isToken ";" ∧ isToken "\x7b" ∧ isToken "\x7d" := by
  decide +kernel

theorem Spelled.isToken {c : Clause} (h : c.Spelled) : ∀ t ∈ c.tokens, isToken t.text ∧ t = .ofWord t.text := by
  induction h with
  | line inner =>
    intro t ht
    rcases List.mem_append.mp ht with ht | ht
    · exact isToken_of_mem_words inner ht
    · obtain rfl := List.mem_singleton.mp ht
      exact ⟨isToken_marks.1, rfl⟩
  | braces inner _ ih =>
    intro t ht
    simp only [Clause.braces, tokens, List.mem_append, List.mem_cons, List.not_mem_nil, or_false] at ht
    rcases ht with ht | rfl | ht | rfl
    · exact isToken_of_mem_words inner ht
    · exact ⟨isToken_marks.2.1, rfl⟩
    · obtain ⟨c, hc, ht⟩ := mem_tokensOf.mp ht
      exact ih c hc t ht
    · exact ⟨isToken_marks.2.2, rfl⟩

end Clause

namespace Outline
variable {stack : List Frame} {clauses : List Clause}

theorem readFrom_free {words : List String} (free : ∀ word ∈ words, word ∉ [";", "\x7b", "\x7d"])
    (before ts : List Token) :
    readFrom stack clauses before (words.map .ofWord ++ ts) =
      readFrom stack clauses ((words.map .ofWord).reverse ++ before) ts := by
  induction words generalizing before with
  | nil => rfl
  | cons word words ih =>
    have marks := free word List.mem_cons_self
    simp only [List.mem_cons, List.not_mem_nil, or_false, not_or] at marks
    obtain ⟨semicolon, opening, closing⟩ := marks
    have rest := ih (fun w hw => free w (List.mem_cons_of_mem word hw)) (.ofWord word :: before)
    rw [List.map_cons, List.cons_append, readFrom_word semicolon opening closing, rest]
    simp

theorem readFrom_words {words : List String} (inner : ∀ word ∈ words, isInner word) (before ts : List Token) :
    readFrom stack clauses before (words.map .ofWord ++ ts) =
      readFrom stack clauses ((words.map .ofWord).reverse ++ before) ts :=
  readFrom_free (fun word hword => free_of_isInner (inner word hword)) before ts

theorem readFrom_tokensOf {cs : List Clause}
    (each : ∀ c ∈ cs, ∀ (clauses : List Clause) (ts : List Token),
      readFrom stack clauses [] (c.tokens ++ ts) = readFrom stack (c :: clauses) [] ts) (ts : List Token) :
    readFrom stack clauses [] (Clause.tokensOf cs ++ ts) = readFrom stack (cs.reverse ++ clauses) [] ts := by
  induction cs generalizing clauses with
  | nil => rfl
  | cons c cs ih =>
    rw [Clause.tokensOf, List.append_assoc, each c List.mem_cons_self,
      ih fun d hd => each d (List.mem_cons_of_mem c hd)]
    simp

theorem readFrom_spelled {c : Clause} (h : c.Spelled) (stack : List Frame) (clauses : List Clause) (ts : List Token) :
    readFrom stack clauses [] (c.tokens ++ ts) = readFrom stack (c :: clauses) [] ts := by
  induction h generalizing stack clauses ts with
  | line inner =>
    rw [Clause.line, Clause.tokens, List.append_assoc, readFrom_words inner, List.singleton_append,
      readFrom_semicolon rfl]
    simp
  | @braces words body inner _ ih =>
    rw [Clause.braces, Clause.tokens, List.append_assoc, readFrom_words inner, List.cons_append, readFrom_open rfl,
      List.append_assoc, readFrom_tokensOf fun c hc => ih c hc _, List.singleton_append, readFrom_close rfl]
    simp [bodyBefore]

theorem read_spelled {cs : List Clause} (h : ∀ c ∈ cs, c.Spelled) :
    read (Clause.tokensOf cs) = ⟨cs, .ended .nothing⟩ := by
  have whole : readFrom [] [] [] (Clause.tokensOf cs ++ []) = readFrom [] (cs.reverse ++ []) [] [] :=
    readFrom_tokensOf (fun c hc => readFrom_spelled (h c hc) []) []
  rw [List.append_nil, List.append_nil] at whole
  rw [read, whole, readFrom_nil]
  simp [close, leftOver]

end Outline

section spelled

theorem Scalar.isTypeName_keyword (kind : Scalar) : isTypeName kind.keyword := by
  cases kind <;> decide

theorem FieldType.Plain.written_inner {type : FieldType} (h : type.Plain) : ∀ word ∈ type.written, isInner word := by
  cases type with
  | scalar kind => simpa [FieldType.written] using isInner_of_isTypeName kind.isTypeName_keyword
  | named name => simpa [FieldType.written] using isInner_of_isTypeName h.1
  | map key value => exact h.elim

theorem FieldType.WellFormed.written_inner {type : FieldType} (h : type.WellFormed) :
    ∀ word ∈ type.written, isInner word := by
  cases type with
  | scalar kind => exact FieldType.Plain.written_inner h
  | named name => exact FieldType.Plain.written_inner h
  | map key value =>
    have value := FieldType.Plain.written_inner h.2
    have key := isInner_of_isTypeName key.isTypeName_keyword
    simp only [FieldType.written, List.cons_append, List.forall_mem_cons, List.forall_mem_append]
    exact ⟨isInner_fixed "map" (by decide), isInner_fixed "<" (by decide), key, isInner_fixed "," (by decide), value,
      isInner_fixed ">" (by decide), by simp⟩

theorem Field.WellFormed.front_inner {x : Field} (h : x.WellFormed) : ∀ word ∈ x.front, isInner word := by
  simp only [Field.front, List.forall_mem_cons, List.forall_mem_append]
  exact ⟨h.type.written_inner, isInner_of_isIdentifier h.name, isInner_fixed "=" (by decide), isInner_repr _,
    by simp⟩

theorem Field.options_inner (x : Field) : ∀ word ∈ x.options, isInner word := by
  unfold Field.options
  split
  · have fixed : ∀ word ∈ ["[", "deprecated", "=", "true", "]"], word ∈ fixedWords := by decide
    exact fun word hword => isInner_fixed word (fixed word hword)
  · simp

theorem Field.WellFormed.clause_spelled {x : Field} (h : x.WellFormed) : x.clause.Spelled := by
  refine .line ?_
  simp only [List.cons_append, List.forall_mem_cons, List.forall_mem_append]
  refine ⟨?_, h.front_inner, x.options_inner⟩
  cases x.label
  · exact isInner_fixed "optional" (by decide)
  · exact isInner_fixed "repeated" (by decide)

theorem Field.WellFormed.unlabelled_spelled {x : Field} (h : x.WellFormed) : x.unlabelled.Spelled :=
  .line (List.forall_mem_append.mpr ⟨h.front_inner, x.options_inner⟩)

theorem head_inner {keyword name : String} (fixed : keyword ∈ fixedWords) (identifier : isIdentifier name) :
    ∀ word ∈ [keyword, name], isInner word := by
  simp [isInner_fixed keyword fixed, isInner_of_isIdentifier identifier]

theorem Oneof.WellFormed.clause_spelled {o : Oneof} (h : o.WellFormed) : o.clause.Spelled := by
  refine .braces (head_inner (by decide) h.name) ?_
  simpa using fun x hx => (h.fields x hx).wellFormed.unlabelled_spelled

theorem EnumDef.WellFormed.clause_spelled {e : EnumDef} (h : e.WellFormed) : e.clause.Spelled := by
  refine .braces (head_inner (by decide) h.name) ?_
  intro c hc
  obtain ⟨v, hv, rfl⟩ := List.mem_map.mp hc
  refine .line ?_
  simp only [List.forall_mem_cons]
  exact ⟨isInner_of_isIdentifier (h.values v hv), isInner_fixed "=" (by decide), isInner_repr _, by simp⟩

theorem Message.clause_spelled {scope : List String} {ms : List Message}
    (h : ∀ n ∈ nestedAll scope ms, n.message.WellFormed) : ∀ m ∈ ms, m.clause.Spelled := by
  refine nestedInduction (fun m formed inside => ?_) h
  rw [clause_eq]
  refine .braces (head_inner (by decide) formed.name) ?_
  rw [List.forall_mem_map, forall_mem_members]
  exact ⟨fun x hx => (formed.fields x hx).clause_spelled, fun o ho => (formed.oneofs o ho).clause_spelled, inside,
    fun e he => (formed.enums e he).clause_spelled⟩

theorem Method.argument_inner (streams : Bool) {type : String} (h : TypeName type) :
    ∀ word ∈ argument streams type, isInner word := by
  have type := isInner_of_isTypeName (isTypeName_iff.mpr h)
  cases streams with
  | false =>
    simp only [argument, Bool.false_eq_true, if_false, List.cons_append, List.nil_append, List.forall_mem_cons]
    exact ⟨isInner_fixed "(" (by decide), type, isInner_fixed ")" (by decide), by simp⟩
  | true =>
    simp only [argument, if_true, List.cons_append, List.nil_append, List.forall_mem_cons]
    exact ⟨isInner_fixed "(" (by decide), isInner_fixed "stream" (by decide), type, isInner_fixed ")" (by decide),
      by simp⟩

theorem SchemaFile.Writable.service_spelled {f : SchemaFile} (h : f.Writable) {s : Service} (hs : s ∈ f.services) :
    s.clause.Spelled := by
  have formed := h.wellFormed.services s hs
  refine .braces (head_inner (by decide) formed.name) ?_
  intro c hc
  obtain ⟨m, hm, rfl⟩ := List.mem_map.mp hc
  obtain ⟨input, output⟩ := h.methods s hs m hm
  refine .line ?_
  simp only [List.cons_append, List.forall_mem_cons, List.forall_mem_append]
  exact ⟨isInner_fixed "rpc" (by decide), isInner_of_isIdentifier (formed.methods m hm), Method.argument_inner _ input,
    isInner_fixed "returns" (by decide), Method.argument_inner _ output⟩

theorem Import.clause_spelled (i : Import) : i.clause.Spelled := by
  refine .line ?_
  have path := isInner_quote i.path
  simp only [List.cons_append, List.forall_mem_cons, List.forall_mem_append]
  refine ⟨isInner_fixed "import" (by decide), ?_, path, by simp⟩
  split
  · simpa using isInner_fixed "public" (by decide)
  · simp

theorem SchemaFile.Writable.clauses_spelled {f : SchemaFile} (h : f.Writable) : ∀ c ∈ f.clauses, c.Spelled := by
  have formed := h.wellFormed
  simp only [Schema.clauses, List.forall_mem_append, List.forall_mem_map]
  refine ⟨⟨⟨⟨⟨?_, ?_⟩, fun i _ => i.clause_spelled⟩, Message.clause_spelled formed.messages⟩,
    fun e he => (formed.enums e he).clause_spelled⟩, fun s hs => h.service_spelled hs⟩
  · intro v _
    refine .line ?_
    simp only [List.forall_mem_cons]
    exact ⟨isInner_fixed "syntax" (by decide), isInner_fixed "=" (by decide), isInner_quote v, by simp⟩
  · intro p hp
    have dotted : TypeName p := .inl (h.package p (Option.mem_toList.mp hp))
    refine .line ?_
    simp only [List.forall_mem_cons]
    exact ⟨isInner_fixed "package" (by decide), isInner_of_isTypeName (isTypeName_iff.mpr dotted), by simp⟩

end spelled

end SchemaGen
