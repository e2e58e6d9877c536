import SchemaGen.Output.Declared
/-!
# Messages at every depth

All messages of a file, each with the names of the messages around it and each before those inside it. What a
file declares, as symbols or as generated items, is said message by message in this order.
-/
namespace SchemaGen

namespace Message

@[elab_as_elim] theorem forestInduction {P : List Message → Prop} (nil : P [])
    (cons : ∀ m ms, P m.messages → P ms → P (m :: ms)) (ms : List Message) : P ms := by
  cases ms with
  | nil => exact nil
  | cons m ms => exact cons m ms (forestInduction nil cons m.messages) (forestInduction nil cons ms)
termination_by ms
decreasing_by
  · cases m
    simp only [List.cons.sizeOf_spec, mk.sizeOf_spec]
    omega
  · simp only [List.cons.sizeOf_spec]
    omega

end Message

/-- A message and the names of the messages around it, from the outermost in. -/
structure Nested where
  scope : List String
  message : Message

namespace Nested

def inner (n : Nested) : List String :=
  n.scope ++ [n.message.name]

end Nested

namespace Message

mutual

def nested (scope : List String) : Message → List Nested
  | ⟨name, position, fields, oneofs, messages, enums⟩ =>
    ⟨scope, ⟨name, position, fields, oneofs, messages, enums⟩⟩ :: nestedAll (scope ++ [name]) messages

def nestedAll (scope : List String) : List Message → List Nested
  | [] => []
  | m :: ms => m.nested scope ++ nestedAll scope ms

end

theorem nested_eq (scope : List String) (m : Message) :
    m.nested scope = ⟨scope, m⟩ :: nestedAll (scope ++ [m.name]) m.messages := by
  cases m
  rw [nested]

theorem mem_nestedAll {scope : List String} {ms : List Message} {n : Nested} :
    n ∈ nestedAll scope ms ↔ ∃ m ∈ ms, n ∈ m.nested scope := by
  induction ms with
  | nil => simp [nestedAll]
  | cons m ms ih => simp [nestedAll, ih]

theorem mem_nested {scope : List String} {m : Message} {n : Nested} :
    n ∈ m.nested scope ↔ n = ⟨scope, m⟩ ∨ ∃ k ∈ m.messages, n ∈ k.nested (scope ++ [m.name]) := by
  rw [nested_eq, List.mem_cons, mem_nestedAll]

/-- What a message has by itself and from the messages right inside it, all messages have. -/
theorem nestedInduction {Q P : Message → Prop} (step : ∀ m, Q m → (∀ k ∈ m.messages, P k) → P m)
    {scope : List String} {ms : List Message} (h : ∀ n ∈ nestedAll scope ms, Q n.message) : ∀ m ∈ ms, P m := by
  induction ms using forestInduction generalizing scope with
  | nil => simp
  | cons m ms inside rest =>
    rw [nestedAll, nested_eq] at h
    simp only [List.cons_append, List.forall_mem_cons, List.forall_mem_append] at h
    obtain ⟨itself, within, others⟩ := h
    exact List.forall_mem_cons.mpr ⟨step m itself (inside within), rest others⟩

end Message

namespace SchemaFile

/-- All messages of a file, a message before those inside it. -/
def everyMessage (f : SchemaFile) : List Nested :=
  Message.nestedAll [] f.messages

def placeAt (f : SchemaFile) (n : Nested) : Place :=
  ⟨f.name, f.package, n.inner⟩

def messageSymbol (f : SchemaFile) (n : Nested) : Symbol :=
  f.symbol n.scope .message n.message.name

def symbolsAt (f : SchemaFile) (n : Nested) : List Symbol :=
  f.messageSymbol n :: n.message.enums.map (f.symbol n.inner .enum ·.name)

theorem messageSymbols_eq (f : SchemaFile) (parents : List String) (m : Message) :
    f.messageSymbols parents m =
      f.symbolsAt ⟨parents, m⟩ ++ f.messagesSymbols (parents ++ [m.name]) m.messages := by
  cases m
  rw [messageSymbols]
  rfl

theorem messagesSymbols_eq (f : SchemaFile) (parents : List String) (ms : List Message) :
    f.messagesSymbols parents ms = (Message.nestedAll parents ms).flatMap f.symbolsAt := by
  induction ms using Message.forestInduction generalizing parents with
  | nil => rfl
  | cons m ms inside rest =>
    rw [messagesSymbols, messageSymbols_eq, inside, rest, Message.nestedAll, Message.nested_eq,
      List.flatMap_append, List.flatMap_cons]

theorem symbols_eq (f : SchemaFile) :
    f.symbols = f.everyMessage.flatMap f.symbolsAt ++ f.enums.map (f.symbol [] .enum ·.name) := by
  rw [symbols, messagesSymbols_eq]
  rfl

theorem messageSymbol_mem {f : SchemaFile} {n : Nested} (h : n ∈ f.everyMessage) :
    f.messageSymbol n ∈ f.symbols := by
  rw [symbols_eq]
  exact List.mem_append_left _ (List.mem_flatMap.mpr ⟨n, h, List.mem_cons_self⟩)

end SchemaFile

namespace Output
open Code

def within (s : Site) (scope : List String) : Site :=
  { s with scope }

/-- What is generated for a message itself: its record, its unions and its enumerations. -/
def declaredAt (s : Site) (n : Nested) : List Declared :=
  ⟨within s n.scope, .message n.message⟩ ::
    (n.message.oneofs.map (⟨within s n.inner, .oneof ·⟩) ++ n.message.enums.map (⟨within s n.inner, .enum ·⟩))

theorem message_mem_declaredAt (s : Site) (n : Nested) : ⟨within s n.scope, .message n.message⟩ ∈ declaredAt s n :=
  List.mem_cons_self

theorem oneof_mem_declaredAt (s : Site) {n : Nested} {o : Oneof} (ho : o ∈ n.message.oneofs) :
    ⟨within s n.inner, .oneof o⟩ ∈ declaredAt s n :=
  List.mem_cons_of_mem _ (List.mem_append_left _ (List.mem_map_of_mem ho))

theorem enum_mem_declaredAt (s : Site) {n : Nested} {e : EnumDef} (he : e ∈ n.message.enums) :
    ⟨within s n.inner, .enum e⟩ ∈ declaredAt s n :=
  List.mem_cons_of_mem _ (List.mem_append_right _ (List.mem_map_of_mem he))

theorem mem_declared_of_message {s : Site} {f : SchemaFile} {n : Nested} (hn : n ∈ f.everyMessage) {d : Declared}
    (hd : d ∈ declaredAt s n) :
    d ∈ f.everyMessage.flatMap (declaredAt s) ++ f.enums.map (Declared.mk s <| .enum ·) :=
  List.mem_append_left _ (List.mem_flatMap.mpr ⟨n, hn, hd⟩)

theorem ofMessage_eq (s : Site) (m : Message) :
    ofMessage s m = declaredAt s ⟨s.scope, m⟩ ++ ofMessages (s.inside m.name) m.messages := by
  cases m
  rw [ofMessage]
  rfl

theorem ofMessages_eq (s : Site) (ms : List Message) :
    ofMessages s ms = (Message.nestedAll s.scope ms).flatMap (declaredAt s) := by
  induction ms using Message.forestInduction generalizing s with
  | nil => rfl
  | cons m ms inside rest =>
    rw [ofMessages, ofMessage_eq, inside, rest, Message.nestedAll, Message.nested_eq, List.flatMap_append,
      List.flatMap_cons]
    rfl

theorem ofFile_eq (registry : Registry) (config : Config) (f : SchemaFile) :
    ofFile registry config f = f.everyMessage.flatMap (declaredAt (.top registry config f)) ++
      f.enums.map (⟨.top registry config f, .enum ·⟩) := by
  rw [ofFile, ofMessages_eq]
  rfl

end Output

end SchemaGen
