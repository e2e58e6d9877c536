import SchemaGen.Code.Declaration
import SchemaGen.Proofs.Naming
import SchemaGen.Proofs.Numeral
import SchemaGen.Proofs.Tree
/-!
# Reading a declaration back

The text of a record, a marker or a union tells what meets the wire. Its lines give the members in order, and the
attribute before a member gives its number, or the union that holds a oneof and the numbers of its variants. What is
read from the text of a declaration is what the declaration was written from.
-/
namespace SchemaGen.Code
open Text Lexeme Output

inductive Wire where
  | tag (number : Int)
  | oneof (union : String) (tags : List Int)
deriving DecidableEq, Repr

/-- A member as it is declared: its name, the words of its attribute, what they fix on the wire, and its type. -/
structure Entry where
  name : String
  content : String
  wire : Wire
  type : String
deriving DecidableEq, Repr

inductive Form where
  | marker
  | record
  | union
deriving DecidableEq, Repr

/-- What a declaration says about the wire. -/
structure Sketch where
  form : Form
  name : String
  entries : List Entry
deriving DecidableEq, Repr

def Encoding.wire : Encoding → Wire
  | map _ _ tag | repeated _ _ tag | optional _ _ tag | single _ _ tag => .tag tag
  | oneof union tags => .oneof union tags

def Encoding.content : Encoding → String
  | map key value tag => "map = \"" ++ key ++ ", " ++ value ++ "\", tag = \"" ++ toString tag ++ "\""
  | repeated kind packed tag =>
    kind ++ ", repeated" ++ (if packed then ", packed = \"true\"" else "") ++ ", tag = \"" ++ toString tag ++ "\""
  | optional kind boxed tag =>
    kind ++ ", optional" ++ (if boxed then ", boxed" else "") ++ ", tag = \"" ++ toString tag ++ "\""
  | single kind boxed tag => kind ++ (if boxed then ", boxed" else "") ++ ", tag = \"" ++ toString tag ++ "\""
  | oneof union tags => "oneof = \"" ++ union ++ "\", tags = \"" ++ joinWith ", " (tags.map toString) ++ "\""

def Member.entry (m : Member) : Entry :=
  ⟨m.name, m.encoding.content, m.encoding.wire, m.type⟩

def Declaration.sketch? : Declaration → Option Sketch
  | marker name => some ⟨.marker, name, []⟩
  | record name members => some ⟨.record, name, members.map (·.entry)⟩
  | union name variants => some ⟨.union, name, variants.map (·.entry)⟩
  | enumeration _ _ _ => none

section reading

def before? (stop cs : List Char) : Option (List Char) :=
  (after? stop.reverse cs.reverse).map List.reverse

/-- What stands between `start` and `stop` in a text that begins and ends with them. -/
def between? (start stop text : String) : Option String :=
  ((before? stop.toList text.toList).bind (after? start.toList)).map String.ofList

def cutLast (separator : Char) (text : String) : String × String :=
  let cs := text.toList.reverse
  (.ofList (cs.dropWhile (· != separator)).tail.reverse, .ofList (cs.takeWhile (· != separator)).reverse)

def numberOf? : List Char → Option Int
  | '-' :: ds => (numeral? 10 ds).map fun n => -(n : Int)
  | ds => (numeral? 10 ds).map fun n => (n : Int)

def numbersOf? (cs : List Char) : Option (List Int) :=
  if cs.isEmpty then some [] else (piecesOf ',' cs).mapM fun piece => numberOf? (piece.filter (· != ' '))

def Wire.read? (line : String) : Option Wire := do
  let (label, numbers) := cutLast '"' (← between? "    #[prost(" "\")]" line)
  match between? "oneof = \"" "\", tags = " label with
  | some union => return .oneof union (← numbersOf? numbers.toList)
  | none =>
    let _ ← between? "" ", tag = " label
    return .tag (← numberOf? numbers.toList)

/-- How the line of a member is written: what stands before its name, between name and type, and after the type. -/
structure LineForm where
  start : String
  middle : String
  stop : String
  apart : middle.toList.head?.any (!isNamePart ·) := by decide
  oneLine : '\n' ∉ (start ++ middle ++ stop).toList := by decide

def fieldLine : LineForm := { start := "    pub ", middle := ": ", stop := "," }

def variantLine : LineForm := { start := "    ", middle := "(", stop := ")," }

namespace LineForm

def write (form : LineForm) (name type : String) : String :=
  form.start ++ name ++ form.middle ++ type ++ form.stop

def read? (form : LineForm) (line : String) : Option (String × String) := do
  let content := (← between? form.start form.stop line).toList
  let type ← after? form.middle.toList (content.dropWhile isNamePart)
  return (.ofList (content.takeWhile isNamePart), .ofList type)

/-- The entries up to the closing brace. Each is an attribute and the line it is about, perhaps marked as deprecated. -/
def entries? (form : LineForm) : List String → Option (List Entry)
  | mark :: line :: rest =>
    if mark = "\x7d" then
      if line.isEmpty && rest.isEmpty then some [] else none
    else if mark = "    #[deprecated]" then form.entries? (line :: rest)
    else do
      let content ← between? "    #[prost(" ")]" mark
      let wire ← Wire.read? mark
      let (name, type) ← form.read? line
      return ⟨name, content, wire, type⟩ :: (← form.entries? rest)
  | _ => none

end LineForm

/-- The sketch that a text gives: its second line tells its form, the lines after it the entries. -/
def Sketch.read? (text : String) : Option Sketch :=
  match linesOf text with
  | _ :: header :: body =>
    match between? "pub struct " ";" header, between? "pub struct " " \x7b" header,
      between? "pub enum " " \x7b" header with
    | some name, _, _ => some ⟨.marker, name, []⟩
    | none, some name, _ => (fieldLine.entries? body).map (⟨.record, name, ·⟩)
    | none, none, some name => (variantLine.entries? body).map (⟨.union, name, ·⟩)
    | none, none, none => none
  | _ => none

end reading

section parts

theorem before?_append (cs stop : List Char) : before? stop (cs ++ stop) = some cs := by
  rw [before?, List.reverse_append, after?_append, Option.map_some, List.reverse_reverse]

theorem between?_append (start text stop : String) : between? start stop (start ++ text ++ stop) = some text := by
  rw [between?, String.toList_append, before?_append, Option.bind_some, String.toList_append, after?_append,
    Option.map_some, String.ofList_toList]

theorem append_of_between? {start stop line text : String} (h : between? start stop line = some text) :
    line = start ++ text ++ stop := by
  obtain ⟨rest, found, rfl⟩ := Option.map_eq_some_iff.mp h
  obtain ⟨front, ended, began⟩ := Option.bind_eq_some_iff.mp found
  obtain ⟨reversed, last, rfl⟩ := Option.map_eq_some_iff.mp ended
  have tail := congrArg List.reverse (append_of_after? last)
  rw [List.reverse_reverse, List.reverse_append, List.reverse_reverse, append_of_after? began] at tail
  rw [← String.toList_inj, tail]
  simp

theorem between?_eq_none_of_stop {start stop tail : String} (text : String)
    (other : ∀ cs, after? stop.toList.reverse (tail.toList.reverse ++ cs) = none) :
    between? start stop (text ++ tail) = none := by
  rw [between?, String.toList_append, before?, List.reverse_append, other]
  rfl

theorem between?_eq_none_of_start {start stop head : String} (text : String)
    (other : ∀ cs, after? start.toList (head.toList ++ cs) = none) :
    between? start stop (head ++ text ++ stop) = none := by
  rw [between?, String.toList_append, before?_append, Option.bind_some, String.toList_append, other]
  rfl

theorem cutLast_append {separator : Char} (text : String) {last : String} (h : separator ∉ last.toList) :
    cutLast separator (text ++ String.singleton separator ++ last) = (text, last) := by
  have others : ∀ c ∈ last.toList.reverse, (c != separator) = true := by
    intro c hc
    rw [List.mem_reverse] at hc
    simpa using fun same : c = separator => h (same ▸ hc)
  have chars : (text ++ String.singleton separator ++ last).toList.reverse =
      last.toList.reverse ++ separator :: text.toList.reverse := by
    simp
  rw [cutLast, chars, List.takeWhile_append_of_pos others, List.dropWhile_append_of_pos others]
  simp

end parts

section numbers

theorem numberOf?_repr (n : Int) : numberOf? n.repr.toList = some n := by
  cases n with
  | ofNat n =>
    change numberOf? n.repr.toList = _
    unfold numberOf?
    split
    · rename_i ds written
      have minus : '-'.isDigit := isDigit_of_mem_repr (n := n) (by simp [written])
      exact absurd minus (by decide)
    · rw [numeral?_repr]
      rfl
  | negSucc n =>
    rw [toList_repr_negSucc, numberOf?, numeral?_repr]
    rfl

theorem notMem_join {c : Char} (ns : List Int) (apart : c ∉ ", ".toList) (sign : c ≠ '-') (digit : ¬ c.isDigit) :
    c ∉ (joinWith ", " (ns.map Int.repr)).toList := by
  intro h
  rcases mem_toList_joinWith h with h | ⟨part, hp, h⟩
  · exact apart h
  · obtain ⟨n, _, rfl⟩ := List.mem_map.mp hp
    exact notMem_repr n sign digit h

/-- Cut at its commas, a list of numbers gives each number, with a blank before all but the first. -/
theorem piecesOf_join (lead : List Char) (h : ',' ∉ lead) (n : Int) (ns : List Int) :
    piecesOf ',' (lead ++ (joinWith ", " ((n :: ns).map Int.repr)).toList) =
      (lead ++ n.repr.toList) :: ns.map fun k => ' ' :: k.repr.toList := by
  have apart : ∀ (lead : List Char) (n : Int), ',' ∉ lead → ',' ∉ lead ++ n.repr.toList := by
    intro lead n h
    simp [h, notMem_repr n]
  induction ns generalizing lead n with
  | nil => simpa [joinWith] using piecesOf_single (apart lead n h)
  | cons k ns ih =>
    have chars : lead ++ (joinWith ", " ((n :: k :: ns).map Int.repr)).toList =
        (lead ++ n.repr.toList) ++ ',' :: ([' '] ++ (joinWith ", " ((k :: ns).map Int.repr)).toList) := by
      simp [joinWith]
    rw [chars, piecesOf_append (apart lead n h), ih [' '] (by decide)]
    rfl

theorem numberOf?_filter (n : Int) : numberOf? (n.repr.toList.filter (· != ' ')) = some n := by
  have kept : n.repr.toList.filter (· != ' ') = n.repr.toList := by
    rw [List.filter_eq_self]
    intro c hc
    simpa using fun same : c = ' ' => notMem_repr n (by decide) (by decide) (same ▸ hc)
  rw [kept, numberOf?_repr]

theorem numbersOf?_join (ns : List Int) : numbersOf? (joinWith ", " (ns.map Int.repr)).toList = some ns := by
  cases ns with
  | nil => rfl
  | cons n ns =>
    have pieces := piecesOf_join [] (by simp) n ns
    rw [List.nil_append] at pieces
    have nonempty : (joinWith ", " ((n :: ns).map Int.repr)).toList ≠ [] := by
      intro empty
      have read := numberOf?_repr n
      rw [empty] at pieces
      simp only [piecesOf, List.nil_append, List.cons.injEq] at pieces
      rw [← pieces.1] at read
      cases read
    have rest : (ns.map fun k => ' ' :: k.repr.toList).mapM (fun piece => numberOf? (piece.filter (· != ' '))) =
        some ns := by
      clear pieces nonempty
      induction ns with
      | nil => rfl
      | cons k ns ih =>
        have first : numberOf? ((' ' :: k.repr.toList).filter (· != ' ')) = some k := numberOf?_filter k
        rw [List.map_cons, List.mapM_cons, first, ih]
        rfl
    rw [numbersOf?, if_neg (by simpa using nonempty), pieces, List.mapM_cons, List.nil_append, numberOf?_filter, rest]
    rfl

end numbers

theorem Encoding.render_eq (e : Encoding) : e.render = "#[prost(" ++ e.content ++ ")]" := by
  have tag : ∀ n : Int, tagText n = ", tag = \"" ++ toString n ++ "\"" ++ ")]" := by
    intro n
    have stop : "\")]" = "\"" ++ ")]" := by decide
    rw [tagText, stop, ← String.append_assoc]
  unfold render content
  cases e with
  | map key value n =>
    have first : "#[prost(map = \"" = "#[prost(" ++ "map = \"" := by decide
    have label : "\", tag = \"" = "\"" ++ ", tag = \"" := by decide
    simp only [tag, first, label, String.append_assoc]
  | repeated kind packed n => simp only [tag, String.append_assoc]
  | optional kind boxed n =>
    simp only [tag, boxMark, String.append_assoc]
  | single kind boxed n =>
    simp only [tag, boxMark, String.append_assoc]
  | oneof union tags =>
    have first : "#[prost(oneof = \"" = "#[prost(" ++ "oneof = \"" := by decide
    have stop : "\")]" = "\"" ++ ")]" := by decide
    simp only [first, stop, String.append_assoc]

theorem Encoding.between?_render (e : Encoding) : between? "    #[prost(" ")]" ("    " ++ e.render) = some e.content := by
  have start : "    #[prost(" = "    " ++ "#[prost(" := by decide
  rw [e.render_eq, start, ← String.append_assoc, ← String.append_assoc]
  exact between?_append _ _ _

namespace Wire

theorem read?_tag {text : String} (lead : String) {n : Int} (h : text = "#[prost(" ++ lead ++ Encoding.tagText n) :
    read? ("    " ++ text) = some (.tag n) := by
  have line : "    " ++ text =
      "    #[prost(" ++ (lead ++ ", tag = " ++ String.singleton '"' ++ n.repr) ++ "\")]" := by
    have start : "    #[prost(" = "    " ++ "#[prost(" := by decide
    have label : ", tag = \"" = ", tag = " ++ String.singleton '"' := by decide
    rw [h, start, Encoding.tagText, label]
    simp only [String.append_assoc]
    rfl
  have noQuote : '"' ∉ n.repr.toList := notMem_repr n (by decide) (by decide)
  -- The two kinds of attributes differ in their last label, `tag` or `tags`.
  have noOneof : between? "oneof = \"" "\", tags = " (lead ++ ", tag = ") = none :=
    between?_eq_none_of_stop lead fun _ => rfl
  have tag : between? "" ", tag = " (lead ++ ", tag = ") = some lead := by
    simpa using between?_append "" lead ", tag = "
  rw [read?, line, between?_append]
  simp only [bind, Option.bind_some, cutLast_append _ noQuote, noOneof, tag, numberOf?_repr]
  rfl

theorem read?_oneof {text union : String} {tags : List Int}
    (h : text = "#[prost(" ++ ("oneof = \"" ++ union ++ "\", tags = \"" ++ joinWith ", " (tags.map toString)) ++ "\")]") :
    read? ("    " ++ text) = some (.oneof union tags) := by
  have line : "    " ++ text = "    #[prost(" ++
      ("oneof = \"" ++ union ++ "\", tags = " ++ String.singleton '"' ++ joinWith ", " (tags.map Int.repr)) ++ "\")]" := by
    have start : "    #[prost(" = "    " ++ "#[prost(" := by decide
    have label : "\", tags = \"" = "\", tags = " ++ String.singleton '"' := by decide
    rw [h, start, label]
    simp only [String.append_assoc]
    rfl
  have noQuote : '"' ∉ (joinWith ", " (tags.map Int.repr)).toList :=
    notMem_join tags (by decide) (by decide) (by decide)
  rw [read?, line, between?_append]
  simp only [bind, Option.bind_some, cutLast_append _ noQuote, between?_append, numbersOf?_join]
  rfl

theorem read?_render (e : Encoding) : read? ("    " ++ e.render) = some e.wire := by
  unfold Encoding.render
  cases e with
  | map key value tag =>
    have first : "#[prost(map = \"" = "#[prost(" ++ "map = \"" := by decide
    exact read?_tag ("map = \"" ++ key ++ ", " ++ value ++ "\"") (by simp only [first, String.append_assoc])
  | repeated kind packed tag =>
    exact read?_tag (kind ++ ", repeated" ++ if packed then ", packed = \"true\"" else "")
      (by simp only [String.append_assoc])
  | optional kind boxed tag =>
    exact read?_tag (kind ++ ", optional" ++ Encoding.boxMark boxed) (by simp only [String.append_assoc])
  | single kind boxed tag =>
    exact read?_tag (kind ++ Encoding.boxMark boxed) (by simp only [String.append_assoc])
  | oneof union tags =>
    have first : "#[prost(oneof = \"" = "#[prost(" ++ "oneof = \"" := by decide
    exact read?_oneof (by simp only [first, String.append_assoc])

end Wire

namespace LineForm

theorem read?_write (form : LineForm) {name : String} (isName : IsName name) (type : String) :
    form.read? (form.write name type) = some (name, type) := by
  obtain ⟨c, head, other⟩ := Option.any_eq_true _ _ |>.mp form.apart
  obtain ⟨cs, middle⟩ := List.head?_eq_some_iff.mp head
  have text : form.write name type = form.start ++ (name ++ (form.middle ++ type)) ++ form.stop := by
    simp only [write, String.append_assoc]
  have taken : (name ++ (form.middle ++ type)).toList.takeWhile isNamePart = name.toList := by
    rw [String.toList_append, String.toList_append, middle, List.takeWhile_append_of_pos isName]
    simp_all
  have dropped : (name ++ (form.middle ++ type)).toList.dropWhile isNamePart = form.middle.toList ++ type.toList := by
    rw [String.toList_append, String.toList_append, middle, List.dropWhile_append_of_pos isName]
    simp_all
  rw [read?, text, between?_append]
  simp only [bind, Option.bind_some, dropped, after?_append, taken, String.ofList_toList]
  rfl

theorem entries?_step {form : LineForm} {mark line content name type : String} {wire : Wire} {rest : List String}
    (words : between? "    #[prost(" ")]" mark = some content) (written : Wire.read? mark = some wire)
    (member : form.read? line = some (name, type)) :
    form.entries? (mark :: line :: rest) = (form.entries? rest).map (⟨name, content, wire, type⟩ :: ·) := by
  -- Neither a brace nor a deprecation reads as an attribute.
  have inside : mark ≠ "\x7d" := by
    rintro rfl
    cases written
  have kept : mark ≠ "    #[deprecated]" := by
    rintro rfl
    cases written
  rw [entries?, if_neg inside, if_neg kept, words, written, member]
  cases form.entries? rest <;> rfl

def lines (form : LineForm) (m : Member) : List String :=
  (if m.deprecated then ["    #[deprecated]"] else []) ++ ["    " ++ m.encoding.render, form.write m.name m.type]

theorem entries?_lines {form : LineForm} {m : Member} (isName : IsName m.name) {line : String} {rest : List String} :
    form.entries? (form.lines m ++ line :: rest) = (form.entries? (line :: rest)).map (m.entry :: ·) := by
  have step : form.entries? (("    " ++ m.encoding.render) :: form.write m.name m.type :: line :: rest) =
      (form.entries? (line :: rest)).map (m.entry :: ·) :=
    entries?_step (Encoding.between?_render m.encoding) (Wire.read?_render m.encoding) (form.read?_write isName m.type)
  unfold lines
  split
  · simp only [List.cons_append, List.nil_append]
    rw [entries?, if_neg (by decide), if_pos rfl]
    exact step
  · exact step

theorem entries?_flatMap {form : LineForm} {members : List Member} (names : ∀ m ∈ members, IsName m.name) :
    form.entries? (members.flatMap form.lines ++ ["\x7d", ""]) = some (members.map (·.entry)) := by
  induction members with
  | nil => rfl
  | cons m members ih =>
    have rest := ih fun m hm => names m (by simp [hm])
    obtain ⟨line, lines, more⟩ : ∃ line lines, members.flatMap form.lines ++ ["\x7d", ""] = line :: lines := by
      cases members.flatMap form.lines with
      | nil => exact ⟨_, _, rfl⟩
      | cons line lines => exact ⟨_, _, rfl⟩
    rw [List.flatMap_cons, List.append_assoc, more, entries?_lines (names m (by simp)), ← more, rest]
    rfl

end LineForm

section lines

theorem unlines_cons (line : String) (lines : List String) : unlines (line :: lines) = line ++ "\n" ++ unlines lines := by
  simp [unlines, ← String.toList_inj, toList_joinWith_empty]

theorem unlines_append (lines lines' : List String) : unlines (lines ++ lines') = unlines lines ++ unlines lines' := by
  simp [unlines, ← String.toList_inj, toList_joinWith_empty]

theorem linesOf_cons {line : String} (h : '\n' ∉ line.toList) (rest : String) :
    linesOf (line ++ "\n" ++ rest) = line :: linesOf rest := by
  have chars : (line ++ "\n" ++ rest).toList = line.toList ++ '\n' :: rest.toList := by simp
  rw [linesOf, chars, piecesOf_append h, List.map_cons, String.ofList_toList]
  rfl

theorem unlines_join {texts : List String} (h : texts ≠ []) : joinWith "\n" texts ++ "\n" = unlines texts := by
  induction texts with
  | nil => exact absurd rfl h
  | cons text texts ih =>
    cases texts with
    | nil => rfl
    | cons next texts =>
      have joined : joinWith "\n" (text :: next :: texts) = text ++ "\n" ++ joinWith "\n" (next :: texts) := rfl
      rw [joined, unlines_cons, ← ih (by simp), String.append_assoc]

end lines

/-- The words of an attribute that come from the schema. -/
def Encoding.words : Encoding → List String
  | map key value _ => [key, value]
  | repeated kind _ _ | optional kind _ _ | single kind _ _ => [kind]
  | oneof union _ => [union]

theorem Encoding.notMem_render {e : Encoding} (words : ∀ w ∈ e.words, '\n' ∉ w.toList) :
    '\n' ∉ e.render.toList := by
  have tag : ∀ n : Int, '\n' ∉ (tagText n).toList := fun n =>
    notMem_append (notMem_append (by decide) (notMem_repr n (by decide) (by decide))) (by decide)
  have box : ∀ boxed : Bool, '\n' ∉ (boxMark boxed).toList := by decide
  have pack : ∀ packed : Bool, '\n' ∉ (if packed then ", packed = \"true\"" else "").toList := by decide
  unfold render
  cases e with
  | map key value n =>
    have key := words key List.mem_cons_self
    have value := words value (List.mem_cons_of_mem _ List.mem_cons_self)
    exact notMem_append (notMem_append (notMem_append (notMem_append (notMem_append (by decide) key) (by decide)) value)
      (by decide)) (tag n)
  | repeated kind packed n =>
    have kind := words kind List.mem_cons_self
    exact notMem_append (notMem_append (notMem_append (notMem_append (by decide) kind) (by decide)) (pack packed)) (tag n)
  | optional kind boxed n =>
    have kind := words kind List.mem_cons_self
    exact notMem_append (notMem_append (notMem_append (notMem_append (by decide) kind) (by decide)) (box boxed)) (tag n)
  | single kind boxed n =>
    have kind := words kind List.mem_cons_self
    exact notMem_append (notMem_append (notMem_append (by decide) kind) (box boxed)) (tag n)
  | oneof union tags =>
    have union := words union List.mem_cons_self
    have numbers : '\n' ∉ (joinWith ", " (tags.map toString)).toList :=
      notMem_join tags (by decide) (by decide) (by decide)
    exact notMem_append (notMem_append (notMem_append (notMem_append (by decide) union) (by decide)) numbers) (by decide)

structure Member.Readable (m : Member) : Prop where
  name : IsName m.name
  type : '\n' ∉ m.type.toList
  encoding : '\n' ∉ m.encoding.render.toList

namespace LineForm
variable {form : LineForm}

theorem notMem_of_mem_lines {m : Member} (readable : m.Readable) {line : String} (h : line ∈ form.lines m) :
    '\n' ∉ line.toList := by
  have marks := form.oneLine
  have name : '\n' ∉ m.name.toList := readable.name.notMem (by decide)
  simp only [String.toList_append, List.mem_append, not_or] at marks
  simp only [lines, List.mem_append, List.mem_cons, List.not_mem_nil, or_false] at h
  rcases h with h | rfl | rfl
  · split at h
    · obtain rfl : line = "    #[deprecated]" := by simpa using h
      decide
    · cases h
  · simpa using readable.encoding
  · simp [write, marks, name, readable.type]

theorem unlines_lines (m : Member) : unlines (form.lines m) = m.attributes ++ form.write m.name m.type ++ "\n" := by
  have nothing : unlines [] = "" := rfl
  unfold lines Member.attributes
  split
  · have first : "    #[deprecated]\n" = "    #[deprecated]" ++ "\n" := by decide
    simp only [List.cons_append, List.nil_append, unlines_cons, nothing, first, String.append_assoc,
      String.append_empty]
  · simp only [List.nil_append, unlines_cons, nothing, String.append_assoc, String.append_empty, String.empty_append]

theorem lines_of_body {render : Member → String} (each : ∀ m, render m ++ "\n" = unlines (form.lines m))
    {first header : String} (hf : '\n' ∉ first.toList) (hh : '\n' ∉ header.toList) {members : List Member}
    (nonempty : members ≠ []) (readable : ∀ m ∈ members, m.Readable) :
    linesOf (unlines [first, header, joinWith "\n" (members.map render), "\x7d"]) =
      first :: header :: (members.flatMap form.lines ++ ["\x7d", ""]) := by
  have body : ∀ ms : List Member, unlines (ms.map render) = unlines (ms.flatMap form.lines) := by
    intro ms
    induction ms with
    | nil => rfl
    | cons m ms ih => rw [List.map_cons, unlines_cons, each, ih, List.flatMap_cons, unlines_append]
  have text : joinWith "\n" (members.map render) ++ "\n" = unlines (members.flatMap form.lines) := by
    rw [unlines_join (by simpa using nonempty), body]
  have rest : linesOf (unlines (members.flatMap form.lines ++ ["\x7d"])) = members.flatMap form.lines ++ ["\x7d", ""] := by
    rw [unlines, linesOf_unlines, List.append_assoc]
    · rfl
    · intro line hl
      rcases List.mem_append.mp hl with hl | hl
      · obtain ⟨m, hm, hl⟩ := List.mem_flatMap.mp hl
        exact notMem_of_mem_lines (readable m hm) hl
      · obtain rfl : line = "\x7d" := by simpa using hl
        decide
  rw [unlines_cons, unlines_cons, unlines_cons, text, ← unlines_append, linesOf_cons hf, linesOf_cons hh, rest]

end LineForm

/-- A declaration whose text can be cut into lines. -/
def Declaration.Readable : Declaration → Prop
  | marker name => IsName name
  | record name members => IsName name ∧ members ≠ [] ∧ ∀ m ∈ members, m.Readable
  | union name variants => IsName name ∧ variants ≠ [] ∧ ∀ m ∈ variants, m.Readable
  | enumeration _ _ _ => False

section lines

theorem notMem_header {start name stop : String} (isName : IsName name) (hs : '\n' ∉ start.toList)
    (ht : '\n' ∉ stop.toList) : '\n' ∉ (start ++ name ++ stop).toList :=
  notMem_append (notMem_append hs (isName.notMem (by decide))) ht

variable {name : String} (isName : IsName name) {members : List Member} (nonempty : members ≠ [])
  (readable : ∀ m ∈ members, m.Readable)
include isName nonempty readable

theorem linesOf_record : linesOf (Declaration.record name members).render =
    Declaration.recordDerives :: ("pub struct " ++ name ++ " \x7b") ::
      (members.flatMap fieldLine.lines ++ ["\x7d", ""]) := by
  have text : ∀ m : Member, m.renderField ++ "\n" = unlines (fieldLine.lines m) := by
    intro m
    rw [LineForm.unlines_lines]
    simp only [Member.renderField, LineForm.write, fieldLine, String.append_assoc]
  exact LineForm.lines_of_body text (by decide) (notMem_header isName (by decide) (by decide)) nonempty readable

theorem linesOf_union : linesOf (Declaration.union name members).render =
    "#[derive(Clone, PartialEq, ::prost::Oneof)]" :: ("pub enum " ++ name ++ " \x7b") ::
      (members.flatMap variantLine.lines ++ ["\x7d", ""]) := by
  have text : ∀ m : Member, m.renderVariant ++ "\n" = unlines (variantLine.lines m) := by
    intro m
    rw [LineForm.unlines_lines]
    simp only [Member.renderVariant, LineForm.write, variantLine, String.append_assoc]
  exact LineForm.lines_of_body text (by decide) (notMem_header isName (by decide) (by decide)) nonempty readable

end lines

namespace Sketch

theorem read?_marker {name : String} (isName : IsName name) :
    read? (Declaration.marker name).render = some ⟨.marker, name, []⟩ := by
  rw [Declaration.render, Declaration.markerText, unlines_cons, unlines_cons, read?, linesOf_cons (by decide),
    linesOf_cons (notMem_header isName (by decide) (by decide))]
  simp only [between?_append]

theorem read?_record {name : String} (isName : IsName name) {members : List Member} (nonempty : members ≠ [])
    (readable : ∀ m ∈ members, m.Readable) :
    read? (Declaration.record name members).render = some ⟨.record, name, members.map (·.entry)⟩ := by
  have noMarker : between? "pub struct " ";" ("pub struct " ++ name ++ " \x7b") = none :=
    between?_eq_none_of_stop _ fun _ => rfl
  rw [read?, linesOf_record isName nonempty readable]
  simp only [noMarker, between?_append]
  rw [LineForm.entries?_flatMap fun m hm => (readable m hm).name, Option.map_some]

theorem read?_union {name : String} (isName : IsName name) {variants : List Member} (nonempty : variants ≠ [])
    (readable : ∀ m ∈ variants, m.Readable) :
    read? (Declaration.union name variants).render = some ⟨.union, name, variants.map (·.entry)⟩ := by
  have noMarker : between? "pub struct " ";" ("pub enum " ++ name ++ " \x7b") = none :=
    between?_eq_none_of_stop _ fun _ => rfl
  have noRecord : between? "pub struct " " \x7b" ("pub enum " ++ name ++ " \x7b") = none :=
    between?_eq_none_of_start _ fun _ => rfl
  rw [read?, linesOf_union isName nonempty readable]
  simp only [noMarker, noRecord, between?_append]
  rw [LineForm.entries?_flatMap fun m hm => (readable m hm).name, Option.map_some]

/-- The text of a declaration gives its sketch back. -/
theorem read?_render {d : Declaration} (readable : d.Readable) : read? d.render = d.sketch? := by
  cases d with
  | marker name => exact read?_marker readable
  | record name members => exact read?_record readable.1 readable.2.1 readable.2.2
  | union name variants => exact read?_union readable.1 readable.2.1 readable.2.2
  | enumeration name variants arms => exact readable.elim

end Sketch

end SchemaGen.Code
