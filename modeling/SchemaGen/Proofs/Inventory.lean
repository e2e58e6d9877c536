import SchemaGen.Proofs.Collision
import SchemaGen.Proofs.Numbering
import SchemaGen.Proofs.Readable
/-!
# What a module declares

The text of every piece is one declaration with the name of the piece, and it reads as what the piece comes from. So
the files of a module can be cut into its declarations again: one record for every message and for every built-in type
that belongs there, in one file and in order, and a file of its own for every oneof and every enum. No name is declared
twice, and nothing is declared that no piece stands for.
-/
namespace SchemaGen
open Text Code Output

section blocks

def PlainLine (line : String) : Prop :=
  '\n' ∉ line.toList ∧ Plain line

theorem plainLine_ofList {cs : List Char} (h : '\n' ∉ cs ∧ cs.head? ≠ some '#' ∧ cs.head? ≠ some 'u') :
    PlainLine (.ofList cs) :=
  ⟨notMem_ofList h.1, plain_ofList h.2⟩

theorem plain_of_blank {line : String} (h : line.toList.head? = some ' ') : Plain line :=
  plain_of_head? (by rw [h]; decide) (by rw [h]; decide)

theorem block_unlines {first : String} {lines : List String} (one : '\n' ∉ first.toList) (opening : opens first)
    (each : ∀ line ∈ lines, PlainLine line) : Block (linesOf (unlines (first :: lines))) := by
  have cut : linesOf (unlines (first :: lines)) = first :: (lines ++ [""]) := by
    rw [unlines, linesOf_unlines (List.forall_mem_cons.mpr ⟨one, fun l hl => (each l hl).1⟩)]
    rfl
  rw [cut]
  apply block_cons opening
  intro line hl
  rcases List.mem_append.mp hl with hl | hl
  · exact (each line hl).2
  · exact plain_blank line hl

theorem block_append {text rest : String} (block : Block (linesOf (text ++ "\n")))
    (plain : ∀ line ∈ linesOf rest, Plain line) : Block (linesOf (text ++ "\n" ++ rest)) := by
  have ended : linesOf (text ++ "\n") = linesOf text ++ [""] := by
    have cut := linesOf_append text ""
    rwa [String.append_empty] at cut
  have nonempty : linesOf text ≠ [] := by simp [linesOf, piecesOf_ne_nil]
  obtain ⟨first, lines, cut⟩ := List.exists_cons_of_ne_nil nonempty
  rw [ended, cut] at block
  rw [linesOf_append, cut]
  apply block_cons block.opening
  intro line hl
  rcases List.mem_append.mp hl with hl | hl
  · exact block.others line (List.mem_append_left _ hl)
  · exact plain line hl

namespace Code

theorem LineForm.plain_of_mem_lines {form : LineForm} (start : form.start.toList.head? = some ' ') {m : Member}
    {line : String} (h : line ∈ form.lines m) : Plain line := by
  apply plain_of_blank
  simp only [lines, List.mem_append, List.mem_cons, List.not_mem_nil, or_false] at h
  rcases h with h | rfl | rfl
  · split at h
    · rw [List.mem_singleton.mp h]
      decide
    · cases h
  · simp
  · simp [write, start]

theorem LineForm.block_members {form : LineForm} (start : form.start.toList.head? = some ' ') {first header : String}
    (opening : opens first) (plain : Plain header) (members : List Member) :
    Block (first :: header :: (members.flatMap form.lines ++ ["\x7d", ""])) := by
  apply block_cons opening
  intro line hl
  rcases List.mem_cons.mp hl with rfl | hl
  · exact plain
  · rcases List.mem_append.mp hl with hl | hl
    · obtain ⟨m, _, hl⟩ := List.mem_flatMap.mp hl
      exact plain_of_mem_lines start hl
    · rcases List.mem_cons.mp hl with rfl | hl
      · exact plain_of_head? (by decide) (by decide)
      · exact plain_blank line hl

theorem plain_header {start : String} (h : start.toList.head? = some 'p') (name stop : String) :
    Plain (start ++ name ++ stop) := by
  have first : (start ++ name ++ stop).toList.head? = some 'p' := by simp [h]
  exact plain_of_head? (by rw [first]; decide) (by rw [first]; decide)

theorem block_marker {name : String} (isName : IsName name) : Block (linesOf (Declaration.marker name).render) := by
  have impl : PlainLine ("impl ::prost::Message for " ++ name ++ " \x7b") := by
    refine ⟨notMem_header isName (notMem_ofList (by decide)) (by decide), ?_⟩
    have first : ("impl ::prost::Message for " ++ name ++ " \x7b").toList.head? = some 'i' := by simp
    exact plain_of_head? (by rw [first]; decide) (by rw [first]; decide)
  unfold Declaration.render Declaration.markerText
  apply block_unlines (notMem_ofList (by decide)) (opens_ofList (by decide))
  refine List.forall_mem_cons.mpr
    ⟨⟨notMem_header isName (by decide) (by decide), plain_header (by decide) name ";"⟩, ?_⟩
  refine List.forall_mem_cons.mpr ⟨plainLine_ofList (by decide), ?_⟩
  refine List.forall_mem_cons.mpr ⟨impl, ?_⟩
  repeat refine List.forall_mem_cons.mpr ⟨plainLine_ofList (by decide), ?_⟩
  exact List.forall_mem_nil _

theorem Declaration.Readable.block {d : Declaration} (h : d.Readable) : Block (linesOf d.render) := by
  cases d with
  | marker name => exact block_marker h
  | record name members =>
    rw [linesOf_record h.1 h.2.1 h.2.2]
    exact LineForm.block_members (by decide) (opens_ofList (by decide)) (plain_header (by decide) name _) members
  | union name variants =>
    rw [linesOf_union h.1 h.2.1 h.2.2]
    exact LineForm.block_members (by decide) (opens_ofList (by decide)) (plain_header (by decide) name _) variants
  | enumeration name variants arms => exact h.elim

theorem block_enumeration (s : Site) {e : EnumDef} (scope : ∀ p ∈ s.scope, IsName p) (formed : e.WellFormed) :
    Block (linesOf (s.enumeration e).render) := by
  obtain ⟨inhabited, readable, variants, arms⟩ := Numbering.isName_ofEnum formed
  have isName := Naming.isName_typeName scope (isName_of_isIdentifier formed.name)
  have entry : ∀ {form : LineForm}, form.start.toList.head? = some ' ' → ∀ {es : List (String × String)} {line : String},
      line ∈ es.map (fun e => form.write e.1 e.2) → Plain line := by
    intro form start es line hl
    obtain ⟨e, _, rfl⟩ := List.mem_map.mp hl
    exact plain_of_blank (by simp [LineForm.write, start])
  have impl : Plain ("impl " ++ Naming.typeName s.scope e.name ++ " \x7b") := by
    have first : ("impl " ++ Naming.typeName s.scope e.name ++ " \x7b").toList.head? = some 'i' := by simp
    exact plain_of_head? (by rw [first]; decide) (by rw [first]; decide)
  have cut := linesOf_enumerationText isName inhabited readable variants arms
  unfold Site.enumeration Declaration.render
  rw [cut]
  apply block_cons (opens_ofList (by decide))
  -- Block by block: the lines of the entries are set in, and the lines around them are known.
  simp only [List.forall_mem_cons, List.forall_mem_append]
  refine ⟨⟨by decide, by decide⟩, plain_header (by decide) _ _, fun _ => entry (by decide), ?_⟩
  refine ⟨plain_ofList (by decide), plain_ofList (by decide), impl, ?_⟩
  refine ⟨plain_ofList (by decide), plain_ofList (by decide), plain_ofList (by decide), fun _ => entry (by decide), ?_⟩
  refine ⟨plain_ofList (by decide), plain_ofList (by decide), plain_ofList (by decide), ?_⟩
  refine ⟨plain_ofList (by decide), plain_ofList (by decide), plain_ofList (by decide), fun _ => entry (by decide), ?_⟩
  refine ⟨plain_ofList (by decide), plain_ofList (by decide), plain_ofList (by decide), plain_ofList (by decide), ?_⟩
  exact ⟨plain_ofList (by decide), List.forall_mem_nil _⟩

theorem readable_builtInMember {p : WellKnown.Part} (isName : IsName p.name) : (builtInMember p).Readable := by
  obtain ⟨type, kind, _⟩ := notMem_scalar p.kind
  refine ⟨isName, ?_, Encoding.notMem_render ?_⟩
  · dsimp only [builtInMember]
    split
    · exact notMem_append (notMem_append (by decide) type) (by decide)
    · exact type
  · dsimp only [builtInMember]
    split <;> simpa [Encoding.words] using kind

theorem readable_builtInRecord {t : WellKnown} (composite : t.isComposite) : (builtInRecord t).Readable := by
  have names : ∀ p ∈ t.parts, IsName p.name := by cases t <;> decide
  refine ⟨by cases t <;> decide, ?_, ?_⟩
  · cases t with
    | empty => cases composite
    | timestamp | duration | any | fieldMask => exact List.cons_ne_nil _ _
  · intro m hm
    obtain ⟨p, hp, rfl⟩ := List.mem_map.mp hm
    exact readable_builtInMember (names p hp)

theorem plain_conversions : (∀ line ∈ linesOf timestampConversions, Plain line) ∧
    ∀ line ∈ linesOf durationConversions, Plain line := by
  have plain : ∀ {lines : List String}, (∀ line ∈ lines, PlainLine line) →
      ∀ line ∈ linesOf (unlines lines), Plain line := by
    intro lines each line hl
    rw [unlines, linesOf_unlines fun l hl => (each l hl).1] at hl
    rcases List.mem_append.mp hl with hl | hl
    · exact (each line hl).2
    · exact plain_blank line hl
  refine ⟨plain ?_, plain ?_⟩
  · repeat refine List.forall_mem_cons.mpr ⟨plainLine_ofList (by decide), ?_⟩
    exact List.forall_mem_nil _
  · repeat refine List.forall_mem_cons.mpr ⟨plainLine_ofList (by decide), ?_⟩
    exact List.forall_mem_nil _

theorem block_builtIn {t : WellKnown} {text : String} (written : builtInText? t = some text) : Block (linesOf text) := by
  have composite : t.isComposite := by
    by_contra other
    simp [builtInText?, other] at written
  have block := (readable_builtInRecord composite).block
  have ended : ∃ front, (builtInRecord t).render = front ++ "\n" := ⟨_, (unlines_join (by simp)).symm⟩
  obtain ⟨front, ended⟩ := ended
  simp only [builtInText?, if_pos composite, Option.some.injEq] at written
  rw [← written]
  cases t with
  | timestamp =>
    rw [ended] at block ⊢
    exact block_append block plain_conversions.1
  | duration =>
    rw [ended] at block ⊢
    exact block_append block plain_conversions.2
  | any | fieldMask | empty => simpa using block

end Code

end blocks

/-- Where a reading tells the elements of a list apart, it finds each of them. -/
theorem filter_eq_singleton {α β : Type} [DecidableEq β] {f : α → β} {as : List α} (distinct : (as.map f).Nodup) {a : α}
    (ha : a ∈ as) : as.filter (f · = f a) = [a] := by
  induction as with
  | nil => cases ha
  | cons b as ih =>
    rw [List.map_cons, List.nodup_cons] at distinct
    rcases List.mem_cons.mp ha with rfl | ha
    · have none : as.filter (f · = f a) = [] := by
        rw [List.filter_eq_nil_iff]
        intro c hc same
        exact distinct.1 (List.mem_map.mpr ⟨c, hc, by simpa using same⟩)
      rw [List.filter_cons_of_pos (by simp), none]
    · have other : f b ≠ f a := fun same => distinct.1 (List.mem_map.mpr ⟨a, ha, same.symm⟩)
      rw [List.filter_cons_of_neg (by simpa using other), ih distinct.2 ha]

/-- The record of a built-in type as it is written, without the conversions after it. -/
def builtInPage : WellKnown → String
  | .timestamp => "#[derive(Clone, PartialEq, ::prost::Message)]\npub struct Timestamp \x7b\n" ++
    "    #[prost(int64, tag = \"1\")]\n    pub seconds: i64,\n" ++
    "    #[prost(int32, tag = \"2\")]\n    pub nanos: i32,\n\x7d\n"
  | .duration => "#[derive(Clone, PartialEq, ::prost::Message)]\npub struct Duration \x7b\n" ++
    "    #[prost(int64, tag = \"1\")]\n    pub seconds: i64,\n" ++
    "    #[prost(int32, tag = \"2\")]\n    pub nanos: i32,\n\x7d\n"
  | .any => "#[derive(Clone, PartialEq, ::prost::Message)]\npub struct Any \x7b\n" ++
    "    #[prost(string, tag = \"1\")]\n    pub type_url: ::prost::alloc::string::String,\n" ++
    "    #[prost(bytes = \"vec\", tag = \"2\")]\n    pub value: ::prost::alloc::vec::Vec<u8>,\n\x7d\n"
  | .fieldMask => "#[derive(Clone, PartialEq, ::prost::Message)]\npub struct FieldMask \x7b\n" ++
    "    #[prost(string, repeated, tag = \"1\")]\n" ++
    "    pub paths: ::prost::alloc::vec::Vec<::prost::alloc::string::String>,\n\x7d\n"
  | .empty => ""

theorem render_builtInRecord {t : WellKnown} (composite : t.isComposite) : (builtInRecord t).render = builtInPage t := by
  cases t with
  | empty => cases composite
  | timestamp | duration | any | fieldMask => decide +kernel

namespace Output

def Piece.code? : Piece → Option Declaration
  | declared d => d.declaration.result.toOption
  | builtIn t => some (builtInRecord t)

theorem Piece.code?_declared {d : Declared} {code : Declaration} :
    (Piece.declared d).code? = some code ↔ d.declaration.result = .ok code :=
  toOption_eq_some

theorem Piece.name_of_code? {p : Piece} {code : Declaration} (h : p.code? = some code) : code.name = p.name := by
  cases p with
  | declared d =>
    obtain ⟨site, item⟩ := d
    have written := code?_declared.mp h
    cases item with
    | message m =>
      rcases Site.record_eq_ok written with ⟨_, rfl⟩ | ⟨_, _, _, rfl⟩ <;> rfl
    | oneof o =>
      obtain ⟨_, _, rfl⟩ := Site.union_eq_ok written
      rfl
    | enum e =>
      cases written
      rfl
  | builtIn t =>
    cases h
    rfl

/-- The text of a piece is its declaration, and perhaps more after it. -/
theorem Piece.exists_code {p : Piece} {text : String} (h : p.text? = some text) :
    ∃ (code : Declaration) (rest : String), p.code? = some code ∧ text = code.render ++ rest := by
  cases p with
  | declared d =>
    obtain ⟨code, written, rfl⟩ := Folder.text?_declared.mp h
    exact ⟨code, "", code?_declared.mpr written, by simp⟩
  | builtIn t =>
    simp only [Piece.text?, builtInText?] at h
    split at h
    · cases h
      exact ⟨builtInRecord t, _, rfl, rfl⟩
    · cases h

/-- What the text of a piece says is what the piece comes from. -/
def Piece.Reads : Piece → String → Prop
  | declared ⟨site, .message m⟩, text => ∃ v, Sketch.read? text = some v ∧ site.SketchesRecord m v
  | declared ⟨site, .oneof o⟩, text => ∃ v, Sketch.read? text = some v ∧ site.SketchesUnion o v
  | declared ⟨site, .enum e⟩, text => ∃ variants arms, Numbers e.values variants arms ∧ EnumSketch.read? text =
      some ⟨Naming.typeName site.scope e.name, variants.map fun w => (w.name, w.number),
        variants.map fun w => (w.name, w.schemaName), arms.map fun a => (a.schemaName, a.variant)⟩
  | builtIn t, text => ∃ rest, text = builtInPage t ++ rest

theorem Piece.reads_builtIn {t : WellKnown} {text : String} (written : (builtIn t).text? = some text) :
    (builtIn t).Reads text := by
  by_cases composite : t.isComposite
  · simp only [Piece.text?, builtInText?, if_pos composite, Option.some.injEq] at written
    rw [render_builtInRecord composite] at written
    exact ⟨_, written.symm⟩
  · simp [Piece.text?, builtInText?, composite] at written

structure Piece.Legible (p : Piece) (text : String) : Prop where
  block : Block (linesOf text)
  name : declaredName? text = some p.name
  reads : p.Reads text

theorem forall₂_of_texts {R : Piece → String → Prop} {ps : List Piece} {texts : List String}
    (written : ps.map Piece.text? = texts.map some) (each : ∀ p ∈ ps, ∀ text, p.text? = some text → R p text) :
    List.Forall₂ R ps texts := by
  induction ps generalizing texts with
  | nil =>
    obtain rfl : texts = [] := by simpa using written.symm
    exact .nil
  | cons p ps ih =>
    cases texts with
    | nil => cases written
    | cons text texts =>
      rw [List.map_cons, List.map_cons, List.cons.injEq] at written
      exact .cons (each p List.mem_cons_self text written.1)
        (ih written.2 fun q hq => each q (List.mem_cons_of_mem p hq))

theorem filterMap_of_texts {ps : List Piece} {texts : List String} (written : ps.map Piece.text? = texts.map some) :
    ps.filterMap Piece.text? = texts := by
  have kept := congrArg (List.filterMap id) written
  rwa [List.filterMap_map, List.filterMap_map, Function.id_comp, Function.id_comp, List.filterMap_some] at kept

theorem mem_of_texts {ps : List Piece} {texts : List String} (written : ps.map Piece.text? = texts.map some)
    {text : String} : text ∈ texts ↔ ∃ p ∈ ps, p.text? = some text := by
  rw [← filterMap_of_texts written, List.mem_filterMap]

theorem flatMap_stemsOf {files : String → List String} {ps : List Piece}
    (each : ∀ p ∈ ps, ∀ stem, p.stem? = some stem → files stem = p.text?.toList) :
    (stemsOf ps).flatMap files = (ps.filter (!·.stem?.isNone)).filterMap Piece.text? := by
  induction ps with
  | nil => rfl
  | cons p ps ih =>
    have rest := ih fun q hq => each q (List.mem_cons_of_mem p hq)
    cases own : p.stem? with
    | none => simpa [stemsOf, own] using rest
    | some stem =>
      have stems : stemsOf (p :: ps) = stem :: stemsOf ps := List.filterMap_cons_some own
      rw [stems, List.flatMap_cons, rest, each p List.mem_cons_self stem own, List.filter_cons_of_pos (by simp [own])]
      cases written : p.text? with
      | none => simp [written]
      | some text => simp [written]

/-- A module declares a name once, with this text. -/
def DeclaresOnce (out : Files) (directory : List String) (name text : String) : Prop :=
  (declarationsAt out directory).filter (declaredName? · = some name) = [text]

namespace Schedule
variable {s : Schedule}

theorem declaredName?_of_text? (formed : ∀ f ∈ s.files, f.toSchema.WellFormed) {directory : List String} {p : Piece}
    (hp : p ∈ s.pieces directory) {text : String} (written : p.text? = some text) :
    declaredName? text = some p.name := by
  obtain ⟨code, rest, emitted, rfl⟩ := Piece.exists_code written
  have name := Piece.name_of_code? emitted
  rw [declaredName?_render (name ▸ isName_of_mem_pieces formed hp), name]

theorem mem_pieces_of_record {directory : List String} {p : Piece} (hp : p ∈ s.recordPieces directory) :
    p ∈ s.pieces directory := by
  rw [← recordsOf_pieces] at hp
  exact (List.mem_filter.mp hp).1

/-- Files that were read and registered are scheduled, and the settings are accepted. -/
structure Sound (s : Schedule) : Prop where
  checked : s.config.check = .ok ()
  consistent : s.registry.Consistent
  registered : ∀ f ∈ s.registry.files, f.toSchema.WellFormed
  numbers : ∀ f ∈ s.registry.files, f.DistinctNumbers
  scheduled : ∀ f ∈ s.files, f ∈ s.registry.files

theorem sound_of_registerAll {files : List SchemaFile} (parsed : ∀ f ∈ files, f.Parsed)
    (registered : Registry.registerAll {} files = .ok s.registry) (scheduled : ∀ f ∈ s.files, f ∈ s.registry.files)
    (checked : s.config.check = .ok ()) : s.Sound := by
  obtain ⟨c, formed⟩ := Registry.registerAll_parsed parsed registered
  exact ⟨checked, c, formed, Registry.distinctNumbers_of_registerAll registered (by simp), scheduled⟩

section sound
variable (h : s.Sound)
include h

theorem Sound.formed : ∀ f ∈ s.files, f.toSchema.WellFormed :=
  fun f hf => h.registered f (h.scheduled f hf)

/-- With settings that are accepted, the text of a declaration is one declaration and reads as what it comes from. -/
theorem Sound.legible {directory : List String} {p : Piece} (hp : p ∈ s.pieces directory) {text : String}
    (written : p.text? = some text) : p.Legible text := by
  suffices both : ∀ text, p.text? = some text → Block (linesOf text) ∧ p.Reads text from
    ⟨(both text written).1, declaredName?_of_text? h.formed hp written, (both text written).2⟩
  refine pieces_cases (P := fun p => ∀ text, p.text? = some text → Block (linesOf text) ∧ p.Reads text) ?_ ?_ hp
  · intro f hf _ p hp
    have formed := h.formed f hf
    refine piecesOfFile_cases (P := fun p => ∀ text, p.text? = some text → Block (linesOf text) ∧ p.Reads text)
      ?_ ?_ ?_ ?_ hp
    · intro n hn text written
      obtain ⟨code, emitted, rfl⟩ := Folder.text?_declared.mp written
      have readable : code.Readable := Site.readable_record (s := within (s.siteOf f) n.scope) h.checked h.consistent
        h.registered (SchemaFile.isName_of_mem_scope formed hn) (formed.messages n hn) emitted
      obtain ⟨v, sketch, sketches⟩ := Site.exists_sketch_record emitted
      exact ⟨readable.block, v, (Sketch.read?_render readable).trans sketch, sketches⟩
    · intro n hn o ho text written
      obtain ⟨code, emitted, rfl⟩ := Folder.text?_declared.mp written
      have readable : code.Readable := Site.readable_union (s := within (s.siteOf f) n.inner) h.checked h.consistent
        h.registered (SchemaFile.isName_of_mem_inner formed hn) ((formed.messages n hn).oneofs o ho) emitted
      obtain ⟨v, sketch, sketches⟩ := Site.exists_sketch_union emitted
      exact ⟨readable.block, v, (Sketch.read?_render readable).trans sketch, sketches⟩
    · intro n hn e he text written
      obtain ⟨code, emitted, rfl⟩ := Folder.text?_declared.mp written
      cases emitted
      have scope := SchemaFile.isName_of_mem_inner formed hn
      have formed := (formed.messages n hn).enums e he
      exact ⟨block_enumeration _ scope formed, _, _, Numbering.numbers_ofEnum e,
        EnumSketch.read?_enumeration (within (s.siteOf f) n.inner) scope formed⟩
    · intro e he text written
      obtain ⟨code, emitted, rfl⟩ := Folder.text?_declared.mp written
      cases emitted
      have scope : ∀ x ∈ (s.siteOf f).scope, IsName x := by rintro _ ⟨⟩
      have formed := formed.enums e he
      exact ⟨block_enumeration _ scope formed, _, _, Numbering.numbers_ofEnum e,
        EnumSketch.read?_enumeration (s.siteOf f) scope formed⟩
  · intro t _ _ text written
    exact ⟨block_builtIn written, Piece.reads_builtIn written⟩

theorem Sound.declarationsIn_records {directory : List String} {records : List String}
    (texts : (s.recordPieces directory).map Piece.text? = records.map some) (sources : List String) :
    declarationsIn (recordPage sources records) = records := by
  apply declarationsIn_recordPage
  intro record hr
  obtain ⟨p, hp, written⟩ := (mem_of_texts texts).mp hr
  exact (h.legible (mem_pieces_of_record hp) written).block

section generated
variable {out : Files} (generated : s.generate.result = .ok out)
include generated

theorem Sound.find?_records {directory : List String} (spans : s.Spans directory) :
    ∃ records : List String, (recordsOf (s.pieces directory)).map Piece.text? = records.map some ∧
      (out.find? (filePath directory recordStem) =
        if records.isEmpty then none else some (recordPage (s.sourcesAt directory) records)) ∧
      declarationsIn (recordPage (s.sourcesAt directory) records) = records ∧
      List.Forall₂ Piece.Reads (s.recordPieces directory) records := by
  obtain ⟨records, texts, found⟩ := Schedule.find?_records h.formed generated spans
  have reads : List.Forall₂ Piece.Reads (s.recordPieces directory) records :=
    forall₂_of_texts texts fun p hp _ written => (h.legible (mem_pieces_of_record hp) written).reads
  refine ⟨records, ?_, found, h.declarationsIn_records texts _, reads⟩
  rw [recordsOf_pieces]
  exact texts

theorem Sound.find?_own {directory : List String} {p : Piece} (hp : p ∈ s.pieces directory) {stem : String}
    (own : p.stem? = some stem) :
    ∃ text, p.text? = some text ∧ out.find? (filePath directory stem) = some (ownPage p.importsNames text) ∧
      declarationsIn (ownPage p.importsNames text) = [text] ∧ p.Reads text := by
  obtain ⟨text, written, found⟩ := Schedule.find?_own h.formed generated hp own
  have legible := h.legible hp written
  exact ⟨text, written, found, declarationsIn_ownPage _ legible.block, legible.reads⟩

theorem Sound.exists_index {directory : List String} (spans : s.Spans directory) :
    ∃ index, out.find? (filePath directory indexStem) = some index ∧ (stemsIn index).Perm (s.stems directory) := by
  obtain ⟨folders, filled, found⟩ := find?_index h.formed generated spans
  have perm := contents_stems_perm filled directory
  have stems : ∀ stem ∈ (contentsOf folders directory).map (·.1), '\n' ∉ stem.toList :=
    fun stem hs => (isName_of_mem_stems h.formed (perm.mem_iff.mp hs)).notMem (by decide)
  have children : ∀ child ∈ childrenOf folders.keys directory, '\n' ∉ child.toList := by
    intro child hc
    have below := isName_of_spans h.formed ((mem_childrenOf_iff filled).mp hc)
    exact (below child (by simp)).notMem (by decide)
  refine ⟨_, found, ?_⟩
  rw [stemsIn_indexText children stems]
  exact perm

/-- A module declares what its pieces are written as, each once. -/
theorem Sound.declarationsAt_perm {directory : List String} (spans : s.Spans directory) :
    (declarationsAt out directory).Perm ((s.pieces directory).filterMap Piece.text?) := by
  obtain ⟨index, found, perm⟩ := h.exists_index generated spans
  obtain ⟨records, texts, file, cut, _⟩ := h.find?_records generated spans
  let files : String → List String := fun stem => (out.find? (filePath directory stem)).elim [] declarationsIn
  have own : ∀ p ∈ s.pieces directory, ∀ stem, p.stem? = some stem → files stem = p.text?.toList := by
    intro p hp stem own
    obtain ⟨text, written, found, cut, _⟩ := h.find?_own generated hp own
    simp only [files, found, written, Option.elim_some, cut, Option.toList_some]
  have shared : (if (recordsOf (s.pieces directory)).isEmpty then [] else [recordStem]).flatMap files =
      (recordsOf (s.pieces directory)).filterMap Piece.text? := by
    rw [filterMap_of_texts texts]
    cases records with
    | nil =>
      have none : recordsOf (s.pieces directory) = [] := by simpa using texts
      rw [none]
      rfl
    | cons record records =>
      have some : (recordsOf (s.pieces directory)).isEmpty = false := by
        rw [← List.isEmpty_map (f := Piece.text?), texts]
        rfl
      rw [List.isEmpty_cons, if_neg Bool.false_ne_true] at file
      rw [some, if_neg Bool.false_ne_true, List.flatMap_singleton]
      simp only [files, file, Option.elim_some, cut]
  have read : declarationsAt out directory = (stemsIn index).flatMap files :=
    congrArg (fun found : Option String => (found.elim [] stemsIn).flatMap files) found
  rw [read]
  refine (perm.flatMap_right files).trans ?_
  rw [stems, List.flatMap_append, shared, flatMap_stemsOf own, ← List.filterMap_append]
  exact (List.filter_append_perm _ _).filterMap _

theorem Sound.names_perm {directory : List String} (spans : s.Spans directory) :
    ((declarationsAt out directory).map declaredName?).Perm ((s.pieces directory).map (some ·.name)) := by
  have compatible := (exists_generate_iff.mp ⟨out, generated⟩).1 directory
  have names : ((s.pieces directory).filterMap Piece.text?).map declaredName? =
      (s.pieces directory).map (some ·.name) := by
    rw [List.map_filterMap, ← List.filterMap_eq_map]
    apply List.filterMap_congr
    intro p hp
    obtain ⟨text, written⟩ := Option.isSome_iff_exists.mp (compatible.texts p hp)
    rw [written, Option.map_some, declaredName?_of_text? h.formed hp written]
    rfl
  rw [← names]
  exact (h.declarationsAt_perm generated spans).map declaredName?

theorem Sound.nodup_names {directory : List String} (spans : s.Spans directory) :
    ((declarationsAt out directory).map declaredName?).Nodup := by
  have compatible := (exists_generate_iff.mp ⟨out, generated⟩).1 directory
  have names := compatible.names.map fun _ _ => Option.some.inj
  rw [List.map_map] at names
  exact (h.names_perm generated spans).nodup_iff.mpr names

theorem Sound.declaresOnce {directory : List String} {p : Piece} (hp : p ∈ s.pieces directory) {text : String}
    (written : p.text? = some text) : DeclaresOnce out directory p.name text := by
  have spans : s.Spans directory := ⟨directory, uses_of_mem_pieces hp, List.prefix_refl directory⟩
  have listed : text ∈ declarationsAt out directory :=
    (h.declarationsAt_perm generated spans).mem_iff.mpr (List.mem_filterMap.mpr ⟨p, hp, written⟩)
  unfold DeclaresOnce
  rw [← declaredName?_of_text? h.formed hp written]
  exact filter_eq_singleton (h.nodup_names generated spans) listed

end generated

end sound

end Schedule

end Output

open Schedule

/-- Nothing is lost, merged or made up, and generating fails only over a collision. The records of a module are in one
file, which is cut into them again, and every other declaration is alone in its own; each reads as what it was generated
from. -/
theorem generate_complete {s : Schedule} {files : List SchemaFile} (parsed : ∀ f ∈ files, f.Parsed)
    (registered : Registry.registerAll {} files = .ok s.registry) (scheduled : ∀ f ∈ s.files, f ∈ s.registry.files)
    (checked : s.config.check = .ok ()) :
    (∀ out, s.generate.result = .ok out →
      (∀ d, s.Uses d → ∃ records : List String,
        (out.find? (filePath d "messages") =
          if records.isEmpty then none else some (recordPage (s.sourcesAt d) records)) ∧
        declarationsIn (recordPage (s.sourcesAt d) records) = records ∧
        List.Forall₂ Piece.Reads (s.recordPieces d) records) ∧
      (∀ d, ∀ p ∈ s.pieces d, ∀ stem, p.stem? = some stem → ∃ text,
        out.find? (filePath d stem) = some (ownPage p.importsNames text) ∧
        declarationsIn (ownPage p.importsNames text) = [text] ∧ p.Reads text) ∧
      (∀ d, s.Uses d → ∀ stem : String, '/' ∉ stem.toList → stem ≠ "mod" → stem ≠ "messages" →
        filePath d stem ∈ out.keys → ∃! p, p ∈ s.pieces d ∧ p.stem? = some stem) ∧
      ∀ d, s.Uses d →
        (∃ index, out.find? (filePath d "mod") = some index ∧ (stemsIn index).Perm (s.stems d) ∧
          (stemsIn index).Nodup) ∧
        ((declarationsAt out d).map declaredName?).Perm ((s.pieces d).map (some ·.name)) ∧
        ((declarationsAt out d).map declaredName?).Nodup) ∧
    (∀ t, t ∈ s.builtIns ↔ t.isComposite ∧ s.Mentions t) ∧
    (s.Resolves → ((∃ e, s.generate.result = .error e) ↔ ∃ d, s.Collision d)) := by
  have sound := sound_of_registerAll parsed registered scheduled checked
  refine ⟨?_, fun _ => mem_builtIns_iff, ?_⟩
  · intro out generated
    refine ⟨?_, ?_, ?_, ?_⟩
    · intro d uses
      obtain ⟨records, _, file⟩ := sound.find?_records generated ⟨d, uses, List.prefix_refl d⟩
      exact ⟨records, file⟩
    · intro d p hp stem own
      obtain ⟨text, _, file⟩ := sound.find?_own generated hp own
      exact ⟨text, file⟩
    · intro d uses stem slash notIndex notRecords written
      exact existsUnique_piece sound.formed generated ⟨d, uses, List.prefix_refl d⟩ slash notIndex notRecords written
    · intro d uses
      have spans : s.Spans d := ⟨d, uses, List.prefix_refl d⟩
      obtain ⟨index, found, perm⟩ := sound.exists_index generated spans
      have stems := nodup_stems ((exists_generate_iff.mp ⟨out, generated⟩).1 d)
      exact ⟨⟨index, found, perm, perm.nodup_iff.mpr stems⟩, sound.names_perm generated spans,
        sound.nodup_names generated spans⟩
  · intro resolves
    have succeeds := exists_generate_iff_not_collision sound.formed resolves
    cases result : s.generate.result with
    | error e =>
      simp only [result, reduceCtorEq, exists_false, false_iff, not_forall, not_not] at succeeds
      simpa using succeeds
    | ok out =>
      simp only [result, Except.ok.injEq, exists_eq', true_iff] at succeeds
      simpa using succeeds

/-- A message with a message, a oneof and an enum inside. -/
def crate : SchemaFile :=
  .ofText "crate"
    "message Crate\x7bmessage Lid\x7bgoogle.protobuf.Any a=1;\x7doneof k\x7bint32 n=1;\x7denum Size\x7bS=0;\x7d\x7d"

/-- An enum of another package with the type name of the enum inside. -/
def twin : SchemaFile :=
  .ofText "twin" "package other;enum CrateSize\x7bT=0;\x7d"

def crateSchedule (files : List SchemaFile) : Schedule :=
  ⟨.attemptAll {} files, {}, files⟩

theorem generate_complete_crate :
    crate.Parsed ∧ twin.Parsed ∧
    (∃ out, (crateSchedule [crate]).generate.result = .ok out ∧
      out.keys = ["crate_k.rs", "crate_size.rs", "messages.rs", "mod.rs"] ∧
      (∃ records, out.find? "messages.rs" = some (recordPage ["crate"] records) ∧
        declarationsIn (recordPage ["crate"] records) = records ∧ records.length = 3) ∧
      ((declarationsAt out []).map declaredName?).Perm
        [some "Crate", some "CrateK", some "CrateSize", some "CrateLid", some "Any"]) ∧
    ∃ e, (crateSchedule [crate, twin]).generate.result = .error e := by
  have crateParsed : crate.Parsed := SchemaFile.parsed_ofText (by decide +kernel)
  have twinParsed : twin.Parsed := SchemaFile.parsed_ofText (by decide +kernel)
  have facts : ((crateSchedule [crate]).generate.result.toOption.map Catalog.keys =
        some ["crate_k.rs", "crate_size.rs", "messages.rs", "mod.rs"]) ∧
      ((crateSchedule [crate]).recordPieces []).length = 3 ∧ (crateSchedule [crate]).sourcesAt [] = ["crate"] ∧
      ((crateSchedule [crate]).pieces []).map (some ·.name) =
        [some "Crate", some "CrateK", some "CrateSize", some "CrateLid", some "Any"] ∧
      (Registry.registerAll {} [crate]).toBool := by
    decide +kernel
  have clash : (¬ (((crateSchedule [crate, twin]).pieces []).map Piece.name).Nodup) ∧
      (∀ f ∈ [crate, twin], ∀ n ∈ f.everyMessage, ∀ name ∈ n.message.allFields.filterMap typeUsed?,
        ((crateSchedule [crate, twin]).registry.resolve? (f.placeAt n) name).isSome) ∧
      (Registry.registerAll {} [crate, twin]).toBool := by
    decide +kernel
  have scheduled : ∀ {files : List SchemaFile}, (files.map (·.name)).Nodup → (Registry.registerAll {} files).toBool →
      ∀ f ∈ files, f ∈ (crateSchedule files).registry.files := by
    intro files distinct registered f hf
    have files := Registry.consistent_empty.files_of_registerAll distinct (Registry.registerAll_attemptAll registered)
    exact files.symm ▸ hf
  refine ⟨crateParsed, twinParsed, ?_, ?_⟩
  · obtain ⟨keys, three, sources, names, registered⟩ := facts
    obtain ⟨complete, _⟩ := generate_complete (s := crateSchedule [crate]) (by simpa using crateParsed)
      (Registry.registerAll_attemptAll registered) (scheduled (by decide) registered) rfl
    cases generated : (crateSchedule [crate]).generate.result with
    | error e => simp [generated, Except.toOption] at keys
    | ok out =>
      simp only [generated, Except.toOption, Option.map_some, Option.some.injEq] at keys
      obtain ⟨files, _, _, modules⟩ := complete out generated
      obtain ⟨records, found, cut, reads⟩ := files [] (.inl rfl)
      have length : records.length = 3 := by rw [← reads.length_eq, three]
      have nonempty : records.isEmpty = false := by
        rw [List.isEmpty_eq_false_iff]
        rintro rfl
        cases length
      rw [nonempty, if_neg Bool.false_ne_true] at found
      rw [sources] at found cut
      refine ⟨out, rfl, keys, ⟨records, found, cut, length⟩, ?_⟩
      rw [← names]
      exact (modules [] (.inl rfl)).2.1
  · obtain ⟨same, resolves, registered⟩ := clash
    obtain ⟨_, _, fails⟩ := generate_complete (s := crateSchedule [crate, twin])
      (List.forall_mem_cons.mpr ⟨crateParsed, by simpa using twinParsed⟩) (Registry.registerAll_attemptAll registered)
      (scheduled (by decide +kernel) registered) rfl
    refine (fails ?_).mpr ⟨[], .name same⟩
    intro f hf n hn x hx name names
    exact resolves f hf n hn name (List.mem_filterMap.mpr ⟨x, hx, typeUsed?_eq_some.mpr names⟩)

end SchemaGen
