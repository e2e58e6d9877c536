import SchemaGen.Proofs.Folder
import SchemaGen.Proofs.Sketch
import Mathlib.Data.List.TakeWhile
/-!
# Reading a generated file

A generated file has a heading, perhaps the import of the names of its module, and its declarations. Each of these
begins with the line that derives its traits, so a file can be cut into its declarations again, and the index of a
module tells which files belong to it. What a module declares is read from these texts alone.
-/
namespace SchemaGen.Output
open Text Code

section pages

/-- The text of a file of records from some source files. -/
def recordPage (sources records : List String) : String :=
  "// @generated by protorec. Do not edit.\n" ++ joinWith "" (sources.map fun s => "// source: " ++ s ++ "\n") ++
    "\n#[allow(unused_imports)]\nuse super::*;\n" ++ joinWith "" (records.map ("\n" ++ ·))

/-- The text of a file with one declaration, which may need the names of its module. -/
def ownPage (importsNames : Bool) (declaration : String) : String :=
  "// @generated by protorec. Do not edit.\n\n" ++
    (if importsNames then "#[allow(unused_imports)]\nuse super::*;\n\n" else "") ++ declaration

theorem recordText_eq (f : Folder) : f.recordText = recordPage f.sources f.records := by
  have names : "\n" ++ Folder.nameImport = "\n#[allow(unused_imports)]\nuse super::*;\n" := literal_append rfl
  unfold recordPage Folder.recordText Folder.header
  rw [← names, ← String.append_assoc]

theorem ownFile_render_eq (file : OwnFile) : Folder.OwnFile.render file = ownPage file.needsNames file.text := by
  have heading : Folder.header ++ "\n" = "// @generated by protorec. Do not edit.\n\n" := literal_append rfl
  have names : Folder.nameImport ++ "\n" = "#[allow(unused_imports)]\nuse super::*;\n\n" := literal_append rfl
  unfold ownPage Folder.OwnFile.render
  rw [← heading, ← names]

end pages

section layouts

/-- The text of a record with these members. -/
def recordLayout (name : String) (members : List Code.Member) : String :=
  "#[derive(Clone, PartialEq, ::prost::Message)]\npub struct " ++ name ++ " \x7b\n" ++
    joinWith "\n" (members.map fun e => (if e.deprecated then "    #[deprecated]\n" else "") ++
      "    #[prost(" ++ e.entry.content ++ ")]\n    pub " ++ e.name ++ ": " ++ e.type ++ ",") ++ "\n\x7d\n"

def unionLayout (name : String) (variants : List Code.Member) : String :=
  "#[derive(Clone, PartialEq, ::prost::Oneof)]\npub enum " ++ name ++ " \x7b\n" ++
    joinWith "\n" (variants.map fun e => (if e.deprecated then "    #[deprecated]\n" else "") ++
      "    #[prost(" ++ e.entry.content ++ ")]\n    " ++ e.name ++ "(" ++ e.type ++ "),") ++ "\n\x7d\n"

theorem attributes_eq (e : Code.Member) : e.attributes =
    (if e.deprecated then "    #[deprecated]\n" else "") ++ "    #[prost(" ++ e.entry.content ++ ")]\n" := by
  have start : "    " ++ "#[prost(" = "    #[prost(" := literal_append rfl
  have stop : ")]" ++ "\n" = ")]\n" := literal_append rfl
  rw [Code.Member.attributes, Encoding.render_eq, ← start, ← stop]
  simp only [String.append_assoc]
  rfl

theorem unlines_declaration (derives name body start : String) :
    unlines [derives, start ++ name ++ " \x7b", body, "\x7d"] =
      derives ++ ("\n" ++ start) ++ name ++ " \x7b\n" ++ body ++ "\n\x7d\n" := by
  have nothing : unlines [] = "" := rfl
  have brace : " \x7b" ++ "\n" = " \x7b\n" := literal_append rfl
  have last : "\n" ++ "\x7d\n" = "\n\x7d\n" := literal_append rfl
  have stop : "\x7d" ++ "\n" = "\x7d\n" := literal_append rfl
  rw [← last, ← stop, ← brace]
  simp only [unlines_cons, nothing, String.append_assoc, String.append_empty]

theorem render_record (name : String) (members : List Code.Member) :
    (Declaration.record name members).render = recordLayout name members := by
  have line : ")]\n" ++ "    pub " = ")]\n    pub " := literal_append rfl
  have body : members.map (·.renderField) = members.map fun e => (if e.deprecated then "    #[deprecated]\n" else "") ++
      "    #[prost(" ++ e.entry.content ++ ")]\n    pub " ++ e.name ++ ": " ++ e.type ++ "," := by
    apply List.map_congr_left
    intro e _
    rw [Code.Member.renderField, attributes_eq, ← line]
    simp only [String.append_assoc]
  have start : "\n" ++ "pub struct " = "\npub struct " := literal_append rfl
  have first : "#[derive(Clone, PartialEq, ::prost::Message)]" ++ "\npub struct " =
      "#[derive(Clone, PartialEq, ::prost::Message)]\npub struct " := literal_append rfl
  unfold recordLayout
  rw [Declaration.render, Declaration.recordDerives, unlines_declaration, body, start, first]

theorem render_union (name : String) (variants : List Code.Member) :
    (Declaration.union name variants).render = unionLayout name variants := by
  have line : ")]\n" ++ "    " = ")]\n    " := literal_append rfl
  have body : variants.map (·.renderVariant) = variants.map fun e =>
      (if e.deprecated then "    #[deprecated]\n" else "") ++ "    #[prost(" ++ e.entry.content ++ ")]\n    " ++
        e.name ++ "(" ++ e.type ++ ")," := by
    apply List.map_congr_left
    intro e _
    rw [Code.Member.renderVariant, attributes_eq, ← line]
    simp only [String.append_assoc]
  have start : "\n" ++ "pub enum " = "\npub enum " := literal_append rfl
  have first : "#[derive(Clone, PartialEq, ::prost::Oneof)]" ++ "\npub enum " =
      "#[derive(Clone, PartialEq, ::prost::Oneof)]\npub enum " := literal_append rfl
  unfold unionLayout
  rw [Declaration.render, unlines_declaration, body, start, first]

end layouts

section reading

/-- A declaration begins with the line that derives its traits. -/
def opens (line : String) : Bool :=
  (after? "#[derive(".toList line.toList).isSome

/-- Cuts lines before each one that begins a declaration. What stands before the first of them comes apart. -/
def cutBlocks : List String → List String × List (List String)
  | [] => ([], [])
  | line :: lines =>
    let (front, blocks) := cutBlocks lines
    if opens line then ([], (line :: front) :: blocks) else (line :: front, blocks)

/-- The lines after the last import of the names of a module, and all lines where there is none. -/
def bodyLines (text : String) : List String :=
  ((linesOf text).reverse.takeWhile (· != "use super::*;")).reverse

/-- The texts of the declarations in a file. -/
def declarationsIn (text : String) : List String :=
  (cutBlocks (bodyLines text)).2.map (joinWith "\n")

def nameLine? (line : String) : Option String :=
  between? "pub struct " ";" line <|> between? "pub struct " " \x7b" line <|> between? "pub enum " " \x7b" line

/-- The name that the text of a declaration declares, in the first line that has one. -/
def declaredName? (text : String) : Option String :=
  (linesOf text).findSome? nameLine?

/-- The stems of the files that the index of a module brings in. -/
def stemsIn (index : String) : List String :=
  (linesOf index).filterMap (between? "mod " ";")

/-- The declarations of a module: those in the files that its index brings in. -/
def declarationsAt (out : Files) (directory : List String) : List String :=
  ((out.find? (filePath directory "mod")).elim [] stemsIn).flatMap fun stem =>
    (out.find? (filePath directory stem)).elim [] declarationsIn

end reading

section cutting

theorem joinWith_linesOf (text : String) : joinWith "\n" (linesOf text) = text :=
  joinWith_piecesOf '\n' text

theorem linesOf_append (front rest : String) : linesOf (front ++ "\n" ++ rest) = linesOf front ++ linesOf rest := by
  have chars : (front ++ "\n" ++ rest).toList = front.toList ++ '\n' :: rest.toList := by simp
  rw [linesOf, chars, piecesOf_cut, List.map_append]
  rfl

theorem linesOf_joinWith {texts : List String} (nonempty : texts ≠ []) :
    linesOf (joinWith "\n" texts) = texts.flatMap linesOf := by
  induction texts with
  | nil => exact absurd rfl nonempty
  | cons text texts ih =>
    cases texts with
    | nil => rw [joinWith, List.flatMap_cons, List.flatMap_nil, List.append_nil]
    | cons next texts =>
      have joined : joinWith "\n" (text :: next :: texts) = text ++ "\n" ++ joinWith "\n" (next :: texts) := rfl
      rw [joined, linesOf_append, ih (by simp)]
      rfl

/-- A line that neither begins a declaration nor imports the names of a module. -/
def Plain (line : String) : Prop :=
  opens line = false ∧ line ≠ "use super::*;"

theorem plain_of_head? {line : String} (opening : line.toList.head? ≠ some '#')
    (importing : line.toList.head? ≠ some 'u') : Plain line := by
  refine ⟨?_, ?_⟩
  · rw [opens, Option.isSome_eq_false_iff, Option.isNone_iff_eq_none]
    cases found : after? "#[derive(".toList line.toList with
    | none => rfl
    | some rest =>
      rw [append_of_after? found] at opening
      exact absurd rfl opening
  · rintro rfl
    exact importing (by decide)

-- For literals: the questions are asked of the list of characters.
theorem plain_ofList {cs : List Char} (head : cs.head? ≠ some '#' ∧ cs.head? ≠ some 'u') : Plain (.ofList cs) :=
  plain_of_head? (by simpa using head.1) (by simpa using head.2)

theorem opens_ofList {cs : List Char} (h : (after? "#[derive(".toList cs).isSome) : opens (.ofList cs) := by
  have chars : (String.ofList cs).toList = cs := String.toList_ofList
  rwa [opens, chars]

theorem plain_blank : ∀ line ∈ [""], Plain line := by
  intro line hl
  rw [List.mem_singleton.mp hl]
  exact plain_of_head? (by decide) (by decide)

/-- The lines of one declaration. -/
structure Block (lines : List String) : Prop where
  opening : lines.head?.any opens
  others : ∀ line ∈ lines.tail, Plain line

theorem block_cons {first : String} {lines : List String} (opening : opens first) (others : ∀ line ∈ lines, Plain line) :
    Block (first :: lines) :=
  ⟨opening, others⟩

theorem cutBlocks_plain {lead : List String} (plain : ∀ line ∈ lead, Plain line) (lines : List String) :
    cutBlocks (lead ++ lines) = (lead ++ (cutBlocks lines).1, (cutBlocks lines).2) := by
  induction lead with
  | nil => rfl
  | cons line lead ih =>
    have other : opens line = false := (plain line List.mem_cons_self).1
    rw [List.cons_append, cutBlocks, ih fun l hl => plain l (List.mem_cons_of_mem line hl), other]
    rfl

theorem cutBlocks_flatten {blocks : List (List String)} (each : ∀ block ∈ blocks, Block block) :
    cutBlocks blocks.flatten = ([], blocks) := by
  induction blocks with
  | nil => rfl
  | cons block blocks ih =>
    obtain ⟨opening, others⟩ := each block List.mem_cons_self
    have rest := ih fun b hb => each b (List.mem_cons_of_mem block hb)
    cases block with
    | nil => cases opening
    | cons first lines =>
      have opening : opens first = true := opening
      have others : ∀ line ∈ lines, Plain line := others
      rw [List.flatten_cons, List.cons_append, cutBlocks, cutBlocks_plain others, rest, opening, List.append_nil]
      rfl

theorem Block.notMem {block : List String} (h : Block block) : "use super::*;" ∉ block := by
  intro listed
  cases block with
  | nil => cases listed
  | cons first lines =>
    rcases List.mem_cons.mp listed with rfl | listed
    · have opening : opens "use super::*;" = true := h.opening
      exact absurd opening (by decide)
    · exact (h.others _ listed).2 rfl

theorem bne_of_mem_reverse {lines : List String} (none : "use super::*;" ∉ lines) :
    ∀ line ∈ lines.reverse, (line != "use super::*;") = true := by
  intro line hl
  rw [bne_iff_ne]
  intro same
  exact none (same ▸ List.mem_reverse.mp hl)

theorem bodyLines_eq {text : String} {before body : List String}
    (cut : linesOf text = before ++ "use super::*;" :: body) (none : "use super::*;" ∉ body) : bodyLines text = body := by
  have reversed : (linesOf text).reverse = body.reverse ++ "use super::*;" :: before.reverse := by
    rw [cut]
    simp
  rw [bodyLines, reversed, List.takeWhile_append_of_pos (bne_of_mem_reverse none),
    List.takeWhile_cons_of_neg (by simp), List.append_nil, List.reverse_reverse]

theorem bodyLines_of_notMem {text : String} (none : "use super::*;" ∉ linesOf text) : bodyLines text = linesOf text := by
  rw [bodyLines, List.takeWhile_eq_self_iff.mpr (bne_of_mem_reverse none), List.reverse_reverse]

/-- A body is cut into the declarations it consists of, after some other lines. -/
theorem declarationsIn_eq {text : String} {lead texts : List String} (plain : ∀ line ∈ lead, Plain line)
    (each : ∀ t ∈ texts, Block (linesOf t)) (body : bodyLines text = lead ++ texts.flatMap linesOf) :
    declarationsIn text = texts := by
  have blocks : ∀ block ∈ texts.map linesOf, Block block := by
    intro block hb
    obtain ⟨t, ht, rfl⟩ := List.mem_map.mp hb
    exact each t ht
  have joined : ∀ t, (joinWith "\n" ∘ linesOf) t = t := joinWith_linesOf
  rw [declarationsIn, body, cutBlocks_plain plain, List.flatMap_def, cutBlocks_flatten blocks, List.map_map,
    List.map_congr_left fun t _ => joined t, List.map_id']

theorem notMem_flatMap {texts : List String} (each : ∀ t ∈ texts, Block (linesOf t)) :
    "use super::*;" ∉ texts.flatMap linesOf := by
  intro listed
  obtain ⟨t, ht, listed⟩ := List.mem_flatMap.mp listed
  exact (each t ht).notMem listed

theorem declarationsIn_recordPage (sources : List String) {records : List String}
    (each : ∀ r ∈ records, Block (linesOf r)) : declarationsIn (recordPage sources records) = records := by
  have front : ∃ front, recordPage sources records =
      front ++ "\n" ++ ("use super::*;" ++ "\n" ++ joinWith "\n" ("" :: records)) := by
    refine ⟨"// @generated by protorec. Do not edit.\n" ++
      joinWith "" (sources.map fun s => "// source: " ++ s ++ "\n") ++ "\n#[allow(unused_imports)]", ?_⟩
    have names : "\n#[allow(unused_imports)]" ++ "\n" ++ ("use super::*;" ++ "\n") =
        "\n#[allow(unused_imports)]\nuse super::*;\n" := by simp
    unfold recordPage
    rw [← names, joinWith_cons]
    simp only [String.append_assoc, String.empty_append]
  obtain ⟨front, page⟩ := front
  have cut : linesOf (recordPage sources records) =
      linesOf front ++ "use super::*;" :: ("" :: records.flatMap linesOf) := by
    rw [page, linesOf_append, linesOf_cons (by decide), linesOf_joinWith (by simp), List.flatMap_cons]
    rfl
  have none : "use super::*;" ∉ "" :: records.flatMap linesOf :=
    List.not_mem_cons_of_ne_of_not_mem (by decide) (notMem_flatMap each)
  exact declarationsIn_eq plain_blank each (bodyLines_eq cut none)

theorem declarationsIn_ownPage (importsNames : Bool) {text : String} (block : Block (linesOf text)) :
    declarationsIn (ownPage importsNames text) = [text] := by
  have each : ∀ t ∈ [text], Block (linesOf t) := by simpa using block
  have single : [text].flatMap linesOf = linesOf text := by simp
  have heading : ∀ line ∈ ["// @generated by protorec. Do not edit.", ""], Plain line :=
    List.forall_mem_cons.mpr ⟨plain_ofList (by decide), plain_blank⟩
  have start : ∀ rest, linesOf ("// @generated by protorec. Do not edit.\n\n" ++ rest) =
      "// @generated by protorec. Do not edit." :: "" :: linesOf rest := by
    intro rest
    have lines : "// @generated by protorec. Do not edit.\n\n" =
        "// @generated by protorec. Do not edit." ++ "\n" ++ ("" ++ "\n") := by simp
    rw [lines, String.append_assoc, linesOf_cons (notMem_ofList (by decide)), linesOf_cons (by decide)]
  cases importsNames with
  | false =>
    have cut : linesOf (ownPage false text) = "// @generated by protorec. Do not edit." :: "" :: linesOf text := by
      unfold ownPage
      rw [if_neg Bool.false_ne_true, String.append_empty, start]
    have none : "use super::*;" ∉ linesOf (ownPage false text) := by
      rw [cut]
      refine List.not_mem_cons_of_ne_of_not_mem (heading _ List.mem_cons_self).2.symm ?_
      exact List.not_mem_cons_of_ne_of_not_mem (by decide) block.notMem
    apply declarationsIn_eq heading each
    rw [bodyLines_of_notMem none, cut, single]
    rfl
  | true =>
    have names : "#[allow(unused_imports)]\nuse super::*;\n\n" =
        "#[allow(unused_imports)]" ++ "\n" ++ ("use super::*;" ++ "\n" ++ ("" ++ "\n")) := by simp
    have cut : linesOf (ownPage true text) = ["// @generated by protorec. Do not edit.", "", "#[allow(unused_imports)]"] ++
        "use super::*;" :: ("" :: linesOf text) := by
      unfold ownPage
      rw [if_pos rfl, String.append_assoc, start, names, String.append_assoc,
        linesOf_cons (notMem_ofList (by decide)), String.append_assoc, linesOf_cons (by decide),
        linesOf_cons (by decide)]
      rfl
    have none : "use super::*;" ∉ "" :: linesOf text := List.not_mem_cons_of_ne_of_not_mem (by decide) block.notMem
    apply declarationsIn_eq plain_blank each
    rw [bodyLines_eq cut none, single]
    rfl

end cutting

section names

theorem between?_eq_none_of_head? {start line : String} {c : Char} (first : start.toList.head? = some c)
    (h : line.toList.head? ≠ some c) (stop : String) : between? start stop line = none := by
  cases found : between? start stop line with
  | none => rfl
  | some text =>
    refine absurd ?_ h
    rw [append_of_between? found]
    simp [first]

theorem nameLine?_eq_none {line : String} (h : line.toList.head? ≠ some 'p') : nameLine? line = none := by
  rw [nameLine?, between?_eq_none_of_head? (by decide) h, between?_eq_none_of_head? (by decide) h,
    between?_eq_none_of_head? (by decide) h]
  rfl

theorem declaredName?_skip {line : String} (one : '\n' ∉ line.toList) (other : line.toList.head? ≠ some 'p')
    (rest : String) : declaredName? (line ++ "\n" ++ rest) = declaredName? rest := by
  rw [declaredName?, linesOf_cons one, List.findSome?_cons, nameLine?_eq_none other]
  rfl

theorem declaredName?_line {line name : String} (one : '\n' ∉ line.toList) (named : nameLine? line = some name)
    (rest : String) : declaredName? (line ++ "\n" ++ rest) = some name := by
  rw [declaredName?, linesOf_cons one, List.findSome?_cons, named]

theorem nameLine?_marker (name : String) : nameLine? ("pub struct " ++ name ++ ";") = some name := by
  rw [nameLine?, between?_append]
  rfl

theorem nameLine?_record (name : String) : nameLine? ("pub struct " ++ name ++ " \x7b") = some name := by
  have noMarker : between? "pub struct " ";" ("pub struct " ++ name ++ " \x7b") = none :=
    between?_eq_none_of_stop _ fun _ => rfl
  rw [nameLine?, noMarker, between?_append]
  rfl

theorem nameLine?_enum (name : String) : nameLine? ("pub enum " ++ name ++ " \x7b") = some name := by
  have noMarker : between? "pub struct " ";" ("pub enum " ++ name ++ " \x7b") = none :=
    between?_eq_none_of_stop _ fun _ => rfl
  have noRecord : between? "pub struct " " \x7b" ("pub enum " ++ name ++ " \x7b") = none :=
    between?_eq_none_of_start _ fun _ => rfl
  rw [nameLine?, noMarker, noRecord, between?_append]
  rfl

/-- The text of a declaration tells its name, whatever its members are and whatever follows. -/
theorem declaredName?_render {code : Declaration} (isName : IsName code.name) (rest : String) :
    declaredName? (code.render ++ rest) = some code.name := by
  have derives : ∀ {line : String}, line.toList.head? = some '#' → line.toList.head? ≠ some 'p' := by
    intro line first
    rw [first]
    decide
  have header : ∀ {start stop : String}, '\n' ∉ start.toList → '\n' ∉ stop.toList →
      '\n' ∉ (start ++ code.name ++ stop).toList := fun hs ht => notMem_header isName hs ht
  cases code with
  | marker name =>
    rw [Declaration.render, Declaration.markerText, unlines_cons, String.append_assoc, declaredName?_skip
      (notMem_ofList (by decide)) (derives rfl), unlines_cons, String.append_assoc]
    exact declaredName?_line (header (by decide) (by decide)) (nameLine?_marker name) _
  | record name members =>
    rw [Declaration.render, unlines_cons, String.append_assoc, declaredName?_skip (by decide) (derives (by decide)),
      unlines_cons, String.append_assoc]
    exact declaredName?_line (header (by decide) (by decide)) (nameLine?_record name) _
  | union name variants =>
    rw [Declaration.render, unlines_cons, String.append_assoc, declaredName?_skip (by decide) (derives (by decide)),
      unlines_cons, String.append_assoc]
    exact declaredName?_line (header (by decide) (by decide)) (nameLine?_enum name) _
  | enumeration name variants arms =>
    rw [Declaration.render, Declaration.enumerationText, unlines_cons, String.append_assoc, declaredName?_skip
      (notMem_ofList (by decide)) (derives rfl), unlines_cons, String.append_assoc,
      declaredName?_skip (by decide) (derives (by decide)), unlines_cons, String.append_assoc]
    exact declaredName?_line (header (by decide) (by decide)) (nameLine?_enum name) _

theorem Block.declaredName?_eq {text : String} {v : Sketch} (block : Block (linesOf text))
    (read : Sketch.read? text = some v) : declaredName? text = some v.name := by
  unfold Sketch.read? at read
  unfold declaredName?
  split at read
  · rename_i first header body cut
    rw [cut] at block
    rw [cut, List.findSome?_cons, List.findSome?_cons]
    have opening : opens first = true := block.opening
    obtain ⟨rest, began⟩ := Option.isSome_iff_exists.mp opening
    have other : first.toList.head? ≠ some 'p' := by
      rw [append_of_after? began]
      exact fun same => nomatch same
    rw [nameLine?_eq_none other]
    dsimp only
    split at read
    · rename_i marker
      cases read
      rw [nameLine?, marker]
      rfl
    · rename_i marker record
      obtain ⟨_, _, rfl⟩ := Option.map_eq_some_iff.mp read
      rw [nameLine?, marker, record]
      rfl
    · rename_i marker record union
      obtain ⟨_, _, rfl⟩ := Option.map_eq_some_iff.mp read
      rw [nameLine?, marker, record, union]
      rfl
    · cases read
  · cases read

end names

section index
variable {children stems : List String} (hc : ∀ c ∈ children, '\n' ∉ c.toList) (hs : ∀ s ∈ stems, '\n' ∉ s.toList)
include hc hs

/-- The index of a module tells its files. -/
theorem stemsIn_indexText : stemsIn (Folder.indexText children stems) = stems := by
  have other : ∀ {line : String}, line.toList.head? ≠ some 'm' → between? "mod " ";" line = none :=
    fun h => between?_eq_none_of_head? (by decide) h ";"
  have blank : between? "mod " ";" "" = none := other (by decide)
  have front : ∀ line ∈ "// @generated by protorec. Do not edit." ::
      (if children.isEmpty then [] else "" :: children.map childLine), between? "mod " ";" line = none := by
    intro line hl
    rcases List.mem_cons.mp hl with rfl | hl
    · exact other (by decide)
    · split at hl
      · cases hl
      · rcases List.mem_cons.mp hl with rfl | hl
        · exact blank
        · obtain ⟨child, _, rfl⟩ := List.mem_map.mp hl
          exact other (by simp [childLine])
  have files : (stems.flatMap fun s => ["", fileLine s, exportLine s]).filterMap (between? "mod " ";") = stems := by
    clear hs
    induction stems with
    | nil => rfl
    | cons stem stems ih =>
      have file : between? "mod " ";" (fileLine stem) = some stem := between?_append _ _ _
      have exported : between? "mod " ";" (exportLine stem) = none := other (by simp [exportLine])
      rw [List.flatMap_cons, List.filterMap_append, ih]
      simp [file, exported, blank]
  have last : [""].filterMap (between? "mod " ";") = [] := by simp [blank]
  rw [stemsIn, linesOf_indexText hc hs, indexLines, List.filterMap_append, List.filterMap_append, files,
    List.filterMap_eq_nil_iff.mpr front, last, List.nil_append, List.append_nil]

end index

end SchemaGen.Output
