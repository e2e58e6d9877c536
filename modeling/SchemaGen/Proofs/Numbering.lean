import SchemaGen.Proofs.Identifiers
import SchemaGen.Proofs.Sketch
import Mathlib.Data.List.Forall2
import Mathlib.Data.List.Perm.Subperm
import Mathlib.Order.Bounds.Defs
/-!
# The numbering of an enumeration

Every number of an enum gets one variant, in the order in which the numbers come up first, and no two variants share a
name. A variant is called by the first value with its number, and every value is read as the variant of its number.
-/
namespace SchemaGen.Code
open Text Lexeme Output

section free
variable {taken : List String}

theorem repr_injective : Function.Injective Nat.repr := by
  intro n m same
  have numerals := congrArg (numeral? 10 ·.toList) same
  simpa only [numeral?_repr, Option.some.injEq] using numerals

/-- More names than are taken cannot all be taken. -/
theorem exists_free (taken : List String) (base : String) :
    ∃ n < taken.length + 1, base ++ toString (n + 2) ∉ taken := by
  by_contra! all
  have distinct : ((List.range (taken.length + 1)).map fun n => base ++ toString (n + 2)).Nodup := by
    apply List.Nodup.map _ List.nodup_range
    intro n m same
    have numbers := repr_injective ((String.append_right_inj base).mp same)
    omega
  have inside : ((List.range (taken.length + 1)).map fun n => base ++ toString (n + 2)) ⊆ taken := by
    intro name listed
    obtain ⟨n, hn, rfl⟩ := List.mem_map.mp listed
    exact all n (List.mem_range.mp hn)
  have length := (List.subperm_of_subset distinct inside).length_le
  simp only [List.length_map, List.length_range] at length
  omega

/-- The search for a number ends, with the least from two on that makes the name free. -/
theorem numbered_isLeast (taken : List String) (name : String) :
    ∃ n, IsLeast {n | 2 ≤ n ∧ withoutUnderscores name ++ toString n ∉ taken} n ∧
      numbered taken name = withoutUnderscores name ++ toString n := by
  obtain ⟨n, bound, free⟩ := exists_free taken (withoutUnderscores name)
  cases found : (List.range (taken.length + 1)).find? fun n =>
      !taken.contains (withoutUnderscores name ++ toString (n + 2)) with
  | none =>
    have used := List.find?_eq_none.mp found n (List.mem_range.mpr bound)
    exact absurd (by simpa using used) free
  | some m =>
    obtain ⟨unused, _, least⟩ := List.find?_range_eq_some.mp found
    refine ⟨m + 2, ⟨⟨by omega, by simpa using unused⟩, ?_⟩, ?_⟩
    · intro k unusedToo
      obtain ⟨j, rfl⟩ := Nat.exists_eq_add_of_le' unusedToo.1
      by_contra! less
      exact unusedToo.2 (by simpa using least j (by omega))
    · rw [numbered, found]
      rfl

theorem freeVariant_notMem (taken : List String) (stem : List Char) (value : String) :
    freeVariant taken stem value ∉ taken := by
  unfold freeVariant
  dsimp only
  split
  · simp_all
  · split
    · simp_all
    · obtain ⟨n, least, same⟩ := numbered_isLeast taken (Naming.variantName value)
      rw [same]
      exact least.1.2

end free

/-- Variants and arms that number the values of an enum. -/
structure Numbers (values : List EnumValue) (variants : List NumberedVariant) (arms : List Arm) : Prop where
  names : (variants.map (·.name)).Nodup
  numbers : (variants.map (·.number)).Nodup
  order : variants.map (·.number) = (values.map (·.number)).eraseDups
  first : ∀ w ∈ variants, values.find? (·.number == w.number) = some ⟨w.schemaName, w.number⟩
  arms : List.Forall₂ (fun v a => a.schemaName = v.name ∧ ∃ w ∈ variants, w.number = v.number ∧ a.variant = w.name)
    values arms

theorem eraseDups_concat {as : List Int} {a : Int} :
    (as ++ [a]).eraseDups = if a ∈ as then as.eraseDups else as.eraseDups ++ [a] := by
  rw [List.eraseDups_append]
  by_cases known : a ∈ as
  · simp [known, List.removeAll]
  · simp [known, List.removeAll, List.eraseDups_cons]

namespace Numbers
variable {values : List EnumValue} {n : Numbering} (h : Numbers values n.variants n.arms)
include h

theorem mem_numbers {number : Int} : number ∈ n.variants.map (·.number) ↔ number ∈ values.map (·.number) := by
  rw [h.order, List.mem_eraseDups]

theorem add_alias (stem : List Char) {v : EnumValue} {w : NumberedVariant}
    (found : n.variants.find? (·.number == v.number) = some w) :
    Numbers (values ++ [v]) (n.add stem v).variants (n.add stem v).arms := by
  have same : w.number = v.number := by simpa using List.find?_some found
  have listed := List.mem_of_find?_eq_some found
  have known : v.number ∈ values.map (·.number) := by
    rw [← h.mem_numbers, ← same]
    exact List.mem_map_of_mem listed
  have added : n.add stem v =
      { n with arms := n.arms ++ [⟨v.name, w.name⟩], aliases := n.aliases ++ [⟨v.name, w.name⟩] } := by
    simp only [Numbering.add, found]
  rw [added]
  refine ⟨h.names, h.numbers, ?_, ?_, ?_⟩
  · rw [List.map_append, List.map_singleton, eraseDups_concat, if_pos known, h.order]
  · intro u hu
    rw [List.find?_append, h.first u hu]
    rfl
  · apply List.rel_append h.arms
    exact .cons ⟨rfl, w, listed, same, rfl⟩ .nil

theorem add_new (stem : List Char) {v : EnumValue} (new : n.variants.find? (·.number == v.number) = none) :
    Numbers (values ++ [v]) (n.add stem v).variants (n.add stem v).arms := by
  have fresh : v.number ∉ n.variants.map (·.number) := by
    intro listed
    obtain ⟨w, hw, same⟩ := List.mem_map.mp listed
    simpa [same] using List.find?_eq_none.mp new w hw
  let w : NumberedVariant := ⟨freeVariant (n.variants.map (·.name)) stem v.name, v.number, v.name⟩
  have added : n.add stem v = { n with variants := n.variants ++ [w], arms := n.arms ++ [⟨v.name, w.name⟩] } := by
    simp only [Numbering.add, new, w]
  rw [added]
  refine ⟨?_, ?_, ?_, ?_, ?_⟩
  · rw [List.map_append, List.map_singleton, ← List.concat_eq_append]
    exact h.names.concat (freeVariant_notMem _ _ _)
  · rw [List.map_append, List.map_singleton, ← List.concat_eq_append]
    exact h.numbers.concat fresh
  · have unknown : v.number ∉ values.map (·.number) := by rwa [← h.mem_numbers]
    rw [List.map_append, List.map_singleton, List.map_append, List.map_singleton, eraseDups_concat, if_neg unknown,
      h.order]
  · intro u hu
    rw [List.find?_append]
    rcases List.mem_append.mp hu with hu | hu
    · rw [h.first u hu]
      rfl
    · obtain rfl := List.mem_singleton.mp hu
      have none : values.find? (·.number == v.number) = none := by
        rw [List.find?_eq_none]
        intro x hx same
        rw [h.mem_numbers] at fresh
        exact fresh (List.mem_map.mpr ⟨x, hx, by simpa using same⟩)
      simp [w, none]
  · apply List.rel_append
    · exact h.arms.imp fun x a arm => ⟨arm.1, by
        obtain ⟨u, hu, rest⟩ := arm.2
        exact ⟨u, List.mem_append_left _ hu, rest⟩⟩
    · exact .cons ⟨rfl, w, by simp, rfl, rfl⟩ .nil

end Numbers

/-- The values of an enum are numbered one after the other. -/
theorem Numbering.numbers_ofEnum (e : EnumDef) : Numbers e.values (ofEnum e).variants (ofEnum e).arms := by
  suffices each : ∀ values : List EnumValue, Numbers values (values.foldl (add (enumStem e.name)) {}).variants
      (values.foldl (add (enumStem e.name)) {}).arms from each e.values
  intro values
  induction values using List.reverseRecOn with
  | nil => exact ⟨.nil, .nil, rfl, by simp, .nil⟩
  | append_singleton values v ih =>
    rw [List.foldl_append, List.foldl_cons, List.foldl_nil]
    cases found : (values.foldl (add (enumStem e.name)) {}).variants.find? (·.number == v.number) with
    | none => exact ih.add_new _ found
    | some w => exact ih.add_alias _ found

section text

/-- What the text of an enumeration says: its variants with their numbers, what each is called, and which name is read
as which variant. -/
structure EnumSketch where
  name : String
  numbers : List (String × Int)
  calls : List (String × String)
  reads : List (String × String)
deriving DecidableEq

def numberLine : LineForm := { start := "    ", middle := " = ", stop := "," }

def callLine : LineForm := { start := "            Self::", middle := " => \"", stop := "\"," }

def readLine : LineForm :=
  { start := "            \"", middle := "\" => ::core::option::Option::Some(Self::", stop := ")," }

def noneLine : String := "            _ => ::core::option::Option::None,"

/-- The names and what belongs to them in the lines up to a mark, and the lines from the mark on. -/
def LineForm.block? (form : LineForm) (mark : String) (lines : List String) :
    Option (List (String × String) × List String) :=
  ((lines.takeWhile (· != mark)).mapM form.read?).map (·, lines.dropWhile (· != mark))

/-- Reads the text of an enumeration. Between its three blocks lie six lines each, the mark of the block included. -/
def EnumSketch.read? (text : String) : Option EnumSketch := do
  let lines := linesOf text
  let name ← between? "pub enum " " \x7b" (← lines[2]?)
  let (numbers, rest) ← numberLine.block? "\x7d" (lines.drop 3)
  let (calls, rest) ← callLine.block? "        \x7d" (rest.drop 6)
  let (reads, _) ← readLine.block? noneLine (rest.drop 6)
  let numbers ← numbers.mapM fun (variant, number) => (numberOf? number.toList).map (variant, ·)
  return ⟨name, numbers, calls, reads⟩

theorem mapM_eq_some_map {α β : Type} {f : α → Option β} {g : α → β} {as : List α} (each : ∀ a ∈ as, f a = some (g a)) :
    as.mapM f = some (as.map g) := by
  induction as with
  | nil => rfl
  | cons a as ih =>
    rw [List.mapM_cons, each a List.mem_cons_self, ih fun b hb => each b (List.mem_cons_of_mem _ hb)]
    rfl

theorem LineForm.block?_write (form : LineForm) {mark : String} (other : form.read? mark = none)
    {entries : List (String × String)} (names : ∀ e ∈ entries, IsName e.1) (rest : List String) :
    form.block? mark (entries.map (fun e => form.write e.1 e.2) ++ mark :: rest) = some (entries, mark :: rest) := by
  have differs : ∀ line ∈ entries.map (fun e => form.write e.1 e.2), (line != mark) = true := by
    intro line hl
    obtain ⟨e, he, rfl⟩ := List.mem_map.mp hl
    rw [bne_iff_ne]
    intro same
    rw [← same, form.read?_write (names e he)] at other
    cases other
  have read : (entries.map fun e => form.write e.1 e.2).mapM form.read? = some entries := by
    rw [List.mapM_map]
    apply (mapM_eq_some_map (g := id) _).trans
    · rw [List.map_id]
    · intro e he
      exact form.read?_write (names e he) e.2
  rw [block?, List.takeWhile_append_of_pos differs, List.dropWhile_append_of_pos differs,
    List.takeWhile_cons_of_neg (by simp), List.dropWhile_cons_of_neg (by simp), List.append_nil, read]
  rfl

variable {name : String} {variants : List NumberedVariant} {arms : List Arm}

theorem LineForm.notMem_write (form : LineForm) {name type : String} (isName : IsName name) (one : '\n' ∉ type.toList) :
    '\n' ∉ (form.write name type).toList := by
  have marks := form.oneLine
  simp only [String.toList_append, List.mem_append, not_or] at marks
  have own : '\n' ∉ name.toList := isName.notMem (by decide)
  simp [write, marks, own, one]

theorem linesOf_join {lines : List String} (nonempty : lines ≠ []) (one : ∀ line ∈ lines, '\n' ∉ line.toList)
    (rest : String) : linesOf (joinWith "\n" lines ++ "\n" ++ rest) = lines ++ linesOf rest := by
  rw [unlines_join nonempty]
  clear nonempty
  induction lines with
  | nil => rw [List.nil_append, unlines, List.map_nil, joinWith, String.empty_append]
  | cons line lines ih =>
    rw [unlines_cons, String.append_assoc, linesOf_cons (one line List.mem_cons_self), List.cons_append,
      ih fun l hl => one l (List.mem_cons_of_mem _ hl)]

theorem linesOf_entries (form : LineForm) {entries : List (String × String)} (nonempty : entries ≠ [])
    (names : ∀ e ∈ entries, IsName e.1 ∧ '\n' ∉ e.2.toList) (rest : String) :
    linesOf (joinWith "\n" (entries.map fun e => form.write e.1 e.2) ++ "\n" ++ rest) =
      (entries.map fun e => form.write e.1 e.2) ++ linesOf rest := by
  apply linesOf_join
  · simpa using nonempty
  · intro line hl
    obtain ⟨e, he, rfl⟩ := List.mem_map.mp hl
    exact form.notMem_write (names e he).1 (names e he).2

def numberEntries (variants : List NumberedVariant) : List (String × String) :=
  variants.map fun w => (w.name, toString w.number)

def callEntries (variants : List NumberedVariant) : List (String × String) :=
  variants.map fun w => (w.name, w.schemaName)

def readEntries (arms : List Arm) : List (String × String) :=
  arms.map fun a => (a.schemaName, a.variant)

theorem enumerationText_eq (name : String) (variants : List NumberedVariant) (arms : List Arm) :
    Declaration.enumerationText name variants arms = unlines [
    "#[derive(Clone, Copy, Debug, PartialEq, Eq, Hash, PartialOrd, Ord, ::prost::Enumeration)]",
    "#[repr(i32)]",
    "pub enum " ++ name ++ " \x7b",
    joinWith "\n" ((numberEntries variants).map fun e => numberLine.write e.1 e.2),
    "\x7d",
    "",
    "impl " ++ name ++ " \x7b",
    "    /// The value's name as written in the schema.",
    "    pub fn as_str_name(&self) -> &'static str \x7b",
    "        match self \x7b",
    joinWith "\n" ((callEntries variants).map fun e => callLine.write e.1 e.2),
    "        \x7d",
    "    \x7d",
    "",
    "    /// Looks a value up by its schema name.",
    "    pub fn from_str_name(value: &str) -> ::core::option::Option<Self> \x7b",
    "        match value \x7b",
    joinWith "\n" ((readEntries arms).map fun e => readLine.write e.1 e.2),
    noneLine,
    "        \x7d",
    "    \x7d",
    "\x7d"] := by
  simp only [numberEntries, callEntries, readEntries, List.map_map]
  rfl

theorem mapM_numberEntries : ((numberEntries variants).mapM fun e => (numberOf? e.2.toList).map (e.1, ·)) =
    some (variants.map fun w => (w.name, w.number)) := by
  rw [numberEntries, List.mapM_map]
  apply mapM_eq_some_map
  intro w _
  show (numberOf? w.number.repr.toList).map (w.name, ·) = some (w.name, w.number)
  rw [numberOf?_repr]
  rfl

section lines
variable (isName : IsName name) (inhabited : variants ≠ []) (readable : arms ≠ [])
  (variantNames : ∀ w ∈ variants, IsName w.name ∧ IsName w.schemaName)
  (armNames : ∀ a ∈ arms, IsName a.schemaName ∧ IsName a.variant)

include variantNames in
theorem isName_of_mem_variants : (∀ e ∈ numberEntries variants, IsName e.1 ∧ '\n' ∉ e.2.toList) ∧
    ∀ e ∈ callEntries variants, IsName e.1 ∧ '\n' ∉ e.2.toList := by
  refine ⟨?_, ?_⟩
  · intro e he
    obtain ⟨w, hw, rfl⟩ := List.mem_map.mp he
    exact ⟨(variantNames w hw).1, notMem_repr w.number (by decide) (by decide)⟩
  · intro e he
    obtain ⟨w, hw, rfl⟩ := List.mem_map.mp he
    exact ⟨(variantNames w hw).1, (variantNames w hw).2.notMem (by decide)⟩

include armNames in
theorem isName_of_mem_arms : ∀ e ∈ readEntries arms, IsName e.1 ∧ '\n' ∉ e.2.toList := by
  intro e he
  obtain ⟨a, ha, rfl⟩ := List.mem_map.mp he
  exact ⟨(armNames a ha).1, (armNames a ha).2.notMem (by decide)⟩

include isName inhabited readable variantNames armNames

theorem linesOf_enumerationText : linesOf (Declaration.enumerationText name variants arms) =
    "#[derive(Clone, Copy, Debug, PartialEq, Eq, Hash, PartialOrd, Ord, ::prost::Enumeration)]" :: "#[repr(i32)]" ::
      ("pub enum " ++ name ++ " \x7b") ::
      ((numberEntries variants).map (fun e => numberLine.write e.1 e.2) ++ "\x7d" :: "" :: ("impl " ++ name ++ " \x7b") ::
        "    /// The value's name as written in the schema." ::
        "    pub fn as_str_name(&self) -> &'static str \x7b" :: "        match self \x7b" ::
        ((callEntries variants).map (fun e => callLine.write e.1 e.2) ++ "        \x7d" :: "    \x7d" :: "" ::
          "    /// Looks a value up by its schema name." ::
          "    pub fn from_str_name(value: &str) -> ::core::option::Option<Self> \x7b" :: "        match value \x7b" ::
          ((readEntries arms).map (fun e => readLine.write e.1 e.2) ++
            [noneLine, "        \x7d", "    \x7d", "\x7d", ""]))) := by
  obtain ⟨numbers, calls⟩ := isName_of_mem_variants variantNames
  have reads := isName_of_mem_arms armNames
  have enumLine : '\n' ∉ ("pub enum " ++ name ++ " \x7b").toList := notMem_header isName (by decide) (by decide)
  have implLine : '\n' ∉ ("impl " ++ name ++ " \x7b").toList := notMem_header isName (by decide) (by decide)
  have lastLine : '\n' ∉ noneLine.toList := notMem_ofList (by decide)
  rw [enumerationText_eq]
  simp (disch := exact notMem_ofList (by decide)) only [unlines_cons, linesOf_cons, linesOf_cons enumLine,
    linesOf_cons implLine, linesOf_cons lastLine,
    linesOf_entries numberLine (by simpa [numberEntries] using inhabited) numbers,
    linesOf_entries callLine (by simpa [callEntries] using inhabited) calls,
    linesOf_entries readLine (by simpa [readEntries] using readable) reads]
  rfl

theorem EnumSketch.read?_enumerationText :
    EnumSketch.read? (Declaration.enumerationText name variants arms) =
      some ⟨name, variants.map fun w => (w.name, w.number), callEntries variants, readEntries arms⟩ := by
  obtain ⟨numbers, calls⟩ := isName_of_mem_variants variantNames
  have reads := isName_of_mem_arms armNames
  -- Each block is read up to its mark.
  rw [EnumSketch.read?, linesOf_enumerationText isName inhabited readable variantNames armNames]
  simp only [List.getElem?_cons_succ, List.getElem?_cons_zero, between?_append, List.drop_succ_cons, List.drop_zero,
    bind, Option.bind_some,
    numberLine.block?_write (show numberLine.read? "\x7d" = none by decide) fun e he => (numbers e he).1,
    callLine.block?_write (show callLine.read? "        \x7d" = none by decide) fun e he => (calls e he).1,
    readLine.block?_write (show readLine.read? noneLine = none by decide) fun e he => (reads e he).1,
    mapM_numberEntries]
  rfl

end lines

end text

section names
variable {e : EnumDef}

theorem NumberedVariant.NamedAfter.isName {stem : List Char} {values : List EnumValue} {w : NumberedVariant}
    (h : w.NamedAfter stem values) (names : ∀ v ∈ values, IsName v.name) : IsName w.name ∧ IsName w.schemaName := by
  obtain ⟨⟨v, hv, value⟩, taken, name⟩ := h
  have isName : IsName w.schemaName := value ▸ names v hv
  refine ⟨?_, isName⟩
  rw [name]
  rcases freeVariant_cases taken stem w.schemaName with same | same | same
  · rw [same]
    exact Naming.isName_escape (Naming.isName_pascal (isName_withoutStem stem isName))
  · rw [same]
    exact Naming.isName_escape (Naming.isName_pascal isName)
  · obtain ⟨n, numbered⟩ := numbered_eq taken isName
    rw [same, numbered]
    exact Naming.isName_append (Naming.isName_pascal isName) (isName_repr n)

theorem Numbers.of_mem_arms {values : List EnumValue} {variants : List NumberedVariant} {arms : List Arm}
    (h : Numbers values variants arms) {a : Arm} (ha : a ∈ arms) :
    (∃ v ∈ values, a.schemaName = v.name) ∧ ∃ w ∈ variants, a.variant = w.name := by
  obtain ⟨i, hi, rfl⟩ := List.getElem_of_mem ha
  have bound : i < values.length := h.arms.length_eq ▸ hi
  obtain ⟨name, w, hw, _, variant⟩ := (List.forall₂_iff_get.mp h.arms).2 i bound hi
  exact ⟨⟨values[i], List.getElem_mem bound, name⟩, w, hw, variant⟩

theorem Numbering.isName_ofEnum (formed : e.WellFormed) :
    (ofEnum e).variants ≠ [] ∧ (ofEnum e).arms ≠ [] ∧
      (∀ w ∈ (ofEnum e).variants, IsName w.name ∧ IsName w.schemaName) ∧
      ∀ a ∈ (ofEnum e).arms, IsName a.schemaName ∧ IsName a.variant := by
  have numbers := numbers_ofEnum e
  have values : ∀ v ∈ e.values, IsName v.name := fun v hv => isName_of_isIdentifier (formed.values v hv)
  have variants : ∀ w ∈ (ofEnum e).variants, IsName w.name ∧ IsName w.schemaName :=
    fun w hw => (ofEnum_namedAfter e w hw).isName values
  obtain ⟨v, hv⟩ := List.exists_mem_of_ne_nil _ formed.nonempty
  refine ⟨?_, ?_, variants, ?_⟩
  · intro none
    have known := numbers.mem_numbers.mpr (List.mem_map_of_mem hv)
    simp [none] at known
  · intro none
    have length := numbers.arms.length_eq
    rw [none, List.length_nil, List.length_eq_zero_iff] at length
    exact formed.nonempty length
  · intro a ha
    obtain ⟨⟨v, hv, name⟩, w, hw, variant⟩ := numbers.of_mem_arms ha
    rw [name, variant]
    exact ⟨values v hv, (variants w hw).1⟩

theorem EnumSketch.read?_enumeration (s : Site) (scope : ∀ p ∈ s.scope, IsName p) (formed : e.WellFormed) :
    EnumSketch.read? (s.enumeration e).render =
      some ⟨Naming.typeName s.scope e.name, (Numbering.ofEnum e).variants.map fun w => (w.name, w.number),
        callEntries (Numbering.ofEnum e).variants, readEntries (Numbering.ofEnum e).arms⟩ := by
  obtain ⟨inhabited, readable, variants, arms⟩ := Numbering.isName_ofEnum formed
  exact read?_enumerationText (Naming.isName_typeName scope (isName_of_isIdentifier formed.name)) inhabited readable
    variants arms

end names

end SchemaGen.Code
