import SchemaGen.Proofs.Casing
import SchemaGen.Proofs.Folder
import Mathlib.Data.List.Infix
/-!
# What snake case adds to a name

Snake case lowers the letters of a name and puts underscores between them, and that is all it does: the underscores
of the name stay, and a new one has a character that is no underscore on either side. So the name can be told from its
snake case up to case and underscores, and two names share a file or a module only if they agree up to these.
-/
namespace SchemaGen
open Text

def IsAscii (text : String) : Prop :=
  ∀ c ∈ text.toList, c.toNat < 128

instance (text : String) : Decidable (IsAscii text) :=
  decidable_of_iff (text.toList.all fun c => c.toNat < 128) (by simp [IsAscii])

theorem ascii_induction {P : Char → Prop} (each : ∀ n : Fin 128, P (Char.ofNat n)) {c : Char} (h : c.toNat < 128) :
    P c := by
  have found := each ⟨c.toNat, h⟩
  simpa only [Char.ofNat_toNat] using found

section characters
variable {c : Char}

theorem isUpper_toLower (h : c.toNat < 128) : isUpper c.toLower = false :=
  ascii_induction (P := fun c => isUpper c.toLower = false) (by decide) h

theorem toLower_toLower (h : c.toNat < 128) : c.toLower.toLower = c.toLower :=
  ascii_induction (P := fun c => c.toLower.toLower = c.toLower) (by decide) h

theorem toLower_eq_underscore (h : c.toNat < 128) : c.toLower = '_' ↔ c = '_' :=
  ascii_induction (P := fun c => c.toLower = '_' ↔ c = '_') (by decide) h

theorem ne_underscore_of_isUpper (upper : isUpper c) : c ≠ '_' := by
  rintro rfl
  exact absurd upper (by decide)

theorem toLower_of_not_isUpper (h : c.toNat < 128) (other : ¬ isUpper c) : c.toLower = c :=
  ascii_induction (P := fun c => ¬ isUpper c → c.toLower = c) (by decide) h other

end characters

namespace Naming

/-- The second text is the first with underscores put in, each between two characters of the first that are no
underscores. The first text stands behind the character `before`, if there is one. -/
inductive Separated : Option Char → List Char → List Char → Prop
  | nil {before : Option Char} : Separated before [] []
  | joined {before : Option Char} {c : Char} {cs ds : List Char} (rest : Separated (some c) cs ds) :
      Separated before (c :: cs) (c :: ds)
  | parted {b c : Char} {cs ds : List Char} (left : b ≠ '_') (right : c ≠ '_') (rest : Separated (some c) cs ds) :
      Separated (some b) (c :: cs) ('_' :: c :: ds)

namespace Separated
variable {before : Option Char} {cs ds : List Char}

theorem filter_eq (h : Separated before cs ds) : ds.filter (· != '_') = cs.filter (· != '_') := by
  induction h with
  | nil => rfl
  | joined _ ih => rw [List.filter_cons, List.filter_cons, ih]
  | parted _ _ _ ih => rw [List.filter_cons_of_neg (by simp), List.filter_cons, List.filter_cons, ih]

theorem mem_or_eq (h : Separated before cs ds) {d : Char} (hd : d ∈ ds) : d = '_' ∨ d ∈ cs := by
  induction h with
  | nil => cases hd
  | joined _ ih =>
    rcases List.mem_cons.mp hd with rfl | hd
    · exact .inr List.mem_cons_self
    · exact (ih hd).imp id (List.mem_cons_of_mem _)
  | parted _ _ _ ih =>
    rcases List.mem_cons.mp hd with rfl | hd
    · exact .inl rfl
    rcases List.mem_cons.mp hd with rfl | hd
    · exact .inr List.mem_cons_self
    · exact (ih hd).imp id (List.mem_cons_of_mem _)

theorem head?_eq (h : Separated none cs ds) : ds.head? = cs.head? := by
  cases h with
  | nil => rfl
  | joined _ => rfl

theorem getLast?_eq (h : Separated before cs ds) : ds.getLast? = cs.getLast? := by
  induction h with
  | nil => rfl
  | joined _ ih => rw [List.getLast?_cons, List.getLast?_cons, ih]
  | parted _ _ _ ih => simp only [List.getLast?_cons, ih, Option.getD_some]

theorem doubled (h : Separated before cs ds) (twice : ['_', '_'] <:+: ds) : ['_', '_'] <:+: cs := by
  induction h with
  | nil => exact twice
  | @joined _ c cs ds rest ih =>
    rcases List.infix_cons_iff.mp twice with here | later
    · obtain ⟨rfl, next⟩ := List.cons_prefix_cons.mp here
      -- the second underscore is not put in, since the first stands right before it
      cases rest with
      | nil => exact absurd next (by simp)
      | joined _ =>
        obtain ⟨rfl, _⟩ := List.cons_prefix_cons.mp next
        exact (List.prefix_append ['_', '_'] _).isInfix
      | parted left _ _ => exact absurd rfl left
    · exact (ih later).trans (List.suffix_cons c cs).isInfix
  | @parted _ c cs ds _ right _ ih =>
    rcases List.infix_cons_iff.mp twice with here | later
    · have first := (List.cons_prefix_cons.mp (List.cons_prefix_cons.mp here).2).1
      exact absurd first.symm right
    · rcases List.infix_cons_iff.mp later with here | later
      · exact absurd (List.cons_prefix_cons.mp here).1.symm right
      · exact (ih later).trans (List.suffix_cons c cs).isInfix

end Separated

/-- Snake case of a text behind the character `before` is the text in small letters with underscores put in. -/
theorem separated_snakeFrom {before : Option Char} {cs : List Char} (hb : ∀ b ∈ before, b.toNat < 128)
    (h : ∀ c ∈ cs, c.toNat < 128) :
    Separated (before.map Char.toLower) (cs.map Char.toLower) (snakeFrom before cs) := by
  induction cs generalizing before with
  | nil => exact .nil
  | cons c cs ih =>
    obtain ⟨first, rest⟩ := List.forall_mem_cons.mp h
    have known : ∀ b ∈ some c, b.toNat < 128 := by simpa using first
    have next : Separated (some c.toLower) (cs.map Char.toLower) (snakeFrom (some c) cs) := ih known rest
    rw [snakeFrom, List.map_cons]
    by_cases upper : isUpper c
    · have letter : small c = [c.toLower] := if_pos first
      rw [if_pos upper, letter]
      dsimp only
      split
      · -- the capital begins a word, so there is a character before it that is no underscore
        rename_i begins
        obtain ⟨b, rfl, other⟩ := (Option.any_eq_true _ _).mp begins
        have left : b ≠ '_' := by
          simp only [Bool.and_eq_true, bne_iff_ne] at other
          exact other.1
        have lowered : b.toLower ≠ '_' := mt (toLower_eq_underscore (hb b rfl)).mp left
        exact .parted lowered (mt (toLower_eq_underscore first).mp (ne_underscore_of_isUpper upper)) next
      · exact .joined next
    · have small : c.toLower = c := toLower_of_not_isUpper first upper
      rw [if_neg upper]
      rw [small] at next ⊢
      exact .joined next

theorem doubled_of_map_toLower {cs : List Char} (h : ∀ c ∈ cs, c.toNat < 128)
    (twice : ['_', '_'] <:+: cs.map Char.toLower) : ['_', '_'] <:+: cs := by
  obtain ⟨front, back, cut⟩ := twice
  obtain ⟨start, back', rfl, whole, _⟩ := List.map_eq_append_iff.mp cut.symm
  obtain ⟨front', pair, rfl, _, lowered⟩ := List.map_eq_append_iff.mp whole
  have same : pair = ['_', '_'] := by
    have each : ∀ c ∈ pair, c = '_' := by
      intro c hc
      have line : c.toLower ∈ ['_', '_'] := lowered ▸ List.mem_map_of_mem hc
      exact (toLower_eq_underscore (h c (by simp [hc]))).mp (by simpa using line)
    have two : pair.length = 2 := by simpa using congrArg List.length lowered
    exact List.eq_replicate_iff.mpr ⟨two, each⟩
  exact ⟨front', back', by rw [same]⟩

theorem separated_snake {name : String} (ascii : IsAscii name) :
    Separated none (name.toList.map Char.toLower) (snake name).toList := by
  have nothing : ∀ b ∈ (none : Option Char), b.toNat < 128 := by simp
  rw [snake, String.toList_ofList]
  exact separated_snakeFrom nothing ascii

/-- The letters of a name in small form, and all its other characters but the underscores. -/
def letters (name : String) : List Char :=
  (name.toList.filter (· != '_')).map Char.toLower

theorem filter_snake {name : String} (ascii : IsAscii name) :
    (snake name).toList.filter (· != '_') = letters name := by
  have same : ∀ c ∈ name.toList, (c.toLower != '_') = (c != '_') := by
    intro c hc
    rw [Bool.eq_iff_iff, bne_iff_ne, bne_iff_ne, Ne, Ne, toLower_eq_underscore (ascii c hc)]
  rw [(separated_snake ascii).filter_eq, letters, List.filter_map, Function.comp_def, List.filter_congr same]

theorem not_isUpper_of_mem_snake {name : String} (ascii : IsAscii name) :
    ∀ c ∈ (snake name).toList, isUpper c = false := by
  intro c hc
  rcases (separated_snake ascii).mem_or_eq hc with rfl | hc
  · decide
  · obtain ⟨d, hd, rfl⟩ := List.mem_map.mp hc
    exact isUpper_toLower (ascii d hd)

theorem snake_snake {name : String} (ascii : IsAscii name) : snake (snake name) = snake name := by
  rw [snake, snakeChars, snakeFrom_of_not_isUpper (not_isUpper_of_mem_snake ascii), String.ofList_toList]

theorem letters_append_underscore (name : String) : letters (name ++ "_") = letters name := by
  simp [letters]

theorem letters_escape (name : String) : letters (escape name) = letters name := by
  unfold escape
  split
  · exact letters_append_underscore name
  · rfl

theorem letters_fieldName {name : String} (ascii : IsAscii name) : letters (fieldName name) = letters name := by
  rw [fieldName, letters_escape, letters, filter_snake ascii]
  simp only [letters, List.map_map]
  apply List.map_congr_left
  intro c hc
  exact toLower_toLower (ascii c (List.mem_of_mem_filter hc))

end Naming

theorem isAscii_of_mem_partsOf {text part : String} (ascii : IsAscii text) (h : part ∈ partsOf '.' text) :
    IsAscii part := by
  obtain ⟨piece, hp, rfl⟩ := List.mem_map.mp h
  intro c hc
  rw [String.toList_ofList] at hc
  exact ascii c (mem_of_mem_piecesOf (List.mem_filter.mp hp).1 hc)

theorem Config.letters_of_directory_eq {config : Config} (nested : config.layout = .nested) {p q : String}
    (hp : IsAscii p) (hq : IsAscii q) (same : config.directory (some p) = config.directory (some q)) :
    (partsOf '.' p).map Naming.letters = (partsOf '.' q).map Naming.letters := by
  have back : ∀ {text : String}, IsAscii text →
      (config.directory (some text)).map Naming.letters = (partsOf '.' text).map Naming.letters := by
    intro text ascii
    have parts : config.directory (some text) = (partsOf '.' text).map Naming.fieldName := by
      simp only [directory, nested]
    rw [parts, List.map_map, Function.comp_def]
    apply List.map_congr_left
    intro part hpart
    exact Naming.letters_fieldName (isAscii_of_mem_partsOf ascii hpart)
  rw [← back hp, same, back hq]

/-- Of two types that a folder takes alone, it takes one after the other unless their files coincide. -/
theorem Output.Folder.fieldName_eq_of_addFile_error {f g g' : Output.Folder} {path a b : String}
    {x y : Output.OwnFile} {e : SchemaError} (first : f.addFile path a x = .ok g) (alone : f.addFile path b y = .ok g')
    (refused : g.addFile path b y = .error e) : Naming.fieldName a = Naming.fieldName b := by
  obtain ⟨_, rfl⟩ := addFile_eq_ok.mp first
  obtain ⟨⟨records, index, free⟩, _⟩ := addFile_eq_ok.mp alone
  by_contra other
  have still : (f.files.insert (Naming.fieldName a) x).find? (Naming.fieldName b) = none := by
    rw [Catalog.find?_insert, if_neg (Ne.symm other), free]
  have taken : Folder.addFile { f with files := f.files.insert (Naming.fieldName a) x } path b y = .ok _ :=
    addFile_eq_ok.mpr ⟨⟨records, index, still⟩, rfl⟩
  rw [taken] at refused
  cases refused

/-- Snake case has no capitals, gives the letters of the name back when its underscores are deleted, keeps the
underscores of the name and puts further ones only between characters that are none, and changes nothing when it is
applied again. Two names share a file or a module only if they agree up to case and underscores. -/
theorem snake_lowers_and_separates {name : String} (ascii : IsAscii name) :
    (∀ c ∈ (Naming.snake name).toList, isUpper c = false) ∧
      (Naming.snake name).toList.filter (· != '_') = (name.toList.filter (· != '_')).map Char.toLower ∧
      Naming.Separated none (name.toList.map Char.toLower) (Naming.snake name).toList ∧
      (Naming.snake name).toList.head? = name.toList.head?.map Char.toLower ∧
      (Naming.snake name).toList.getLast? = name.toList.getLast?.map Char.toLower ∧
      (['_', '_'] <:+: (Naming.snake name).toList → ['_', '_'] <:+: name.toList) ∧
      Naming.snake (Naming.snake name) = Naming.snake name ∧
      (∀ other, IsAscii other → Naming.fieldName name = Naming.fieldName other →
        Naming.letters name = Naming.letters other) ∧
      (∀ other, IsAscii other → ∀ (f g g' : Output.Folder) (path : String) (x y : Output.OwnFile) (e : SchemaError),
        f.addFile path name x = .ok g → f.addFile path other y = .ok g' → g.addFile path other y = .error e →
        Naming.letters name = Naming.letters other) ∧
      ∀ other, IsAscii other → ∀ config : Config, config.layout = .nested →
        config.directory (some name) = config.directory (some other) →
        (partsOf '.' name).map Naming.letters = (partsOf '.' other).map Naming.letters := by
  have separated := Naming.separated_snake ascii
  have shared : ∀ other, IsAscii other → Naming.fieldName name = Naming.fieldName other →
      Naming.letters name = Naming.letters other := by
    intro other ascii' same
    rw [← Naming.letters_fieldName ascii, same, Naming.letters_fieldName ascii']
  refine ⟨Naming.not_isUpper_of_mem_snake ascii, Naming.filter_snake ascii, separated, ?_, ?_, ?_,
    Naming.snake_snake ascii, shared, ?_, ?_⟩
  · rw [separated.head?_eq, List.head?_map]
  · rw [separated.getLast?_eq, List.getLast?_map]
  · intro twice
    exact Naming.doubled_of_map_toLower ascii (separated.doubled twice)
  · intro other ascii' f g g' path x y e first alone refused
    exact shared other ascii' (Output.Folder.fieldName_eq_of_addFile_error first alone refused)
  · intro other ascii' config nested same
    exact config.letters_of_directory_eq nested ascii ascii' same

theorem snake_lowers_and_separates_request :
    IsAscii "HTTPRequest_Id__2x" ∧ Naming.snake "HTTPRequest_Id__2x" = "http_request_id__2x" ∧
      Naming.Separated none ("HTTPRequest_Id__2x".toList.map Char.toLower) (Naming.snake "HTTPRequest_Id__2x").toList ∧
      Naming.fieldName "HTTPRequest_Id__2x" = Naming.fieldName "Http_request_id__2x" ∧
      Naming.letters "HTTPRequest_Id__2x" = Naming.letters "Http_request_id__2x" := by
  have facts : IsAscii "HTTPRequest_Id__2x" ∧ IsAscii "Http_request_id__2x" ∧
      Naming.snake "HTTPRequest_Id__2x" = "http_request_id__2x" ∧
      Naming.fieldName "HTTPRequest_Id__2x" = Naming.fieldName "Http_request_id__2x" := by
    decide +kernel
  obtain ⟨ascii, ascii', snake, same⟩ := facts
  obtain ⟨_, _, separated, _, _, _, _, shared, _⟩ := snake_lowers_and_separates ascii
  exact ⟨ascii, snake, separated, same, shared "Http_request_id__2x" ascii' same⟩

end SchemaGen
