import SchemaGen.Proofs.Casing
import SchemaGen.Proofs.Emission
/-!
# Members that share a name

The members of a record are named after the fields and the oneofs of its message, the variants of a union after the
fields of its oneof, and nothing else tells them apart. Names that differ in the schema may so meet in the code. They
never do if they are written in the usual way, in small letters with an underscore between words.
-/
namespace SchemaGen
open Text Code Output

namespace Code.Declaration

def memberNames : Declaration → List String
  | marker _ => []
  | record _ members => members.map (·.name)
  | union _ variants => variants.map (·.name)
  | enumeration _ variants _ => variants.map (·.name)

end Code.Declaration

def Message.memberSources (m : Message) : List String :=
  m.fields.map (·.name) ++ m.oneofs.map (·.name)

namespace Naming

/-- Two names of members that become one: they agree in snake case, or one is a reserved word there and the other
that word with an underscore at its end. -/
def SameMember (a b : String) : Prop :=
  snake a = snake b ∨ (snake a ∈ reserved ∧ snake b = snake a ++ "_") ∨ (snake b ∈ reserved ∧ snake a = snake b ++ "_")

theorem fieldName_eq_iff {a b : String} : fieldName a = fieldName b ↔ SameMember a b :=
  escape_eq_escape_iff

/-- Escaped variant names do not meet others, since Pascal case has no underscore. -/
theorem variantName_eq_iff {a b : String} (ha : IsName a) (hb : IsName b) :
    variantName a = variantName b ↔ pascal a = pascal b := by
  have free : ∀ {name : String}, IsName name → ∀ word, pascal name ≠ word ++ "_" := by
    intro name h word same
    exact underscore_notMem_pascal h (by simp [same])
  rw [variantName, variantName, escape_eq_escape_iff]
  constructor
  · rintro (same | ⟨_, same⟩ | ⟨_, same⟩)
    · exact same
    · exact absurd same (free hb _)
    · exact absurd same (free ha _)
  · exact .inl

def isPlainWord : List Char → Bool
  | [] => false
  | c :: cs => c.isLower && cs.all fun d => d.isLower || d.isDigit

/-- Plain words with an underscore between each two. -/
def Conventional (name : String) : Prop :=
  ∀ word ∈ piecesOf '_' name.toList, isPlainWord word

instance (name : String) : Decidable (Conventional name) :=
  inferInstanceAs (Decidable (∀ word ∈ piecesOf '_' name.toList, isPlainWord word))

def uncapital (c : Char) : List Char :=
  if c.isUpper then ['_', c.toLower] else [c]

section conventional

theorem isNamePart_of_small {c : Char} (h : c.isLower || c.isDigit) : Lexeme.isNamePart c := by
  have split : c.isAlphanum = (c.isUpper || c.isLower || c.isDigit) := rfl
  apply isNamePart_of_isAlphanum
  rw [split, Bool.or_assoc, h, Bool.or_true]

theorem isUpper_of_small {c : Char} (h : c.isLower || c.isDigit) : c.isUpper = false :=
  isNamePart_induction (P := fun c => c.isLower || c.isDigit → c.isUpper = false) (by decide)
    (isNamePart_of_small h) h

theorem isPlainWord_cons {word : List Char} (h : isPlainWord word) :
    ∃ c cs, word = c :: cs ∧ c.isLower ∧ ∀ d ∈ c :: cs, d.isLower || d.isDigit := by
  cases word with
  | nil => cases h
  | cons c cs =>
    obtain ⟨first, rest⟩ := Bool.and_eq_true_iff.mp h
    exact ⟨c, cs, rfl, first, List.forall_mem_cons.mpr ⟨by simp [first], List.all_eq_true.mp rest⟩⟩

/-- A plain word is read off its capitalized form. -/
theorem flatMap_uncapital {word : List Char} (h : isPlainWord word) :
    (capitalized word).flatMap uncapital = '_' :: word := by
  obtain ⟨c, cs, rfl, first, chars⟩ := isPlainWord_cons h
  have names : ∀ d ∈ c :: cs, Lexeme.isNamePart d := fun d hd => isNamePart_of_small (chars d hd)
  have raised : c.toUpper ≠ c ∧ c.toUpper.isUpper ∧ c.toUpper.toLower = c :=
    isNamePart_induction (P := fun c => c.isLower → c.toUpper ≠ c ∧ c.toUpper.isUpper ∧ c.toUpper.toLower = c)
      (by decide) (names c List.mem_cons_self) first
  have mixed : (upper (c :: cs) == c :: cs) = false := by
    rw [upper, List.flatMap_cons, capital_of_isNamePart (names c List.mem_cons_self)]
    simp [raised.1]
  have rest : cs.flatMap uncapital = cs := by
    have same : ∀ d ∈ cs, uncapital d = [d] := by
      intro d hd
      rw [uncapital, isUpper_of_small (chars d (List.mem_cons_of_mem c hd))]
      rfl
    rw [List.flatMap_congr same, List.flatMap_singleton']
  rw [capitalized_cons names, mixed, List.flatMap_cons, uncapital, if_pos raised.2.1, raised.2.2]
  simp [rest]

theorem eq_of_pascal_eq {a b : String} (ha : Conventional a) (hb : Conventional b) (h : pascal a = pascal b) :
    a = b := by
  have back : ∀ {name : String}, Conventional name → (pascal name).toList.flatMap uncapital = '_' :: name.toList := by
    intro name words
    rw [pascal, String.toList_ofList, pascalChars, List.flatMap_assoc,
      List.flatMap_congr fun word hw => flatMap_uncapital (words word hw), flatMap_piecesOf]
  have chars := (back ha).symm.trans (h ▸ back hb)
  exact String.toList_inj.mp (List.cons.inj chars).2

theorem Conventional.snake_eq {name : String} (h : Conventional name) : snake name = name := by
  have small : ∀ c ∈ name.toList, Text.isUpper c = false := by
    intro c hc
    have listed : c ∈ (piecesOf '_' name.toList).flatMap ('_' :: ·) := by
      rw [flatMap_piecesOf]
      exact List.mem_cons_of_mem _ hc
    obtain ⟨word, hw, hc⟩ := List.mem_flatMap.mp listed
    rcases List.mem_cons.mp hc with rfl | hc
    · decide
    · obtain ⟨first, cs, rfl, _, chars⟩ := isPlainWord_cons (h word hw)
      rw [isUpper_of_isNamePart (isNamePart_of_small (chars c hc))]
      exact isUpper_of_small (chars c hc)
  rw [snake, snakeChars, snakeFrom_of_not_isUpper small, String.ofList_toList]

theorem Conventional.ne_escaped {name word : String} (h : Conventional name) (reserved : word ∈ reserved) :
    name ≠ word ++ "_" := by
  rintro rfl
  have cut : piecesOf '_' (word ++ "_").toList = [word.toList, []] := by
    rw [String.toList_append]
    exact piecesOf_append (notMem_of_mem_reserved reserved) []
  have empty := h [] (by rw [cut]; simp)
  cases empty

theorem eq_of_sameMember {a b : String} (ha : Conventional a) (hb : Conventional b) (h : SameMember a b) : a = b := by
  rw [SameMember, ha.snake_eq, hb.snake_eq] at h
  rcases h with same | ⟨reserved, same⟩ | ⟨reserved, same⟩
  · exact same
  · exact absurd same (hb.ne_escaped reserved)
  · exact absurd same (ha.ne_escaped reserved)

end conventional

end Naming

open Naming

namespace Code.Site
variable {s : Site} {code : Declaration}

theorem oneofMember_name (s : Site) (o : Oneof) : (s.oneofMember o).name = fieldName o.name := rfl

theorem memberNames_record {m : Message} (h : s.record m = .ok code) :
    code.memberNames = m.memberSources.map fieldName := by
  rcases record_eq_ok h with ⟨empty, rfl⟩ | ⟨_, members, read, rfl⟩
  · simp only [Message.isEmpty, Bool.and_eq_true, List.isEmpty_iff] at empty
    rw [Message.memberSources, empty.1, empty.2]
    rfl
  · have fields : members.map (·.name) = m.fields.map (fieldName ·.name) :=
      map_eq_of_mapM (fun _ _ written => member_name written) read
    simp only [Declaration.memberNames, Message.memberSources, List.map_append, List.map_map, Function.comp_def, fields,
      oneofMember_name]

theorem memberNames_union {o : Oneof} (h : s.union o = .ok code) :
    code.memberNames = (o.fields.map (·.name)).map variantName := by
  obtain ⟨variants, read, rfl⟩ := union_eq_ok h
  have names : variants.map (·.name) = o.fields.map (variantName ·.name) :=
    map_eq_of_mapM (fun _ _ written => variant_name written) read
  simp only [Declaration.memberNames, List.map_map, Function.comp_def, names]

end Code.Site

/-- Written names differ exactly if no two sources are of the kind that the writing makes one of. -/
theorem nodup_map_iff {write : String → String} {Same : String → String → Prop} {sources : List String}
    (same : ∀ a ∈ sources, ∀ b ∈ sources, write a = write b ↔ Same a b) :
    (sources.map write).Nodup ↔ sources.Pairwise fun a b => ¬ Same a b := by
  rw [List.Nodup, List.pairwise_map]
  exact List.Pairwise.iff_of_mem fun ha hb => not_congr (same _ ha _ hb)

/-- The members of a record differ in their names exactly if no two names of its message become one member, and the
variants of a union exactly if no two names of its oneof agree in Pascal case. With conventional names that is the
case whenever the names themselves differ. -/
theorem memberNames_nodup_iff {f : SchemaFile} (parsed : f.Parsed) (registry : Registry) (config : Config) {n : Nested}
    (hn : n ∈ f.everyMessage) :
    (∀ code, (within (.top registry config f) n.scope).record n.message = .ok code →
      code.memberNames = n.message.memberSources.map fieldName ∧
      (code.memberNames.Nodup ↔ n.message.memberSources.Pairwise fun a b => ¬ SameMember a b) ∧
      ((∀ name ∈ n.message.memberSources, Conventional name) →
        (code.memberNames.Nodup ↔ n.message.memberSources.Nodup))) ∧
    ∀ o ∈ n.message.oneofs, ∀ code, (within (.top registry config f) n.inner).union o = .ok code →
      code.memberNames = (o.fields.map (·.name)).map variantName ∧
      (code.memberNames.Nodup ↔ (o.fields.map (·.name)).Pairwise fun a b => pascal a ≠ pascal b) ∧
      ((∀ name ∈ o.fields.map (·.name), Conventional name) →
        (code.memberNames.Nodup ↔ (o.fields.map (·.name)).Nodup)) := by
  have formed := parsed.wellFormed.messages n hn
  refine ⟨?_, ?_⟩
  · intro code written
    have names := Site.memberNames_record written
    refine ⟨names, ?_, ?_⟩
    · rw [names]
      exact nodup_map_iff fun _ _ _ _ => fieldName_eq_iff
    · intro conventional
      rw [names]
      refine nodup_map_iff fun a ha b hb => fieldName_eq_iff.trans ⟨?_, ?_⟩
      · exact eq_of_sameMember (conventional a ha) (conventional b hb)
      · rintro rfl
        exact .inl rfl
  · intro o ho code written
    have names := Site.memberNames_union written
    have isName : ∀ name ∈ o.fields.map (·.name), IsName name := by
      refine List.forall_mem_map.mpr fun x hx => isName_of_isIdentifier ?_
      exact ((formed.oneofs o ho).fields x hx).wellFormed.name
    refine ⟨names, ?_, ?_⟩
    · rw [names]
      exact nodup_map_iff fun a ha b hb => variantName_eq_iff (isName a ha) (isName b hb)
    · intro conventional
      rw [names]
      refine nodup_map_iff fun a ha b hb => (variantName_eq_iff (isName a ha) (isName b hb)).trans ⟨?_, ?_⟩
      · exact eq_of_pascal_eq (conventional a ha) (conventional b hb)
      · exact congrArg pascal

/-- Names that come close to each other, and a reserved word. -/
def ticketText : String :=
  "message Ticket\x7bint32 type=1;int32 type_of=2;oneof typeof\x7bint32 a_b=3;int32 ab=4;\x7d\x7d"

def ticket : SchemaFile := .ofText "ticket" ticketText

theorem memberNames_nodup_iff_ticket :
    ticket.Parsed ∧ ∃ r, Registry.registerAll {} [ticket] = .ok r ∧
      ∃ n ∈ ticket.everyMessage, ∃ o ∈ n.message.oneofs, ∃ record union,
        (within (.top r {} ticket) n.scope).record n.message = .ok record ∧
        (within (.top r {} ticket) n.inner).union o = .ok union ∧
        record.memberNames = ["type_", "type_of", "typeof_"] ∧ record.memberNames.Nodup ∧
        union.memberNames = ["AB", "Ab"] ∧ union.memberNames.Nodup := by
  have facts : (SchemaFile.parse true "ticket" ticketText).result.toBool ∧
      ∃ n ∈ ticket.everyMessage, ∃ o ∈ n.message.oneofs,
        (Registry.registerAll {} [ticket]).toOption.bind (fun r =>
          ((within (.top r {} ticket) n.scope).record n.message).toOption.map Declaration.memberNames) =
            some ["type_", "type_of", "typeof_"] ∧
        (Registry.registerAll {} [ticket]).toOption.bind (fun r =>
          ((within (.top r {} ticket) n.inner).union o).toOption.map Declaration.memberNames) = some ["AB", "Ab"] ∧
        n.message.memberSources = ["type", "type_of", "typeof"] ∧ o.fields.map (·.name) = ["a_b", "ab"] := by
    decide +kernel
  obtain ⟨reads, n, hn, o, ho, recordNames, unionNames, sources, alternatives⟩ := facts
  have parsed : ticket.Parsed := SchemaFile.parsed_ofText reads
  cases registered : Registry.registerAll {} [ticket] with
  | error e => simp [registered, Except.toOption] at recordNames
  | ok r =>
    rw [registered] at recordNames unionNames
    obtain ⟨record, written, recordNames⟩ := toOption_map_eq_some.mp recordNames
    obtain ⟨union, alternative, unionNames⟩ := toOption_map_eq_some.mp unionNames
    obtain ⟨records, unions⟩ := memberNames_nodup_iff parsed r {} hn
    obtain ⟨_, _, recordDistinct⟩ := records record written
    obtain ⟨_, _, unionDistinct⟩ := unions o ho union alternative
    rw [sources] at recordDistinct
    rw [alternatives] at unionDistinct
    refine ⟨parsed, r, rfl, n, hn, o, ho, record, union, written, alternative, recordNames, ?_, unionNames, ?_⟩
    · exact (recordDistinct (by decide)).mpr (by decide)
    · exact (unionDistinct (by decide)).mpr (by decide)

/-- Two fields that agree in snake case, and two members of a oneof that agree in Pascal case. -/
def twinsText : String :=
  "message Twins\x7bint32 fooBar=1;int32 foo_bar=2;oneof pick\x7bint32 a_1=3;int32 a1=4;\x7d\x7d"

def twins : SchemaFile := .ofText "twins" twinsText

/-- The record and the union are written, each with two members of one name. -/
theorem memberNames_twins :
    twins.Parsed ∧ ∃ r, Registry.registerAll {} [twins] = .ok r ∧
      ∃ n ∈ twins.everyMessage, ∃ o ∈ n.message.oneofs, ∃ record union,
        (within (.top r {} twins) n.scope).record n.message = .ok record ∧
        (within (.top r {} twins) n.inner).union o = .ok union ∧
        record.memberNames = ["foo_bar", "foo_bar", "pick"] ∧ ¬ record.memberNames.Nodup ∧
        union.memberNames = ["A1", "A1"] ∧ ¬ union.memberNames.Nodup := by
  have facts : (SchemaFile.parse true "twins" twinsText).result.toBool ∧
      ∃ n ∈ twins.everyMessage, ∃ o ∈ n.message.oneofs,
        (Registry.registerAll {} [twins]).toOption.bind (fun r =>
          ((within (.top r {} twins) n.scope).record n.message).toOption.map Declaration.memberNames) =
            some ["foo_bar", "foo_bar", "pick"] ∧
        (Registry.registerAll {} [twins]).toOption.bind (fun r =>
          ((within (.top r {} twins) n.inner).union o).toOption.map Declaration.memberNames) = some ["A1", "A1"] := by
    decide +kernel
  obtain ⟨reads, n, hn, o, ho, recordNames, unionNames⟩ := facts
  cases registered : Registry.registerAll {} [twins] with
  | error e => simp [registered, Except.toOption] at recordNames
  | ok r =>
    rw [registered] at recordNames unionNames
    obtain ⟨record, written, recordNames⟩ := toOption_map_eq_some.mp recordNames
    obtain ⟨union, alternative, unionNames⟩ := toOption_map_eq_some.mp unionNames
    refine ⟨SchemaFile.parsed_ofText reads, r, rfl, n, hn, o, ho, record, union, written, alternative, recordNames, ?_,
      unionNames, ?_⟩
    · rw [recordNames]
      decide
    · rw [unionNames]
      decide

end SchemaGen
