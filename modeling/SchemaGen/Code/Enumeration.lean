import SchemaGen.Code.Shape
import SchemaGen.Error
/-!
Enumerations: the first value with a number becomes a variant, a later one with the same number is read as that
variant. Variants lose the name of their enum in front where a name remains, and never share a name.
-/
namespace SchemaGen.Code
open Text

/-- The name of the enum as the values of an enum are written, with an underscore. -/
def enumStem (enum : String) : List Char :=
  upper (Naming.snakeChars enum.toList) ++ ['_']

/-- A value name without the stem, if a letter follows it. -/
def withoutStem (stem : List Char) (value : String) : String :=
  match after? stem value.toList with
  | some (c :: cs) => if c.isAlpha then .ofList (c :: cs) else value
  | _ => value

def withoutUnderscores (name : String) : String :=
  .ofList (name.toList.reverse.dropWhile (· == '_')).reverse

/-- The name with the least number from two on that makes it free. -/
def numbered (taken : List String) (name : String) : String :=
  let base := withoutUnderscores name
  let number := (List.range (taken.length + 1)).find? fun n => !taken.contains (base ++ toString (n + 2))
  base ++ toString (number.getD taken.length + 2)

/-- The variant name for a value: short if it is free, else long if that is free, else long with a number. -/
def freeVariant (taken : List String) (stem : List Char) (value : String) : String :=
  let short := Naming.variantName (withoutStem stem value)
  let long := Naming.variantName value
  if !taken.contains short then short
  else if !taken.contains long then long
  else numbered taken long

/-- The variants, the arms and the values without a variant of their own, so far. -/
structure Numbering where
  variants : List NumberedVariant := []
  arms : List Arm := []
  aliases : List Arm := []

def Numbering.add (stem : List Char) (n : Numbering) (v : EnumValue) : Numbering :=
  match n.variants.find? (·.number == v.number) with
  | some first =>
    let arm : Arm := ⟨v.name, first.name⟩
    { n with arms := n.arms ++ [arm], aliases := n.aliases ++ [arm] }
  | none =>
    let name := freeVariant (n.variants.map (·.name)) stem v.name
    { n with variants := n.variants ++ [⟨name, v.number, v.name⟩], arms := n.arms ++ [⟨v.name, name⟩] }

def Numbering.ofEnum (e : EnumDef) : Numbering :=
  e.values.foldl (add (enumStem e.name)) {}

def Site.enumeration (s : Site) (e : EnumDef) : Declaration :=
  let n := Numbering.ofEnum e
  .enumeration (Naming.typeName s.scope e.name) n.variants n.arms

/-- A warning for each value without a variant of its own. -/
def Site.aliasWarnings (s : Site) (e : EnumDef) : List Warning :=
  (Numbering.ofEnum e).aliases.map fun a => .enumAlias s.file.name e.name a.schemaName a.variant

end SchemaGen.Code
