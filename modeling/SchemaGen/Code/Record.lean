import SchemaGen.Code.Shape
/-!
Records and unions: a message becomes a record with one member for each field and one for each oneof, and a oneof
becomes a union with one variant for each of its fields.
-/
namespace SchemaGen.Code.Site
open Text

def member (s : Site) (f : Field) : Except SchemaError Member := do
  let (encoding, type) ←
    match f.type with
    | .map key value => do
      let value := s.shape (← s.meaning f value)
      pure (Encoding.map key.keyword value.mapKind f.number, mapOf (scalarType key) value.type)
    | type => do
      let shape := s.shape (← s.meaning f type)
      match f.label with
      | .repeated => pure (Encoding.repeated shape.kind shape.packable f.number, vectorOf shape.type)
      | .singular =>
        let boxed := s.needsBox shape.target
        pure (Encoding.optional shape.kind boxed f.number, optionOf (if boxed then boxOf shape.type else shape.type))
  return ⟨f.deprecated, encoding, Naming.fieldName f.name, type⟩

def oneofMember (s : Site) (o : Oneof) : Member :=
  let union := Naming.unionName s.scope o.name
  ⟨false, .oneof union (o.fields.map (·.number)), Naming.fieldName o.name, optionOf union⟩

def record (s : Site) (m : Message) : Except SchemaError Declaration := do
  let name := Naming.typeName s.scope m.name
  if m.isEmpty then return .marker name
  let inner := s.inside m.name
  let members ← m.fields.mapM inner.member
  return .record name (members ++ m.oneofs.map inner.oneofMember)

def variant (s : Site) (f : Field) : Except SchemaError Member := do
  let shape := s.shape (← s.meaning f f.type)
  let boxed := s.needsBox shape.target
  return ⟨f.deprecated, .single shape.kind boxed f.number, Naming.variantName f.name,
    if boxed then boxOf shape.type else shape.type⟩

def union (s : Site) (o : Oneof) : Except SchemaError Declaration := do
  return .union (Naming.unionName s.scope o.name) (← o.fields.mapM s.variant)

end SchemaGen.Code.Site
