import SchemaGen.Registry.Basic
/-!
Resolution: what a type name means at a place in a file. A relative name has a list of candidates, nearest
first: in each enclosing message and package, as a nested name of the file itself, in the packages of the
imported files, and as a full name. The first candidate that exists is the meaning.
-/
namespace SchemaGen
open Text

inductive Resolved where
  | scalar (kind : Scalar)
  | wrapper (kind : Scalar)
  | wellKnown (type : WellKnown)
  | message (symbol : Symbol)
  | enum (symbol : Symbol)
deriving DecidableEq, Repr

def Resolved.ofSymbol (s : Symbol) : Resolved :=
  match s.kind with
  | .message => message s
  | .enum => enum s

def Resolved.ofEntry : WellKnown.Entry → Resolved
  | .type t => wellKnown t
  | .wrapper kind => wrapper kind

/-- A place where names are used: the file, its package and the messages around. -/
structure Place where
  file : String
  package : Option String
  scope : List String

/-- The enclosing names of a place, from the innermost message out to the first part of the package. -/
def Place.enclosing (p : Place) : List String :=
  let parts := (p.package.elim [] (partsOf '.')) ++ p.scope
  (List.range parts.length).reverse.map fun n => joinWith "." (parts.take (n + 1))

inductive Candidate where
  | declared (fullName : String)
  | inFile (file nestedName : String)
  | builtIn (fullName : String)
deriving DecidableEq, Repr

namespace Registry

def packageWalk (r : Registry) : Walk String (Option String) where
  key := id
  visit path :=
    if WellKnown.isImport path then (some WellKnown.package, [])
    else
      match r.file? path with
      | some f => (f.package, (f.imports.filter (·.isPublic)).map (·.path))
      | none => (none, [])
  keys := r.importPaths
  found_mem := by
    intro name path h
    split at h
    · simp at h
    · split at h
      · rename_i f found
        obtain ⟨i, imported, rfl⟩ := List.mem_map.mp h
        exact mem_importPaths found (List.mem_filter.mp imported).1
      · simp at h

/-- The packages of the files that a file imports, directly or passed on by public imports. -/
def importedPackages (r : Registry) (file : String) : List String :=
  let found := r.packageWalk.run .breadthFirst ((r.importsOf file).map (·.path)) []
  ((found.filterMap id).filter (!·.isEmpty)).eraseDups

def candidates (r : Registry) (p : Place) (name : String) : List Candidate :=
  p.enclosing.map (fun q => .declared (q ++ "." ++ name)) ++ .inFile p.file name ::
    ((r.importedPackages p.file).map (fun q =>
      if q == WellKnown.package then .builtIn (q ++ "." ++ name) else .declared (q ++ "." ++ name)) ++
    [.declared name])

def declared? (r : Registry) (fullName : String) : Option Resolved :=
  (r.symbol? fullName).map .ofSymbol

def meaning? (r : Registry) : Candidate → Option Resolved
  | .declared fullName => r.declared? fullName
  | .inFile file nestedName => ((r.symbolsIn file).find? (·.nestedName == nestedName)).map .ofSymbol
  | .builtIn fullName => (WellKnown.lookup? fullName).map .ofEntry

/-- The meaning of a name without a dot in front, or with that dot taken away. -/
def resolveName? (r : Registry) (p : Place) (absolute : Bool) (name : String) : Option Resolved :=
  if WellKnown.inPackage name then (WellKnown.lookup? name).map .ofEntry
  else if absolute then r.declared? name
  else
    match Scalar.ofKeyword? name with
    | some kind => some (.scalar kind)
    | none => (r.candidates p name).findSome? r.meaning?

/-- The meaning of a type name at a place. A dot in front makes it a full name. -/
def resolve? (r : Registry) (p : Place) (name : String) : Option Resolved :=
  match name.toList with
  | '.' :: cs => r.resolveName? p true (.ofList cs)
  | _ => r.resolveName? p false name

end Registry

end SchemaGen
