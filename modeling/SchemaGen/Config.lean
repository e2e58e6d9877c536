import SchemaGen.Error
import SchemaGen.Naming
import SchemaGen.Token.Lexeme
/-!
The settings of a session, and the modules that packages map to.
-/
namespace SchemaGen
open Text

/-- How packages map to modules: all to the base module, or each to one of its own below it. -/
inductive Layout where
  | flat
  | nested
deriving DecidableEq, Repr

structure Config where
  layout : Layout := .flat
  basePath : String := "crate::proto"
  includeImports : Bool := true
  strictFields : Bool := false
deriving DecidableEq, Repr

def pathPieces : List Char → List (List Char)
  | [] => [[]]
  | ':' :: ':' :: cs => [] :: pathPieces cs
  | c :: cs =>
    match pathPieces cs with
    | [] => [[c]]
    | piece :: pieces => (c :: piece) :: pieces

/-- Identifiers joined by double colons. -/
def isModulePath (path : String) : Bool :=
  (pathPieces path.toList).all identifierChars

namespace Config

def check (config : Config) : Except SchemaError Unit :=
  if isModulePath config.basePath then .ok () else .error (.badBasePath config.basePath)

def directory (config : Config) (package : Option String) : List String :=
  match config.layout, package with
  | .nested, some package => (partsOf '.' package).map Naming.fieldName
  | _, _ => []

def modulePath (config : Config) (directory : List String) : String :=
  joinWith "::" (config.basePath :: directory)

def packagePath (config : Config) (package : Option String) : String :=
  config.modulePath (config.directory package)

end Config

end SchemaGen
