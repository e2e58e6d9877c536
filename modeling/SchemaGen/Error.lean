import SchemaGen.Report
import SchemaGen.Schema.Fault
/-!
The failures and the warnings of a session, each with its cause, the file it belongs to and its wording, and the
outcome of a step of a session.
-/
namespace SchemaGen
open Text

/-- Why a file could not be read or written. -/
inductive FileFault where
  | absent
  | occupied
  | notDirectory
  | isDirectory
  | notText
deriving DecidableEq, Repr

def FileFault.message : FileFault → String
  | absent => "No such file or directory (os error 2)"
  | occupied => "File exists (os error 17)"
  | notDirectory => "Not a directory (os error 20)"
  | isDirectory => "Is a directory (os error 21)"
  | notText => "stream did not contain valid UTF-8"

inductive SchemaError where
  | file (path : String) (fault : FileFault)
  | parse (file : String) (misread : Misread)
  | missingInput (name : String)
  | missingImport (file : String) (path : String)
  | unresolvedType (file message field type : String)
  | duplicateFieldNumber (file message : String) (number : Int) (first second : String)
  | duplicateSymbol (name first second : String)
  | duplicateDeclaration (name path first second : String)
  | badConfig
  | badBasePath (path : String)
  | multiple (errors : List SchemaError)
deriving Repr

namespace SchemaError

mutual

def message : SchemaError → String
  | file path fault => "I/O error on " ++ path ++ ": " ++ fault.message
  | parse name misread =>
    name ++ ": parse error at line " ++ toString misread.position.line ++ ", column " ++
      toString misread.position.column ++ ": " ++ misread.fault.message
  | missingInput name => "Input file " ++ name ++ " not found"
  | missingImport name path => name ++ ": import " ++ path ++ " not found on any search root"
  | unresolvedType name owner field type =>
    name ++ ": type " ++ type ++ " of field " ++ field ++ " in message " ++ owner ++ " cannot be resolved"
  | duplicateFieldNumber name owner number first second =>
    name ++ ": field number " ++ toString number ++ " is used by both " ++ first ++ " and " ++ second ++
      " in message " ++ owner
  | duplicateSymbol name first second =>
    "The type " ++ name ++ " is defined in both " ++ first ++ " and " ++ second
  | duplicateDeclaration name path first second =>
    "Generated name " ++ name ++ " in " ++ path ++ " is produced by both " ++ first ++ " and " ++ second
  | badConfig => "Invalid configuration: not a JSON object of the known settings"
  | badBasePath path => "Invalid configuration: base_namespace " ++ shown path ++ " is not a Rust module path"
  | multiple errors =>
    toString errors.length ++ " schema files failed:\n" ++ joinWith "\n" (lines errors)

def lines : List SchemaError → List String
  | [] => []
  | e :: es => ("  " ++ e.message) :: lines es

end

/-- The file a failure belongs to, when it is a single one. -/
def file? : SchemaError → Option String
  | file path _ => some path
  | parse name _ => some name
  | missingInput name => some name
  | missingImport name _ => some name
  | unresolvedType name _ _ _ => some name
  | duplicateFieldNumber name _ _ _ _ => some name
  | duplicateSymbol _ _ second => some second
  | duplicateDeclaration .. | badConfig | badBasePath _ | multiple _ => none

/-- A single failure stands for itself, several are reported together. -/
def collect? : List SchemaError → Option SchemaError
  | [] => none
  | [e] => some e
  | es => some (multiple es)

end SchemaError

inductive Warning where
  | notice (file : String) (notice : Notice)
  | enumAlias (file enum value variant : String)
deriving DecidableEq, Repr

def Warning.message : Warning → String
  | notice file (.malformedField line statement fault) =>
    file ++ ":" ++ toString line ++ ": skipping malformed field " ++ quote statement ++ ": " ++ fault.message
  | notice file (.malformedMethod line service) =>
    file ++ ":" ++ toString line ++ ": skipping malformed rpc in service " ++ service
  | enumAlias file enum value variant =>
    file ++ ": enum " ++ enum ++ " value " ++ value ++ " aliases " ++ variant ++ "; no separate variant emitted"

abbrev Outcome := Report Warning SchemaError

end SchemaGen
