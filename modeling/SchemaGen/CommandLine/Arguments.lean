import SchemaGen.Text.Basic
/-!
The words of a command line: a verb, the switches given with it and their values.
-/
namespace SchemaGen.CommandLine
open Text

inductive Verb where
  | generate
  | check
  | parse
deriving DecidableEq, Repr

def Verb.ofWord? : String → Option Verb
  | "generate" => some .generate
  | "check" => some .check
  | "parse" => some .parse
  | _ => none

inductive Switch where
  | help
  | verbose
  | input
  | includes
  | config
  | nested
  | basePath
  | strict
  | noImports
  | output
deriving DecidableEq, Repr

namespace Switch

def long : Switch → String
  | help => "help"
  | verbose => "verbose"
  | input => "input"
  | includes => "include"
  | config => "config"
  | nested => "nested"
  | basePath => "base-namespace"
  | strict => "strict"
  | noImports => "no-imports"
  | output => "output"

def short? : Switch → Option Char
  | help => some 'h'
  | verbose => some 'v'
  | input => some 'i'
  | includes => some 'I'
  | output => some 'o'
  | _ => none

def allowed : Option Verb → List Switch
  | none => [help, verbose]
  | some .generate => [help, verbose, input, includes, config, nested, basePath, strict, noImports, output]
  | some .check => [help, verbose, input, includes, config, nested, basePath, strict, noImports]
  | some .parse => [help, verbose, input, strict]

def takesValue : Switch → Bool
  | input | includes | config | basePath | output => true
  | _ => false

/-- The values are paths, which are never empty. -/
def takesPath (s : Switch) : Bool :=
  s.takesValue && s != basePath

def takesMany (verb : Option Verb) (s : Switch) : Bool :=
  s == input && verb != some .parse

def repeatable (verb : Option Verb) (s : Switch) : Bool :=
  s == verbose || s == includes || s.takesMany verb

end Switch

structure Given where
  switch : Switch
  values : List String
deriving DecidableEq, Repr

/-- Why there is nothing to run: the words make no command, or help is asked for. -/
inductive Refusal where
  | misuse
  | help
deriving DecidableEq, Repr

/-- What a word that names switches gives, and the switch that waits for the words to come. -/
abbrev Named := List Given × Option Switch

def bare (s : Switch) : Except Refusal Named :=
  if s == .help then .error .help
  else if s.takesValue then .ok ([], some s)
  else .ok ([⟨s, []⟩], none)

def attached (s : Switch) (value : String) : Except Refusal Named :=
  if s.takesValue then .ok ([⟨s, [value]⟩], none) else .error .misuse

def readLong (allowed : List Switch) (cs : List Char) : Except Refusal Named :=
  match allowed.find? (·.long.toList == cs.takeWhile (· != '=')), cs.dropWhile (· != '=') with
  | none, _ => .error .misuse
  | some s, [] => bare s
  | some s, _ :: value => attached s (.ofList value)

/-- Short names in a row. The rest after a switch that takes a value is its value. -/
def readShort (allowed : List Switch) : List Char → Except Refusal Named
  | [] => .ok ([], none)
  | c :: cs =>
    match allowed.find? (·.short? == some c) with
    | none => .error .misuse
    | some s =>
      if s.takesValue then
        match cs with
        | [] => bare s
        | '=' :: value => attached s (.ofList value)
        | value => attached s (.ofList value)
      else do
        let (first, _) ← bare s
        let (more, waiting) ← readShort allowed cs
        return (first ++ more, waiting)

/-- A word that names switches. A dash alone is a value. -/
def readSwitches? (allowed : List Switch) (word : String) : Option (Except Refusal Named) :=
  match word.toList with
  | '-' :: '-' :: cs => some (readLong allowed cs)
  | '-' :: c :: cs => some (readShort allowed (c :: cs))
  | _ => none

/-- Ends a switch that waits for values. It needs at least one. -/
def close : Option Given → Except Refusal (List Given)
  | none => .ok []
  | some ⟨_, []⟩ => .error .misuse
  | some given => .ok [given]

/-- Reads the words after a verb, of which the last switch may be waiting for values. -/
def readWords (verb : Verb) : Option Given → List String → Except Refusal (List Given)
  | waiting, [] => close waiting
  | waiting, "--" :: rest => if rest.isEmpty then close waiting else .error .misuse
  | waiting, word :: rest =>
    match readSwitches? (Switch.allowed verb) word, waiting with
    | some named, _ => do
      let before ← close waiting
      let (given, next) ← named
      return before ++ given ++ (← readWords verb (next.map (⟨·, []⟩)) rest)
    | none, none => .error .misuse
    | none, some ⟨s, values⟩ =>
      if s.takesMany verb then readWords verb (some ⟨s, values ++ [word]⟩) rest
      else do return ⟨s, [word]⟩ :: (← readWords verb none rest)

structure Arguments where
  verb : Verb
  given : List Given
deriving Repr

namespace Arguments

def values (a : Arguments) (s : Switch) : List String :=
  (a.given.filter (·.switch == s)).flatMap (·.values)

def has (a : Arguments) (s : Switch) : Bool :=
  a.given.any (·.switch == s)

/-- No switch is given too often and no path is empty. -/
def valid (a : Arguments) : Bool :=
  a.given.all fun g =>
    (g.switch.repeatable a.verb || a.given.countP (·.switch == g.switch) == 1) &&
      (!g.switch.takesPath || g.values.all (· != ""))

def read : List String → Except Refusal Arguments
  | [] => .error .misuse
  | word :: rest =>
    match readSwitches? (Switch.allowed none) word with
    | some (.ok _) => read rest
    | some (.error refusal) => .error refusal
    | none =>
      match Verb.ofWord? word with
      | some verb => do
        let a : Arguments := ⟨verb, ← readWords verb none rest⟩
        if a.valid && a.has .input then .ok a else .error .misuse
      | none => .error (if word == "help" then .help else .misuse)

end Arguments

end SchemaGen.CommandLine
