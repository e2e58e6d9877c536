/-!
Reading JSON text without building values: each reader takes what it expects from the front of a text and
returns what follows, or nothing if the text has another form.
-/
namespace SchemaGen.Json

def skipBlanks (cs : List Char) : List Char :=
  cs.dropWhile fun c => c == ' ' || c == '\n' || c == '\t' || c == '\r'

/-- Takes one character, blanks before it skipped. -/
def expect? (c : Char) (cs : List Char) : Option (List Char) :=
  match skipBlanks cs with
  | d :: rest => if d == c then some rest else none
  | [] => none

def hexValue? (c : Char) : Option Nat :=
  if c.isDigit then some (c.toNat - '0'.toNat)
  else if 'a' ≤ c && c ≤ 'f' then some (c.toNat - 'a'.toNat + 10)
  else if 'A' ≤ c && c ≤ 'F' then some (c.toNat - 'A'.toNat + 10)
  else none

/-- The number written by four hexadecimal digits. -/
def unit? (a b c d : Char) : Option Nat := do
  return ((← hexValue? a) * 16 + (← hexValue? b)) * 256 + (← hexValue? c) * 16 + (← hexValue? d)

def escaped? : Char → Option Char
  | '"' => some '"'
  | '\\' => some '\\'
  | '/' => some '/'
  | 'b' => some '\x08'
  | 'f' => some '\x0c'
  | 'n' => some '\n'
  | 'r' => some '\r'
  | 't' => some '\t'
  | _ => none

/-- Skips the rest of a string. Escapes are checked for their form only. -/
def skipString? : List Char → Option (List Char)
  | '"' :: cs => some cs
  | '\\' :: 'u' :: a :: b :: c :: d :: cs => do
    let _ ← unit? a b c d
    skipString? cs
  | '\\' :: e :: cs => do
    let _ ← escaped? e
    skipString? cs
  | c :: cs => if c.toNat < 32 || c == '\\' then none else skipString? cs
  | [] => none

/-- The characters of the rest of a string. Escaped halves of a surrogate pair have to stand together. -/
def stringChars? : List Char → Option (List Char × List Char)
  | '"' :: cs => some ([], cs)
  | '\\' :: 'u' :: a :: b :: c :: d :: cs => do
    let n ← unit? a b c d
    if 0xDC00 ≤ n && n ≤ 0xDFFF then none
    else if 0xD800 ≤ n && n ≤ 0xDBFF then
      match cs with
      | '\\' :: 'u' :: e :: f :: g :: h :: rest => do
        let low ← unit? e f g h
        if 0xDC00 ≤ low && low ≤ 0xDFFF then
          let (text, rest) ← stringChars? rest
          return (Char.ofNat (0x10000 + (n - 0xD800) * 0x400 + (low - 0xDC00)) :: text, rest)
        else none
      | _ => none
    else
      let (text, rest) ← stringChars? cs
      return (Char.ofNat n :: text, rest)
  | '\\' :: e :: cs => do
    let c ← escaped? e
    let (text, rest) ← stringChars? cs
    return (c :: text, rest)
  | c :: cs =>
    if c.toNat < 32 || c == '\\' then none
    else do
      let (text, rest) ← stringChars? cs
      return (c :: text, rest)
  | [] => none

def string? (cs : List Char) : Option (String × List Char) := do
  let (text, rest) ← stringChars? (← expect? '"' cs)
  return (.ofList text, rest)

def word? (word : String) (cs : List Char) : Option (List Char) :=
  let cs := skipBlanks cs
  if word.toList.isPrefixOf cs then some (cs.drop word.length) else none

def bool? (cs : List Char) : Option (Bool × List Char) :=
  match word? "true" cs with
  | some rest => some (true, rest)
  | none => (word? "false" cs).map (false, ·)

def skipDigits? : List Char → Option (List Char)
  | c :: cs => if c.isDigit then some (cs.dropWhile Char.isDigit) else none
  | [] => none

def skipFraction? : List Char → Option (List Char)
  | '.' :: cs => skipDigits? cs
  | cs => some cs

def skipExponent? : List Char → Option (List Char)
  | e :: cs =>
    if e == 'e' || e == 'E' then
      match cs with
      | s :: ds => if s == '+' || s == '-' then skipDigits? ds else skipDigits? cs
      | [] => none
    else some (e :: cs)
  | [] => some []

/-- Takes a number. A leading zero stands alone. -/
def skipNumber? (cs : List Char) : Option (List Char) := do
  let cs := match cs with
    | '-' :: cs => cs
    | cs => cs
  let rest ← match cs with
    | '0' :: d :: rest => if d.isDigit then none else some (d :: rest)
    | cs => skipDigits? cs
  skipExponent? (← skipFraction? rest)

mutual

/-- Takes any value, at most `depth` readings deep. -/
def skipValue? : Nat → List Char → Option (List Char)
  | 0, _ => none
  | depth + 1, cs =>
    match skipBlanks cs with
    | '"' :: rest => skipString? rest
    | '[' :: rest => expect? ']' rest <|> skipElements? depth rest
    | '\x7b' :: rest => expect? '\x7d' rest <|> skipFields? depth rest
    | rest => word? "null" rest <|> word? "true" rest <|> word? "false" rest <|> skipNumber? rest

def skipElements? : Nat → List Char → Option (List Char)
  | 0, _ => none
  | depth + 1, cs => do
    let rest ← skipValue? depth cs
    match skipBlanks rest with
    | ',' :: rest => skipElements? depth rest
    | ']' :: rest => some rest
    | _ => none

def skipFields? : Nat → List Char → Option (List Char)
  | 0, _ => none
  | depth + 1, cs => do
    let rest ← expect? '"' cs >>= skipString? >>= expect? ':' >>= skipValue? depth
    match skipBlanks rest with
    | ',' :: rest => skipFields? depth rest
    | '\x7d' :: rest => some rest
    | _ => none

end

/-- Takes any value. Every reading within takes at least one character, and a value inside a list or an object
needs two readings. -/
def skip? (cs : List Char) : Option (List Char) :=
  skipValue? (2 * cs.length + 2) cs

end SchemaGen.Json
