/-!
Integer literals: decimal, hexadecimal after `0x`, octal after a leading zero. A literal is an integer only if
its value fits in 64 bits with sign.
-/
namespace SchemaGen.Text

def digitValue? (c : Char) : Option Nat :=
  if '0' ≤ c && c ≤ '9' then some (c.toNat - '0'.toNat)
  else if 'a' ≤ c && c ≤ 'z' then some (c.toNat - 'a'.toNat + 10)
  else if 'A' ≤ c && c ≤ 'Z' then some (c.toNat - 'A'.toNat + 10)
  else none

def digits? (radix : Nat) (value : Nat) : List Char → Option Nat
  | [] => some value
  | c :: cs =>
    match digitValue? c with
    | some d => if d < radix then digits? radix (value * radix + d) cs else none
    | none => none

def numeral? (radix : Nat) : List Char → Option Nat
  | [] => none
  | c :: cs => digits? radix 0 (c :: cs)

def fitsInt64 (n : Int) : Bool :=
  -9223372036854775808 ≤ n && n ≤ 9223372036854775807

def fitsInt32 (n : Int) : Bool :=
  -2147483648 ≤ n && n ≤ 2147483647

def signedNumeral? (radix : Nat) (cs : List Char) : Option Int :=
  let value : Option Int :=
    match cs with
    | '-' :: ds => (numeral? radix ds).map fun n => -(n : Int)
    | '+' :: ds => (numeral? radix ds).map fun n => (n : Int)
    | ds => (numeral? radix ds).map fun n => (n : Int)
  value.filter fitsInt64

/-- An integer literal without its sign; the radix is told by how it begins. -/
def unsignedLiteral? : List Char → Option Int
  | '0' :: 'x' :: ds => signedNumeral? 16 ds
  | '0' :: 'X' :: ds => signedNumeral? 16 ds
  | '0' :: d :: ds => signedNumeral? 8 (d :: ds)
  | ds => signedNumeral? 10 ds

/-- The value of an integer literal. The negative of `-2 ^ 63`, which no signed 64-bit number is, is a value here; only
a sign inside the digits, as in `-0x-8000000000000000`, leads to it, and no token is written so. -/
def integer? (text : String) : Option Int :=
  match text.toList with
  | '-' :: cs => (unsignedLiteral? cs).map fun n => -n
  | '+' :: cs => unsignedLiteral? cs
  | cs => unsignedLiteral? cs

end SchemaGen.Text
