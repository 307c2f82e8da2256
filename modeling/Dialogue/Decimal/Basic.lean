/-! Decimal numbers and doubles. A decimal is taken to the nearest double, and a finite double is the exact number
`mantissa * 2 ^ exponent`. -/
namespace Dialogue

structure Decimal where
  digits : Nat
  exponent : Int
  deriving DecidableEq, Repr

structure Numeral where
  negative : Bool
  magnitude : Decimal
  deriving DecidableEq, Repr

namespace Decimal

/- The nearest double. A magnitude of 10 ^ 400 or more is infinite and one below 10 ^ -400 is zero
whatever its digits, so no power of that size is worked out. -/
def toDouble (d : Decimal) : Float :=
  if d.digits = 0 then 0.0
  else if 400 < d.exponent then 1.0 / 0.0
  else if d.exponent + d.digits.log2 + 1 < -400 then 0.0
  else Float.ofScientific d.digits (d.exponent < 0) d.exponent.natAbs

def digitValue (c : Char) : Nat := c.toNat - '0'.toNat

def valueOf (cs : List Char) : Nat := cs.foldl (fun n c => 10 * n + digitValue c) 0

def leadingDigits (cs : List Char) : List Char × List Char := cs.span Char.isDigit

def digitsOf (n : Nat) : List Char := Nat.toDigits 10 n

end Decimal

namespace Numeral
open Decimal

def toDouble (n : Numeral) : Float :=
  if n.negative then -n.magnitude.toDouble else n.magnitude.toDouble

def readSign : List Char → Bool × List Char
  | '-' :: rest => (true, rest)
  | '+' :: rest => (false, rest)
  | cs => (false, cs)

def readExponent? : List Char → Option Int
  | [] => some 0
  | c :: rest =>
    if c = 'e' ∨ c = 'E' then
      let (negative, rest) := readSign rest
      let (digits, rest) := leadingDigits rest
      if digits.isEmpty ∨ !rest.isEmpty then none
      else some (if negative then -(valueOf digits : Int) else valueOf digits)
    else none

def read? (cs : List Char) : Option Numeral := do
  let (negative, rest) := readSign cs
  let (whole, rest) := leadingDigits rest
  let (fraction, rest) :=
    match rest with
    | '.' :: rest => leadingDigits rest
    | _ => ([], rest)
  if whole.isEmpty ∧ fraction.isEmpty then none
  let exponent ← readExponent? rest
  some ⟨negative, valueOf (whole ++ fraction), exponent - fraction.length⟩

end Numeral

namespace Double

structure Exact where
  mantissa : Nat
  exponent : Int
  deriving DecidableEq, Repr

def isNegative (x : Float) : Bool := x.toBits.toNat / Nat.pow 2 63 = 1

def exact (x : Float) : Exact :=
  let bits := x.toBits.toNat
  let field : Nat := bits / Nat.pow 2 52 % 2048
  let fraction : Nat := bits % Nat.pow 2 52
  if field = 0 then ⟨fraction, -1074⟩ else ⟨fraction + Nat.pow 2 52, Int.ofNat field - 1075⟩

def wholeMagnitude? (x : Float) : Option Nat :=
  let e := exact x
  match e.exponent with
  | .ofNat q => some (e.mantissa * Nat.pow 2 q)
  | .negSucc q =>
    let unit := Nat.pow 2 (q + 1)
    if e.mantissa % unit = 0 then some (e.mantissa / unit) else none

def whole? (x : Float) : Option Int :=
  (wholeMagnitude? x).map fun n => if isNegative x then -(n : Int) else n

def hexDigits (x : Float) : String :=
  let digits := Nat.toDigits 16 x.toBits.toNat
  String.ofList (List.replicate (16 - digits.length) '0' ++ digits)

end Double
end Dialogue
