import Dialogue.Decimal.Basic

/-! Numerals read by scaling. Only the leading digits that fit into a word of 64 bits count. Their number is taken to
a double, and that is multiplied with or divided by a power of ten. It is rounded at each of these steps, so the
result can lie next to the double that is nearest to the numeral. -/
namespace Dialogue.Decimal

def wordSize : Nat := Nat.pow 2 64

def extend (n : Nat) : List Char → Nat × Nat
  | [] => (n, 0)
  | c :: rest =>
    let longer := 10 * n + digitValue c
    if longer < wordSize then extend longer rest else (n, rest.length + 1)

/- The decimal that counts of a numeral. A digit that is left out before the point moves the exponent up, and one
behind the point has no effect; digits behind the point may still fit where one before it did not. -/
def leading (whole fraction : List Char) (power : Int) : Decimal :=
  let (n, before) := extend 0 whole
  let (n, behind) := extend n fraction
  ⟨n, before - (fraction.length - behind) + power⟩

def largestPower : Nat := 308

def powerOfTen (n : Nat) : Float := Float.ofScientific 1 false n

def shrink (x : Float) (power : Nat) : Float :=
  if power ≤ largestPower then x / powerOfTen power
  else if power ≤ 2 * largestPower then x / powerOfTen largestPower / powerOfTen (power - largestPower)
  else 0.0

def scaled? (d : Decimal) : Option Float :=
  let x := Float.ofScientific d.digits false 0
  match d.exponent with
  | .negSucc n => some (shrink x (n + 1))
  | .ofNat n =>
    if d.digits = 0 then some x
    else if n ≤ largestPower then
      let product := x * powerOfTen n
      if product.isFinite then some product else none
    else none

end Dialogue.Decimal
