import Dialogue.Decimal.Basic

/-! The written form of a finite double: the fewest digits that read back as the double, of two such forms the nearer
one, and of two equally near ones the one that ends in an even digit. Where no length up to seventeen had one, the
exact decimal expansion would stand in. -/
namespace Dialogue.Double

structure Ratio where
  above : Nat
  below : Nat
  deriving DecidableEq, Repr

def Exact.ratio (e : Exact) : Ratio :=
  match e.exponent with
  | .ofNat q => ⟨e.mantissa * Nat.pow 2 q, 1⟩
  | .negSucc q => ⟨e.mantissa, Nat.pow 2 (q + 1)⟩

def Ratio.inUnits (r : Ratio) (exponent : Int) : Ratio :=
  match exponent with
  | .ofNat u => ⟨r.above, r.below * Nat.pow 10 u⟩
  | .negSucc u => ⟨r.above * Nat.pow 10 (u + 1), r.below⟩

def Ratio.below? (r s : Ratio) : Bool := r.above * s.below < s.above * r.below

end Dialogue.Double

namespace Dialogue.Decimal

def ratio (d : Decimal) : Double.Ratio :=
  match d.exponent with
  | .ofNat n => ⟨d.digits * Nat.pow 10 n, 1⟩
  | .negSucc n => ⟨d.digits, Nat.pow 10 (n + 1)⟩

end Dialogue.Decimal

namespace Dialogue.Double

/- The numbers that are nearer to a double than to its neighbours. Of the two in the middle between two doubles each
belongs to the double with the even mantissa. -/
structure Interval where
  low : Ratio
  high : Ratio
  closed : Bool
  deriving DecidableEq, Repr

def Exact.interval (e : Exact) : Interval :=
  let down := if e.mantissa = Nat.pow 2 52 ∧ e.exponent ≠ -1074 then 1 else 2
  ⟨Exact.ratio ⟨4 * e.mantissa - down, e.exponent - 2⟩, Exact.ratio ⟨4 * e.mantissa + 2, e.exponent - 2⟩,
    e.mantissa % 2 = 0⟩

def Interval.holds (i : Interval) (r : Ratio) : Bool :=
  if i.closed then !r.below? i.low && !i.high.below? r else i.low.below? r && r.below? i.high

def wholeLeading (n : Nat) : Nat :=
  let guess := n.log2 * 1233 / 4096
  if Nat.pow 10 (guess + 1) ≤ n then guess + 1 else guess

def Ratio.leading (r : Ratio) : Int :=
  if r.below ≤ r.above then wholeLeading (r.above / r.below)
  else
    -- The power for the number turned over, rounded up.
    let turned := wholeLeading (r.below / r.above)
    if r.above * Nat.pow 10 turned = r.below then -(turned : Int) else -(turned + 1 : Int)

def Ratio.neighbours (r : Ratio) (exponent : Int) : List Decimal :=
  let u := r.inUnits exponent
  let low := u.above / u.below
  let rest := 2 * (u.above % u.below)
  let under : Decimal := ⟨low, exponent⟩
  let above : Decimal := ⟨low + 1, exponent⟩
  if rest < u.below ∨ (rest = u.below ∧ low % 2 = 0) then [under, above] else [above, under]

def candidates (r : Ratio) : List Decimal :=
  let leading := r.leading
  (List.range 17).flatMap fun n : Nat => r.neighbours (leading - Int.ofNat n)

def Exact.expansion (e : Exact) : Decimal :=
  match e.exponent with
  | .ofNat q => ⟨e.mantissa * Nat.pow 2 q, 0⟩
  | .negSucc q => ⟨e.mantissa * Nat.pow 5 (q + 1), -(q + 1 : Int)⟩

def trimZeros : Nat → Decimal → Decimal
  | 0, d => d
  | fuel + 1, d =>
    if d.digits ≠ 0 ∧ d.digits % 10 = 0 then trimZeros fuel ⟨d.digits / 10, d.exponent + 1⟩ else d

def shortest (x : Float) : Decimal :=
  let e := exact x
  let inside := e.interval
  let found := (candidates e.ratio).find? fun d => inside.holds d.ratio
  trimZeros 20 (found.getD e.expansion)

structure Layout where
  lowest : Int
  highest : Int
  deriving DecidableEq, Repr

def pointed (digits : List Char) (before : Int) : List Char :=
  match before with
  | .ofNat 0 => '0' :: '.' :: digits
  | .ofNat n =>
    let whole := digits.take n ++ List.replicate (n - digits.length) '0'
    let fraction := digits.drop n
    whole ++ '.' :: (if fraction.isEmpty then ['0'] else fraction)
  | .negSucc n => '0' :: '.' :: (List.replicate (n + 1) '0' ++ digits)

def scientific (digits : List Char) (leading : Int) : List Char :=
  let mantissa :=
    match digits with
    | first :: second :: rest => first :: '.' :: second :: rest
    | short => short
  mantissa ++ 'e' :: (if leading < 0 then '-' else '+') :: Nat.toDigits 10 leading.natAbs

def Layout.write (layout : Layout) (d : Decimal) : List Char :=
  let digits := Nat.toDigits 10 d.digits
  let leading := d.exponent + digits.length - 1
  if layout.lowest ≤ leading ∧ leading < layout.highest then pointed digits (leading + 1)
  else scientific digits leading

def Layout.render (layout : Layout) (x : Float) : List Char :=
  let magnitude := if (exact x).mantissa = 0 then ['0', '.', '0'] else layout.write (shortest x)
  if isNegative x then '-' :: magnitude else magnitude

end Dialogue.Double
