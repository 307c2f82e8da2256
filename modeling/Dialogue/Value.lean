import Dialogue.Json.Basic
import Dialogue.Decimal.Basic
import Dialogue.Text.Blank

/-! Values as numbers. Every value counts as some finite number, and a number is kept as an integer where it is whole.
Equality does not go through numbers: it is strict, but two numbers compare by what they are worth. -/
namespace Dialogue.Value

def textNumber (s : String) : Float :=
  match Numeral.read? (Text.trimmed s.toList) with
  | some n => n.toDouble
  | none => 0.0

def asNumber : Option Json → Float
  | some (.bool true) => 1.0
  | some (.number n) => n.toDouble
  | some (.string s) =>
    let x := textNumber s
    if x.isFinite then x else 0.0
  | _ => 0.0

def ofNumber (x : Float) : Json :=
  if x.isFinite then
    match Double.whole? x with
    | some n => if n.natAbs < Nat.pow 2 63 then .number (.integer n) else .number (.double x)
    | none => .number (.double x)
  else .null

def strictEq (current : Option Json) (expected : Json) : Bool :=
  match current, expected with
  | some (.number a), .number b => a.toDouble == b.toDouble
  | some current, expected => current.same expected
  | none, _ => false

end Dialogue.Value
