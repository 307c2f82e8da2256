import Dialogue.Value

/-! Conditions on the context. A branch rule names where play goes on when its condition holds, and the first such
rule wins. A predicate decides whether an action is on offer: if it has alternatives, one of them has to hold and the
requirements do not count; otherwise every requirement has to hold. -/
namespace Dialogue

inductive Operator where
  | equals
  | greaterThan
  | lessThan
  deriving DecidableEq, Repr, Inhabited

namespace Operator

def token : Operator → String
  | .equals => "eq"
  | .greaterThan => "gt"
  | .lessThan => "lt"

def ofToken? (token : String) : Option Operator :=
  if token = "=" ∨ token = "eq" ∨ token = "equals" then some .equals
  else if token = ">" ∨ token = "gt" then some .greaterThan
  else if token = "<" ∨ token = "lt" then some .lessThan
  else none

theorem ofTokenToken (op : Operator) : ofToken? op.token = some op := by
  cases op <;> decide

def evaluate (op : Operator) (current : Option Json) (expected : Json) : Bool :=
  match op with
  | .equals => Value.strictEq current expected
  | .greaterThan => Value.asNumber (some expected) < Value.asNumber current
  | .lessThan => Value.asNumber current < Value.asNumber (some expected)

end Operator

structure Check where
  op : Operator
  value : Json
  deriving DecidableEq, Repr, Inhabited

namespace Check

def holds (check : Check) (key : String) (context : Context) : Bool :=
  check.op.evaluate (context.get? key) check.value

end Check

structure Condition where
  key : String
  check : Check
  deriving DecidableEq, Repr, Inhabited

namespace Condition

def holds (c : Condition) (context : Context) : Bool := c.check.holds c.key context

end Condition

abbrev NodeId := String
abbrev ActionId := String

structure BranchRule where
  condition : Condition
  targetId : NodeId
  deriving DecidableEq, Repr, Inhabited

namespace BranchRule

def applies (rule : BranchRule) (context : Context) : Bool := rule.condition.holds context

def choose (rules : List BranchRule) (context : Context) : Option NodeId :=
  (rules.find? (·.applies context)).map (·.targetId)

end BranchRule

structure Predicate where
  requirements : Table Check
  alternatives : Table Check
  deriving DecidableEq, Repr, Inhabited

namespace Predicate

def isEmpty (p : Predicate) : Bool := p.requirements.isEmpty && p.alternatives.isEmpty

def satisfied (p : Predicate) (context : Context) : Bool :=
  if p.alternatives.isEmpty then p.requirements.entries.all fun e => e.2.holds e.1 context
  else p.alternatives.entries.any fun e => e.2.holds e.1 context

end Predicate
end Dialogue
