import Dialogue.Json.Printer
import Dialogue.Json.Decoder

/-! What can be said of a value without printing or reading it: how deep it is, which numbers are in it, and whether
the members of its objects are in order. -/
namespace Dialogue

def Number.Fits : Number → Prop
  | .integer n => -(Nat.pow 2 63 : Nat) ≤ n ∧ n < (Nat.pow 2 64 : Nat)
  | .double x => x.isFinite = true

namespace Json

mutual

def nesting : Json → Nat
  | .array items => nestingItems items + 1
  | .object members => nestingMembers members + 1
  | .null | .bool _ | .number _ | .string _ => 0

def nestingItems : List Json → Nat
  | [] => 0
  | item :: items => max (nesting item) (nestingItems items)

def nestingMembers : List (String × Json) → Nat
  | [] => 0
  | (_, value) :: members => max (nesting value) (nestingMembers members)

end

theorem nestingItemsLe {items : List Json} {n : Nat} :
    nestingItems items ≤ n ↔ ∀ item ∈ items, item.nesting ≤ n := by
  induction items with
  | nil => simp [nestingItems]
  | cons item items ih => rw [nestingItems, Nat.max_le, ih, List.forall_mem_cons]

theorem nestingMembersLe {members : List (String × Json)} {n : Nat} :
    nestingMembers members ≤ n ↔ ∀ m ∈ members, m.2.nesting ≤ n := by
  induction members with
  | nil => simp [nestingMembers]
  | cons m members ih => rw [nestingMembers, Nat.max_le, ih, List.forall_mem_cons]

theorem arrayNesting {items : List Json} {n : Nat} :
    (Json.array items).nesting ≤ n + 1 ↔ ∀ item ∈ items, item.nesting ≤ n := by
  rw [nesting, Nat.add_le_add_iff_right, nestingItemsLe]

theorem objectNesting {members : List (String × Json)} {n : Nat} :
    (Json.object members).nesting ≤ n + 1 ↔ ∀ m ∈ members, m.2.nesting ≤ n := by
  rw [nesting, Nat.add_le_add_iff_right, nestingMembersLe]

inductive Numbers (good : Number → Prop) : Json → Prop where
  | null : Numbers good .null
  | bool (b : Bool) : Numbers good (.bool b)
  | number {n : Number} (here : good n) : Numbers good (.number n)
  | string (s : String) : Numbers good (.string s)
  | array {items : List Json} (inside : ∀ item ∈ items, Numbers good item) : Numbers good (.array items)
  | object {members : List (String × Json)} (inside : ∀ m ∈ members, Numbers good m.2) :
      Numbers good (.object members)

inductive Ascends : Json → Prop where
  | null : Ascends .null
  | bool (b : Bool) : Ascends (.bool b)
  | number (n : Number) : Ascends (.number n)
  | string (s : String) : Ascends (.string s)
  | array {items : List Json} (inside : ∀ item ∈ items, Ascends item) : Ascends (.array items)
  | object {members : List (String × Json)} (inOrder : members.Pairwise fun a b => a.1 < b.1)
      (inside : ∀ m ∈ members, Ascends m.2) : Ascends (.object members)

mutual

def doubles : Json → List Float
  | .number (.double x) => [x]
  | .array items => doublesItems items
  | .object members => doublesMembers members
  | .null | .bool _ | .number (.integer _) | .string _ => []

def doublesItems : List Json → List Float
  | [] => []
  | item :: items => doubles item ++ doublesItems items

def doublesMembers : List (String × Json) → List Float
  | [] => []
  | (_, value) :: members => doubles value ++ doublesMembers members

end

theorem doublesOfItem {items : List Json} {item : Json} (mem : item ∈ items) {x : Float} (inside : x ∈ item.doubles) :
    x ∈ doublesItems items := by
  induction items with
  | nil => cases mem
  | cons other items ih =>
    rcases List.mem_cons.mp mem with rfl | later
    · exact List.mem_append_left _ inside
    · exact List.mem_append_right _ (ih later)

theorem doublesOfMember {members : List (String × Json)} {m : String × Json} (mem : m ∈ members) {x : Float}
    (inside : x ∈ m.2.doubles) : x ∈ doublesMembers members := by
  induction members with
  | nil => cases mem
  | cons other members ih =>
    rcases List.mem_cons.mp mem with rfl | later
    · exact List.mem_append_left _ inside
    · exact List.mem_append_right _ (ih later)

theorem Numbers.andDoubles {good fine : Number → Prop} {j : Json} (numbers : j.Numbers good)
    (integers : ∀ i, good (.integer i) → fine (.integer i)) (doubles : ∀ x ∈ j.doubles, fine (.double x)) :
    j.Numbers fine := by
  induction numbers with
  | null => exact .null
  | bool b => exact .bool b
  | string s => exact .string s
  | @number n here =>
    cases n with
    | integer i => exact .number (integers i here)
    | double x => exact .number (doubles x (by simp [Json.doubles]))
  | array _ ih => exact .array fun item mem => ih item mem fun x inside => doubles x (doublesOfItem mem inside)
  | object _ ih => exact .object fun m mem => ih m mem fun x inside => doubles x (doublesOfMember mem inside)

end Json
end Dialogue
