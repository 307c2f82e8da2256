import Dialogue.Story.Basic

/-! Contexts that nothing in a story tells apart. Play compares a value with an expected one or takes it for a number.
Values that are equal need not be the same, since zero equals zero below zero; but they look the same, and so do the
contexts that effects make of them. -/
namespace Dialogue
open Float.Model (UnpackedFloat)

structure LooksEqual (x y : Float) : Prop where
  below : ∀ z, x < z ↔ y < z
  above : ∀ z, z < x ↔ z < y
  equal : ∀ z, (x == z) = (y == z)
  sum : ∀ z, Value.ofNumber (x + z) = Value.ofNumber (y + z)

theorem equalUnpacked {x y : UnpackedFloat} (equal : x.compare y = some .eq) :
    x = y ∨ ∃ s t, x = .zero s ∧ y = .zero t := by
  cases x with
  | notANumber => nomatch equal
  | zero s =>
    cases y with
    | zero t => exact .inr ⟨s, t, rfl, rfl⟩
    | notANumber => nomatch equal
    | infinity t => cases t <;> nomatch equal
    | finite t => cases t <;> nomatch equal
  | infinity s =>
    cases y with
    | infinity t =>
      cases s <;> cases t
      · exact .inl rfl
      · nomatch equal
      · nomatch equal
      · exact .inl rfl
    | notANumber => cases s <;> nomatch equal
    | zero t => cases s <;> nomatch equal
    | finite t => cases s <;> nomatch equal
  | finite s m e pos =>
    cases y with
    | finite t n f pos' =>
      have lie : s = t ∧ ((compare e f).then (compare m n) = .eq ∨
          ((compare e f).then (compare m n)).swap = .eq) := by
        cases s <;> cases t
        · exact ⟨rfl, .inr (Option.some.inj equal)⟩
        · nomatch equal
        · nomatch equal
        · exact ⟨rfl, .inl (Option.some.inj equal)⟩
      simp only [Ordering.swap_eq_eq, or_self, Ordering.then_eq_eq, Int.compare_eq_eq, Nat.compare_eq_eq] at lie
      obtain ⟨rfl, rfl, rfl⟩ := lie
      exact .inl rfl
    | notANumber => cases s <;> nomatch equal
    | zero t => cases s <;> nomatch equal
    | infinity t => cases s <;> cases t <;> nomatch equal

theorem lessUnpacked (x y : Float) : x < y ↔ x.toModel.unpack.compare y.toModel.unpack = some .lt := by
  show decide (x.toModel < y.toModel) = true ↔ _
  rw [decide_eq_true_iff]
  show (x.toModel.unpack.compare y.toModel.unpack == some .lt) = true ↔ _
  exact beq_iff_eq

theorem sumUnpacked (x y : Float) :
    x + y = .ofModel (.pack (.add .binary64 x.toModel.unpack y.toModel.unpack)) := rfl

theorem sameUnpacked {x y : Float} (same : x.toModel.unpack = y.toModel.unpack) : LooksEqual x y where
  below z := by rw [lessUnpacked, lessUnpacked, same]
  above z := by rw [lessUnpacked, lessUnpacked, same]
  equal z := by
    show (x.toModel.unpack.compare _ == _) = (y.toModel.unpack.compare _ == _)
    rw [same]
  sum z := by rw [sumUnpacked, sumUnpacked, same]

theorem zerosCompare (s t : UnpackedFloat.Sign) (z : UnpackedFloat) :
    (UnpackedFloat.zero s).compare z = (UnpackedFloat.zero t).compare z ∧
      z.compare (.zero s) = z.compare (.zero t) := by
  cases z with
  | zero u => exact ⟨rfl, rfl⟩
  | notANumber => exact ⟨rfl, rfl⟩
  | infinity u => cases u <;> exact ⟨rfl, rfl⟩
  | finite u => cases u <;> exact ⟨rfl, rfl⟩

/- A sum of two zeros may be zero below zero, but as a value it is the integer. -/
theorem zerosAdd (s t : UnpackedFloat.Sign) (z : UnpackedFloat) :
    Value.ofNumber (.ofModel (.pack (.add .binary64 (.zero s) z))) =
      Value.ofNumber (.ofModel (.pack (.add .binary64 (.zero t) z))) := by
  cases z with
  | zero u => cases s <;> cases t <;> cases u <;> decide +kernel
  | notANumber => rfl
  | infinity u => rfl
  | finite u => rfl

theorem zerosUnpacked {x y : Float} {s t : UnpackedFloat.Sign} (left : x.toModel.unpack = .zero s)
    (right : y.toModel.unpack = .zero t) : LooksEqual x y where
  below z := by rw [lessUnpacked, lessUnpacked, left, right, (zerosCompare s t _).1]
  above z := by rw [lessUnpacked, lessUnpacked, left, right, (zerosCompare s t _).2]
  equal z := by
    show (x.toModel.unpack.compare _ == _) = (y.toModel.unpack.compare _ == _)
    rw [left, right, (zerosCompare s t _).1]
  sum z := by rw [sumUnpacked, sumUnpacked, left, right, zerosAdd s t]

theorem looksEqual {x y : Float} (equal : (x == y) = true) : LooksEqual x y := by
  have compared : x.toModel.unpack.compare y.toModel.unpack = some .eq := eq_of_beq equal
  rcases equalUnpacked compared with same | ⟨s, t, left, right⟩
  · exact sameUnpacked same
  · exact zerosUnpacked left right

theorem numbersSame {m n : Number} (same : m.same n = true) :
    LooksEqual m.toDouble n.toDouble ∧ ∀ k, m.same k = n.same k := by
  cases m with
  | integer i =>
    cases n with
    | integer j =>
      cases eq_of_beq same
      exact ⟨sameUnpacked rfl, fun _ => rfl⟩
    | double => simp [Number.same] at same
  | double x =>
    cases n with
    | integer => simp [Number.same] at same
    | double y =>
      have alike : LooksEqual x y := looksEqual same
      refine ⟨alike, fun k => ?_⟩
      cases k with
      | integer => rfl
      | double z => exact alike.equal z

mutual

theorem valuesSame (a b : Json) (same : a.same b = true) (e : Json) : a.same e = b.same e := by
  cases a with
  | null => cases b <;> simp [Json.same] at same; rfl
  | bool p => cases b <;> simp [Json.same] at same; rw [same]
  | string t => cases b <;> simp [Json.same] at same; rw [same]
  | number m =>
    cases b with
    | number n =>
      have numbers := (numbersSame (by simpa [Json.same] using same)).2
      cases e <;> simp [Json.same, numbers]
    | _ => simp [Json.same] at same
  | array items =>
    cases b with
    | array others =>
      have within := itemsSame items others (by simpa [Json.same] using same)
      cases e <;> simp [Json.same, within]
    | _ => simp [Json.same] at same
  | object members =>
    cases b with
    | object others =>
      have within := membersSame members others (by simpa [Json.same] using same)
      cases e <;> simp [Json.same, within]
    | _ => simp [Json.same] at same
termination_by structural a

theorem itemsSame (as bs : List Json) (same : Json.sameItems as bs = true) (es : List Json) :
    Json.sameItems as es = Json.sameItems bs es := by
  cases as with
  | nil => cases bs <;> simp [Json.sameItems] at same; rfl
  | cons a as =>
    cases bs with
    | nil => simp [Json.sameItems] at same
    | cons b bs =>
      simp only [Json.sameItems, Bool.and_eq_true] at same
      cases es with
      | nil => rfl
      | cons e es => simp only [Json.sameItems, valuesSame a b same.1 e, itemsSame as bs same.2 es]
termination_by structural as

theorem membersSame (as bs : List (String × Json)) (same : Json.sameMembers as bs = true)
    (es : List (String × Json)) : Json.sameMembers as es = Json.sameMembers bs es := by
  cases as with
  | nil => cases bs <;> simp [Json.sameMembers] at same; rfl
  | cons a as =>
    cases bs with
    | nil => simp [Json.sameMembers] at same
    | cons b bs =>
      obtain ⟨j, a⟩ := a
      obtain ⟨k, b⟩ := b
      simp only [Json.sameMembers, Bool.and_eq_true, beq_iff_eq] at same
      cases es with
      | nil => rfl
      | cons e es =>
        simp only [Json.sameMembers, same.1.1, valuesSame a b same.1.2 e.2, membersSame as bs same.2 es]
termination_by structural as

end

namespace Value

structure Alike (a b : Option Json) : Prop where
  expected : ∀ e, strictEq a e = strictEq b e
  number : LooksEqual (asNumber a) (asNumber b)

theorem Alike.refl (a : Option Json) : Alike a a := ⟨fun _ => rfl, sameUnpacked rfl⟩

theorem Alike.ofSame {a b : Json} (same : a.same b = true) : Alike (some a) (some b) := by
  have equal := valuesSame a b same
  cases a with
  | null =>
    cases b with
    | null => exact .refl _
    | _ => simp [Json.same] at same
  | bool p =>
    cases b with
    | bool q =>
      cases eq_of_beq (show (p == q) = true by simpa [Json.same] using same)
      exact .refl _
    | _ => simp [Json.same] at same
  | string t =>
    cases b with
    | string u =>
      cases eq_of_beq (show (t == u) = true by simpa [Json.same] using same)
      exact .refl _
    | _ => simp [Json.same] at same
  | number m =>
    cases b with
    | number n =>
      have numbers := (numbersSame (by simpa [Json.same] using same)).1
      refine ⟨fun e => ?_, numbers⟩
      cases e with
      | number k => exact numbers.equal k.toDouble
      | _ => rfl
    | _ => simp [Json.same] at same
  | array items =>
    cases b with
    | array => exact ⟨equal, sameUnpacked rfl⟩
    | _ => simp [Json.same] at same
  | object members =>
    cases b with
    | object => exact ⟨equal, sameUnpacked rfl⟩
    | _ => simp [Json.same] at same

end Value

def Context.Alike (c d : Context) : Prop := ∀ key, Value.Alike (c.get? key) (d.get? key)

theorem lookupAlike {as bs : List (String × Json)} (same : Json.sameMembers as bs = true) (key : String) :
    Value.Alike (lookupEntry key as) (lookupEntry key bs) := by
  induction as generalizing bs with
  | nil =>
    cases bs with
    | nil => exact .refl _
    | cons => simp [Json.sameMembers] at same
  | cons a as ih =>
    cases bs with
    | nil => simp [Json.sameMembers] at same
    | cons b bs =>
      simp only [Json.sameMembers, Bool.and_eq_true, beq_iff_eq] at same
      obtain ⟨⟨named, value⟩, rest⟩ := same
      simp only [lookupEntry, named]
      split
      · exact .ofSame value
      · exact ih rest

namespace Context.Alike
variable {c d : Context}

theorem ofSame (same : c.same d = true) : c.Alike d := lookupAlike same

theorem evaluate (alike : c.Alike d) (op : Operator) (key : String) (expected : Json) :
    op.evaluate (c.get? key) expected = op.evaluate (d.get? key) expected := by
  have value := alike key
  cases op with
  | equals => exact value.expected expected
  | greaterThan => exact decide_eq_decide.mpr (value.number.above _)
  | lessThan => exact decide_eq_decide.mpr (value.number.below _)

theorem updated (alike : c.Alike d) (e : Effect) : e.updated (c.get? e.key) = e.updated (d.get? e.key) := by
  unfold Effect.updated
  split
  · rfl
  · exact (alike e.key).number.sum _

theorem apply (alike : c.Alike d) (e : Effect) : (e.apply c).Alike (e.apply d) := by
  intro key
  unfold Effect.apply
  rw [alike.updated e]
  by_cases same : key = e.key
  · subst same
    rw [Table.get?_insert_self, Table.get?_insert_self]
    exact .refl _
  · rw [Table.get?_insert_ne same, Table.get?_insert_ne same]
    exact alike key

theorem applyAll (alike : c.Alike d) (effects : List Effect) :
    Context.Alike (Effect.applyAll effects c) (Effect.applyAll effects d) := by
  induction effects generalizing c d with
  | nil => exact alike
  | cons e effects ih => exact ih (alike.apply e)

theorem satisfied (alike : c.Alike d) (p : Predicate) : p.satisfied c = p.satisfied d := by
  have checks : ∀ e : String × Check, e.2.holds e.1 c = e.2.holds e.1 d := fun e => alike.evaluate _ _ _
  simp only [Predicate.satisfied, checks]

theorem visibleActions (alike : c.Alike d) (node : StoryNode) : node.visibleActions c = node.visibleActions d := by
  have visible : ∀ a : StoryAction, a.visible c = a.visible d := by
    intro a
    unfold StoryAction.visible
    split
    · exact alike.satisfied _
    · rfl
  simp only [StoryNode.visibleActions, visible]

theorem successor (alike : c.Alike d) (node : StoryNode) : node.successor c = node.successor d := by
  have applies : ∀ rule : BranchRule, rule.applies c = rule.applies d := fun rule => alike.evaluate _ _ _
  simp only [StoryNode.successor, BranchRule.choose, applies]

end Context.Alike
end Dialogue
