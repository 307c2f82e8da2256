import Dialogue.Workshop.Draft

/-! The count in an id can be read back, whatever the name before it: it stands behind the last underscore, and its
leading zeros are worth nothing. So ids made from different counts are different, also where a name ends in an
underscore and digits of its own or takes the form of the id of a text node. -/
namespace Dialogue.Draft

def serial (id : String) : Nat := Nat.ofDigitChars 10 (id.toList.reverse.takeWhile (· != '_')).reverse 0

theorem takeWhileMarked {before after : List Char} (unmarked : '_' ∉ after) :
    ((before ++ '_' :: after).reverse.takeWhile (· != '_')).reverse = after := by
  have turned : (before ++ '_' :: after).reverse = after.reverse ++ '_' :: before.reverse := by simp
  rw [turned, List.takeWhile_append_of_pos]
  · simp
  · intro c mem
    have inside : c ∈ after := List.mem_reverse.mp mem
    simpa using fun same : c = '_' => unmarked (same ▸ inside)

theorem serialOfDigits (name : String) {digits : List Char} (unmarked : '_' ∉ digits) :
    serial (name ++ "_" ++ String.ofList digits) = Nat.ofDigitChars 10 digits 0 := by
  have chars : (name ++ "_" ++ String.ofList digits).toList = name.toList ++ '_' :: digits := by simp
  rw [serial, chars, takeWhileMarked unmarked]

theorem serialNumbered (name : String) (count : Nat) : serial (numbered name count) = count := by
  have unmarked : '_' ∉ List.replicate (4 - (Nat.toDigits 10 count).length) '0' ++ Nat.toDigits 10 count := by
    rw [List.mem_append, not_or]
    exact ⟨by simp, Nat.underscore_not_in_toDigits⟩
  rw [numbered, serialOfDigits name unmarked, Nat.ofDigitChars_append]
  simp

theorem textNodeIdNumbered (name : String) (count : Nat) :
    StoryAction.textNodeId (numbered name count) = numbered ("btn_" ++ name) count := by
  simp [StoryAction.textNodeId, numbered, String.append_assoc]

example : serial (numbered "btn_choice_0002" 12345) = 12345 := by decide

end Dialogue.Draft
