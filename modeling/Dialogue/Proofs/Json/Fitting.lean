import Dialogue.Proofs.Decimal.Finite
import Dialogue.Proofs.Json.Tokens

/-! Whatever a text says, the numbers that are read from it fit into memory: an integer that no word of 64 bits has is
read as a double, and a double that would be infinite is a fault. -/
namespace Dialogue.Json

inductive Reading.Fits : Reading → Prop where
  | null : Fits .null
  | bool (b : Bool) : Fits (.bool b)
  | number {n : Except Fault Number} (here : ∀ m, n = .ok m → m.Fits) : Fits (.number n)
  | string (s : Except Fault String) : Fits (.string s)
  | array {items : List Reading} {stop : Option Fault} (inside : ∀ item ∈ items, Fits item) : Fits (.array items stop)
  | object {members : List (Except Fault String × Reading)} {stop : Option MemberFault}
      (inside : ∀ m ∈ members, Fits m.2) : Fits (.object members stop)
  | broken (fault skipped asChoice : Fault) : Fits (.broken fault skipped asChoice)

namespace Reading
variable {cs rest : List Char} {n : Number} {negative : Bool}

theorem extendWord (cs : List Char) {m : Nat} (word : m < Decimal.wordSize) :
    (Decimal.extend m cs).1 < Decimal.wordSize := by
  induction cs generalizing m with
  | nil => exact word
  | cons c cs ih =>
    unfold Decimal.extend
    dsimp only
    split
    · rename_i longer
      exact ih longer
    · exact word

theorem leadingWord (whole fraction : List Char) (power : Int) :
    (Decimal.leading whole fraction power).digits < Decimal.wordSize :=
  extendWord fraction (extendWord whole (show 0 < Decimal.wordSize by decide))

theorem integerFits {m : Nat} {i : Int} (whole : integerOf negative m = some i) : (Number.integer i).Fits := by
  unfold integerOf at whole
  simp only [Number.Fits]
  split at whole
  · split at whole
    · rename_i small
      have bound : m ≤ Nat.pow 2 63 := small.2
      cases Option.some.inj whole
      omega
    · contradiction
  · split at whole
    · rename_i small
      have bound : m < Nat.pow 2 64 := small
      cases Option.some.inj whole
      omega
    · contradiction

theorem doubleFits {d : Decimal} (word : d.digits < Decimal.wordSize) (read : doubleOf negative d = .ok n) : n.Fits := by
  unfold doubleOf at read
  split at read
  · rename_i x scaled
    have finite : x.isFinite = true := Double.scaledFinite word scaled
    cases Except.ok.inj read
    show (if negative = true then -x else x).isFinite = true
    split
    · exact Double.negFinite finite
    · exact finite
  · contradiction

theorem numberFits {whole : List Char} {tail : NumberTail} (read : numberOf negative whole tail = .ok n) : n.Fits := by
  have word := leadingWord whole tail.fraction tail.power
  unfold numberOf at read
  dsimp only at read
  split at read
  · split at read
    · rename_i i integer
      cases Except.ok.inj read
      exact integerFits integer
    · exact doubleFits word read
  · exact doubleFits word read

theorem readNumberFits (negative : Bool) (cs : List Char) : (readNumber negative cs).1.Fits := by
  unfold readNumber
  split
  · exact .broken _ _ _
  · exact .broken _ _ _
  · exact .broken _ _ _
  · split
    · exact .broken _ _ _
    · exact .number fun _ => numberFits

theorem readWordFits {known : Reading} (fits : known.Fits) (letters cs : List Char) :
    (readWord known letters cs).1.Fits := by
  induction letters generalizing cs with
  | nil => exact fits
  | cons w letters ih =>
    cases cs with
    | nil => exact .broken _ _ _
    | cons c cs =>
      unfold readWord
      split
      · exact ih cs
      · exact .broken _ _ _

structure FitsWith (fuel : Nat) : Prop where
  value : ∀ cs, (value fuel cs).1.Fits
  items : ∀ cs, ∀ item ∈ (items fuel cs).1.1, item.Fits
  members : ∀ cs, ∀ m ∈ (members fuel cs).1.1, m.2.Fits

theorem valueFits {fuel : Nat} (less : FitsWith fuel) (cs : List Char) : (value (fuel + 1) cs).1.Fits := by
  unfold value
  split
  · exact .broken _ _ _
  · split
    · exact readWordFits .null _ _
    split
    · exact readWordFits (.bool true) _ _
    split
    · exact readWordFits (.bool false) _ _
    split
    · split
      · exact .string _
      · split <;> exact .broken _ _ _
    split
    · exact readNumberFits _ _
    split
    · exact readNumberFits _ _
    split
    · split
      · exact .array (by simp)
      · exact .array (by simp)
      · exact .array (less.items _)
    split
    · split
      · exact .object (by simp)
      · exact .object (by simp)
      · exact .object (less.members _)
      · exact .object (by simp)
    · exact .broken _ _ _

theorem itemsFits {fuel : Nat} (less : FitsWith fuel) (cs : List Char) :
    ∀ item ∈ (items (fuel + 1) cs).1.1, item.Fits := by
  have first := less.value cs
  unfold items
  split <;> rename_i read <;> rw [read] at first
  · exact List.forall_mem_singleton.mpr first
  · split
    · exact List.forall_mem_singleton.mpr first
    · exact List.forall_mem_singleton.mpr first
    · exact List.forall_mem_cons.mpr ⟨first, less.items _⟩
    · exact List.forall_mem_singleton.mpr first

theorem membersFits {fuel : Nat} (less : FitsWith fuel) (cs : List Char) :
    ∀ m ∈ (members (fuel + 1) cs).1.1, m.2.Fits := by
  have alone : ∀ (key : Except Fault String) {r : Reading}, r.Fits → ∀ m ∈ [(key, r)], m.2.Fits := by
    intro key r fits m mem
    rw [List.mem_singleton.mp mem]
    exact fits
  unfold members
  split
  · exact alone _ (.broken _ _ _)
  · split
    · exact alone _ (.broken _ _ _)
    · rename_i behind _
      have first := less.value behind
      split <;> rename_i read <;> rw [read] at first
      · exact alone _ first
      · split
        · exact alone _ first
        · exact alone _ first
        · split
          · exact alone _ first
          · exact List.forall_mem_cons.mpr ⟨first, less.members _⟩
          · exact alone _ first
        · exact alone _ first
    · exact alone _ (.broken _ _ _)

theorem fitsWith (fuel : Nat) : FitsWith fuel := by
  induction fuel with
  | zero => exact ⟨fun _ => .broken _ _ _, by simp [items], by simp [members]⟩
  | succ fuel less => exact ⟨valueFits less, itemsFits less, membersFits less⟩

theorem textFits (text : String) : (ofText text).1.Fits := (fitsWith _).value _

end Reading
end Dialogue.Json
