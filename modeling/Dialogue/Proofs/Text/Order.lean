import Dialogue.Table

/-! The order of texts. Texts compare by their characters, one after the other, and this is the order of their bytes
in UTF-8: of two characters the smaller one has the smaller bytes, whatever comes behind it. -/
namespace Dialogue.Text

def bytes (s : String) : List UInt8 := s.toUTF8.data.toList

theorem bytesOfChars (s : String) : bytes s = s.toList.flatMap String.utf8EncodeChar := by
  rw [bytes, String.toUTF8_eq_toByteArray, ← String.utf8Encode_toList, List.utf8Encode, List.toList_data_toByteArray]

theorem charBefore {c d : Char} (before : c < d) (cs ds : List UInt8) :
    String.utf8EncodeChar c ++ cs < String.utf8EncodeChar d ++ ds := by
  have less : c.val.toNat < d.val.toNat := before
  have inside : d.val.toNat < 0x110000 := by
    rcases d.valid with low | ⟨_, high⟩
    · exact Nat.lt_trans low (by decide)
    · exact high
  have twice : ∀ k, k / 4096 = k / 64 / 64 := fun k => by omega
  have thrice : ∀ k, k / 262144 = k / 64 / 64 / 64 := fun k => by omega
  unfold String.utf8EncodeChar
  dsimp only
  -- the cases are the numbers of bytes that the two characters take
  repeat' split
  all_goals
    simp only [List.cons_append, List.nil_append, List.cons_lt_cons_iff, UInt8.lt_iff_toNat_lt, ← UInt8.toNat_inj,
      UInt8.toNat_ofNat', twice, thrice]
    omega

theorem charsBefore {cs ds : List Char} (before : cs < ds) :
    cs.flatMap String.utf8EncodeChar < ds.flatMap String.utf8EncodeChar := by
  induction before with
  | @nil d ds =>
    rw [List.flatMap_nil, List.flatMap_cons]
    obtain ⟨first, rest, same⟩ := List.exists_cons_of_ne_nil (String.utf8EncodeChar_ne_nil (c := d))
    rw [same]
    exact List.nil_lt_cons ..
  | rel first => exact charBefore first _ _
  | cons _ ih => exact List.append_left_lt ih

theorem bytesBefore {a b : String} : bytes a < bytes b ↔ a < b := by
  rw [bytesOfChars, bytesOfChars]
  constructor
  · intro before
    apply Classical.byContradiction
    intro notLess
    rcases Classical.em (a = b) with rfl | other
    · exact List.lt_irrefl _ before
    · exact List.lt_asymm before (charsBefore (nameBefore notLess other))
  · exact charsBefore

end Dialogue.Text
