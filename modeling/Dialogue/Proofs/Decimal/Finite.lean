import Dialogue.Decimal.Scaled

/-! Scaling stays among the finite doubles. What a double is unpacked to is bounded by its exponent, rounding and
packing keep to a bound, and so do products and quotients as far as their operands leave room: a word of 64 bits does,
and so does a power of ten as a divisor, which is never small. -/
namespace Dialogue.Double
open Float.Model (UnpackedFloat Format totalExponent)
open Float.Model.UnpackedFloat

def Within (top : Int) : UnpackedFloat → Prop
  | .zero _ => True
  | .finite _ _ e _ => e ≤ top
  | _ => False

theorem Within.form {top : Int} {x : UnpackedFloat} (within : Within top x) :
    (∃ sign, x = .zero sign) ∨ ∃ sign m e pos, x = .finite sign m e pos ∧ e ≤ top := by
  cases x with
  | zero sign => exact .inl ⟨sign, rfl⟩
  | finite sign m e pos => exact .inr ⟨sign, m, e, pos, rfl, within⟩
  | infinity sign => exact within.elim
  | notANumber => exact within.elim

/- Splitting a goal with the branches in it would go into the proof that a finite number carries. -/
theorem diteCases {P : UnpackedFloat → Prop} {c : Prop} [Decidable c] {x : c → UnpackedFloat} {y : ¬ c → UnpackedFloat}
    (one : ∀ h, P (x h)) (other : ∀ h, P (y h)) : P (dite c x y) := by
  split
  · exact one _
  · exact other _

theorem shiftMantissa (em : ExtendedMantissa) (k : Nat) : (em >>> k).mantissa = em.mantissa >>> k := by
  induction k with
  | zero => rfl
  | succ k ih =>
    show (em >>> k).mantissa / 2 = _
    rw [ih, Nat.shiftRight_succ]

theorem roundedLe (em : ExtendedMantissa) : em.roundedMantissa ≤ em.mantissa + 1 := by
  obtain ⟨m, r, s⟩ := em
  cases r <;> cases s <;>
    simp only [ExtendedMantissa.roundedMantissa, ExtendedMantissa.accuracy, Accuracy.roundToNearestEven] <;> omega

theorem targetOf (m : Nat) (e : Int) :
    Format.binary64.targetExponent (totalExponent m e) = max (m.log2 + 1 + e - 53) (-1074) := rfl

theorem ofMantissa (m : Nat) (acc : Accuracy) : (ExtendedMantissa.ofMantissaAndAccuracy m acc).mantissa = m := by
  cases acc with
  | exact => rfl
  | inexact o => cases o <;> rfl

theorem log2Half (m : Nat) : (m / 2).log2 = m.log2 - 1 := by
  rw [Nat.log2_def m]
  split
  · simp
  · have none : m / 2 = 0 := by omega
    simp [none]

theorem log2ShiftRight (m k : Nat) : (m >>> k).log2 = m.log2 - k := by
  induction k with
  | zero => rfl
  | succ k ih => rw [Nat.shiftRight_succ, log2Half, ih, Nat.sub_sub]

theorem log2Mono {m n : Nat} (le : m ≤ n) : m.log2 ≤ n.log2 := by
  rcases Nat.eq_zero_or_pos m with rfl | some
  · simp
  · have known : 2 ^ m.log2 ≤ m := Nat.log2_self_le (Nat.ne_of_gt some)
    exact (Nat.le_log2 (by omega)).mpr (Nat.le_trans known le)

theorem log2Succ (m : Nat) : (m + 1).log2 ≤ m.log2 + 1 := by
  have less : m < 2 ^ (m.log2 + 1) := Nat.lt_log2_self
  have more : m + 1 < 2 ^ (m.log2 + 2) := by
    rw [Nat.pow_succ]
    omega
  exact Nat.le_of_lt_succ ((Nat.log2_lt (Nat.succ_ne_zero m)).mpr more)

theorem shiftWithin {m : Nat} {e top : Int} (acc : Accuracy) (low : -1074 ≤ top) (here : e ≤ top)
    (size : m.log2 + 1 + e ≤ top + 53) :
    (shiftToTargetExponent .binary64 m e acc).2 ≤ top ∧
      (shiftToTargetExponent .binary64 m e acc).1.mantissa.log2 + 1 + (shiftToTargetExponent .binary64 m e acc).2 ≤
        max (m.log2 + 1 + e) (top + 1) := by
  simp only [shiftToTargetExponent, shiftToExponent, targetOf, shiftMantissa, ofMantissa]
  have less := log2ShiftRight m (max (m.log2 + 1 + e - 53 : Int) (-1074) - e).toNat
  constructor
  · omega
  · omega

theorem roundWithin {m : Nat} {e top : Int} (sign : Sign) (acc : Accuracy) (low : -1074 ≤ top) (here : e ≤ top)
    (size : m.log2 + 1 + e ≤ top + 52) : Within top (roundWithAccuracy .binary64 sign m e acc) := by
  obtain ⟨exponent, first⟩ := shiftWithin acc low here (show m.log2 + 1 + e ≤ top + 53 by omega)
  have grown : (shiftToTargetExponent .binary64 m e acc).1.roundedMantissa.log2 ≤
      (shiftToTargetExponent .binary64 m e acc).1.mantissa.log2 + 1 :=
    Nat.le_trans (log2Mono (roundedLe _)) (log2Succ _)
  have room : (shiftToTargetExponent .binary64 m e acc).1.roundedMantissa.log2 + 1 +
      (shiftToTargetExponent .binary64 m e acc).2 ≤ top + 53 := by omega
  have last := (shiftWithin .exact low exponent room).1
  unfold roundWithAccuracy
  exact diteCases (fun _ => trivial) fun _ => last

theorem fieldLess {field : BitVec 11} (other : field ≠ -1#11) : field.toNat ≤ 2046 := by
  have bound : field.toNat < 2048 := field.isLt
  rcases Nat.lt_or_ge field.toNat 2047 with less | top
  · omega
  · exact absurd (BitVec.eq_of_toNat_eq (show field.toNat = (-1#11 : BitVec 11).toNat by
      have ones : (-1#11 : BitVec 11).toNat = 2047 := rfl
      omega)) other

theorem fieldWithin {b : BitVec Format.binary64.numBits} {top : Int} (low : -1074 ≤ top)
    (other : unpackExponent b ≠ -1#11) (high : ((unpackExponent b).toNat : Int) - 1075 ≤ top) :
    Within top (unpack .binary64 b) := by
  have bias : (Format.binary64.exponentBias : Int) = 1023 := rfl
  have bits : (Format.binary64.mantissaBitsWithoutImplicit : Int) = 52 := rfl
  unfold unpack
  refine iteInduction (fun infinite => absurd infinite other) fun _ => iteInduction (fun zero => ?_) fun _ => ?_
  · have none : (unpackExponent b).toNat = 0 := congrArg BitVec.toNat zero
    refine diteCases (fun _ => trivial) fun _ => ?_
    show (_ : Int) ≤ _
    omega
  · show (_ : Int) ≤ _
    omega

theorem unpackWithin {b : BitVec Format.binary64.numBits} (finite : (unpack .binary64 b).isFinite = true) :
    Within 971 (unpack .binary64 b) := by
  by_cases infinite : unpackExponent b = -1#11
  · unfold unpack at finite
    rw [if_pos infinite] at finite
    split at finite <;> contradiction
  · have less := fieldLess infinite
    exact fieldWithin (by decide) infinite (by omega)

theorem packWithin {x : UnpackedFloat} {top : Int} (within : Within top x) (low : -1074 ≤ top) (high : top ≤ 971) :
    Within top (unpack .binary64 (pack .binary64 x)) := by
  have fields : ∀ sign mantissa (field : Nat), field ≤ 2046 → (field : Int) - 1075 ≤ top →
      Within top (unpack .binary64 (packComponents .binary64 sign (BitVec.ofNat 11 field) mantissa)) := by
    intro sign mantissa field small within
    have exponent : unpackExponent (packComponents .binary64 sign (BitVec.ofNat 11 field) mantissa) = BitVec.ofNat 11 field :=
      unpackExponent_packComponents
    have value : (BitVec.ofNat 11 field).toNat = field := Nat.mod_eq_of_lt (by omega)
    refine fieldWithin low ?_ (by rwa [exponent, value])
    intro ones
    rw [exponent] at ones
    have full : (BitVec.ofNat 11 field).toNat = 2047 := by
      rw [ones]
      rfl
    omega
  rcases within.form with ⟨sign, rfl⟩ | ⟨sign, m, e, pos, rfl, exponent⟩
  · exact fields sign 0 0 (by decide) (by omega)
  · unfold pack
    dsimp only
    have bias : (Format.binary64.exponentBias : Int) = 1023 := rfl
    have bits : (Format.binary64.mantissaBitsWithoutImplicit : Int) = 52 := rfl
    split
    · rename_i overflow
      have most : 2 ^ Format.binary64.exponentBits = 2048 := rfl
      omega
    · split
      · exact fields sign _ _ (by omega) (by omega)
      · exact fields sign _ 0 (by decide) (by omega)

def Bounded (top : Int) (x : Float) : Prop := Within top x.toModel.unpack

theorem Bounded.isFinite {top : Int} {x : Float} (bounded : Bounded top x) : x.isFinite = true := by
  show x.toModel.unpack.isFinite = true
  rcases bounded.form with ⟨sign, zero⟩ | ⟨sign, m, e, pos, unpacked, _⟩
  · rw [zero]
    rfl
  · rw [unpacked]
    rfl

theorem bounded {x : Float} (finite : x.isFinite = true) : Bounded 971 x := unpackWithin finite

theorem packBounded {x : UnpackedFloat} {top : Int} (within : Within top x) (low : -1074 ≤ top) (high : top ≤ 971) :
    Bounded top (.ofModel (.pack x)) := packWithin within low high

theorem negFinite {x : Float} (finite : x.isFinite = true) : (-x).isFinite = true := by
  have within : Within 971 x.toModel.unpack.neg := by
    have before : Within 971 x.toModel.unpack := bounded finite
    cases unpacked : x.toModel.unpack <;> rw [unpacked] at before <;> exact before
  exact (packBounded within (by decide) (by decide)).isFinite

theorem shiftNormal {m : Nat} {e : Int} (acc : Accuracy) (normal : 52 ≤ m.log2) (range : -1022 ≤ m.log2 + e) :
    (shiftToTargetExponent .binary64 m e acc).1.mantissa.log2 = 52 ∧
      52 + (shiftToTargetExponent .binary64 m e acc).2 = m.log2 + e := by
  simp only [shiftToTargetExponent, shiftToExponent, targetOf, shiftMantissa, ofMantissa, log2ShiftRight]
  omega

theorem roundedGe (em : ExtendedMantissa) : em.mantissa ≤ em.roundedMantissa := by
  obtain ⟨m, r, s⟩ := em
  cases r <;> cases s <;>
    simp only [ExtendedMantissa.roundedMantissa, ExtendedMantissa.accuracy, Accuracy.roundToNearestEven] <;> omega

def Normal (bottom : Int) : UnpackedFloat → Prop
  | .finite _ m e _ => m.log2 = 52 ∧ bottom ≤ 52 + e
  | _ => False

theorem Normal.form {bottom : Int} {x : UnpackedFloat} (normal : Normal bottom x) :
    ∃ sign m e pos, x = .finite sign m e pos ∧ m.log2 = 52 ∧ bottom ≤ 52 + e := by
  cases x with
  | finite sign m e pos => exact ⟨sign, m, e, pos, rfl, normal⟩
  | zero sign => exact normal.elim
  | infinity sign => exact normal.elim
  | notANumber => exact normal.elim

theorem Normal.mono {bottom lower : Int} {x : UnpackedFloat} (normal : Normal bottom x) (less : lower ≤ bottom) :
    Normal lower x := by
  obtain ⟨sign, m, e, pos, rfl, digits, above⟩ := normal.form
  exact ⟨digits, Int.le_trans less above⟩

theorem roundNormal {m : Nat} {e : Int} (sign : Sign) (acc : Accuracy) (normal : 52 ≤ m.log2)
    (range : -1022 ≤ m.log2 + e) : Normal (m.log2 + e) (roundWithAccuracy .binary64 sign m e acc) := by
  obtain ⟨first, kept⟩ := shiftNormal acc normal range
  have grown : (shiftToTargetExponent .binary64 m e acc).1.mantissa.log2 ≤
      (shiftToTargetExponent .binary64 m e acc).1.roundedMantissa.log2 := log2Mono (roundedGe _)
  rw [first] at grown
  obtain ⟨last, total⟩ := shiftNormal .exact grown
    (show (-1022 : Int) ≤ _ + (shiftToTargetExponent .binary64 m e acc).2 by omega)
  have high := Int.le_trans (show (m.log2 + e : Int) ≤ (shiftToTargetExponent .binary64 m e acc).1.roundedMantissa.log2 +
    (shiftToTargetExponent .binary64 m e acc).2 by omega) (Int.le_of_eq total.symm)
  unfold roundWithAccuracy
  refine diteCases (fun zero => ?_) fun _ => ⟨last, high⟩
  exact absurd (last.symm.trans (congrArg Nat.log2 zero)) (by decide)

theorem leadingBit (mantissa : BitVec 52) : (1#1 ++ mantissa).toNat.log2 = 52 := by
  have value : (1#1 ++ mantissa).toNat = 2 ^ 52 + mantissa.toNat := by
    have joined : 2 ^ 52 * 1 + mantissa.toNat = 2 ^ 52 * 1 ||| mantissa.toNat :=
      Nat.two_pow_add_eq_or_of_lt mantissa.isLt 1
    rw [BitVec.toNat_append]
    exact joined.symm
  have less : mantissa.toNat < 2 ^ 52 := mantissa.isLt
  rw [value]
  exact (Nat.log2_eq_iff (by omega)).mpr ⟨by omega, by omega⟩

theorem packNormal {x : UnpackedFloat} {bottom : Int} (normal : Normal bottom x) (within : Within 971 x)
    (low : -1022 ≤ bottom) : Normal bottom (unpack .binary64 (pack .binary64 x)) := by
  obtain ⟨sign, m, e, pos, rfl, digits, above⟩ := normal.form
  have below : e ≤ 971 := within
  have bias : (Format.binary64.exponentBias : Int) = 1023 := rfl
  have bits : (Format.binary64.mantissaBitsWithoutImplicit : Int) = 52 := rfl
  have all : Format.binary64.mantissaBits = 53 := rfl
  have most : 2 ^ Format.binary64.exponentBits = 2048 := rfl
  obtain ⟨field, mantissa, packed, value⟩ : ∃ (field : Nat) (mantissa : BitVec 52), pack .binary64 (.finite sign m e pos) =
      packComponents .binary64 sign (BitVec.ofNat 11 field) mantissa ∧ (field : Int) = e + 1075 := by
    unfold pack
    dsimp only
    rw [if_neg (by omega), if_pos (by omega)]
    exact ⟨_, _, rfl, by omega⟩
  have exponent : unpackExponent (packComponents .binary64 sign (BitVec.ofNat 11 field) mantissa) = BitVec.ofNat 11 field :=
    unpackExponent_packComponents
  have kept : (BitVec.ofNat 11 field).toNat = field := Nat.mod_eq_of_lt (by omega)
  have finite : BitVec.ofNat 11 field ≠ -1#11 := by
    intro ones
    have full : (BitVec.ofNat 11 field).toNat = 2047 := by
      rw [ones]
      rfl
    omega
  have some : BitVec.ofNat 11 field ≠ 0#11 := by
    intro zero
    have none : (BitVec.ofNat 11 field).toNat = 0 := by
      rw [zero]
      rfl
    omega
  rw [packed]
  unfold unpack
  dsimp only
  rw [exponent, if_neg finite, if_neg some, kept]
  exact ⟨leadingBit _, by omega⟩

instance (bottom : Int) (x : UnpackedFloat) : Decidable (Normal bottom x) :=
  match x with
  | .finite _ m e _ => inferInstanceAs (Decidable (m.log2 = 52 ∧ bottom ≤ 52 + e))
  | .zero _ => isFalse id
  | .infinity _ => isFalse id
  | .notANumber => isFalse id

def Short : UnpackedFloat → Prop
  | .finite _ m _ _ => m.log2 ≤ 52
  | _ => True

theorem unpackShort (b : BitVec Format.binary64.numBits) : Short (unpack .binary64 b) := by
  have few : (unpackMantissa b).toNat.log2 ≤ 52 := by
    have less : (unpackMantissa b).toNat ≤ 2 ^ 52 := Nat.le_of_lt (unpackMantissa b).isLt
    exact Nat.le_trans (log2Mono less) (by decide)
  have all : (1#1 ++ unpackMantissa b).toNat.log2 ≤ 52 := Nat.le_of_eq (leadingBit _)
  unfold unpack
  exact iteInduction (fun _ => iteInduction (fun _ => trivial) fun _ => trivial) fun _ =>
    iteInduction (fun _ => diteCases (fun _ => trivial) fun _ => few) fun _ => all

theorem unpackDigits {b : BitVec Format.binary64.numBits} {sign : Sign} {m : Nat} {e : Int} {pos : 0 < m}
    (unpacked : unpack .binary64 b = .finite sign m e pos) : m.log2 ≤ 52 := by
  have short := unpackShort b
  rwa [unpacked] at short

theorem log2ShiftLeft (m k : Nat) : (m <<< k).log2 ≤ m.log2 + k := by
  rcases Nat.eq_zero_or_pos (m <<< k) with none | some
  · simp [none]
  · have less : m < 2 ^ (m.log2 + 1) := Nat.lt_log2_self
    have wide : m <<< k < 2 ^ (m.log2 + k + 1) := by
      rw [Nat.shiftLeft_eq, Nat.add_right_comm, Nat.pow_add]
      exact Nat.mul_lt_mul_of_pos_right less (Nat.two_pow_pos k)
    exact Nat.le_of_lt_succ ((Nat.log2_lt (Nat.ne_of_gt some)).mpr wide)

theorem log2Mul (m n : Nat) : (m * n).log2 ≤ m.log2 + n.log2 + 1 := by
  rcases Nat.eq_zero_or_pos (m * n) with none | some
  · simp [none]
  · have first : m < 2 ^ (m.log2 + 1) := Nat.lt_log2_self
    have second : n < 2 ^ (n.log2 + 1) := Nat.lt_log2_self
    have wide : m * n < 2 ^ (m.log2 + n.log2 + 1 + 1) := by
      have sum : m.log2 + n.log2 + 1 + 1 = (m.log2 + 1) + (n.log2 + 1) := by omega
      rw [sum, Nat.pow_add]
      exact Nat.mul_lt_mul'' first second
    exact Nat.le_of_lt_succ ((Nat.log2_lt (Nat.ne_of_gt some)).mpr wide)

theorem log2Quotient {n : Nat} (digits : n.log2 = 52) (m k : Nat) : ((m <<< k) / n).log2 ≤ m.log2 + k - 52 := by
  have large : 2 ^ 52 ≤ n := by
    rw [← digits]
    apply Nat.log2_self_le
    rintro rfl
    contradiction
  have less : (m <<< k) / n ≤ (m <<< k) >>> 52 := by
    rw [Nat.shiftRight_eq_div_pow]
    exact Nat.div_le_div_left large (by decide)
  have whole := log2Mono less
  rw [log2ShiftRight] at whole
  have shifted := log2ShiftLeft m k
  omega

theorem divCoreWithin {m n : Nat} {e f : Int} (sign : Sign) (short : m.log2 ≤ 52) (high : e ≤ 971)
    (digits : n.log2 = 52) (above : 3 ≤ 52 + f) :
    Within 971 (roundWithAccuracy .binary64 sign (divCore .binary64 m e n f).1 (divCore .binary64 m e n f).2.1
      (divCore .binary64 m e n f).2.2) := by
  have quotient := log2Quotient digits m
    (e - f - min (e - f) (Format.binary64.targetExponent (totalExponent m e - totalExponent n f))).toNat
  have target : Format.binary64.targetExponent (totalExponent m e - totalExponent n f) =
      max ((m.log2 + 1 + e) - (n.log2 + 1 + f) - 53 : Int) (-1074) := rfl
  rw [target] at quotient
  have size : (divCore .binary64 m e n f).2.1 ≤ 971 := by
    show min _ _ ≤ _
    rw [target]
    omega
  refine roundWithin sign _ (by decide) size ?_
  show (((m <<< _) / n).log2 + 1 + min _ _ : Int) ≤ _
  rw [target]
  omega

theorem divFinite {x y : Float} (finite : x.isFinite = true) (large : Normal 3 y.toModel.unpack) :
    (x / y).isFinite = true := by
  have before : Within 971 x.toModel.unpack := bounded finite
  have within : Within 971 (div .binary64 x.toModel.unpack y.toModel.unpack) := by
    obtain ⟨t, n, f, some, right, digits, above⟩ := large.form
    rcases before.form with ⟨s, left⟩ | ⟨s, m, e, pos, left, high⟩
    · rw [left, right]
      trivial
    · have short : m.log2 ≤ 52 := unpackDigits left
      rw [left, right]
      exact divCoreWithin _ short high digits above
  exact (packBounded within (by decide) (by decide)).isFinite

theorem slowScientific {m n : Nat} (some : m ≠ 0) (slow : ¬ (m < Nat.pow 2 53 ∧ n ≤ 22)) (small : n ≤ 2048) :
    (Float.ofScientific m false n).toModel.unpack = unpack .binary64 (pack .binary64
      (roundWithAccuracy .binary64 .positive (m <<< 53 * Nat.pow 10 n) (-53) .exact)) := by
  unfold Float.ofScientific
  rw [dif_neg slow]
  show unpack .binary64 (pack .binary64 (UnpackedFloat.ofScientific .binary64 m (n : Int))) = _
  unfold UnpackedFloat.ofScientific
  have most : (2 : Int) ^ Format.binary64.exponentBits = 2048 := rfl
  rw [dif_neg some, if_neg (by omega), if_neg (by omega), if_pos (by omega)]
  rfl

theorem roundedNormal {m : Nat} (low : 56 ≤ m.log2) (high : m.log2 < 1076) : Normal 3 (unpack .binary64
    (pack .binary64 (roundWithAccuracy .binary64 .positive m (-53) .exact))) := by
  have normal := roundNormal .positive .exact (show 52 ≤ m.log2 by omega) (show (-1022 : Int) ≤ m.log2 + -53 by omega)
  have within := roundWithin .positive .exact (show (-1074 : Int) ≤ 971 by decide) (show (-53 : Int) ≤ 971 by decide)
    (show (m.log2 + 1 + -53 : Int) ≤ 971 + 52 by omega)
  exact (packNormal normal within (by omega)).mono (by omega)

theorem powerNormal {n : Nat} (some : n ≠ 0) (most : n ≤ 308) : Normal 3 (Decimal.powerOfTen n).toModel.unpack := by
  have few : ∀ n < 23, n ≠ 0 → Normal 3 (Decimal.powerOfTen n).toModel.unpack := by decide +kernel
  -- The bound on a rounded number leaves room for rounding up, which this power has not got.
  have last : ∀ n < 309, 307 < n → Normal 3 (Decimal.powerOfTen n).toModel.unpack := by decide +kernel
  rcases Nat.lt_or_ge n 23 with less | more
  · exact few n less some
  rcases Nat.lt_or_ge 307 n with least | below
  · exact last n (by omega) least
  unfold Decimal.powerOfTen
  rw [slowScientific (by decide) (by omega) (by omega)]
  have between : ∀ {k l : Nat}, k ≤ l → (1 <<< 53 * Nat.pow 10 k).log2 ≤ (1 <<< 53 * Nat.pow 10 l).log2 :=
    fun less => log2Mono (Nat.mul_le_mul_left _ (Nat.pow_le_pow_right (by decide) less))
  have least : 56 ≤ (1 <<< 53 * Nat.pow 10 1).log2 := by decide +kernel
  obtain ⟨top, beyond, room⟩ : ∃ top, n ≤ top ∧ (1 <<< 53 * Nat.pow 10 top).log2 < 1076 := ⟨307, below, by decide +kernel⟩
  exact roundedNormal (Nat.le_trans least (between (by omega))) (Nat.lt_of_le_of_lt (between beyond) room)

theorem wordWithin {m : Nat} (word : m < Decimal.wordSize) : Within 12 (UnpackedFloat.ofNat .binary64 m) := by
  have digits : m.log2 < 64 := by
    rcases Nat.eq_zero_or_pos m with rfl | some
    · decide
    · exact (Nat.log2_lt (Nat.ne_of_gt some)).mpr word
  unfold UnpackedFloat.ofNat UnpackedFloat.ofInt UnpackedFloat.normalize
  split
  · rename_i negative
    exact absurd (Int.compare_eq_lt.mp negative) (by omega)
  · trivial
  · have shifted := log2ShiftLeft m (0 - Format.binary64.targetExponent (totalExponent m 0)).toNat
    rw [targetOf] at shifted
    refine roundWithin .positive .exact (by decide) ?_ ?_
    · show (0 - ((0 - Format.binary64.targetExponent (totalExponent m 0)).toNat : Int)) ≤ 12
      omega
    · show ((m <<< (0 - Format.binary64.targetExponent (totalExponent m 0)).toNat).log2 + 1 +
        (0 - ((0 - Format.binary64.targetExponent (totalExponent m 0)).toNat : Int)) : Int) ≤ 12 + 52
      rw [targetOf]
      omega

theorem mulFinite {x y : Float} {left right : Int} (first : Bounded left x) (second : Bounded right y)
    (room : left + right ≤ 917) : (x * y).isFinite = true := by
  have within : Within 971 (mul .binary64 x.toModel.unpack y.toModel.unpack) := by
    rcases first.form with ⟨s, one⟩ | ⟨s, m, e, pos, one, low⟩ <;>
      rcases second.form with ⟨t, other⟩ | ⟨t, n, f, some, other, high⟩
    · rw [one, other]
      trivial
    · rw [one, other]
      trivial
    · rw [one, other]
      trivial
    · have digits := log2Mul m n
      have short : m.log2 ≤ 52 := unpackDigits one
      have long : n.log2 ≤ 52 := unpackDigits other
      rw [one, other]
      exact roundWithin (s * t) .exact (by decide) (show e + f ≤ 971 by omega)
        (show ((m * n).log2 + 1 + (e + f) : Int) ≤ 971 + 52 by omega)
  exact (packBounded within (by decide) (by decide)).isFinite

instance (top : Int) (x : UnpackedFloat) : Decidable (Within top x) :=
  match x with
  | .finite _ _ e _ => inferInstanceAs (Decidable (e ≤ top))
  | .zero _ => isTrue trivial
  | .infinity _ => isFalse id
  | .notANumber => isFalse id

theorem wordFinite {m : Nat} (word : m < Decimal.wordSize) : (Float.ofScientific m false 0).isFinite = true := by
  by_cases fast : m < Nat.pow 2 53 ∧ 0 ≤ 22
  · have kept : m.toUInt64.toNat = m := Nat.mod_eq_of_lt word
    have float : Bounded 12 m.toUInt64.toFloat := by
      show Within 12 (unpack .binary64 (pack .binary64 (UnpackedFloat.ofNat .binary64 m.toUInt64.toNat)))
      rw [kept]
      exact packWithin (wordWithin word) (by decide) (by decide)
    have one : Bounded 0 (Float.ofBits 0x3FF0000000000000) := by
      show Within 0 _
      decide +kernel
    unfold Float.ofScientific
    rw [dif_pos fast]
    exact mulFinite float one (by decide)
  · have some : m ≠ 0 := by
      rintro rfl
      exact fast (by decide)
    have digits : m.log2 < 64 := (Nat.log2_lt some).mpr word
    have short : (m <<< 53).log2 ≤ 116 := Nat.le_trans (log2ShiftLeft m 53) (by omega)
    have unpacked := slowScientific some fast (by decide)
    have whole : m <<< 53 * Nat.pow 10 0 = m <<< 53 := Nat.mul_one _
    rw [whole] at unpacked
    generalize m <<< 53 = n at short unpacked
    have within : Within 12 (roundWithAccuracy .binary64 .positive n (-53) .exact) :=
      roundWithin .positive .exact (by decide) (by decide) (by omega)
    have packed := packWithin within (by decide) (by decide)
    rw [← unpacked] at packed
    exact Bounded.isFinite packed

theorem shrinkFinite {x : Float} (finite : x.isFinite = true) {n : Nat} (some : n ≠ 0) :
    (Decimal.shrink x n).isFinite = true := by
  have divided : ∀ {y : Float} {k : Nat}, y.isFinite = true → k ≠ 0 → k ≤ Decimal.largestPower →
      (y / Decimal.powerOfTen k).isFinite = true :=
    fun finite some most => divFinite finite (powerNormal some most)
  unfold Decimal.shrink
  split
  · rename_i small
    exact divided finite some small
  · split
    · rename_i large twice
      exact divided (divided finite (by decide) (Nat.le_refl _)) (by omega) (by omega)
    · decide +kernel

theorem scaledFinite {d : Decimal} (word : d.digits < Decimal.wordSize) {x : Float} (scaled : d.scaled? = some x) :
    x.isFinite = true := by
  have finite : (Float.ofScientific d.digits false 0).isFinite = true := wordFinite word
  unfold Decimal.scaled? at scaled
  dsimp only at scaled
  split at scaled
  · cases Option.some.inj scaled
    exact shrinkFinite finite (Nat.succ_ne_zero _)
  · split at scaled
    · cases Option.some.inj scaled
      exact finite
    · split at scaled
      · split at scaled
        · rename_i product
          cases Option.some.inj scaled
          exact product
        · contradiction
      · contradiction

end Dialogue.Double
