import Mathlib

/-!
# SqlalchemyCollectd.Lib.Binary64

**Doubles as exact numbers.** `Float` is the IEEE binary64 format with a logical
model; this file reads a double as the number it stands for (`Float.value?`) and
proves that the conversion of an integer to a double is exact below `2 ^ 53`
(`Float.value?_nearest`).

Sums of whole numbers are exact below the same bound (`Float.nearest_add_nearest`). A
quotient of integers is rounded once (`Float.nearestQuotient`); rounding keeps its
sign (`Float.nonneg_value?_nearestQuotient`), and does not overflow while the integers
are not beyond all measure (`Float.isInf_nearestQuotient`).

Two facts about the format carry the first two proofs. A mantissa of exactly 53 bits
with an exponent in range survives packing into 64 bits (`unpack_pack_finite`), and
rounding an integer of at most 53 bits only shifts it to 53 bits, however many zeros
it comes with (`round_shiftLeft`), so nothing is lost on the way in.
-/

namespace Float.Model.UnpackedFloat

/-- A normal number survives being packed into 64 bits. -/
theorem unpack_pack_finite (s : Sign) {m : ℕ} {e : ℤ} (hm : 0 < m) (hlo : 2 ^ 52 ≤ m)
    (hhi : m < 2 ^ 53) (he : -1075 < e) (he' : e < 972) :
    unpack Format.binary64 (pack Format.binary64 (.finite s m e hm)) = .finite s m e hm := by
  have hlog : m.log2 = 52 := (Nat.log2_eq_iff hm.ne').mpr ⟨hlo, hhi⟩
  -- the biased exponent, neither all zeros nor all ones
  obtain ⟨k, hk⟩ : ∃ k : ℕ, (k : ℤ) = e + 1075 := ⟨(e + 1075).toNat, by omega⟩
  have hbias : (e + (Format.binary64.exponentBias : ℤ) + (52 : ℕ)).toNat = k := by
    simp [Format.exponentBias]
    omega
  have hpack : pack Format.binary64 (.finite s m e hm) =
      packComponents Format.binary64 s (BitVec.ofNat _ k) (BitVec.ofNat _ m) := by
    rw [pack]
    simp only [hlog, hbias]
    rw [if_neg (by simp; omega), if_pos (by simp [Format.mantissaBits])]
  have hones : BitVec.ofNat Format.binary64.exponentBits k ≠ -1#_ := by
    rw [← BitVec.toNat_inj.ne]
    simp
    omega
  have hzeros : BitVec.ofNat Format.binary64.exponentBits k ≠ 0#_ := by
    rw [← BitVec.toNat_inj.ne]
    simp
    omega
  -- dropping the implicit bit and putting it back
  have hmant : (1#1 ++ BitVec.ofNat Format.binary64.mantissaBitsWithoutImplicit m).toNat = m := by
    have hor := Nat.two_pow_add_eq_or_of_lt
      (BitVec.ofNat Format.binary64.mantissaBitsWithoutImplicit m).isLt 1
    rw [BitVec.toNat_append, BitVec.toNat_ofNat, Nat.shiftLeft_eq]
    norm_num at hor ⊢
    omega
  rw [hpack, unpack]
  simp only [unpackMantissa_packComponents, unpackExponent_packComponents,
    unpackSign_packComponents, Sign.ofBitVec_toBitVec]
  rw [if_neg hones, if_neg hzeros]
  congr 1
  simp [Format.exponentBias]
  omega

theorem two_pow_le_shiftLeft {n : ℕ} (hpos : 0 < n) (hn : n < 2 ^ 53) :
    2 ^ 52 ≤ n <<< (52 - n.log2) ∧ n <<< (52 - n.log2) < 2 ^ 53 := by
  have hlog : n.log2 < 53 := (Nat.log2_lt hpos.ne').mpr hn
  have hsum : n.log2 + (52 - n.log2) = 52 := by omega
  rw [Nat.shiftLeft_eq]
  constructor
  · calc 2 ^ 52 = 2 ^ n.log2 * 2 ^ (52 - n.log2) := by rw [← pow_add, hsum]
      _ ≤ n * 2 ^ (52 - n.log2) := Nat.mul_le_mul_right _ (Nat.log2_self_le hpos.ne')
  · calc n * 2 ^ (52 - n.log2) < 2 ^ (n.log2 + 1) * 2 ^ (52 - n.log2) :=
          Nat.mul_lt_mul_of_pos_right Nat.lt_log2_self (by positivity)
      _ = 2 ^ 53 := by rw [← pow_add]; congr 1; omega

/-- Zero bits are dropped without a trace. -/
theorem shiftRight_shiftLeft (m j : ℕ) :
    (ExtendedMantissa.mk (m <<< j) false false) >>> j = ⟨m, false, false⟩ := by
  show j.repeat ExtendedMantissa.shiftRightOne ⟨m <<< j, false, false⟩ = _
  induction j generalizing m with
  | zero => rfl
  | succ j ih =>
      rw [Nat.repeat, Nat.shiftLeft_succ_inside, ih]
      simp [ExtendedMantissa.shiftRightOne]

theorem log2_shiftLeft {n : ℕ} (hpos : 0 < n) (k : ℕ) : (n <<< k).log2 = n.log2 + k := by
  refine (Nat.log2_eq_iff (by simpa using hpos.ne')).mpr ?_
  rw [Nat.shiftLeft_eq]
  constructor
  · rw [pow_add]
    exact Nat.mul_le_mul_right _ (Nat.log2_self_le hpos.ne')
  · rw [show n.log2 + k + 1 = n.log2 + 1 + k by omega, pow_add]
    exact Nat.mul_lt_mul_of_pos_right Nat.lt_log2_self (by positivity)

/-- The exponent of a number between 1 and `2 ^ 53` with 53 bits. -/
theorem targetExponent_eq {m : ℕ} {e : ℤ} {log : ℕ} (h : (m.log2 : ℤ) + e = log) :
    Format.binary64.targetExponent (totalExponent m e) = log - 52 := by
  simp [Format.targetExponent, totalExponent, Format.minExponent, Format.mantissaBits]
  omega

/-- A mantissa of 53 bits with zeros behind it is rounded by dropping the zeros. -/
theorem shiftToTargetExponent_shiftLeft {m log : ℕ} (hpos : 0 < m) (hlog : m.log2 = 52) (j : ℕ) :
    shiftToTargetExponent Format.binary64 (m <<< j) (log - 52 - j) .exact =
      (⟨m, false, false⟩, (log : ℤ) - 52) := by
  have htarget : Format.binary64.targetExponent (totalExponent (m <<< j) (log - 52 - j)) =
      log - 52 := targetExponent_eq (by rw [log2_shiftLeft hpos, hlog]; push_cast; omega)
  have hamount : ((log : ℤ) - 52 - (log - 52 - j)).toNat = j := by omega
  unfold shiftToTargetExponent shiftToExponent
  dsimp only
  rw [htarget, hamount]
  exact Prod.ext (shiftRight_shiftLeft m j) (by dsimp only; omega)

theorem roundWithAccuracy_shiftLeft (s : Sign) {m log : ℕ} (hpos : 0 < m) (hlog : m.log2 = 52)
    (j : ℕ) :
    roundWithAccuracy Format.binary64 s (m <<< j) (log - 52 - j) .exact =
      .finite s m (log - 52) hpos := by
  have hagain : shiftToTargetExponent Format.binary64 (m <<< 0) (log - 52 - (0 : ℕ)) .exact = _ :=
    shiftToTargetExponent_shiftLeft hpos hlog 0
  rw [Nat.shiftLeft_zero, Nat.cast_zero, sub_zero] at hagain
  have hrounded : (ExtendedMantissa.mk m false false).roundedMantissa = m := rfl
  unfold roundWithAccuracy
  simp only [shiftToTargetExponent_shiftLeft hpos hlog, hrounded, hagain, dif_neg hpos.ne']

/-- Rounding an integer of at most 53 bits shifts it to 53 bits, wherever it stands. -/
theorem round_shiftLeft (s : Sign) {n : ℕ} (hpos : 0 < n) (hn : n < 2 ^ 53) (k : ℕ) :
    round Format.binary64 s (n <<< k) (-k) =
      .finite s (n <<< (52 - n.log2)) (n.log2 - 52)
        (Nat.lt_of_lt_of_le (by norm_num) (two_pow_le_shiftLeft hpos hn).1) := by
  have hlog : n.log2 < 53 := (Nat.log2_lt hpos.ne').mpr hn
  obtain ⟨hlo, hhi⟩ := two_pow_le_shiftLeft hpos hn
  have hne : n <<< (52 - n.log2) ≠ 0 := (Nat.lt_of_lt_of_le (by norm_num) hlo).ne'
  have htarget : Format.binary64.targetExponent (totalExponent (n <<< k) (-k)) = n.log2 - 52 :=
    targetExponent_eq (by rw [log2_shiftLeft hpos]; push_cast; omega)
  -- zeros are missing, or there are too many of them
  obtain ⟨j, hdecrease⟩ : ∃ j : ℕ, decreaseExponent (n <<< k) (-k) (n.log2 - 52) =
      ((n <<< (52 - n.log2)) <<< j, (n.log2 : ℤ) - 52 - j) := by
    unfold decreaseExponent
    rcases Nat.le_total k (52 - n.log2) with hk | hk
    · have hamount : (-(k : ℤ) - (n.log2 - 52)).toNat = 52 - n.log2 - k := by omega
      refine ⟨0, Prod.ext ?_ ?_⟩
      · dsimp only
        rw [hamount, ← Nat.shiftLeft_add, Nat.shiftLeft_zero, Nat.add_sub_cancel' hk]
      · dsimp only
        omega
    · have hamount : (-(k : ℤ) - (n.log2 - 52)).toNat = 0 := by omega
      refine ⟨k - (52 - n.log2), Prod.ext ?_ ?_⟩
      · dsimp only
        rw [hamount, Nat.shiftLeft_zero, ← Nat.shiftLeft_add, Nat.add_sub_cancel' hk]
      · dsimp only
        omega
  unfold round
  dsimp only
  rw [htarget, hdecrease]
  exact roundWithAccuracy_shiftLeft s _ ((Nat.log2_eq_iff hne).mpr ⟨hlo, hhi⟩) j

/-- Rounding an integer of at most 53 bits is a left shift to 53 bits. -/
theorem round_of_lt (s : Sign) {n : ℕ} (hpos : 0 < n) (hn : n < 2 ^ 53) :
    round Format.binary64 s n 0 =
      .finite s (n <<< (52 - n.log2)) (n.log2 - 52)
        (Nat.lt_of_lt_of_le (by norm_num) (two_pow_le_shiftLeft hpos hn).1) := by
  have h := round_shiftLeft s hpos hn 0
  rwa [Nat.shiftLeft_zero, Nat.cast_zero, neg_zero] at h

/-! ### Sums -/

/-- A whole number as it is unpacked: zero, or 53 bits. -/
theorem ofInt_zero : ofInt Format.binary64 0 = .zero .positive := rfl

theorem ofInt_of_pos {n : ℕ} (hpos : 0 < n) (hn : n < 2 ^ 53) :
    ofInt Format.binary64 n =
      .finite .positive (n <<< (52 - n.log2)) (n.log2 - 52)
        (Nat.lt_of_lt_of_le (by norm_num) (two_pow_le_shiftLeft hpos hn).1) := by
  have hcompare : compare (n : ℤ) 0 = .gt := compare_gt_iff_gt.mpr (by exact_mod_cast hpos)
  unfold ofInt normalize
  rw [hcompare]
  exact round_of_lt .positive hpos hn

/-- **Sums of whole numbers below `2 ^ 53` are exact.** -/
theorem add_ofInt {a b : ℕ} (h : a + b < 2 ^ 53) :
    add Format.binary64 (ofInt .binary64 a) (ofInt .binary64 b) =
      ofInt .binary64 (a + b : ℕ) := by
  rcases Nat.eq_zero_or_pos a with rfl | ha
  · rw [Nat.zero_add, Nat.cast_zero, ofInt_zero]
    rcases Nat.eq_zero_or_pos b with rfl | hb
    · rfl
    · rw [ofInt_of_pos hb (by omega)]
      rfl
  rcases Nat.eq_zero_or_pos b with rfl | hb
  · rw [Nat.add_zero, Nat.cast_zero, ofInt_zero, ofInt_of_pos ha (by omega)]
    rfl
  have hloga : a.log2 < 53 := (Nat.log2_lt ha.ne').mpr (by omega)
  have hlogb : b.log2 < 53 := (Nat.log2_lt hb.ne').mpr (by omega)
  rw [ofInt_of_pos ha (by omega), ofInt_of_pos hb (by omega)]
  -- both mantissas are brought to the smaller exponent
  obtain ⟨k, hk⟩ : ∃ k : ℕ, min ((a.log2 : ℤ) - 52) (b.log2 - 52) = -k :=
    ⟨52 - min a.log2 b.log2, by omega⟩
  have halign : ∀ {n : ℕ}, n.log2 < 53 → -(k : ℤ) ≤ n.log2 - 52 →
      n <<< (52 - n.log2) <<< ((n.log2 : ℤ) - 52 - -k).toNat = n <<< k := by
    intro n hn hle
    rw [← Nat.shiftLeft_add]
    congr 1
    omega
  unfold add
  simp only [decreaseExponent, hk, Sign.apply]
  rw [halign hloga (by omega), halign hlogb (by omega)]
  have hsum : ((a <<< k : ℕ) : ℤ) + (b <<< k : ℕ) = ((a + b) <<< k : ℕ) := by
    simp only [Nat.shiftLeft_eq]
    push_cast
    ring
  have hcompare : compare (((a + b) <<< k : ℕ) : ℤ) 0 = .gt :=
    compare_gt_iff_gt.mpr (by rw [Nat.shiftLeft_eq]; positivity)
  rw [hsum, normalize, hcompare, ofInt_of_pos (by omega) h]
  exact round_shiftLeft .positive (by omega) h k

/-! ### Signs -/

/-- Not negative, and a number; `-0.0` counts as negative. -/
def NonNeg : UnpackedFloat → Prop
  | .notANumber => False
  | .infinity s => s = .positive
  | .zero s => s = .positive
  | .finite s _ _ _ => s = .positive

theorem nonNeg_unpack_packComponents {e : BitVec Format.binary64.exponentBits}
    {m : BitVec Format.binary64.mantissaBitsWithoutImplicit} (h : e ≠ -1#_ ∨ m = 0#_) :
    NonNeg (unpack Format.binary64 (packComponents Format.binary64 .positive e m)) := by
  rw [unpack]
  simp only [unpackMantissa_packComponents, unpackExponent_packComponents,
    unpackSign_packComponents, Sign.ofBitVec_toBitVec]
  split
  · rename_i hones
    rw [if_pos (h.resolve_left (not_not_intro hones))]
    rfl
  · split
    · split <;> rfl
    · rfl

theorem nonNeg_unpack_pack {f : UnpackedFloat} (h : NonNeg f) :
    NonNeg (unpack Format.binary64 (pack Format.binary64 f)) := by
  cases f with
  | notANumber => cases h
  | infinity s => cases h; exact nonNeg_unpack_packComponents (Or.inr rfl)
  | zero s => cases h; exact nonNeg_unpack_packComponents (Or.inr rfl)
  | finite s m e hm =>
      cases h
      rw [pack]
      simp only
      split
      · exact nonNeg_unpack_packComponents (Or.inr rfl)
      · rename_i hsmall
        split
        · refine nonNeg_unpack_packComponents (Or.inl ?_)
          rw [← BitVec.toNat_inj.ne]
          simp at hsmall ⊢
          omega
        · exact nonNeg_unpack_packComponents (Or.inl (by decide))

theorem nonNeg_roundWithAccuracy (m : ℕ) (e : ℤ) (acc : Accuracy) :
    NonNeg (roundWithAccuracy Format.binary64 .positive m e acc) := by
  unfold roundWithAccuracy
  dsimp only
  split <;> rfl

/-! ### Range -/

/-- Below `2 ^ 1025`: an exponent for which there are bits. -/
def Small : UnpackedFloat → Prop
  | .notANumber => False
  | .infinity _ => False
  | .zero _ => True
  | .finite _ _ e _ => e < 972

theorem isInf_unpack_packComponents (s : Sign) {e : BitVec Format.binary64.exponentBits}
    (m : BitVec Format.binary64.mantissaBitsWithoutImplicit) (h : e ≠ -1#_) :
    (unpack Format.binary64 (packComponents Format.binary64 s e m)).isInf = false := by
  rw [unpack]
  simp only [unpackMantissa_packComponents, unpackExponent_packComponents]
  rw [if_neg h]
  split
  · split <;> rfl
  · rfl

theorem isInf_unpack_pack {f : UnpackedFloat} (h : f.Small) :
    (unpack Format.binary64 (pack Format.binary64 f)).isInf = false := by
  cases f with
  | notANumber => cases h
  | infinity s => cases h
  | zero s => exact isInf_unpack_packComponents s _ (by decide)
  | finite s m e hm =>
      have hsmall : e < 972 := h
      have hbits : ¬2 ^ Format.binary64.exponentBits ≤
          (e + Format.binary64.exponentBias +
            Format.binary64.mantissaBitsWithoutImplicit).toNat + 1 := by
        simp [Format.exponentBias]
        omega
      rw [pack]
      simp only [if_neg hbits]
      split
      · refine isInf_unpack_packComponents s _ ?_
        rw [← BitVec.toNat_inj.ne]
        simp [Format.exponentBias] at hbits ⊢
        omega
      · exact isInf_unpack_packComponents s _ (by decide)

theorem mantissa_shiftRight_le (em : ExtendedMantissa) (n : ℕ) :
    (em >>> n).mantissa ≤ em.mantissa := by
  show (n.repeat ExtendedMantissa.shiftRightOne em).mantissa ≤ _
  induction n with
  | zero => exact le_rfl
  | succ n ih => exact (Nat.div_le_self _ 2).trans ih

theorem roundedMantissa_le (em : ExtendedMantissa) : em.roundedMantissa ≤ em.mantissa + 1 := by
  unfold ExtendedMantissa.roundedMantissa Accuracy.roundToNearestEven
  split <;> omega

theorem mantissa_ofMantissaAndAccuracy (m : ℕ) (acc : Accuracy) :
    (ExtendedMantissa.ofMantissaAndAccuracy m acc).mantissa = m := by
  unfold ExtendedMantissa.ofMantissaAndAccuracy
  split <;> rfl

theorem log2_le_of_lt {m bits : ℕ} (h : m < 2 ^ bits) : m.log2 ≤ bits := by
  rcases Nat.eq_zero_or_pos m with rfl | hpos
  · exact Nat.zero_le bits
  · exact ((Nat.log2_lt hpos.ne').mpr h).le

/-- What a shift to the target exponent makes of a mantissa of few bits. -/
theorem shiftToTargetExponent_le {m bits : ℕ} {e : ℤ} (acc : Accuracy) (hm : m < 2 ^ bits) :
    (shiftToTargetExponent Format.binary64 m e acc).1.mantissa ≤ m ∧
      (shiftToTargetExponent Format.binary64 m e acc).2 ≤ max e (max (bits + e - 52) (-1074)) := by
  have hlog := log2_le_of_lt hm
  refine ⟨(mantissa_shiftRight_le _ _).trans (mantissa_ofMantissaAndAccuracy m acc).le, ?_⟩
  show e + ((Format.binary64.targetExponent (totalExponent m e) - e).toNat : ℤ) ≤ _
  have htarget : Format.binary64.targetExponent (totalExponent m e) ≤
      max (bits + e - 52) (-1074) := by
    simp only [Format.targetExponent, totalExponent, Format.minExponent, Format.mantissaBits]
    norm_num
    omega
  omega

/-- Rounding a mantissa of a few hundred bits does not leave the range of doubles. -/
theorem small_roundWithAccuracy (s : Sign) {m bits : ℕ} {e : ℤ} (acc : Accuracy)
    (hm : m < 2 ^ bits) (hbits : bits ≤ 480) (he : e ≤ 0) :
    (roundWithAccuracy Format.binary64 s m e acc).Small := by
  obtain ⟨hm₁, he₁⟩ := shiftToTargetExponent_le (e := e) acc hm
  unfold roundWithAccuracy
  generalize shiftToTargetExponent Format.binary64 m e acc = first at hm₁ he₁
  have hrounded : first.1.roundedMantissa < 2 ^ (bits + 1) := by
    have hle := roundedMantissa_le first.1
    rw [pow_succ]
    omega
  obtain ⟨-, he₂⟩ := shiftToTargetExponent_le (e := first.2) .exact hrounded
  dsimp only
  generalize shiftToTargetExponent Format.binary64 first.1.roundedMantissa first.2 .exact = second
    at he₂
  split
  · trivial
  · show second.2 < 972
    push_cast at he₂
    omega

/-- The quotient of integers below `2 ^ 128`, before it is rounded. -/
theorem divCore_le {m₁ m₂ : ℕ} (hm₁ : m₁ < 2 ^ 128) (hm₂ : m₂ < 2 ^ 128) :
    (divCore Format.binary64 m₁ 0 m₂ 0).1 < 2 ^ (128 + 181) ∧
      (divCore Format.binary64 m₁ 0 m₂ 0).2.1 ≤ 0 := by
  have hlog := log2_le_of_lt hm₂
  have htarget :
      -181 ≤ Format.binary64.targetExponent (totalExponent m₁ 0 - totalExponent m₂ 0) := by
    simp only [Format.targetExponent, totalExponent, Format.minExponent, Format.mantissaBits]
    norm_num
    omega
  refine ⟨?_, min_le_left _ _⟩
  obtain ⟨shift, hshift, hle⟩ : ∃ shift : ℕ,
      (divCore Format.binary64 m₁ 0 m₂ 0).1 = m₁ <<< shift / m₂ ∧ shift ≤ 181 :=
    ⟨_, rfl, by omega⟩
  calc (divCore Format.binary64 m₁ 0 m₂ 0).1
      ≤ m₁ <<< shift := hshift ▸ Nat.div_le_self _ _
    _ = m₁ * 2 ^ shift := Nat.shiftLeft_eq _ _
    _ < 2 ^ 128 * 2 ^ shift := Nat.mul_lt_mul_of_pos_right hm₁ (by positivity)
    _ ≤ 2 ^ 128 * 2 ^ 181 := Nat.mul_le_mul_left _ (Nat.pow_le_pow_right (by norm_num) hle)
    _ = 2 ^ (128 + 181) := (pow_add 2 128 181).symm

end Float.Model.UnpackedFloat

namespace Float

open Float.Model (UnpackedFloat)

/-- The number a double stands for: a rational, or one of the two infinities.
NaN stands for no number. -/
def value? (x : Float) : Option (WithBot (WithTop ℚ)) :=
  match x.toModel.unpack with
  | .notANumber => none
  | .infinity .positive => some ⊤
  | .infinity .negative => some ⊥
  | .zero _ => some ((0 : ℚ) : WithTop ℚ)
  | .finite s m e _ => some (((s.apply m : ℤ) * 2 ^ e : ℚ) : WithTop ℚ)

/-- The double nearest to an integer, ties to even; an integer beyond the largest
double becomes an infinity. -/
def nearest (n : ℤ) : Float := .ofModel (.ofInt n)

/-- An integer before it is rounded. -/
def exactly (n : ℤ) : UnpackedFloat :=
  if h : n = 0 then .zero .positive
  else .finite (if n < 0 then .negative else .positive) n.natAbs 0 (Int.natAbs_pos.mpr h)

/-- The double nearest to the quotient of two integers, ties to even. -/
def nearestQuotient (p q : ℤ) : Float :=
  .ofModel (.pack (UnpackedFloat.div .binary64 (exactly p) (exactly q)))

theorem unpack_toModel_nearest (s : UnpackedFloat.Sign) {n : ℕ} (hpos : 0 < n) (hn : n < 2 ^ 53) :
    (Model.pack (UnpackedFloat.round Model.Format.binary64 s n 0)).unpack =
      .finite s (n <<< (52 - n.log2)) (n.log2 - 52)
        (Nat.lt_of_lt_of_le (by norm_num) (UnpackedFloat.two_pow_le_shiftLeft hpos hn).1) := by
  have hlog : n.log2 < 53 := (Nat.log2_lt hpos.ne').mpr hn
  obtain ⟨hlo, hhi⟩ := UnpackedFloat.two_pow_le_shiftLeft hpos hn
  rw [UnpackedFloat.round_of_lt s hpos hn]
  exact UnpackedFloat.unpack_pack_finite s _ hlo hhi (by omega) (by omega)

theorem shifted_value (s : UnpackedFloat.Sign) {n : ℕ} (hpos : 0 < n) (hn : n < 2 ^ 53) :
    ((s.apply (n <<< (52 - n.log2) : ℕ) : ℤ) * 2 ^ ((n.log2 : ℤ) - 52) : ℚ) =
      (s.apply n : ℤ) := by
  have hlog : n.log2 < 53 := (Nat.log2_lt hpos.ne').mpr hn
  have hcancel : (2 : ℚ) ^ (52 - n.log2) * 2 ^ ((n.log2 : ℤ) - 52) = 1 := by
    rw [← zpow_natCast, ← zpow_add₀ (by norm_num), Nat.cast_sub (by omega)]
    norm_num
  rw [Nat.shiftLeft_eq]
  cases s with
  | positive =>
      simp only [UnpackedFloat.Sign.apply]
      push_cast
      rw [mul_assoc, hcancel, mul_one]
  | negative =>
      simp only [UnpackedFloat.Sign.apply]
      push_cast
      rw [neg_mul, mul_assoc, hcancel, mul_one]

/-- **Integers below `2 ^ 53` in magnitude are doubles.** -/
theorem value?_nearest {n : ℤ} (hn : n.natAbs < 2 ^ 53) :
    (nearest n).value? = some ((n : ℚ) : WithTop ℚ) := by
  unfold nearest value? Model.ofInt UnpackedFloat.ofInt UnpackedFloat.normalize
  rcases lt_trichotomy n 0 with hneg | rfl | hpos
  · have habs : (((-n).toNat : ℕ) : ℤ) = -n := by omega
    rw [show compare n 0 = .lt from compare_lt_iff_lt.mpr hneg]
    dsimp only
    rw [unpack_toModel_nearest .negative (by omega) (by omega)]
    dsimp only
    rw [shifted_value .negative (by omega) (by omega), habs]
    simp [UnpackedFloat.Sign.apply]
  · rfl
  · have habs : ((n.toNat : ℕ) : ℤ) = n := by omega
    rw [show compare n 0 = .gt from compare_gt_iff_gt.mpr hpos]
    dsimp only
    rw [unpack_toModel_nearest .positive (by omega) (by omega)]
    dsimp only
    rw [shifted_value .positive (by omega) (by omega), habs]
    rfl

theorem isInf_eq_false {x : Float} {q : ℚ} (h : x.value? = some (q : WithTop ℚ)) :
    x.isInf = false := by
  unfold value? at h
  show x.toModel.unpack.isInf = false
  split at h
  · cases h
  · exact absurd (Option.some.inj h) (by simp)
  · exact absurd (Option.some.inj h) (by simp)
  · rename_i heq
    rw [heq]
    rfl
  · rename_i heq
    rw [heq]
    rfl

/-! ### Sums -/

theorem unpack_nearest {n : ℕ} (hn : n < 2 ^ 53) :
    (nearest n).toModel.unpack = UnpackedFloat.ofInt .binary64 n := by
  show (Model.pack (UnpackedFloat.ofInt _ _)).unpack = _
  rcases Nat.eq_zero_or_pos n with rfl | hpos
  · rfl
  · have hlog : n.log2 < 53 := (Nat.log2_lt hpos.ne').mpr hn
    obtain ⟨hlo, hhi⟩ := UnpackedFloat.two_pow_le_shiftLeft hpos hn
    rw [UnpackedFloat.ofInt_of_pos hpos hn]
    exact UnpackedFloat.unpack_pack_finite .positive _ hlo hhi (by omega) (by omega)

/-- **Sums of whole numbers below `2 ^ 53` are exact.** -/
theorem nearest_add_nearest {a b : ℕ} (h : a + b < 2 ^ 53) :
    nearest a + nearest b = nearest (a + b : ℕ) := by
  show Float.ofModel (Model.pack (UnpackedFloat.add _ (nearest a).toModel.unpack
    (nearest b).toModel.unpack)) = .ofModel (Model.pack (UnpackedFloat.ofInt _ _))
  rw [unpack_nearest (by omega), unpack_nearest (by omega), UnpackedFloat.add_ofInt h]

/-! ### Quotients -/

theorem nonNeg_exactly {n : ℤ} (h : 0 ≤ n) : (exactly n).NonNeg := by
  unfold exactly
  split
  · rfl
  · exact if_neg (by omega)

theorem nonneg_value?_ofModel_pack {f : UnpackedFloat} (h : f.NonNeg) :
    ∃ q, (Float.ofModel (.pack f)).value? = some q ∧ 0 ≤ q := by
  have hnonneg : (Float.ofModel (.pack f)).toModel.unpack.NonNeg :=
    UnpackedFloat.nonNeg_unpack_pack h
  unfold value?
  generalize (Float.ofModel (.pack f)).toModel.unpack = u at hnonneg
  cases u with
  | notANumber => cases hnonneg
  | infinity s => cases hnonneg; exact ⟨⊤, rfl, le_top⟩
  | zero s => exact ⟨_, rfl, le_rfl⟩
  | finite s m e hm =>
      cases hnonneg
      refine ⟨_, rfl, ?_⟩
      have : (0 : ℚ) ≤ ((UnpackedFloat.Sign.positive.apply m : ℤ) * 2 ^ e : ℚ) := by
        simp only [UnpackedFloat.Sign.apply]
        positivity
      exact_mod_cast this

theorem nonneg_value?_nearestQuotient {p q : ℤ} (hp : 0 ≤ p) (hq : 0 < q) :
    ∃ x, (nearestQuotient p q).value? = some x ∧ 0 ≤ x := by
  refine nonneg_value?_ofModel_pack ?_
  have hq' : exactly q = .finite .positive q.natAbs 0 (Int.natAbs_pos.mpr hq.ne') := by
    rw [exactly, dif_neg hq.ne']
    simp only [if_neg hq.le.not_gt]
  have hp' := nonNeg_exactly hp
  rw [hq']
  cases hpe : exactly p with
  | notANumber => rw [hpe] at hp'; cases hp'
  | infinity s => rw [hpe] at hp'; cases hp'; rfl
  | zero s => rw [hpe] at hp'; cases hp'; rfl
  | finite s m e hm =>
      rw [hpe] at hp'
      cases hp'
      exact UnpackedFloat.nonNeg_roundWithAccuracy _ _ _

/-- **Quotients of integers below `2 ^ 128` are finite.** -/
theorem isInf_nearestQuotient {p q : ℤ} (hp : p.natAbs < 2 ^ 128) (hq : q.natAbs < 2 ^ 128)
    (hne : q ≠ 0) : (nearestQuotient p q).isInf = false := by
  have hsmall : (UnpackedFloat.div .binary64 (exactly p) (exactly q)).Small := by
    unfold exactly
    rw [dif_neg hne]
    split
    · trivial
    · obtain ⟨hmantissa, hexponent⟩ := UnpackedFloat.divCore_le hp hq
      exact UnpackedFloat.small_roundWithAccuracy _ _ hmantissa (by norm_num) hexponent
  exact UnpackedFloat.isInf_unpack_pack hsmall

/-- Apart from NaN, which has no bits of its own, a double has the bits it is made of. -/
theorem toBits_ofBits_of_lt {a : UInt64} (h : a.toNat < 2 ^ 62) : (ofBits a).toBits = a := by
  have hnumber : ¬@UnpackedFloat.isNaNBits Model.Format.binary64 a.toBitVec := by
    have hexponent :
        @UnpackedFloat.unpackExponent Model.Format.binary64 a.toBitVec ≠ -1#_ := by
      rw [← BitVec.toNat_inj.ne, UnpackedFloat.unpackExponent_def, BitVec.extractLsb'_toNat]
      simp
      omega
    unfold UnpackedFloat.isNaNBits
    exact fun h => hexponent (of_decide_eq_true h).1
  refine UInt64.toBitVec_inj.mp ?_
  show UnpackedFloat.pack Model.Format.binary64
    (UnpackedFloat.unpack Model.Format.binary64 a.toBitVec) = _
  rw [UnpackedFloat.pack_unpack, if_neg hnumber]

end Float
