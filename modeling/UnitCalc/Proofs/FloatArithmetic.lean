import Mathlib
import UnitCalc.Proofs.Rounding
import UnitCalc.Proofs.Zeros

/-!
# Proofs: products and quotients of floats

A finite float that is no zero is kept as a sign, a mantissa and an exponent of two. Products and
quotients are the floats nearest to the numbers they stand for; a factor of one and a summand of
zero change nothing.
-/

namespace UnitCalc

open Float.Model Float.Model.UnpackedFloat Rounding

/-- The float stands for `m × 2 ^ q` with a sign, and is kept in this form. -/
def Stands (x : Float) (s : Sign) (m : ℕ) (q : ℤ) : Prop :=
  ∃ h : 0 < m, x.toModel.unpack = .finite s m q h

variable {x y : Float} {s s' : Sign} {m m' M : ℕ} {q q' Q : ℤ}

/-! ## Bits -/

theorem toNat_append_one (v : BitVec 52) : (1#1 ++ v).toNat = 2 ^ 52 + v.toNat := by
  rw [BitVec.toNat_append, ← Nat.shiftLeft_add_eq_or_of_lt v.isLt]
  rfl

theorem toNat_ofNat_of_lt {w n : ℕ} (h : n < 2 ^ w) : (BitVec.ofNat w n).toNat = n := by
  rw [BitVec.toNat_ofNat, Nat.mod_eq_of_lt h]

theorem ofNat_ne_zero {w n : ℕ} (hpos : 0 < n) (h : n < 2 ^ w) : BitVec.ofNat w n ≠ 0#w := by
  intro heq
  have hnat := congrArg BitVec.toNat heq
  rw [toNat_ofNat_of_lt h, BitVec.toNat_zero] at hnat
  omega

theorem unpack_pack_normal (hlo : 2 ^ 52 ≤ m) (hc : Canonical m q) :
    (pack (.finite s m q hc.pos)).unpack = .finite s m q hc.pos := by
  have hlog := log2_of_full hlo hc.lt
  have hleast := hc.least
  have hgreatest := hc.greatest
  -- the exponent that is put into the bits, neither the one of infinity nor the one of zero
  obtain ⟨b, hb⟩ : ∃ b : ℕ, q + 1075 = b := ⟨(q + 1075).toNat, by omega⟩
  have hbits : UnpackedFloat.pack .binary64 (.finite s m q hc.pos) =
      packComponents .binary64 s (BitVec.ofNat 11 b) (BitVec.ofNat 52 m) := by
    have hbiased : (q + (Format.binary64.exponentBias : ℤ) +
        (Format.binary64.mantissaBitsWithoutImplicit : ℤ)).toNat = b := by
      show (q + 1023 + 52).toNat = b
      omega
    unfold UnpackedFloat.pack
    dsimp only
    rw [hbiased, hlog, if_neg (by show ¬ 2048 ≤ b + 1; omega)]
    exact if_pos rfl
  have hones : BitVec.ofNat 11 b ≠ -1#11 := by
    intro heq
    have hnat := congrArg BitVec.toNat heq
    rw [toNat_ofNat_of_lt (by omega)] at hnat
    change b = 2047 at hnat
    omega
  show UnpackedFloat.unpack .binary64 (UnpackedFloat.pack .binary64 (.finite s m q hc.pos)) = _
  rw [hbits]
  unfold UnpackedFloat.unpack
  simp only [unpackMantissa_packComponents, unpackExponent_packComponents,
    unpackSign_packComponents, Sign.ofBitVec_toBitVec]
  rw [if_neg hones, if_neg (ofNat_ne_zero (by omega) (by omega))]
  congr 1
  · rw [toNat_append_one, BitVec.toNat_ofNat]
    have hlt := hc.lt
    omega
  · rw [toNat_ofNat_of_lt (by omega)]
    show (b : ℤ) - (1023 + 52) = q
    omega

theorem unpack_pack_subnormal (hhi : m < 2 ^ 52) (hc : Canonical m q) :
    (pack (.finite s m q hc.pos)).unpack = .finite s m q hc.pos := by
  have hlog : m.log2 < 52 := (Nat.log2_lt hc.pos.ne').mpr hhi
  obtain rfl : q = -1074 := hc.full.resolve_left (by omega)
  have hbits : UnpackedFloat.pack .binary64 (.finite s m (-1074) hc.pos) =
      packComponents .binary64 s 0#11 (BitVec.ofNat 52 m) := by
    unfold UnpackedFloat.pack
    dsimp only
    rw [if_neg (by decide), if_neg (by show ¬ m.log2 + 1 = 53; omega)]
  show UnpackedFloat.unpack .binary64
    (UnpackedFloat.pack .binary64 (.finite s m (-1074) hc.pos)) = _
  rw [hbits]
  unfold UnpackedFloat.unpack
  simp only [unpackMantissa_packComponents, unpackExponent_packComponents,
    unpackSign_packComponents, Sign.ofBitVec_toBitVec]
  rw [if_neg (by decide), if_pos trivial, dif_neg (ofNat_ne_zero hc.pos hhi)]
  congr 1
  exact toNat_ofNat_of_lt hhi

/-- A float in the form in which floats are kept is not changed when it is put into bits. -/
theorem unpack_pack_of_canonical (hc : Canonical m q) :
    (pack (.finite s m q hc.pos)).unpack = .finite s m q hc.pos := by
  by_cases hlo : 2 ^ 52 ≤ m
  · exact unpack_pack_normal hlo hc
  · exact unpack_pack_subnormal (by omega) hc

theorem stands_of_canonical (hc : Canonical m q) :
    Stands (.ofModel (pack (.finite s m q hc.pos))) s m q :=
  ⟨hc.pos, unpack_pack_of_canonical hc⟩

/-! What a float stands for is read off its bits as the model takes them apart. -/

/-- The sign of a float. -/
def signOf (negative : Bool) : Sign := if negative then .negative else .positive

/-- A value as the model has it. -/
def FloatValue.unpacked : FloatValue → UnpackedFloat
  | .nan => .notANumber
  | .infinite negative => .infinity (signOf negative)
  | .finite negative v =>
    if h : v.mantissa = 0 then .zero (signOf negative)
    else .finite (signOf negative) v.mantissa v.exponent (Nat.pos_of_ne_zero h)

theorem ofBitVec_eq_signOf (b : BitVec 1) : Sign.ofBitVec b = signOf (b.toNat == 1) := by
  obtain rfl | rfl := BitVec.eq_zero_or_eq_one b <;> rfl

theorem unpack_eq_unpacked (x : Float) : x.toModel.unpack = (FloatValue.ofFloat x).unpacked := by
  have hmantissa : (@unpackMantissa .binary64 x.toBits.toBitVec).toNat =
      x.toBits.toNat % Nat.pow 2 52 := by
    simp only [unpackMantissa, BitVec.toNat_cast, BitVec.extractLsb_toNat]
    rfl
  have hexponent : (@unpackExponent .binary64 x.toBits.toBitVec).toNat =
      x.toBits.toNat / Nat.pow 2 52 % Nat.pow 2 11 := by
    simp only [unpackExponent, BitVec.toNat_cast, BitVec.extractLsb_toNat]
    rw [Nat.shiftRight_eq_div_pow]
    rfl
  have hsign : (@unpackSign .binary64 x.toBits.toBitVec).toNat =
      x.toBits.toNat / Nat.pow 2 63 % 2 := by
    simp only [unpackSign, BitVec.toNat_cast, BitVec.extractLsb_toNat]
    rw [Nat.shiftRight_eq_div_pow]
    rfl
  show UnpackedFloat.unpack .binary64 x.toBits.toBitVec = _
  unfold UnpackedFloat.unpack FloatValue.ofFloat FloatValue.ofBits
  dsimp only
  rw [ofBitVec_eq_signOf, ← hmantissa, ← hexponent, ← hsign]
  have hones : @unpackExponent .binary64 x.toBits.toBitVec = -1#11 ↔
      (@unpackExponent .binary64 x.toBits.toBitVec).toNat = Nat.pow 2 11 - 1 :=
    ⟨fun h => h ▸ rfl, fun h => BitVec.eq_of_toNat_eq h⟩
  have hnone : @unpackExponent .binary64 x.toBits.toBitVec = 0#11 ↔
      (@unpackExponent .binary64 x.toBits.toBitVec).toNat = 0 :=
    ⟨fun h => h ▸ rfl, fun h => BitVec.eq_of_toNat_eq h⟩
  have hempty : @unpackMantissa .binary64 x.toBits.toBitVec = 0#52 ↔
      (@unpackMantissa .binary64 x.toBits.toBitVec).toNat = 0 :=
    ⟨fun h => h ▸ rfl, fun h => BitVec.eq_of_toNat_eq h⟩
  by_cases hb : (@unpackExponent .binary64 x.toBits.toBitVec).toNat = Nat.pow 2 11 - 1
  · rw [if_pos (hones.mpr hb), if_pos hb]
    by_cases hv : (@unpackMantissa .binary64 x.toBits.toBitVec).toNat = 0
    · rw [if_pos (hempty.mpr hv), if_pos hv]
      rfl
    · rw [if_neg (hempty.not.mpr hv), if_neg hv]
      rfl
  rw [if_neg (hones.not.mpr hb), if_neg hb]
  by_cases hb' : (@unpackExponent .binary64 x.toBits.toBitVec).toNat = 0
  · rw [if_pos (hnone.mpr hb'), if_pos hb', FloatValue.unpacked]
    by_cases hv : (@unpackMantissa .binary64 x.toBits.toBitVec).toNat = 0
    · rw [dif_pos (hempty.mpr hv), dif_pos hv]
    · rw [dif_neg (hempty.not.mpr hv), dif_neg hv]
      congr 1
      rw [hb']
      rfl
  · rw [if_neg (hnone.not.mpr hb'), if_neg hb', FloatValue.unpacked, dif_neg (by simp)]
    congr 1
    exact toNat_append_one _

/-- The magnitude of a finite float is a zero or canonical. -/
theorem FloatValue.canonical_of_ofFloat {negative : Bool} {v : Binary}
    (h : ofFloat x = .finite negative v) (hne : v.mantissa ≠ 0) :
    Canonical v.mantissa v.exponent ∧
      (v.narrowBelow = true ↔ v.mantissa = 2 ^ 52 ∧ v.exponent ≠ -1074) := by
  unfold ofFloat ofBits at h
  dsimp only at h
  have hfraction : x.toBits.toNat % Nat.pow 2 52 < 2 ^ 52 := Nat.mod_lt _ (by decide)
  have hexponent : x.toBits.toNat / Nat.pow 2 52 % Nat.pow 2 11 < 2 ^ 11 := Nat.mod_lt _ (by decide)
  generalize x.toBits.toNat % Nat.pow 2 52 = f at h hfraction
  generalize x.toBits.toNat / Nat.pow 2 52 % Nat.pow 2 11 = b at h hexponent
  split at h
  · split at h <;> cases h
  · have hb : b ≠ 2047 := ‹¬ _›
    split at h
    · obtain ⟨-, rfl⟩ := FloatValue.finite.inj h
      refine ⟨⟨Nat.pos_of_ne_zero hne, ?_, .inr rfl, le_rfl, (by decide : (-1074 : ℤ) ≤ 971)⟩, ?_⟩
      · dsimp only
        omega
      · simp
    · obtain ⟨-, rfl⟩ := FloatValue.finite.inj h
      have hpow : Nat.pow 2 52 = 2 ^ 52 := rfl
      dsimp only at hne ⊢
      rw [hpow] at hne ⊢
      refine ⟨⟨by omega, by omega, .inl (by omega), by omega, by omega⟩, ?_⟩
      rw [Bool.and_eq_true, beq_iff_eq, bne_iff_ne]
      omega

theorem Stands.canonical (h : Stands x s m q) : Canonical m q := by
  obtain ⟨hm, h⟩ := h
  rw [unpack_eq_unpacked] at h
  cases hv : FloatValue.ofFloat x with
  | nan =>
    rw [hv] at h
    cases h
  | infinite negative =>
    rw [hv] at h
    cases h
  | finite negative v =>
    rw [hv, FloatValue.unpacked] at h
    split at h
    · cases h
    · obtain ⟨-, rfl, rfl⟩ := UnpackedFloat.finite.inj h
      exact (FloatValue.canonical_of_ofFloat hv ‹_›).1

/-- Two floats with the same parts are the same. -/
theorem eq_of_unpack_eq (h : x.toModel.unpack = y.toModel.unpack) : x = y := by
  refine Float.toBits_inj.mp (UInt64.toBitVec_inj.mp ?_)
  exact (unpack_inj_of_valid x.toModel.valid y.toModel.valid).mp h

theorem Stands.unique (hx : Stands x s m q) (hy : Stands y s m q) : x = y := by
  obtain ⟨_, hx⟩ := hx
  obtain ⟨_, hy⟩ := hy
  exact eq_of_unpack_eq (hx.trans hy.symm)

/-! ## Products and quotients -/

theorem le_targetExponent_of_full {e : ℤ} (h : 2 ^ 52 ≤ m) :
    e ≤ Format.binary64.targetExponent (totalExponent m e) := by
  have hlog : 52 ≤ m.log2 := (Nat.le_log2 (by omega)).mpr h
  rw [targetExponent_eq]
  omega

theorem Stands.mul (hx : Stands x s m q) (hy : Stands y s' m' q') (hfull : 2 ^ 52 ≤ m * m')
    (hc : Canonical M Q) (hr : RoundsTo (m * 2 ^ q * (m' * 2 ^ q')) M Q) :
    Stands (x * y) (s * s') M Q := by
  obtain ⟨hm, hx⟩ := hx
  obtain ⟨hm', hy⟩ := hy
  have hproduct : UnpackedFloat.mul .binary64 x.toModel.unpack y.toModel.unpack =
      .finite (s * s') M Q hc.pos := by
    rw [hx, hy]
    refine roundWithAccuracy_eq ?_ (le_targetExponent_of_full hfull) hc hr
    show _ = ((m * m' : ℕ) : ℚ)
    rw [zpow_add₀ two_ne_zero, Nat.cast_mul]
    field_simp
  refine ⟨hc.pos, ?_⟩
  rw [unpack_mul, hproduct]
  exact unpack_pack_of_canonical hc

/-- What is left over in a division tells where the quotient lies. -/
theorem lies_accuracyOfFraction (n : ℕ) {d : ℕ} (hd : 0 < d) :
    Lies (n / d) (n / d) (accuracyOfFraction (n % d) d) := by
  have hdpos : (0 : ℚ) < d := by exact_mod_cast hd
  have hquotient : (n : ℚ) / d = (n / d : ℕ) + (n % d : ℕ) / d := by
    have hsplit : (n : ℚ) = d * (n / d : ℕ) + (n % d : ℕ) := by
      exact_mod_cast (Nat.div_add_mod n d).symm
    rw [div_eq_iff hdpos.ne', add_mul, div_mul_cancel₀ _ hdpos.ne', mul_comm]
    exact hsplit
  have hlt : ((n % d : ℕ) : ℚ) / d < 1 := by
    rw [div_lt_one hdpos]
    exact_mod_cast Nat.mod_lt n hd
  rw [hquotient]
  unfold accuracyOfFraction
  split
  · rename_i hzero
    rw [hzero, Nat.cast_zero, zero_div, add_zero]
    exact rfl
  · rename_i hne
    have hpos : 0 < ((n % d : ℕ) : ℚ) / d :=
      div_pos (by exact_mod_cast Nat.pos_of_ne_zero hne) hdpos
    cases hcompare : compare (2 * (n % d)) d with
    | lt =>
      have hhalf : ((n % d : ℕ) : ℚ) / d < 1 / 2 := by
        rw [div_lt_div_iff₀ hdpos two_pos, one_mul, mul_comm]
        exact_mod_cast Nat.compare_eq_lt.mp hcompare
      exact ⟨by linarith, by linarith⟩
    | eq =>
      have hhalf : ((n % d : ℕ) : ℚ) / d = 1 / 2 := by
        rw [div_eq_div_iff hdpos.ne' two_ne_zero, one_mul, mul_comm]
        exact_mod_cast Nat.compare_eq_eq.mp hcompare
      show _ + _ = _ + _
      rw [hhalf]
    | gt =>
      have hhalf : 1 / 2 < ((n % d : ℕ) : ℚ) / d := by
        rw [div_lt_div_iff₀ two_pos hdpos, one_mul, mul_comm]
        exact_mod_cast Nat.compare_eq_gt.mp hcompare
      exact ⟨by linarith, by linarith⟩

/-- The quotient is computed with enough digits. -/
theorem lies_divCore (hm : 0 < m) (hm' : 0 < m') :
    let core := divCore .binary64 m q m' q'
    Lies (m * 2 ^ q / (m' * 2 ^ q') / 2 ^ core.2.1) core.1 core.2.2 ∧
      core.2.1 ≤ Format.binary64.targetExponent (totalExponent core.1 core.2.1) := by
  unfold divCore
  dsimp only
  generalize ht : min (q - q') (Format.binary64.targetExponent
    (totalExponent m q - totalExponent m' q')) = t
  obtain ⟨k, hk⟩ : ∃ k : ℕ, q - q' - t = k := ⟨(q - q' - t).toNat, by omega⟩
  rw [hk, Int.toNat_natCast, Nat.shiftLeft_eq]
  constructor
  · have hpos' : (m' : ℚ) ≠ 0 := by exact_mod_cast hm'.ne'
    have hvalue : (m : ℚ) * 2 ^ q / (m' * 2 ^ q') / 2 ^ t = (m * 2 ^ k : ℕ) / m' := by
      have hq : q = k + t + q' := by omega
      rw [hq, zpow_add₀ two_ne_zero, zpow_add₀ two_ne_zero, zpow_natCast]
      push_cast
      field_simp
    rw [hvalue]
    exact lies_accuracyOfFraction _ hm'
  · simp only [Format.targetExponent, totalExponent, Format.mantissaBits, Format.minExponent] at ht
    by_cases hleast : t ≤ -1074
    · rw [targetExponent_eq]
      omega
    · refine le_targetExponent_of_full ((Nat.le_div_iff_mul_le hm').mpr ?_)
      have hexp : m'.log2 + 1 + 52 ≤ m.log2 + k := by omega
      calc 2 ^ 52 * m' ≤ 2 ^ 52 * 2 ^ (m'.log2 + 1) := by
            gcongr
            exact Nat.lt_log2_self.le
        _ = 2 ^ (m'.log2 + 1 + 52) := by ring
        _ ≤ 2 ^ (m.log2 + k) := Nat.pow_le_pow_right two_pos hexp
        _ = 2 ^ m.log2 * 2 ^ k := pow_add _ _ _
        _ ≤ m * 2 ^ k := by
          gcongr
          exact Nat.log2_self_le hm.ne'

theorem Stands.div (hx : Stands x s m q) (hy : Stands y s' m' q') (hc : Canonical M Q)
    (hr : RoundsTo (m * 2 ^ q / (m' * 2 ^ q')) M Q) : Stands (x / y) (s / s') M Q := by
  obtain ⟨hm, hx⟩ := hx
  obtain ⟨hm', hy⟩ := hy
  have hquotient : UnpackedFloat.div .binary64 x.toModel.unpack y.toModel.unpack =
      .finite (s / s') M Q hc.pos := by
    rw [hx, hy]
    obtain ⟨hlies, henough⟩ := @lies_divCore m m' q q' hm hm'
    exact roundWithAccuracy_eq hlies henough hc hr
  refine ⟨hc.pos, ?_⟩
  rw [unpack_div, hquotient]
  exact unpack_pack_of_canonical hc

/-! ## One and zero -/

theorem exists_stands (hx : x.isFinite = true) (hne : (x == 0.0) = false) :
    ∃ s m q, Stands x s m q := by
  have hzero : ¬ ∃ s, x.toModel.unpack = .zero s := by
    rw [← beq_zero_iff, hne]
    exact Bool.false_ne_true
  change x.toModel.unpack.isFinite = true at hx
  cases hu : x.toModel.unpack with
  | notANumber =>
    rw [hu] at hx
    cases hx
  | infinity s =>
    rw [hu] at hx
    cases hx
  | zero s => exact absurd ⟨s, hu⟩ hzero
  | finite s m q hm => exact ⟨s, m, q, hm, hu⟩

theorem stands_one : Stands 1.0 .positive (2 ^ 52) (-52) :=
  ⟨by decide, by rfl⟩

theorem sign_mul_positive (s : Sign) : s * .positive = s := by cases s <;> rfl

theorem sign_mul_comm (s t : Sign) : s * t = t * s := by cases s <;> cases t <;> rfl

theorem float_mul_comm (x y : Float) : x * y = y * x := by
  refine eq_of_unpack_eq ?_
  rw [unpack_mul, unpack_mul]
  generalize x.toModel.unpack = u
  generalize y.toModel.unpack = v
  cases u <;> cases v <;>
    simp only [UnpackedFloat.mul, sign_mul_comm, Nat.mul_comm, Int.add_comm]

theorem mul_one_of_isFinite (hx : x.isFinite = true) : x * 1.0 = x := by
  by_cases hzero : (x == 0.0) = true
  · obtain ⟨s, hs⟩ := beq_zero_iff.mp hzero
    obtain ⟨hpos, hone⟩ := stands_one
    have hproduct : UnpackedFloat.mul .binary64 (.zero s) (.finite .positive (2 ^ 52) (-52) hpos) =
        .zero (s * .positive) := rfl
    refine eq_of_unpack_eq ?_
    rw [unpack_mul, hs, hone, hproduct, unpack_pack_zero, sign_mul_positive]
  · rw [Bool.not_eq_true] at hzero
    obtain ⟨s, m, q, hx⟩ := exists_stands hx hzero
    have hround : RoundsTo (m * 2 ^ q * ((2 ^ 52 : ℕ) * 2 ^ (-52 : ℤ))) m q := by
      have hone : ((2 ^ 52 : ℕ) : ℚ) * 2 ^ (-52 : ℤ) = 1 := by norm_num
      rw [hone, mul_one]
      exact roundsTo_self m q
    have hproduct := hx.mul stands_one (Nat.le_mul_of_pos_left _ hx.1) hx.canonical hround
    rw [sign_mul_positive] at hproduct
    exact hproduct.unique hx

theorem one_mul_of_isFinite (hx : x.isFinite = true) : 1.0 * x = x := by
  rw [float_mul_comm]
  exact mul_one_of_isFinite hx

theorem add_eq_of_beq_zero (hx : x.isFinite = true) (hne : (x == 0.0) = false)
    (hy : (y == 0.0) = true) : x + y = x := by
  obtain ⟨s, m, q, hx⟩ := exists_stands hx hne
  have hc := hx.canonical
  obtain ⟨hm, hu⟩ := hx
  obtain ⟨t, ht⟩ := beq_zero_iff.mp hy
  refine eq_of_unpack_eq ?_
  rw [unpack_add, hu, ht]
  exact unpack_pack_of_canonical hc

theorem add_eq_of_zero_beq (hx : (x == 0.0) = true) (hy : y.isFinite = true)
    (hne : (y == 0.0) = false) : x + y = y := by
  obtain ⟨s, m, q, hy⟩ := exists_stands hy hne
  have hc := hy.canonical
  obtain ⟨hm, hu⟩ := hy
  obtain ⟨t, ht⟩ := beq_zero_iff.mp hx
  refine eq_of_unpack_eq ?_
  rw [unpack_add, hu, ht]
  exact unpack_pack_of_canonical hc

end UnitCalc
