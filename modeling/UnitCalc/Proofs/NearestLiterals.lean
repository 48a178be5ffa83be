import UnitCalc.Decimal.Basic
import UnitCalc.Proofs.FloatArithmetic

/-!
# Proofs: decimals as floats

A decimal becomes the float in whose rounding interval it lies, whichever way it is computed: small
ones with one product or quotient of floats, the others with one of whole numbers.
-/

namespace UnitCalc

open Float.Model Float.Model.UnpackedFloat Rounding

variable {x : ℚ} {M : ℕ} {Q : ℤ}

/-! ## Bounds of what is rounded to a float -/

theorem Rounding.RoundsTo.lt_top (hr : RoundsTo x M Q) (hc : Canonical M Q) :
    x < 2 ^ (1024 : ℤ) := by
  have hgreatest := hc.greatest
  exact (hr.lt_zpow hc).trans_le (zpow_le_zpow_right₀ one_le_two (by omega))

theorem Rounding.RoundsTo.bottom_le (hr : RoundsTo x M Q) (hc : Canonical M Q) :
    2 ^ (-1075 : ℤ) ≤ x := by
  have hM : (1 : ℚ) ≤ M := by exact_mod_cast hc.pos
  have hmargin := marginBelow_le M Q
  have hleast : (2 : ℚ) ^ (-1074 : ℤ) ≤ 2 ^ Q := zpow_le_zpow_right₀ one_le_two hc.least
  calc (2 : ℚ) ^ (-1075 : ℤ) = 1 / 2 * 2 ^ (-1074 : ℤ) := by
        rw [show (-1075 : ℤ) = -1 + -1074 by norm_num, zpow_add₀ two_ne_zero]
        norm_num
    _ ≤ (M - marginBelow M Q) * 2 ^ Q := by
      refine mul_le_mul (by linarith) hleast (by positivity) (by linarith)
    _ ≤ x := hr.below

/-! ## The two factors of a small decimal -/

/-- A natural number of 53 binary digits at most is a float. -/
theorem stands_toFloat {n : ℕ} (hpos : 0 < n) (hlt : n < 2 ^ 53) :
    ∃ (m : ℕ) (q : ℤ), 2 ^ 52 ≤ m ∧ (m * 2 ^ q : ℚ) = n ∧
      Stands n.toUInt64.toFloat .positive m q := by
  have hlog : n.log2 < 53 := (Nat.log2_lt hpos.ne').mpr hlt
  obtain ⟨k, hk⟩ : ∃ k, n.log2 + k = 52 := ⟨52 - n.log2, by omega⟩
  have hfull : 2 ^ 52 ≤ n * 2 ^ k := by
    calc 2 ^ 52 = 2 ^ n.log2 * 2 ^ k := by rw [← pow_add, hk]
      _ ≤ n * 2 ^ k := by
        gcongr
        exact Nat.log2_self_le hpos.ne'
  have hshort : n * 2 ^ k < 2 ^ 53 := by
    calc n * 2 ^ k < 2 ^ (n.log2 + 1) * 2 ^ k := by
          gcongr
          exact Nat.lt_log2_self
      _ = 2 ^ 53 := by
        rw [← pow_add]
        congr 1
        omega
  have hc : Canonical (n * 2 ^ k) (-k) :=
    ⟨by positivity, hshort, .inl hfull, by omega, by omega⟩
  have hvalue : ((n * 2 ^ k : ℕ) * 2 ^ (-k : ℤ) : ℚ) = n := by
    push_cast
    rw [zpow_neg, zpow_natCast]
    field_simp
  refine ⟨n * 2 ^ k, -k, hfull, hvalue, ?_⟩
  have hround : UnpackedFloat.ofUInt64 .binary64 n.toUInt64 =
      .finite .positive (n * 2 ^ k) (-k) hc.pos := by
    have hword : n.toUInt64.toNat = n := by
      rw [Nat.toUInt64, UInt64.toNat_ofNat', Nat.mod_eq_of_lt (by omega)]
    have hcompare : compare (n : ℤ) 0 = .gt := Int.compare_eq_gt.mpr (by omega)
    have htarget : Format.binary64.targetExponent (totalExponent n 0) = -k := by
      rw [targetExponent_eq]
      omega
    unfold UnpackedFloat.ofUInt64 UnpackedFloat.ofNat UnpackedFloat.ofInt
      UnpackedFloat.normalize
    rw [hword, hcompare]
    unfold UnpackedFloat.round decreaseExponent
    dsimp only
    rw [Int.toNat_natCast, htarget, zero_sub, neg_neg, Int.toNat_natCast, zero_sub,
      Nat.shiftLeft_eq]
    refine roundWithAccuracy_eq ?_ hc.targetExponent.ge hc (roundsTo_self _ _)
    show _ = ((n * 2 ^ k : ℕ) : ℚ)
    field_simp
  show Stands (.ofModel (pack (UnpackedFloat.ofUInt64 .binary64 n.toUInt64))) _ _ _
  rw [hround]
  exact stands_of_canonical hc

/-- Whether a float is kept as a full mantissa and stands for a natural number. -/
def standsFor (x : Float) (n : ℕ) : Bool :=
  match x.toModel.unpack with
  | .finite .positive m q _ => 2 ^ 52 ≤ m && m * 2 ^ q.toNat == n * 2 ^ (-q).toNat
  | _ => false

theorem exists_stands_of_standsFor {x : Float} {n : ℕ} (h : standsFor x n = true) :
    ∃ (m : ℕ) (q : ℤ), 2 ^ 52 ≤ m ∧ (m * 2 ^ q : ℚ) = n ∧ Stands x .positive m q := by
  unfold standsFor at h
  split at h
  · rename_i m q hm hx
    rw [Bool.and_eq_true, decide_eq_true_eq, beq_iff_eq] at h
    refine ⟨m, q, h.1, ?_, hm, hx⟩
    have hvalue : (m : ℚ) * 2 ^ q.toNat = n * 2 ^ (-q).toNat := by exact_mod_cast h.2
    have hsplit : q = q.toNat - (-q).toNat := by omega
    rw [hsplit, zpow_sub₀ two_ne_zero, zpow_natCast, zpow_natCast, ← mul_div_assoc, hvalue]
    field_simp
  · cases h

theorem standsFor_powerOfTen : ∀ i : Fin Float.exactlyRepresentablePowersOfTen.size,
    standsFor Float.exactlyRepresentablePowersOfTen[i] (10 ^ i.val) = true := by
  decide +kernel

/-- The powers of ten that are floats are kept as such. -/
theorem stands_powerOfTen {n : ℕ} (hn : n < Float.exactlyRepresentablePowersOfTen.size) :
    ∃ (m : ℕ) (q : ℤ), 2 ^ 52 ≤ m ∧ (m * 2 ^ q : ℚ) = (10 ^ n : ℕ) ∧
      Stands (Float.exactlyRepresentablePowersOfTen[n]) .positive m q :=
  exists_stands_of_standsFor (standsFor_powerOfTen ⟨n, hn⟩)

/-! ## Literals -/

/-- The power of ten of a literal. -/
def literalExponent (negative : Bool) (n : ℕ) : ℤ := if negative then -n else n

/-- A literal with few digits and a small power of ten is one product or quotient of floats. -/
theorem stands_small {c n : ℕ} {negative : Bool} (hpos : 0 < c) (hlt : c < 2 ^ 53)
    (hn : n < Float.exactlyRepresentablePowersOfTen.size) (hc : Canonical M Q)
    (hr : RoundsTo (c * 10 ^ literalExponent negative n) M Q) :
    Stands (if negative then c.toUInt64.toFloat / Float.exactlyRepresentablePowersOfTen[n]
      else c.toUInt64.toFloat * Float.exactlyRepresentablePowersOfTen[n]) .positive M Q := by
  obtain ⟨m, q, hm, hmq, hx⟩ := stands_toFloat hpos hlt
  obtain ⟨m', q', hm', hmq', hy⟩ := stands_powerOfTen hn
  unfold literalExponent at hr
  cases negative with
  | false =>
    refine hx.mul hy (by nlinarith) hc ?_
    rw [hmq, hmq', Nat.cast_pow, ← zpow_natCast]
    exact hr
  | true =>
    refine hx.div hy hc ?_
    rw [hmq, hmq', Nat.cast_pow, div_eq_mul_inv, ← zpow_natCast, ← zpow_neg]
    exact hr

/-- The power of ten of a literal that rounds to a float is not so great that it is not formed. -/
theorem exponent_le {c : ℕ} {e : ℤ} (hpos : 0 < c) (hc : Canonical M Q)
    (hr : RoundsTo (c * 10 ^ e) M Q) : e < 1024 := by
  by_contra hge
  have hc1 : (1 : ℚ) ≤ c := by exact_mod_cast hpos
  have hle : (2 : ℚ) ^ (1024 : ℤ) ≤ c * 10 ^ e := by
    calc (2 : ℚ) ^ (1024 : ℤ) ≤ 2 ^ e := zpow_le_zpow_right₀ one_le_two (by omega)
      _ ≤ 10 ^ e := zpow_le_zpow_left₀ (by omega) (by norm_num) (by norm_num)
      _ ≤ c * 10 ^ e := le_mul_of_one_le_left (by positivity) hc1
  exact absurd (hr.lt_top hc) hle.not_gt

/-- It is not so small, either, that the digits of the literal could not make up for it. -/
theorem le_exponent {c : ℕ} {e : ℤ} (hc : Canonical M Q) (hr : RoundsTo (c * 10 ^ e) M Q) :
    -(1076 + c.log2 : ℤ) < e := by
  by_contra hle
  have hlog : (c : ℚ) < 2 ^ (c.log2 + 1) := by exact_mod_cast Nat.lt_log2_self
  obtain ⟨k, rfl⟩ : ∃ k : ℕ, e = -k := ⟨(-e).toNat, by omega⟩
  have hten : (10 : ℚ) ^ (-k : ℤ) ≤ 2 ^ (-k : ℤ) := by
    rw [zpow_neg, zpow_neg, zpow_natCast, zpow_natCast]
    gcongr
    norm_num
  have hlt : c * (10 : ℚ) ^ (-k : ℤ) < 2 ^ (-1075 : ℤ) := by
    calc c * (10 : ℚ) ^ (-k : ℤ) < 2 ^ (c.log2 + 1) * 10 ^ (-k : ℤ) := by gcongr
      _ ≤ 2 ^ (c.log2 + 1) * 2 ^ (-k : ℤ) := by gcongr
      _ = 2 ^ ((c.log2 + 1 : ℕ) + -k : ℤ) := by rw [zpow_add₀ two_ne_zero, zpow_natCast]
      _ ≤ 2 ^ (-1075 : ℤ) := zpow_le_zpow_right₀ one_le_two (by omega)
  exact absurd (hr.bottom_le hc) hlt.not_ge

/-- Any other literal is computed with whole numbers. -/
theorem ofScientific_eq {c : ℕ} {e : ℤ} (hpos : 0 < c) (hc : Canonical M Q)
    (hr : RoundsTo (c * 10 ^ e) M Q) :
    UnpackedFloat.ofScientific .binary64 c e = .finite .positive M Q hc.pos := by
  have hbelow := exponent_le hpos hc hr
  have habove := le_exponent hc hr
  have hc1 : (1 : ℚ) ≤ c := by exact_mod_cast hpos
  unfold UnpackedFloat.ofScientific
  rw [dif_neg hpos.ne', if_neg (by show ¬ e > 2048; omega),
    if_neg (by show ¬ e < -(2048 + (c.log2 : ℤ)); omega)]
  split
  · obtain ⟨n, rfl⟩ : ∃ n : ℕ, e = n := ⟨e.toNat, by omega⟩
    have hfull : 2 ^ 52 ≤ c <<< 53 * 10 ^ n := by
      rw [Nat.shiftLeft_eq]
      calc 2 ^ 52 ≤ 1 * 2 ^ 53 * 1 := by norm_num
        _ ≤ c * 2 ^ 53 * 10 ^ n := by
          gcongr
          · exact hpos
          · exact Nat.one_le_pow _ _ (by decide)
    refine roundWithAccuracy_eq ?_ (le_targetExponent_of_full hfull) hc hr
    show _ = ((c <<< 53 * 10 ^ n : ℕ) : ℚ)
    rw [Nat.shiftLeft_eq]
    show _ / (2 : ℚ) ^ (-53 : ℤ) = _
    rw [zpow_natCast, zpow_neg, div_inv_eq_mul]
    push_cast
    ring
  · obtain ⟨n, rfl⟩ : ∃ n : ℕ, e = -n := ⟨(-e).toNat, by omega⟩
    obtain ⟨hlies, henough⟩ := @lies_divCore c (10 ^ n) 0 0 hpos (by positivity)
    have hvalue : (c : ℚ) * 2 ^ (0 : ℤ) / ((10 ^ n : ℕ) * 2 ^ (0 : ℤ)) = c * 10 ^ (-n : ℤ) := by
      rw [zpow_zero, mul_one, mul_one, zpow_neg, zpow_natCast, Nat.cast_pow, div_eq_mul_inv]
      rfl
    rw [hvalue] at hlies
    have htoNat : (- -(n : ℤ)).toNat = n := by omega
    have hdiv : UnpackedFloat.div .binary64 (.finite .positive c 0 hpos)
        (.finite .positive (10 ^ n) 0 (by positivity)) = .finite .positive M Q hc.pos :=
      roundWithAccuracy_eq hlies henough hc hr
    simp only [htoNat]
    exact hdiv

theorem stands_ofScientific {c n : ℕ} {negative : Bool} (hpos : 0 < c) (hc : Canonical M Q)
    (hr : RoundsTo (c * 10 ^ literalExponent negative n) M Q) :
    Stands (Float.ofScientific c negative n) .positive M Q := by
  unfold Float.ofScientific
  split
  · rename_i h
    exact stands_small hpos h.1 _ hc hr
  · have hexponent : (if negative = true then Int.negOfNat n else Int.ofNat n) =
        literalExponent negative n := by
      cases negative with
      | false => rfl
      | true => exact Int.negOfNat_eq
    dsimp only
    rw [hexponent]
    show Stands (.ofModel (pack (UnpackedFloat.ofScientific .binary64 c _))) _ _ _
    rw [ofScientific_eq hpos hc hr]
    exact stands_of_canonical hc

/-! ## Powers of two and of ten -/

/-- A power of ten is at most a power of two if it is for a ratio of the exponents that is no
smaller. -/
theorem ten_pow_le_two_pow {p d k l : ℕ} (hpd : 10 ^ p ≤ 2 ^ d) (hd : d ≠ 0) (h : d * k ≤ p * l) :
    10 ^ k ≤ 2 ^ l := by
  refine (Nat.pow_le_pow_iff_left hd).mp ?_
  calc (10 ^ k) ^ d = 10 ^ (d * k) := by rw [← pow_mul, mul_comm]
    _ ≤ 10 ^ (p * l) := Nat.pow_le_pow_right (by decide) h
    _ = (10 ^ p) ^ l := pow_mul _ _ _
    _ ≤ (2 ^ d) ^ l := Nat.pow_le_pow_left hpd l
    _ = (2 ^ l) ^ d := by rw [← pow_mul, ← pow_mul, mul_comm]

/-- A power of two is at most a power of ten if it is for a ratio of the exponents that is no
greater. -/
theorem two_pow_le_ten_pow {p d k l : ℕ} (hpd : 2 ^ d ≤ 10 ^ p) (hd : d ≠ 0) (h : p * l ≤ d * k) :
    2 ^ l ≤ 10 ^ k := by
  refine (Nat.pow_le_pow_iff_left hd).mp ?_
  calc (2 ^ l) ^ d = (2 ^ d) ^ l := by rw [← pow_mul, ← pow_mul, mul_comm]
    _ ≤ (10 ^ p) ^ l := Nat.pow_le_pow_left hpd l
    _ = 10 ^ (p * l) := (pow_mul _ _ _).symm
    _ ≤ 10 ^ (d * k) := Nat.pow_le_pow_right (by decide) h
    _ = (10 ^ k) ^ d := by rw [← pow_mul, mul_comm]

/-- The decimal logarithm of two to five places, rounded down. -/
theorem ten_pow_le_two_pow_100000 : 10 ^ 30102 ≤ 2 ^ 100000 := by decide +kernel

/-- The decimal logarithm of two to five places, rounded up. -/
theorem two_pow_100000_le_ten_pow : 2 ^ 100000 ≤ 10 ^ 30103 := by decide +kernel

theorem two_zpow_lt_ten_zpow : (2 : ℚ) ^ (1024 : ℤ) < 10 ^ (309 : ℤ) := by
  have hnat : 2 ^ 1024 < 10 ^ 309 := by decide +kernel
  exact_mod_cast hnat

theorem ten_zpow_lt_two_zpow : (10 : ℚ) ^ (-325 : ℤ) < 2 ^ (-1075 : ℤ) := by
  have hnat : 2 ^ 1075 < 10 ^ 325 := by decide +kernel
  have hcast : (2 : ℚ) ^ (1075 : ℤ) < 10 ^ (325 : ℤ) := by exact_mod_cast hnat
  rw [zpow_neg, zpow_neg]
  gcongr

/-! ## Decimals -/

namespace Decimal

/-- The number that a decimal stands for. -/
def value (d : Decimal) : ℚ := d.coefficient * 10 ^ d.exponent

theorem value_stripZeros (n : ℕ) (e : ℤ) : (stripZeros n e).value = n * 10 ^ e := by
  induction n using Nat.strongRecOn generalizing e with
  | ind n ih =>
    rw [stripZeros]
    split
    · rename_i h
      have hn : (n : ℚ) = (n / 10 : ℕ) * 10 := by
        exact_mod_cast (Nat.div_mul_cancel (Nat.dvd_of_mod_eq_zero h.2)).symm
      rw [ih (n / 10) (by omega), zpow_add₀ (by norm_num), zpow_one, hn]
      ring
    · rfl

theorem value_normalize (d : Decimal) : d.normalize.value = d.value :=
  value_stripZeros d.coefficient d.exponent

variable {d : Decimal}

theorem magnitudeBelow_le (hd : d.coefficient ≠ 0) : (10 : ℚ) ^ d.magnitudeBelow ≤ d.value := by
  have hpow : 10 ^ (d.coefficient.log2 * 30102 / 100000) ≤ d.coefficient :=
    (ten_pow_le_two_pow ten_pow_le_two_pow_100000 (by decide) (by omega)).trans
      (Nat.log2_self_le hd)
  have hcast : (10 : ℚ) ^ (d.coefficient.log2 * 30102 / 100000) ≤ d.coefficient := by
    exact_mod_cast hpow
  rw [magnitudeBelow, value, zpow_add₀ (by norm_num), zpow_natCast]
  gcongr

theorem lt_magnitudeAbove (d : Decimal) : d.value < (10 : ℚ) ^ d.magnitudeAbove := by
  have hpow : d.coefficient < 10 ^ ((d.coefficient.log2 + 1) * 30103 / 100000 + 1) :=
    Nat.lt_log2_self.trans_le
      (two_pow_le_ten_pow two_pow_100000_le_ten_pow (by decide) (by omega))
  have hcast : (d.coefficient : ℚ) < 10 ^ ((d.coefficient.log2 + 1) * 30103 / 100000 + 1) := by
    exact_mod_cast hpow
  rw [magnitudeAbove, value, zpow_add₀ (by norm_num), zpow_natCast]
  gcongr

/-- A decimal becomes the float that it rounds to. -/
theorem stands_toFloat (hc : Canonical M Q) (hr : RoundsTo d.value M Q) :
    Stands d.toFloat .positive M Q := by
  rw [← value_normalize] at hr
  unfold toFloat
  dsimp only
  generalize d.normalize = d at hr
  have hbottom := hr.bottom_le hc
  have htop := hr.lt_top hc
  have hcoefficient : d.coefficient ≠ 0 := by
    intro hzero
    have hpos : (0 : ℚ) < 2 ^ (-1075 : ℤ) := by positivity
    rw [value, hzero, Nat.cast_zero, zero_mul] at hbottom
    linarith
  have hbelow : ¬ 309 ≤ d.magnitudeBelow := by
    intro hle
    have hpow : (10 : ℚ) ^ (309 : ℤ) ≤ d.value :=
      (zpow_le_zpow_right₀ (by norm_num) hle).trans (magnitudeBelow_le hcoefficient)
    exact absurd (hpow.trans_lt htop) two_zpow_lt_ten_zpow.not_gt
  have habove : ¬ d.magnitudeAbove ≤ -325 := by
    intro hle
    have hpow : d.value < (10 : ℚ) ^ (-325 : ℤ) :=
      (lt_magnitudeAbove d).trans_le (zpow_le_zpow_right₀ (by norm_num) hle)
    exact absurd (hbottom.trans_lt hpow) ten_zpow_lt_two_zpow.not_gt
  rw [if_neg hcoefficient, if_neg hbelow, if_neg habove]
  split
  · refine stands_ofScientific (Nat.pos_of_ne_zero hcoefficient) hc ?_
    have hexponent : literalExponent true d.exponent.natAbs = d.exponent := by
      show -(d.exponent.natAbs : ℤ) = d.exponent
      omega
    rw [hexponent]
    exact hr
  · refine stands_ofScientific (Nat.pos_of_ne_zero hcoefficient) hc ?_
    have hexponent : literalExponent false d.exponent.toNat = d.exponent := by
      show (d.exponent.toNat : ℤ) = d.exponent
      omega
    rw [hexponent]
    exact hr

end Decimal

end UnitCalc
