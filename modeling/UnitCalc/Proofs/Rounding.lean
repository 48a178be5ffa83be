import Mathlib.Algebra.Order.Field.Power
import Mathlib.Data.Rat.Cast.Order
import Mathlib.Tactic.FieldSimp
import Mathlib.Tactic.Linarith
import Mathlib.Tactic.Ring

/-!
# Proofs: rounding to the nearest float

The float operations cut a number off behind some binary digit and keep two bits about what was cut
off; from these the mantissa is rounded. Here the rounded float is told from the number itself: it
is the one whose rounding interval the number lies in.
-/

namespace UnitCalc.Rounding

open Float.Model Float.Model.UnpackedFloat

variable {x y : ℚ} {m k : ℕ} {e : ℤ} {a : Accuracy} {em : ExtendedMantissa}

/-! ## What is known of a number that was cut off -/

/-- Where `y` lies between the natural number `m` and the next one. -/
def Lies (y : ℚ) (m : ℕ) : Accuracy → Prop
  | .exact => y = m
  | .inexact .lt => m < y ∧ y < m + 1 / 2
  | .inexact .eq => y = m + 1 / 2
  | .inexact .gt => m + 1 / 2 < y ∧ y < m + 1

/-- What a mantissa and its two further bits know of `y` is right. -/
def Keeps (em : ExtendedMantissa) (y : ℚ) : Prop := Lies y em.mantissa em.accuracy

theorem Lies.le (h : Lies y m a) : m ≤ y := by
  rcases a with _ | o
  · exact h.ge
  · cases o with
    | lt => exact h.1.le
    | eq =>
      have heq : y = m + 1 / 2 := h
      linarith
    | gt =>
      have hlt : (m : ℚ) + 1 / 2 < y := h.1
      linarith

theorem Lies.lt (h : Lies y m a) : y < m + 1 := by
  rcases a with _ | o
  · have heq : y = m := h
    linarith
  · cases o with
    | lt =>
      have hlt : y < m + 1 / 2 := h.2
      linarith
    | eq =>
      have heq : y = m + 1 / 2 := h
      linarith
    | gt => exact h.2

theorem Lies.keeps (h : Lies y m a) : Keeps (.ofMantissaAndAccuracy m a) y := by
  rcases a with _ | o
  · exact h
  · cases o <;> exact h

/-- Taking off the last digit keeps what is known of half the number. -/
theorem Keeps.shiftRightOne (h : Keeps em y) : Keeps em.shiftRightOne (y / 2) := by
  obtain ⟨m, roundBit, stickyBit⟩ := em
  obtain ⟨k, rfl | rfl⟩ := Nat.even_or_odd' m
  · have hround : (2 * k % 2 != 0) = false := by simp
    have hhalf : 2 * k / 2 = k := by omega
    cases roundBit <;> cases stickyBit <;>
      simp only [Keeps, Lies, ExtendedMantissa.accuracy, ExtendedMantissa.shiftRightOne, hround,
        hhalf, Nat.cast_mul, Nat.cast_ofNat, Bool.or_false, Bool.or_true] at h ⊢
    · linarith
    · constructor <;> linarith
    · constructor <;> linarith
    · constructor <;> linarith
  · have hround : ((2 * k + 1) % 2 != 0) = true := by simp
    have hhalf : (2 * k + 1) / 2 = k := by omega
    cases roundBit <;> cases stickyBit <;>
      simp only [Keeps, Lies, ExtendedMantissa.accuracy, ExtendedMantissa.shiftRightOne, hround,
        hhalf, Nat.cast_mul, Nat.cast_ofNat, Nat.cast_add, Nat.cast_one, Bool.or_false, Bool.or_true]
        at h ⊢
    · linarith
    · constructor <;> linarith
    · constructor <;> linarith
    · constructor <;> linarith

theorem Keeps.shiftRight (h : Keeps em y) (k : ℕ) : Keeps (em >>> k) (y / 2 ^ k) := by
  induction k with
  | zero =>
    rw [pow_zero, div_one]
    exact h
  | succ k ih =>
    rw [pow_succ, ← div_div]
    exact ih.shiftRightOne

/-! ## The nearest natural number -/

/-- The natural number nearest to `y` is `m`; of two that are equally near it is the even one. -/
structure Nearest (y : ℚ) (m : ℕ) : Prop where
  /-- It is at most a half too great. -/
  below : m ≤ y + 1 / 2
  /-- It is at most a half too small. -/
  above : y ≤ m + 1 / 2
  /-- An odd one is not as far away as another. -/
  odd : m % 2 = 1 → m < y + 1 / 2 ∧ y < m + 1 / 2

theorem Nearest.eq_or_eq_succ {n : ℕ} (hm : Nearest y m) (hle : n ≤ y) (hlt : y < n + 1) :
    m = n ∨ m = n + 1 := by
  obtain ⟨hbelow, habove, -⟩ := hm
  have hge : 2 * n ≤ 2 * m + 1 := by
    have hcast : 2 * (n : ℚ) ≤ 2 * m + 1 := by linarith
    exact_mod_cast hcast
  have hle : 2 * m < 2 * n + 3 := by
    have hcast : 2 * (m : ℚ) < 2 * n + 3 := by linarith
    exact_mod_cast hcast
  omega

/-- Rounding finds the nearest natural number. -/
theorem Keeps.roundedMantissa (h : Keeps em y) (hm : Nearest y m) : em.roundedMantissa = m := by
  have hcases := hm.eq_or_eq_succ (Lies.le h) (Lies.lt h)
  obtain ⟨n, roundBit, stickyBit⟩ := em
  obtain ⟨hbelow, habove, hodd⟩ := hm
  simp only at hcases
  cases roundBit <;> cases stickyBit <;>
    simp only [Keeps, Lies, ExtendedMantissa.accuracy, ExtendedMantissa.roundedMantissa,
      Accuracy.roundToNearestEven] at h ⊢
  · obtain rfl | rfl := hcases
    · rfl
    · push_cast at hbelow
      linarith
  · obtain rfl | rfl := hcases
    · rfl
    · push_cast at hbelow
      linarith
  · -- the tie goes to the even one, and an odd one is not nearest
    obtain rfl | rfl := hcases
    · have heven : m % 2 = 0 := by
        by_contra hne
        have hlt := (hodd (by omega)).2
        linarith
      omega
    · have heven : (n + 1) % 2 = 0 := by
        by_contra hne
        have hlt := (hodd (by omega)).1
        push_cast at hlt
        linarith
      omega
  · obtain rfl | rfl := hcases
    · linarith
    · rfl

/-! ## The nearest float -/

/-- The mantissa and the exponent of a positive float, as they are kept. -/
structure Canonical (m : ℕ) (q : ℤ) : Prop where
  /-- The number is positive. -/
  pos : 0 < m
  /-- The mantissa has 53 binary digits at most. -/
  lt : m < 2 ^ 53
  /-- It has fewer only where the exponent is the least. -/
  full : 2 ^ 52 ≤ m ∨ q = -1074
  /-- The exponent is not too small. -/
  least : -1074 ≤ q
  /-- The exponent is not too great. -/
  greatest : q ≤ 971

/-- Half the distance to the float below, in units of the last binary digit. -/
def marginBelow (m : ℕ) (q : ℤ) : ℚ := if m = 2 ^ 52 ∧ q ≠ -1074 then 1 / 4 else 1 / 2

/-- The number `x` lies in the rounding interval of a float: it is not farther away than half the
distance to the next one on its side, and nearer where the mantissa is odd. -/
structure RoundsTo (x : ℚ) (m : ℕ) (q : ℤ) : Prop where
  /-- It is not too small. -/
  below : (m - marginBelow m q) * 2 ^ q ≤ x
  /-- It is not too great. -/
  above : x ≤ (m + 1 / 2) * 2 ^ q
  /-- The ends belong to an even mantissa. -/
  odd : m % 2 = 1 → (m - marginBelow m q) * 2 ^ q < x ∧ x < (m + 1 / 2) * 2 ^ q

theorem targetExponent_eq (m : ℕ) (e : ℤ) :
    Format.binary64.targetExponent (totalExponent m e) = max (m.log2 + e - 52) (-1074) := by
  have hbits : Format.binary64.mantissaBits = 53 := rfl
  simp only [Format.targetExponent, totalExponent, hbits, Format.minExponent]
  omega

/-! ## The digits of a number and its exponent -/

theorem Lies.lt_zpow (h : Lies (x / 2 ^ e) m a) : x < 2 ^ ((m.log2 : ℤ) + 1 + e) := by
  have hpos : (0 : ℚ) < 2 ^ e := by positivity
  have hm : (m : ℚ) + 1 ≤ 2 ^ (m.log2 + 1) := by exact_mod_cast Nat.lt_log2_self
  calc x < (m + 1) * 2 ^ e := (div_lt_iff₀ hpos).mp h.lt
    _ ≤ 2 ^ (m.log2 + 1) * 2 ^ e := by gcongr
    _ = 2 ^ ((m.log2 : ℤ) + 1 + e) := by
      rw [zpow_add₀ two_ne_zero, ← Nat.cast_succ, zpow_natCast]

theorem Lies.zpow_le (h : Lies (x / 2 ^ e) m a) (hm : m ≠ 0) : 2 ^ ((m.log2 : ℤ) + e) ≤ x := by
  have hpos : (0 : ℚ) < 2 ^ e := by positivity
  have hm : (2 : ℚ) ^ m.log2 ≤ m := by exact_mod_cast Nat.log2_self_le hm
  calc (2 : ℚ) ^ ((m.log2 : ℤ) + e) = 2 ^ m.log2 * 2 ^ e := by
        rw [zpow_add₀ two_ne_zero, zpow_natCast]
    _ ≤ m * 2 ^ e := by gcongr
    _ ≤ x := (le_div_iff₀ hpos).mp h.le

variable {M : ℕ} {q t : ℤ}

theorem marginBelow_pos (M : ℕ) (q : ℤ) : 0 < marginBelow M q := by
  unfold marginBelow
  split <;> norm_num

theorem marginBelow_le (M : ℕ) (q : ℤ) : marginBelow M q ≤ 1 / 2 := by
  unfold marginBelow
  split <;> norm_num

theorem roundsTo_self (M : ℕ) (Q : ℤ) : RoundsTo (M * 2 ^ Q) M Q := by
  have hpos : (0 : ℚ) < 2 ^ Q := by positivity
  have hmargin := marginBelow_pos M Q
  have hbelow : (M - marginBelow M Q) * 2 ^ Q < M * 2 ^ Q :=
    mul_lt_mul_of_pos_right (by linarith) hpos
  have habove : M * 2 ^ Q < ((M : ℚ) + 1 / 2) * 2 ^ Q :=
    mul_lt_mul_of_pos_right (by linarith) hpos
  exact ⟨hbelow.le, habove.le, fun _ => ⟨hbelow, habove⟩⟩

theorem RoundsTo.lt_zpow (hr : RoundsTo x M q) (hc : Canonical M q) : x < 2 ^ (53 + q) := by
  have hM : (M : ℚ) + 1 ≤ 2 ^ (53 : ℕ) := by exact_mod_cast hc.lt
  have hpos : (0 : ℚ) < 2 ^ q := by positivity
  calc x ≤ (M + 1 / 2) * 2 ^ q := hr.above
    _ < 2 ^ (53 : ℕ) * 2 ^ q := by
      refine mul_lt_mul_of_pos_right ?_ hpos
      linarith
    _ = 2 ^ (53 + q) := by rw [zpow_add₀ two_ne_zero]; rfl

theorem RoundsTo.zpow_le (hr : RoundsTo x M q) (hM : 2 ^ 52 ≤ M) : 2 ^ (51 + q) ≤ x := by
  have hM : (2 : ℚ) ^ (52 : ℕ) ≤ M := by exact_mod_cast hM
  have hmargin := marginBelow_le M q
  have hpos : (0 : ℚ) < 2 ^ q := by positivity
  calc (2 : ℚ) ^ (51 + q) = 2 ^ (51 : ℕ) * 2 ^ q := by rw [zpow_add₀ two_ne_zero]; rfl
    _ ≤ (M - marginBelow M q) * 2 ^ q := by
      refine mul_le_mul_of_nonneg_right ?_ hpos.le
      have hhalf : (2 : ℚ) ^ (52 : ℕ) = 2 * 2 ^ (51 : ℕ) := by norm_num
      have hone : (1 : ℚ) ≤ 2 ^ (51 : ℕ) := by norm_num
      linarith
    _ ≤ x := hr.below

theorem RoundsTo.nearest (hr : RoundsTo x M q) : Nearest (x / 2 ^ q) M := by
  have hpos : (0 : ℚ) < 2 ^ q := by positivity
  have hmargin := marginBelow_le M q
  have hbelow := (le_div_iff₀ hpos).mpr hr.below
  have habove := (div_le_iff₀ hpos).mpr hr.above
  refine ⟨by linarith, habove, fun hodd => ?_⟩
  have hbelow := (lt_div_iff₀ hpos).mpr (hr.odd hodd).1
  have habove := (div_lt_iff₀ hpos).mpr (hr.odd hodd).2
  exact ⟨by linarith, habove⟩

/-- Below a power of two the digits of a number lie one place lower, and the mantissa to which it is
rounded there is twice as great. -/
theorem RoundsTo.nearest_of_lt (hr : RoundsTo x (2 ^ 52) q) (hq : q ≠ -1074)
    (hlt : x < 2 ^ (52 + q)) : Nearest (x / 2 ^ (q - 1)) (2 ^ 53) := by
  have hpos : (0 : ℚ) < 2 ^ q := by positivity
  have hhalf : x / 2 ^ (q - 1) = 2 * (x / 2 ^ q) := by
    rw [zpow_sub_one₀ two_ne_zero]
    field_simp
  have hbelow := (le_div_iff₀ hpos).mpr hr.below
  rw [marginBelow, if_pos ⟨rfl, hq⟩] at hbelow
  rw [zpow_add₀ two_ne_zero] at hlt
  have hlt := (div_lt_iff₀ hpos).mpr hlt
  have hcast : ((2 ^ 52 : ℕ) : ℚ) = 2 ^ (52 : ℤ) := by norm_num
  have hcast' : ((2 ^ 53 : ℕ) : ℚ) = 2 * 2 ^ (52 : ℤ) := by norm_num
  rw [hcast] at hbelow
  refine ⟨?_, ?_, fun hodd => absurd hodd (by decide)⟩
  · rw [hhalf, hcast']
    linarith
  · rw [hhalf, hcast']
    linarith

theorem lt_of_zpow_lt {i j : ℤ} (h : (2 : ℚ) ^ i < 2 ^ j) : i < j :=
  (zpow_lt_zpow_iff_right₀ one_lt_two).mp h

/-- A number below the power of two with 53 digits rounds to a greater mantissa only from just below
the least one that is full. -/
theorem RoundsTo.eq_two_pow (hr : RoundsTo x M q) (hM : 2 ^ 52 ≤ M) (hlt : x < 2 ^ (52 + q)) :
    M = 2 ^ 52 := by
  by_contra hne
  have hM : (2 : ℚ) ^ (52 : ℕ) + 1 ≤ M := by exact_mod_cast Nat.lt_of_le_of_ne hM (Ne.symm hne)
  have hmargin := marginBelow_le M q
  have hpos : (0 : ℚ) < 2 ^ q := by positivity
  have hle : (2 : ℚ) ^ (52 + q) ≤ x := by
    calc (2 : ℚ) ^ (52 + q) = 2 ^ (52 : ℕ) * 2 ^ q := by rw [zpow_add₀ two_ne_zero]; rfl
      _ ≤ (M - marginBelow M q) * 2 ^ q := by
        refine mul_le_mul_of_nonneg_right ?_ hpos.le
        linarith
      _ ≤ x := hr.below
  exact absurd hlt hle.not_gt

/-- The last digit that is kept of a number is the one of the float that it rounds to, or for the
numbers just below a power of two the one behind. -/
theorem targetExponent_of_roundsTo (h : Lies (x / 2 ^ e) m a)
    (ht : t = max ((m.log2 : ℤ) + e - 52) (-1074)) (het : e ≤ t) (hc : Canonical M q)
    (hr : RoundsTo x M q) : t = q ∨ (t = q - 1 ∧ M = 2 ^ 52 ∧ q ≠ -1074 ∧ x < 2 ^ (52 + q)) := by
  have hlt : x < 2 ^ (t + 53) :=
    h.lt_zpow.trans_le (zpow_le_zpow_right₀ one_le_two (by omega))
  have hle : t ≤ q := by
    by_cases hleast : t = -1074
    · rw [hleast]
      exact hc.least
    · have hm : m ≠ 0 := by
        rintro rfl
        rw [Nat.log2_zero] at ht
        omega
      have hpow : (2 : ℚ) ^ (t + 52) ≤ x :=
        (zpow_le_zpow_right₀ one_le_two (by omega)).trans (h.zpow_le hm)
      have hexp := lt_of_zpow_lt (hpow.trans_lt (hr.lt_zpow hc))
      omega
  rcases hc.full with hM | hq
  · have hexp := lt_of_zpow_lt ((hr.zpow_le hM).trans_lt hlt)
    by_cases htq : t = q
    · exact .inl htq
    · have hpred : t = q - 1 := by omega
      have hlt : x < 2 ^ (52 + q) := by
        rw [hpred] at hlt
        convert hlt using 2
        ring
      exact .inr ⟨hpred, hr.eq_two_pow hM hlt, by omega, hlt⟩
  · exact .inl (by omega)

/-! ## What the model's rounding gives -/

theorem log2_of_full (hlo : 2 ^ 52 ≤ m) (hhi : m < 2 ^ 53) : m.log2 = 52 :=
  (Nat.log2_eq_iff (by omega)).mpr ⟨hlo, hhi⟩

theorem Canonical.targetExponent (hc : Canonical M q) :
    Format.binary64.targetExponent (totalExponent M q) = q := by
  rw [targetExponent_eq]
  have hleast := hc.least
  rcases hc.full with hM | hq
  · rw [log2_of_full hM hc.lt]
    omega
  · have hlog : M.log2 < 53 := (Nat.log2_lt hc.pos.ne').mpr hc.lt
    omega

/-- Nothing is cut off where no exponent is too small. -/
theorem shiftToTargetExponent_of_eq
    (h : Format.binary64.targetExponent (totalExponent m e) = e) :
    shiftToTargetExponent .binary64 m e .exact = (⟨m, false, false⟩, e) := by
  unfold shiftToTargetExponent shiftToExponent
  dsimp only
  rw [h, Int.sub_self]
  exact congrArg (Prod.mk _) (Int.add_zero e)

/-- A mantissa that rounding made too long gives up its last digit, which is zero. -/
theorem shiftToTargetExponent_two_pow (hq : -1074 ≤ q - 1) :
    shiftToTargetExponent .binary64 (2 ^ 53) (q - 1) .exact = (⟨2 ^ 52, false, false⟩, q) := by
  have htarget : Format.binary64.targetExponent (totalExponent (2 ^ 53) (q - 1)) = q := by
    rw [targetExponent_eq, Nat.log2_two_pow]
    omega
  have hshift : (q - (q - 1)).toNat = 1 := by omega
  unfold shiftToTargetExponent shiftToExponent
  dsimp only
  rw [htarget, hshift]
  exact congrArg (Prod.mk _) (by omega)

/-- The float that a number rounds to is the one in whose rounding interval it lies, whatever digits
the number was given with, if there are enough of them. -/
theorem roundWithAccuracy_eq {s : Sign} (h : Lies (x / 2 ^ e) m a)
    (henough : e ≤ Format.binary64.targetExponent (totalExponent m e)) (hc : Canonical M q)
    (hr : RoundsTo x M q) : roundWithAccuracy .binary64 s m e a = .finite s M q hc.pos := by
  have ht := targetExponent_eq m e
  generalize htarget : Format.binary64.targetExponent (totalExponent m e) = t at henough ht
  obtain ⟨k, rfl⟩ : ∃ k : ℕ, t = e + k := ⟨(t - e).toNat, by omega⟩
  have hfirst : shiftToTargetExponent .binary64 m e a =
      (ExtendedMantissa.ofMantissaAndAccuracy m a >>> k, e + k) := by
    unfold shiftToTargetExponent shiftToExponent
    dsimp only
    rw [htarget, add_sub_cancel_left, Int.toNat_natCast]
  have hkeeps : Keeps (ExtendedMantissa.ofMantissaAndAccuracy m a >>> k) (x / 2 ^ (e + k)) := by
    rw [zpow_add₀ two_ne_zero, zpow_natCast, ← div_div]
    exact h.keeps.shiftRight k
  unfold roundWithAccuracy
  rw [hfirst]
  dsimp only
  rcases targetExponent_of_roundsTo h ht henough hc hr with heq | ⟨heq, rfl, hq, hlt⟩
  · rw [heq] at hkeeps ⊢
    rw [hkeeps.roundedMantissa hr.nearest, shiftToTargetExponent_of_eq hc.targetExponent]
    exact dif_neg hc.pos.ne'
  · rw [heq] at hkeeps ⊢
    rw [hkeeps.roundedMantissa (hr.nearest_of_lt hq hlt), shiftToTargetExponent_two_pow (by omega)]
    rfl

end UnitCalc.Rounding
