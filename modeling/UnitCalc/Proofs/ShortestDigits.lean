import UnitCalc.Decimal.Shortest
import UnitCalc.Proofs.NearestLiterals

/-!
# Proofs: shortest digits

The decimal that is written for a float lies in the float's rounding interval: the search asks this
of each point that it looks at, and the last of its grids is fine enough to have one.
-/

namespace UnitCalc

open Rounding

variable {v : Binary} {e : ℤ} {c : ℕ} {tie : Tie} {d : Decimal}

/-- The magnitude of a float that is not zero, with the right mark about the float below. -/
structure Binary.Proper (v : Binary) : Prop where
  /-- The parts are those of a float. -/
  canonical : Canonical v.mantissa v.exponent
  /-- The float below is nearer than the one above. -/
  narrow : v.narrowBelow = true ↔ v.mantissa = 2 ^ 52 ∧ v.exponent ≠ -1074

namespace Grid

/-- Both factors of a grid are those of the units and the steps, times one common factor. -/
theorem exists_scale (q e : ℤ) : ∃ k : ℚ, 0 < k ∧ ((of q e).unit : ℚ) = 2 ^ (q - 2) * k ∧
    ((of q e).step : ℚ) = 10 ^ e * k := by
  have hunit : (of q e).unit = 2 ^ (q - 2).toNat * 10 ^ (-e).toNat := rfl
  have hstep : (of q e).step = 2 ^ (2 - q).toNat * 10 ^ e.toNat := rfl
  refine ⟨2 ^ (2 - q).toNat * 10 ^ (-e).toNat, by positivity, ?_, ?_⟩
  · have hq : (2 : ℚ) ^ (q - 2) * 2 ^ (2 - q).toNat = 2 ^ (q - 2).toNat := by
      rw [← zpow_natCast, ← zpow_natCast, ← zpow_add₀ two_ne_zero]
      congr 1
      omega
    rw [hunit, ← mul_assoc, hq]
    push_cast
    rfl
  · have he : (10 : ℚ) ^ e * 10 ^ (-e).toNat = 10 ^ e.toNat := by
      rw [← zpow_natCast, ← zpow_natCast, ← zpow_add₀ (by norm_num)]
      congr 1
      omega
    rw [hstep, mul_left_comm, he]
    push_cast
    rfl

variable {q : ℤ} {n : ℕ}

/-! Points of a grid are compared with units as the numbers that they stand for. -/

theorem units_le_iff : n * (of q e).unit ≤ c * (of q e).step ↔
    (n : ℚ) / 4 * 2 ^ q ≤ c * 10 ^ e := by
  obtain ⟨k, hk, hunit, hstep⟩ := exists_scale q e
  have hscale : (n : ℚ) * (of q e).unit = n / 4 * 2 ^ q * k := by
    rw [hunit, zpow_sub₀ two_ne_zero]
    ring
  rw [← @Nat.cast_le ℚ, Nat.cast_mul, Nat.cast_mul, hscale, hstep, ← mul_assoc]
  exact mul_le_mul_iff_left₀ hk

theorem le_units_iff : c * (of q e).step ≤ n * (of q e).unit ↔
    (c : ℚ) * 10 ^ e ≤ n / 4 * 2 ^ q := by
  obtain ⟨k, hk, hunit, hstep⟩ := exists_scale q e
  have hscale : (n : ℚ) * (of q e).unit = n / 4 * 2 ^ q * k := by
    rw [hunit, zpow_sub₀ two_ne_zero]
    ring
  rw [← @Nat.cast_le ℚ, Nat.cast_mul, Nat.cast_mul, hscale, hstep, ← mul_assoc]
  exact mul_le_mul_iff_left₀ hk

/-- The check of a point is whether it lies in the rounding interval. -/
theorem roundsTo_iff (hv : v.Proper) : (of v.exponent e).roundsTo v c = true ↔
    RoundsTo (c * 10 ^ e) v.mantissa v.exponent := by
  have hpos := hv.canonical.pos
  have hlow : ((4 * v.mantissa - if v.narrowBelow then 1 else 2 : ℕ) : ℚ) / 4 =
      v.mantissa - marginBelow v.mantissa v.exponent := by
    unfold marginBelow
    by_cases hnarrow : v.narrowBelow = true
    · rw [if_pos hnarrow, if_pos (hv.narrow.mp hnarrow), Nat.cast_sub (by omega)]
      push_cast
      ring
    · rw [if_neg hnarrow, if_neg (hv.narrow.not.mp hnarrow), Nat.cast_sub (by omega)]
      push_cast
      ring
  have hhigh : ((4 * v.mantissa + 2 : ℕ) : ℚ) / 4 = v.mantissa + 1 / 2 := by
    push_cast
    ring
  unfold roundsTo
  dsimp only
  split
  · rename_i heven
    rw [Bool.and_eq_true, decide_eq_true_eq, decide_eq_true_eq, units_le_iff, le_units_iff, hlow,
      hhigh]
    exact ⟨fun h => ⟨h.1, h.2, fun hodd => by omega⟩, fun h => ⟨h.below, h.above⟩⟩
  · rename_i hodd
    rw [Bool.and_eq_true, decide_eq_true_eq, decide_eq_true_eq, ← not_le, ← not_le, units_le_iff,
      le_units_iff, hlow, hhigh, not_le, not_le]
    exact ⟨fun h => ⟨h.1.le, h.2.le, fun _ => h⟩, fun h => h.odd (by omega)⟩

theorem nearer_eq_or (g : Grid) (tie : Tie) (v : Binary) (c : ℕ) :
    g.nearer tie v c = c ∨ g.nearer tie v c = c + 1 := by
  unfold nearer
  split
  · exact .inl rfl
  · exact .inr rfl
  · split
    · exact .inr rfl
    · split
      · exact .inl rfl
      · exact .inr rfl

/-- A point that is found rounds to the float. -/
theorem roundsTo_of_point? (hv : v.Proper) (h : (of v.exponent e).point? tie v = some d) :
    RoundsTo d.value v.mantissa v.exponent := by
  unfold point? at h
  dsimp only at h
  generalize 4 * v.mantissa * (of v.exponent e).unit / (of v.exponent e).step = c at h
  split at h
  · rename_i hlow hhigh
    cases h
    obtain heq | heq := nearer_eq_or (of v.exponent e) tie v c
    · rw [heq]
      exact (roundsTo_iff hv).mp hlow
    · rw [heq]
      exact (roundsTo_iff hv).mp hhigh
  · rename_i hlow _
    cases h
    exact (roundsTo_iff hv).mp hlow
  · rename_i _ hhigh
    cases h
    exact (roundsTo_iff hv).mp hhigh
  · cases h

/-- A fine grid has a point that rounds to the float: the first one above it. -/
theorem point?_ne_none (hv : v.Proper) (hfine : (10 : ℚ) ^ e < 2 ^ (v.exponent - 1)) :
    (of v.exponent e).point? tie v ≠ none := by
  obtain ⟨k, hk, -, hstep⟩ := exists_scale v.exponent e
  have hstep_pos : 0 < (of v.exponent e).step := by
    have hcast : (0 : ℚ) < (of v.exponent e).step := by
      rw [hstep]
      positivity
    exact_mod_cast hcast
  have hmargin := marginBelow_pos v.mantissa v.exponent
  have hpos : (0 : ℚ) < 2 ^ v.exponent := by positivity
  rw [zpow_sub_one₀ two_ne_zero] at hfine
  unfold point?
  dsimp only
  generalize hc : 4 * v.mantissa * (of v.exponent e).unit / (of v.exponent e).step = c
  -- the float lies between the points `c` and `c + 1`
  have hbelow : (c : ℚ) * 10 ^ e ≤ v.mantissa * 2 ^ v.exponent := by
    have hle := le_units_iff.mp (hc ▸ Nat.div_mul_le_self _ _)
    push_cast at hle
    linarith
  have habove : (v.mantissa : ℚ) * 2 ^ v.exponent < (c + 1 : ℕ) * 10 ^ e := by
    have hlt : ¬ (c + 1) * (of v.exponent e).step ≤ 4 * v.mantissa * (of v.exponent e).unit := by
      rw [not_le, ← hc, mul_comm (_ + 1)]
      exact Nat.lt_mul_div_succ _ hstep_pos
    rw [le_units_iff] at hlt
    push_cast at hlt ⊢
    linarith
  have hround : (of v.exponent e).roundsTo v (c + 1) = true := by
    have hlow : (v.mantissa - marginBelow v.mantissa v.exponent) * 2 ^ v.exponent <
        (c + 1 : ℕ) * 10 ^ e := by
      refine lt_trans ?_ habove
      exact mul_lt_mul_of_pos_right (by linarith) hpos
    have hhigh : ((c + 1 : ℕ) : ℚ) * 10 ^ e < (v.mantissa + 1 / 2) * 2 ^ v.exponent := by
      push_cast
      linarith
    exact (roundsTo_iff hv).mpr ⟨hlow.le, hhigh.le, fun _ => ⟨hlow, hhigh⟩⟩
  rw [hround]
  split <;> simp_all

end Grid

namespace Binary

/-- The decimal logarithm of two, rounded up, is not much too great. -/
theorem ten_pow_le_two_pow_100001 : 10 ^ 30103 ≤ 2 ^ 100001 := by decide +kernel

/-- The power of ten that is worked out from a number of binary digits is hardly greater than the
power of two with so many. -/
theorem ten_zpow_le_two_zpow {z : ℤ} (hz : z ≤ 1024) :
    (10 : ℚ) ^ (z * 30103 / 100000) ≤ 2 ^ (z + 1) := by
  rcases le_total 0 z with hsign | hsign
  · obtain ⟨l, rfl⟩ : ∃ l : ℕ, z = l := ⟨z.toNat, by omega⟩
    obtain ⟨k, hk⟩ : ∃ k : ℕ, (l : ℤ) * 30103 / 100000 = k :=
      ⟨((l : ℤ) * 30103 / 100000).toNat, by omega⟩
    have hpow : 10 ^ k ≤ 2 ^ (l + 1) :=
      ten_pow_le_two_pow ten_pow_le_two_pow_100001 (by decide) (by omega)
    rw [hk, zpow_natCast, ← Nat.cast_succ, zpow_natCast]
    exact_mod_cast hpow
  · obtain ⟨l, rfl⟩ : ∃ l : ℕ, z = -l := ⟨(-z).toNat, by omega⟩
    obtain ⟨k, hk⟩ : ∃ k : ℕ, -(l : ℤ) * 30103 / 100000 = -k :=
      ⟨(-(-(l : ℤ) * 30103 / 100000)).toNat, by omega⟩
    have hpow : 2 ^ l ≤ 10 ^ k :=
      two_pow_le_ten_pow two_pow_100000_le_ten_pow (by decide) (by omega)
    have hcast : (2 : ℚ) ^ l ≤ 10 ^ k := by exact_mod_cast hpow
    calc (10 : ℚ) ^ (-(l : ℤ) * 30103 / 100000) = ((10 : ℚ) ^ k)⁻¹ := by
          rw [hk, zpow_neg, zpow_natCast]
      _ ≤ ((2 : ℚ) ^ l)⁻¹ := by gcongr
      _ = 2 ^ (-l : ℤ) := by rw [zpow_neg, zpow_natCast]
      _ ≤ 2 ^ (-l + 1 : ℤ) := zpow_le_zpow_right₀ one_le_two (by omega)

/-- The last grid of the search is fine. -/
theorem last_grid_fine (hv : v.Proper) :
    (10 : ℚ) ^ (v.ceilingExponent - 19) < 2 ^ (v.exponent - 1) := by
  have hlog : v.mantissa.log2 < 53 := (Nat.log2_lt hv.canonical.pos.ne').mpr hv.canonical.lt
  have hgreatest := hv.canonical.greatest
  obtain ⟨z, hz⟩ : ∃ z : ℤ, (v.mantissa.log2 + 1 : ℕ) + v.exponent = z := ⟨_, rfl⟩
  have hceiling : v.ceilingExponent - 19 = z * 30103 / 100000 - 18 := by
    rw [ceilingExponent, hz]
    omega
  have hten : (2 : ℚ) ^ (55 : ℤ) < 10 ^ (18 : ℤ) := by norm_num
  calc (10 : ℚ) ^ (v.ceilingExponent - 19) = 10 ^ (z * 30103 / 100000) / 10 ^ (18 : ℤ) := by
        rw [hceiling, zpow_sub₀ (by norm_num)]
    _ ≤ 2 ^ (z + 1) / 10 ^ (18 : ℤ) := by
      gcongr
      exact ten_zpow_le_two_zpow (by omega)
    _ < 2 ^ (z + 1) / 2 ^ (55 : ℤ) := by gcongr
    _ = 2 ^ (z - 54) := by
      rw [← zpow_sub₀ two_ne_zero]
      congr 1
      ring
    _ ≤ 2 ^ (v.exponent - 1) := zpow_le_zpow_right₀ one_le_two (by omega)

theorem roundsTo_shortest (hv : v.Proper) (tie : Tie) :
    RoundsTo (v.shortest tie).value v.mantissa v.exponent := by
  unfold shortest
  rw [if_neg hv.canonical.pos.ne']
  dsimp only
  rw [Decimal.value_normalize]
  have hsome : ((List.range 20).findSome? fun (i : ℕ) =>
      (Grid.of v.exponent (v.ceilingExponent - i)).point? tie v).isSome = true := by
    rw [List.findSome?_isSome_iff]
    refine ⟨19, by simp, ?_⟩
    rw [Option.isSome_iff_ne_none]
    exact Grid.point?_ne_none hv (last_grid_fine hv)
  obtain ⟨d, hd⟩ := Option.isSome_iff_exists.mp hsome
  obtain ⟨i, -, hi⟩ := List.exists_of_findSome?_eq_some hd
  rw [hd]
  exact Grid.roundsTo_of_point? hv hi

end Binary

end UnitCalc
