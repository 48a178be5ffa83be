import UnitCalc.Dimension

/-!
# Proofs: zeros

A float has two zeros, and `==` does not tell them apart. Sums and differences of zeros are zeros,
and so is a zero times any finite number, whatever the signs are. Hence plain numbers stay plain
numbers when they are multiplied, divided and raised.
-/

namespace UnitCalc

open Float.Model

/-- A number is equal to zero when it is one of the two zeros. -/
theorem beq_zero_iff {x : Float} : (x == 0.0) = true ↔ ∃ s, x.toModel.unpack = .zero s := by
  have hzero : (0.0 : Float).toModel.unpack = .zero .positive := by rfl
  show x.toModel.unpack.beq (0.0 : Float).toModel.unpack = true ↔ _
  rw [hzero]
  generalize x.toModel.unpack = u
  constructor
  · intro h
    cases u with
    | notANumber => cases h
    | infinity s => cases s <;> cases h
    | zero s => exact ⟨s, rfl⟩
    | finite s m e hm => cases s <;> cases h
  · rintro ⟨s, rfl⟩
    rfl

/-- Packing a zero loses neither its being a zero nor its sign. -/
theorem unpack_pack_zero (s : UnpackedFloat.Sign) : (pack (.zero s)).unpack = .zero s := by
  cases s <;> rfl

/-! What the operations make of two floats, as the model has them. -/

theorem unpack_add (x y : Float) : (x + y).toModel.unpack =
    (pack (UnpackedFloat.add .binary64 x.toModel.unpack y.toModel.unpack)).unpack := rfl

theorem unpack_sub (x y : Float) : (x - y).toModel.unpack =
    (pack (UnpackedFloat.sub .binary64 x.toModel.unpack y.toModel.unpack)).unpack := rfl

theorem unpack_mul (x y : Float) : (x * y).toModel.unpack =
    (pack (UnpackedFloat.mul .binary64 x.toModel.unpack y.toModel.unpack)).unpack := rfl

theorem unpack_div (x y : Float) : (x / y).toModel.unpack =
    (pack (UnpackedFloat.div .binary64 x.toModel.unpack y.toModel.unpack)).unpack := rfl

variable {x y : Float}

theorem add_beq_zero (hx : (x == 0.0) = true) (hy : (y == 0.0) = true) : (x + y == 0.0) = true := by
  obtain ⟨s, hs⟩ := beq_zero_iff.mp hx
  obtain ⟨t, ht⟩ := beq_zero_iff.mp hy
  have hsum : ∃ r, UnpackedFloat.add .binary64 (.zero s) (.zero t) = .zero r := by
    cases s <;> cases t <;> exact ⟨_, rfl⟩
  obtain ⟨r, hr⟩ := hsum
  rw [beq_zero_iff, unpack_add, hs, ht, hr]
  exact ⟨r, unpack_pack_zero r⟩

theorem sub_beq_zero (hx : (x == 0.0) = true) (hy : (y == 0.0) = true) : (x - y == 0.0) = true := by
  obtain ⟨s, hs⟩ := beq_zero_iff.mp hx
  obtain ⟨t, ht⟩ := beq_zero_iff.mp hy
  have hdifference : ∃ r, UnpackedFloat.sub .binary64 (.zero s) (.zero t) = .zero r := by
    cases s <;> cases t <;> exact ⟨_, rfl⟩
  obtain ⟨r, hr⟩ := hdifference
  rw [beq_zero_iff, unpack_sub, hs, ht, hr]
  exact ⟨r, unpack_pack_zero r⟩

/-- A zero times a number that is not finite is not a number, so the second factor has to be
finite. -/
theorem mul_beq_zero (hx : (x == 0.0) = true) (hy : y.isFinite = true) : (x * y == 0.0) = true := by
  obtain ⟨s, hs⟩ := beq_zero_iff.mp hx
  change y.toModel.unpack.isFinite = true at hy
  rw [beq_zero_iff, unpack_mul, hs]
  cases hu : y.toModel.unpack with
  | notANumber =>
    rw [hu] at hy
    cases hy
  | infinity t =>
    rw [hu] at hy
    cases hy
  | zero t => exact ⟨s * t, unpack_pack_zero (s * t)⟩
  | finite t m e hm => exact ⟨s * t, unpack_pack_zero (s * t)⟩

theorem isFinite_of_beq_zero (h : (x == 0.0) = true) : x.isFinite = true := by
  obtain ⟨s, hs⟩ := beq_zero_iff.mp h
  show x.toModel.unpack.isFinite = true
  rw [hs]
  rfl

/-! ## Dimensions without base units -/

namespace Dimension

variable {a b : Dimension}

theorem isDimensionless_iff : a.isDimensionless = true ↔ ∀ u, (a.exponent u == 0.0) = true := by
  simp only [isDimensionless, List.all_eq_true]
  constructor
  · exact fun h u => h u (BaseUnit.mem_all u)
  · exact fun h u _ => h u

theorem isDimensionless_dimensionless : dimensionless.isDimensionless = true := by decide

theorem isDimensionless_multiply (ha : a.isDimensionless = true) (hb : b.isDimensionless = true) :
    (a.multiply b).isDimensionless = true := by
  rw [isDimensionless_iff] at ha hb ⊢
  intro u
  rw [multiply, exponent_ofFn]
  exact add_beq_zero (ha u) (hb u)

theorem isDimensionless_divide (ha : a.isDimensionless = true) (hb : b.isDimensionless = true) :
    (a.divide b).isDimensionless = true := by
  rw [isDimensionless_iff] at ha hb ⊢
  intro u
  rw [divide, exponent_ofFn]
  exact sub_beq_zero (ha u) (hb u)

theorem isDimensionless_power {e : Float} (ha : a.isDimensionless = true) (he : e.isFinite = true) :
    (a.power e).isDimensionless = true := by
  rw [isDimensionless_iff] at ha ⊢
  intro u
  rw [power, exponent_ofFn]
  exact mul_beq_zero (ha u) he

end Dimension

end UnitCalc
