import UnitCalc.Proofs.Composition
import UnitCalc.Proofs.FiniteResults
import UnitCalc.Proofs.FirstClaimant
import UnitCalc.Proofs.FloatArithmetic

/-!
# Proofs: powers with the exponent zero

Whatever can be converted can be raised to zero, and what comes out is the number one. The
coefficient becomes one in any case. The exponents of the base units are scaled by zero, which leaves
zeros only of finite ones; so this rests on everything being finite that a conversion gives.
-/

namespace UnitCalc

open Node

variable {limit : Nat} {units : Catalogue} {expression : String} {q : Quantity}

theorem raise_zero (x : Float) : raise x 0.0 = 1.0 := if_pos (by decide)

theorem mul_zero_beq_zero {x : Float} (h : x.isFinite = true) : (x * 0.0 == 0.0) = true := by
  rw [float_mul_comm]
  exact mul_beq_zero (by decide) h

/-- What a finite quantity to the power of zero has for its dimension. -/
theorem Quantity.Finite.exponent_power_zero (h : q.Finite) (u : BaseUnit) :
    ((q.dimension.power 0.0).exponent u == 0.0) = true := by
  rw [Dimension.power, Dimension.exponent_ofFn]
  exact mul_zero_beq_zero (h.exponent u)

theorem Quantity.Finite.power_zero (h : q.Finite) :
    q.power (.scalar 0.0) = .ok ⟨q.dimension.power 0.0, 1.0⟩ := by
  have hresult : (⟨q.dimension.power 0.0, raise q.coefficient 0.0⟩ : Quantity).Finite := by
    rw [raise_zero]
    exact ⟨isFinite_one, fun u => isFinite_of_beq_zero (h.exponent_power_zero u)⟩
  have hpower := Quantity.power_of_finite (b := .scalar 0.0)
    Dimension.isDimensionless_dimensionless hresult
  rw [hpower, ← raise_zero q.coefficient]
  rfl

theorem finite_of_convertUnder (hunits : units.Finite)
    (h : convertUnder limit units expression = .ok q) : q.Finite := by
  have hkeeps : (traceUnder limit units expression).Keeps Quantity.Finite []
      (convertUnder limit units expression) := keeps_traceUnder hunits.keptBySteps
  exact hkeeps.made q (hkeeps.result q h)

/-- An expression in brackets with the exponent zero behind it is the base of a power. -/
theorem convertUnder_around_zero (h : convertUnder limit units expression = .ok q) (b : Bracket) :
    convertUnder (limit + 2) units (b.around expression ++ "^0") = q.power (.scalar 0.0) := by
  obtain ⟨cs, gs, hne, hr, hg, hd, hv⟩ := convertUnder_eq_ok h
  have hzero : Reads "^0".toList [caret, token (.number "0")] :=
    reads_operator .power (.token rfl .nil)
  have hread : Reads (b.around expression ++ "^0").toList
      [group cs, caret, token (.number "0")] := by
    rw [String.toList_append]
    refine (reads_around b hr hne).append hzero fun c hc => ?_
    cases hc
    exact Token.goesOn_symbol .power
  have hgroup : Groups [group cs, caret, token (.number "0")]
      [powerTriple (group gs) (token (.number "0"))] :=
    .cons Node.noConfusion (.group hg) (.power (.token _) (.nil _))
  have hdepth : maxHeight [powerTriple (group gs) (token (.number "0"))] ≤ limit + 2 := by
    simp only [powerTriple, maxHeight_cons, height, maxHeight_nil]
    omega
  have hnumber : eval units.lookup? (token (.number "0")) = .ok (.scalar 0.0) :=
    eval_number (by with_unfolding_all rfl)
  have hbase : eval units.lookup? (group gs) = .ok q := by rw [eval, hv]
  rw [convertUnder_of_reads hread (by simp) hgroup hdepth, ← eval, eval_group_singleton,
    eval_powerTriple, hbase, hnumber]
  rfl

/-- An expression that can be converted, in brackets and to the power of zero, is converted to the
number one, whatever its dimension was. -/
theorem convertUnder_power_zero (hunits : units.Finite)
    (h : convertUnder limit units expression = .ok q) (b : Bracket) :
    ∃ one, convertUnder (limit + 2) units (b.around expression ++ "^0") = .ok one ∧
      one.isDimensionless = true ∧ one.coefficient = 1.0 := by
  have hfinite := finite_of_convertUnder hunits h
  refine ⟨⟨q.dimension.power 0.0, 1.0⟩, ?_, ?_, rfl⟩
  · rw [convertUnder_around_zero h b, hfinite.power_zero]
  · exact Dimension.isDimensionless_iff.mpr hfinite.exponent_power_zero

/-- A unit whose coefficient is zero and one of whose exponents is negative, so that a negative zero
comes out of scaling it. -/
theorem convertUnder_power_zero_of_zero :
    let hertz : Quantity := ⟨{ Dimension.dimensionless with second := -1.0 }, 0.0⟩
    let units := Catalogue.ofList [⟨"Hz", none, hertz⟩]
    units.Finite ∧ convertUnder 0 units "Hz" = .ok hertz ∧
    ∃ one, convertUnder 2 units "(Hz)^0" = .ok one ∧ one.isDimensionless = true ∧
      one.coefficient = 1.0 := by
  intro hertz units
  have hfinite : units.Finite := by
    intro d hd
    obtain rfl := List.mem_singleton.mp hd
    exact Quantity.finite_iff.mpr (by decide)
  have hlookup : units.lookup? "Hz" = some hertz := by
    rw [Catalogue.lookup?_ofList]
    rfl
  have hgroup : Groups [token (.unit "Hz")] [token (.unit "Hz")] :=
    .cons (by intro h; cases h) (.token _) (.nil _)
  have hconvert : convertUnder 0 units "Hz" = .ok hertz := by
    rw [convertUnder_of_reads (.token rfl .nil) (List.cons_ne_nil _ _) hgroup (Nat.le_refl 0),
      ← eval, eval_group_singleton]
    exact eval_unit hlookup
  exact ⟨hfinite, hconvert, convertUnder_power_zero hfinite hconvert .round⟩

end UnitCalc
