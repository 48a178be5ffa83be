import UnitCalc.Proofs.Composition
import UnitCalc.Proofs.FiniteQuantities
import UnitCalc.Proofs.FirstClaimant
import UnitCalc.Proofs.NumbersReadBack
import UnitCalc.Proofs.WrittenForms

/-!
# Proofs: printed quantities

The text of a finite quantity is an expression for this quantity. The coefficient comes first and is
multiplied by one power of a base unit after the other; each of these factors has the coefficient
one and zeros for exponents except its own, so that none disturbs what the others have put in
place.
-/

namespace UnitCalc

open Node

/-! ## Printed numbers -/

variable {x : Float}

theorem beq_self_of_isFinite (h : x.isFinite = true) : (x == x) = true := by
  rw [Float.beq_self_iff]
  rintro rfl
  exact absurd h (by decide)

theorem eq_one_of_beq_one (h : (x == 1.0) = true) : x = 1.0 := by
  obtain ⟨-, -, heq | ⟨-, hone⟩ | ⟨-, hone⟩⟩ := Float.beq_iff_ne_nan_and_eq.mp h
  · exact heq
  · exact absurd hone (by decide +kernel)
  · exact absurd hone (by decide +kernel)

theorem unsignedZero_beq (h : x.isFinite = true) : (unsignedZero x == x) = true := by
  unfold unsignedZero
  split
  · rename_i hzero
    exact BEq.symm hzero
  · exact beq_self_of_isFinite h

theorem unsignedZero_of_ne (h : (x == 0.0) = false) : unsignedZero x = x := by
  rw [unsignedZero, h]
  rfl

theorem readNumber_coefficientText (h : x.isFinite = true) :
    readNumber (coefficientText x) = .ok (unsignedZero x) :=
  readNumber_floatText (.inl rfl) (isFinite_unsignedZero h)

theorem readNumber_exponentText (h : x.isFinite = true) :
    readNumber (exponentText x) = .ok (unsignedZero x) :=
  readNumber_floatText (.inl rfl) (isFinite_unsignedZero h)

/-! ## Printed expressions -/

/-- The text is read and grouped as these trees, of which none is more than a power of tokens. -/
structure Expresses (cs : List Char) (gs : List Node) : Prop where
  /-- The trees before and after their powers are grouped. -/
  grouped : ∃ ns, Reads cs ns ∧ Groups ns gs
  /-- The trees hardly nest. -/
  flat : maxHeight gs ≤ 1

theorem Expresses.append {cs ds : List Char} {gs hs : List Node} (hc : Expresses cs gs)
    (hd : Expresses ds hs) (stop : ∀ c ∈ ds.head?, Token.goesOn c = false) :
    Expresses (cs ++ ds) (gs ++ hs) := by
  obtain ⟨⟨ns, hr, hg⟩, hflat⟩ := hc
  obtain ⟨⟨ns', hr', hg'⟩, hflat'⟩ := hd
  refine ⟨⟨ns ++ ns', hr.append hr' stop, hg.append hg'⟩, ?_⟩
  rw [maxHeight_append]
  omega

theorem goesOn_space : Token.goesOn ' ' = false := by decide

theorem Expresses.blank {cs : List Char} {gs : List Node} (h : Expresses cs gs) :
    Expresses (' ' :: cs) gs := by
  obtain ⟨⟨ns, hr, hg⟩, hflat⟩ := h
  exact ⟨⟨ns, .blank (by decide) hr, hg⟩, hflat⟩

/-- The operator that stands between the factors. -/
abbrev times : Node := token (.operator .multiply)

theorem Expresses.times {cs : List Char} {gs : List Node} (h : Expresses cs gs) :
    Expresses (" * ".toList ++ cs) (times :: gs) := by
  obtain ⟨⟨ns, hr, hg⟩, hflat⟩ := h
  refine ⟨⟨UnitCalc.times :: ns, ?_, .cons (by simp) (.token _) (hg.after _)⟩, ?_⟩
  · exact .blank (by decide) (reads_operator .multiply (.blank (by decide) hr))
  · rw [maxHeight_cons]
    exact Nat.max_le.mpr ⟨Nat.zero_le 1, hflat⟩

theorem reads_token {t : Token} (h : t.WellFormed) : Reads t.text.toList [token t] := by
  have hscan := @Token.scan?_text_append t h [] (by simp)
  rw [List.append_nil] at hscan
  exact .token hscan .nil

theorem expresses_coefficient (h : x.isFinite = true) :
    Expresses (coefficientText x).toList [token (.number (coefficientText x))] := by
  have hword : (Token.number (coefficientText x)).WellFormed :=
    Layout.coefficient.floatText_mem_numberWords (.inl rfl) (isFinite_unsignedZero h)
  exact ⟨⟨_, reads_token hword, .cons (by simp) (.token _) (.nil _)⟩, Nat.zero_le 1⟩

/-- The tree of a printed factor. -/
def factorTree (u : BaseUnit) (e : Float) : Node :=
  if e == 1.0 then token (.unit u.symbol)
  else powerTriple (token (.unit u.symbol)) (token (.number (exponentText e)))

theorem reads_symbol (u : BaseUnit) : Reads u.symbol.toList [token (.unit u.symbol)] := by
  have hscan : Token.scan? u.symbol.toList = some (.unit u.symbol, []) := by
    cases u <;> with_unfolding_all rfl
  exact .token hscan .nil

theorem expresses_factor (u : BaseUnit) {e : Float} (h : e.isFinite = true) :
    Expresses (Dimension.termText u e).toList [factorTree u e] := by
  unfold Dimension.termText factorTree
  split
  · exact ⟨⟨_, reads_symbol u, .cons (by simp) (.token _) (.nil _)⟩, Nat.zero_le 1⟩
  · have hword : (Token.number (exponentText e)).WellFormed :=
      Layout.exponent.floatText_mem_numberWords (.inl rfl) (isFinite_unsignedZero h)
    have hpower := (reads_symbol u).append (reads_operator .power (reads_token hword))
      (by simp [Token.goesOn_symbol])
    refine ⟨⟨_, ?_, .cons (by simp) (.token _) (.power (.token _) (.nil _))⟩, le_rfl⟩
    rw [String.toList_append, String.toList_append, List.append_assoc]
    exact hpower

/-- The trees of a printed product. -/
def productTrees (ts : List (BaseUnit × Float)) : List Node :=
  [times].intercalate (ts.map fun t => [factorTree t.1 t.2])

theorem productTrees_singleton (t : BaseUnit × Float) : productTrees [t] = [factorTree t.1 t.2] :=
  List.intercalate_singleton

theorem productTrees_cons_cons (t t' : BaseUnit × Float) (ts : List (BaseUnit × Float)) :
    productTrees (t :: t' :: ts) = factorTree t.1 t.2 :: times :: productTrees (t' :: ts) :=
  List.intercalate_cons_cons

theorem expresses_product {ts : List (BaseUnit × Float)} (hne : ts ≠ [])
    (h : ∀ t ∈ ts, t.2.isFinite = true) :
    Expresses (String.intercalate " * " (ts.map fun t => Dimension.termText t.1 t.2)).toList
      (productTrees ts) := by
  induction ts with
  | nil => exact absurd rfl hne
  | cons t ts ih =>
    obtain ⟨ht, hts⟩ := List.forall_mem_cons.mp h
    have hfactor := expresses_factor t.1 ht
    cases ts with
    | nil =>
      rw [List.map_singleton, String.intercalate_singleton, productTrees_singleton]
      exact hfactor
    | cons t' ts =>
      have hrest := ih (List.cons_ne_nil _ _) hts
      rw [List.map_cons] at hrest
      rw [List.map_cons, List.map_cons, String.intercalate_cons_cons, productTrees_cons_cons,
        String.toList_append, String.toList_append, List.append_assoc]
      exact hfactor.append hrest.times (by simp [goesOn_space])

theorem Dimension.terms_eq_nil_iff {d : Dimension} : d.terms = [] ↔ d.isDimensionless = true := by
  simp [terms, isDimensionless, List.filter_eq_nil_iff, bne]

/-- The trees of a printed quantity. -/
def Quantity.trees (q : Quantity) : List Node :=
  token (.number (coefficientText q.coefficient)) :: productTrees q.dimension.terms

theorem expresses_text {q : Quantity} (h : q.Finite) : Expresses q.text.toList q.trees := by
  have hcoefficient := expresses_coefficient h.coefficient
  unfold Quantity.text Quantity.trees
  split
  · rename_i hplain
    rw [Dimension.terms_eq_nil_iff.mpr hplain]
    exact hcoefficient
  · rename_i hunits
    have hne : q.dimension.terms ≠ [] := Dimension.terms_eq_nil_iff.not.mpr hunits
    have hproduct : Expresses q.dimension.text.toList (productTrees q.dimension.terms) := by
      unfold Dimension.text
      rw [if_neg (by simpa using hne)]
      refine expresses_product hne fun t ht => ?_
      obtain ⟨u, -, rfl⟩ := List.mem_map.mp ht
      exact h.exponent u
    rw [String.toList_append, String.toList_append, List.append_assoc]
    exact hcoefficient.append hproduct.blank (by simp [goesOn_space])

/-! ## Evaluating the trees -/

/-- At the base units of the list the exponents are those of `d`, and elsewhere they are zero. -/
def Dimension.AgreesOn (d : Dimension) (us : List BaseUnit) (a : Dimension) : Prop :=
  ∀ u, if u ∈ us then a.exponent u = d.exponent u else (a.exponent u == 0.0) = true

namespace Dimension

/-- The base units that are printed. -/
def units (d : Dimension) : List BaseUnit := BaseUnit.all.filter fun u => d.exponent u != 0.0

theorem mem_units {d : Dimension} {u : BaseUnit} :
    u ∈ d.units ↔ (d.exponent u == 0.0) = false := by
  simp [units, BaseUnit.mem_all, bne]

theorem nodup_units (d : Dimension) : d.units.Nodup :=
  List.Nodup.filter _ (by decide)

variable {d a b : Dimension} {u : BaseUnit} {us : List BaseUnit}

theorem AgreesOn.isFinite (h : d.AgreesOn us a) (hd : ∀ u, (d.exponent u).isFinite = true) :
    ∀ u, (a.exponent u).isFinite = true := by
  intro u
  have hu := h u
  split at hu
  · rw [hu]
    exact hd u
  · exact isFinite_of_beq_zero hu

theorem agreesOn_dimensionless : d.AgreesOn [] dimensionless := by
  intro u
  rw [if_neg List.not_mem_nil, dimensionless, exponent_ofFn]
  decide

/-- One factor more puts its exponent in place. -/
theorem AgreesOn.multiply (ha : d.AgreesOn us a) (hb : d.AgreesOn [u] b) (hu : u ∉ us)
    (hd : ∀ v, (d.exponent v).isFinite = true)
    (hne : ∀ v ∈ us ++ [u], (d.exponent v == 0.0) = false) :
    d.AgreesOn (us ++ [u]) (a.multiply b) := by
  intro v
  have hav := ha v
  have hbv := hb v
  rw [Dimension.multiply, exponent_ofFn]
  by_cases hv : v ∈ us
  · have hvu : v ∉ [u] := by
      rintro hmem
      rw [List.mem_singleton.mp hmem] at hv
      exact hu hv
    rw [if_pos hv] at hav
    rw [if_neg hvu] at hbv
    rw [if_pos (List.mem_append_left _ hv), hav]
    exact add_eq_of_beq_zero (hd v) (hne v (List.mem_append_left _ hv)) hbv
  · rw [if_neg hv] at hav
    by_cases hvu : v ∈ [u]
    · rw [if_pos hvu] at hbv
      rw [if_pos (List.mem_append_right _ hvu), hbv]
      exact add_eq_of_zero_beq hav (hd v) (hne v (List.mem_append_right _ hvu))
    · rw [if_neg hvu] at hbv
      rw [if_neg (by simp [hv, List.mem_singleton.not.mp hvu])]
      exact add_beq_zero hav hbv

theorem AgreesOn.beq (h : d.AgreesOn us a) (hd : ∀ v, (d.exponent v).isFinite = true)
    (hne : ∀ v, v ∉ us → (d.exponent v == 0.0) = true) : (a == d) = true := by
  refine List.all_eq_true.mpr fun v _ => ?_
  have hv := h v
  split at hv
  · rw [hv]
    exact beq_self_of_isFinite (hd v)
  · rename_i hmem
    exact BEq.trans hv (BEq.symm (hne v hmem))

end Dimension

/-- The catalogue of the base units has each under its symbol. -/
theorem lookup?_baseUnits (u : BaseUnit) :
    Catalogue.baseUnits.lookup? u.symbol = some ⟨.ofUnit u, 1.0⟩ := by
  rw [Catalogue.baseUnits, Catalogue.lookup?_ofList]
  cases u <;> rfl

theorem raise_one (e : Float) : raise 1.0 e = 1.0 := by
  unfold raise
  split
  · rfl
  · exact if_pos (by decide)

/-- A base unit to the power of its exponent. -/
theorem agreesOn_power {d : Dimension} {u : BaseUnit} (hd : (d.exponent u).isFinite = true) :
    d.AgreesOn [u] ((Dimension.ofUnit u).power (d.exponent u)) := by
  intro v
  rw [Dimension.power, Dimension.ofUnit, Dimension.exponent_ofFn, Dimension.exponent_ofFn]
  by_cases hv : v = u
  · rw [if_pos (List.mem_singleton.mpr hv), if_pos hv, hv]
    exact one_mul_of_isFinite hd
  · rw [if_neg (List.mem_singleton.not.mpr hv), if_neg hv]
    exact mul_beq_zero (by decide) hd

theorem agreesOn_ofUnit {d : Dimension} {u : BaseUnit} (hone : d.exponent u = 1.0) :
    d.AgreesOn [u] (.ofUnit u) := by
  intro v
  rw [Dimension.ofUnit, Dimension.exponent_ofFn]
  by_cases hv : v = u
  · rw [if_pos (List.mem_singleton.mpr hv), if_pos hv, hv, hone]
  · rw [if_neg (List.mem_singleton.not.mpr hv), if_neg hv]
    decide

variable {d : Dimension} {u : BaseUnit} {us : List BaseUnit} {value : Quantity}

/-- A factor is one times its base unit to the power of its exponent. -/
theorem eval_factorTree (hd : ∀ v, (d.exponent v).isFinite = true)
    (hne : (d.exponent u == 0.0) = false) :
    ∃ a, (factorTree u (d.exponent u)).eval Catalogue.baseUnits.lookup? = .ok ⟨a, 1.0⟩ ∧
      d.AgreesOn [u] a := by
  have hunit := eval_unit (lookup?_baseUnits u)
  unfold factorTree
  split
  · rename_i hone
    exact ⟨.ofUnit u, hunit, agreesOn_ofUnit (eq_one_of_beq_one hone)⟩
  · have hagrees := agreesOn_power (hd u)
    refine ⟨(Dimension.ofUnit u).power (d.exponent u), ?_, hagrees⟩
    have hexponent : readNumber (exponentText (d.exponent u)) = .ok (d.exponent u) := by
      rw [readNumber_exponentText (hd u), unsignedZero_of_ne hne]
    have hpower := @Quantity.power_of_finite ⟨.ofUnit u, 1.0⟩ (.scalar (d.exponent u))
      Dimension.isDimensionless_dimensionless
    dsimp only [Quantity.scalar] at hpower
    rw [raise_one] at hpower
    rw [eval_powerTriple, hunit, eval_number hexponent]
    exact hpower ⟨isFinite_one, hagrees.isFinite hd⟩

/-- Multiplying by a factor leaves the coefficient as it is. -/
theorem multiply_factor {b : Dimension}
    (h : (⟨value.dimension.multiply b, value.coefficient⟩ : Quantity).Finite) :
    value.multiply ⟨b, 1.0⟩ = .ok ⟨value.dimension.multiply b, value.coefficient⟩ := by
  have hproduct := @Quantity.multiply_of_finite value ⟨b, 1.0⟩
  dsimp only at hproduct
  rw [mul_one_of_isFinite h.coefficient] at hproduct
  exact hproduct h

theorem evalAfter_times {lookup : String → Option Quantity} {c : Node} (hc : ¬ c.IsOperator)
    (cs : List Node) :
    evalAfter lookup value (times :: c :: cs) = evalAfter lookup value (c :: cs) := by
  rw [evalAfter_operator, evalAfter_operand hc]
  rfl

theorem not_isOperator_factorTree (u : BaseUnit) (e : Float) : ¬ (factorTree u e).IsOperator := by
  unfold factorTree
  split
  · rintro ⟨op, h⟩
    cases h
  · exact not_isOperator_group _

theorem exists_productTrees_cons (t : BaseUnit × Float) (ts : List (BaseUnit × Float)) :
    ∃ gs, productTrees (t :: ts) = factorTree t.1 t.2 :: gs := by
  cases ts with
  | nil => exact ⟨_, productTrees_singleton t⟩
  | cons t' ts => exact ⟨_, productTrees_cons_cons t t' ts⟩

/-- Each factor is an operand, with an operator in front of it or without one. -/
theorem evalAfter_productTrees_cons {lookup : String → Option Quantity} (t : BaseUnit × Float)
    (ts : List (BaseUnit × Float)) :
    evalAfter lookup value (productTrees (t :: ts)) =
      eval lookup (factorTree t.1 t.2) >>= fun x => value.multiply x >>= fun result =>
        evalAfter lookup result (productTrees ts) := by
  cases ts with
  | nil =>
    rw [productTrees_singleton, evalAfter_operand (not_isOperator_factorTree _ _)]
    rfl
  | cons t' ts =>
    obtain ⟨gs, hgs⟩ := exists_productTrees_cons t' ts
    rw [productTrees_cons_cons, evalAfter_operand (not_isOperator_factorTree _ _), hgs]
    simp only [evalAfter_times (not_isOperator_factorTree _ _)]

/-- Factor by factor the exponents of the product are put in place. -/
theorem evalAfter_productTrees (hd : ∀ v, (d.exponent v).isFinite = true) {vs : List BaseUnit}
    (hnodup : (us ++ vs).Nodup) (hne : ∀ v ∈ us ++ vs, (d.exponent v == 0.0) = false)
    (hagrees : d.AgreesOn us value.dimension) (hvalue : value.coefficient.isFinite = true) :
    ∃ a, evalAfter Catalogue.baseUnits.lookup? value
        (productTrees (vs.map fun u => (u, d.exponent u))) = .ok ⟨a, value.coefficient⟩ ∧
      d.AgreesOn (us ++ vs) a := by
  -- the base units whose exponents are in place grow at their end as those to come shrink
  induction vs generalizing us value with
  | nil =>
    rw [List.append_nil]
    exact ⟨value.dimension, rfl, hagrees⟩
  | cons u vs ih =>
    have hsplit : us ++ u :: vs = us ++ [u] ++ vs := by simp
    rw [hsplit] at hnodup hne ⊢
    have hfront : ∀ v ∈ us ++ [u], (d.exponent v == 0.0) = false := fun v hv =>
      hne v (List.mem_append_left _ hv)
    have hfree : u ∉ us := by
      have hnodup := hnodup.of_append_left
      rw [List.nodup_append] at hnodup
      exact fun hu => hnodup.2.2 u hu u (List.mem_singleton_self u) rfl
    obtain ⟨b, hb, hfactor⟩ := eval_factorTree hd (hfront u (by simp))
    have hnext := hagrees.multiply hfactor hfree hd hfront
    have hproduct := multiply_factor ⟨hvalue, hnext.isFinite hd⟩
    rw [List.map_cons, evalAfter_productTrees_cons, hb]
    show ∃ a, (value.multiply ⟨b, 1.0⟩ >>= _) = _ ∧ _
    rw [hproduct]
    exact ih hnodup hne hnext hvalue

/-! ## Reading back what was printed -/

/-- The text of a finite quantity is an expression that can be converted, and the result is the
quantity, up to the signs of zeros. -/
theorem convert_text {q : Quantity} (h : q.Finite) :
    ∃ result, convert .baseUnits q.text = .ok result ∧
      (result.coefficient == q.coefficient) = true ∧ (result.dimension == q.dimension) = true := by
  obtain ⟨⟨ns, hr, hg⟩, hflat⟩ := expresses_text h
  have hne : ns ≠ [] := by
    rintro rfl
    cases hg
  have hcoefficient := isFinite_unsignedZero h.coefficient
  obtain ⟨a, ha, hagrees⟩ := @evalAfter_productTrees q.dimension []
    (.scalar (unsignedZero q.coefficient)) h.exponent q.dimension.units q.dimension.nodup_units
    (fun _ => Dimension.mem_units.mp) Dimension.agreesOn_dimensionless hcoefficient
  refine ⟨⟨a, unsignedZero q.coefficient⟩, ?_, unsignedZero_beq h.coefficient, ?_⟩
  · unfold convert
    rw [convertUnder_of_reads hr hne hg (hflat.trans (by decide)), Quantity.trees, evalSequence,
      eval_number (readNumber_coefficientText h.coefficient)]
    exact ha
  · refine hagrees.beq h.exponent fun v hv => ?_
    rwa [List.nil_append, Dimension.mem_units, Bool.not_eq_false] at hv

/-- A force with an exponent of one and with one that is no whole number, and a zero with a sign. -/
theorem convert_text_three_factors :
    let q : Quantity := ⟨{ Dimension.force with second := -2.5, candela := -0.0 }, -12.0⟩
    q.Finite ∧ ∃ result, convert .baseUnits "-12.0 s^-2.5 * m * kg" = .ok result ∧
      (result.coefficient == q.coefficient) = true ∧ (result.dimension == q.dimension) = true := by
  intro q
  have hfinite : q.Finite := ⟨by decide, by intro u; cases u <;> decide⟩
  have htext : q.text = "-12.0 s^-2.5 * m * kg" := by decide +kernel
  have hconvert := convert_text hfinite
  rw [htext] at hconvert
  exact ⟨hfinite, hconvert⟩

end UnitCalc
