import UnitCalc.Proofs.Composition
import UnitCalc.Proofs.FiniteQuantities
import UnitCalc.Proofs.Zeros

/-!
# Proofs: expressions without units

Only units bring dimensions into an expression. What is made from plain numbers alone is a plain
number again, so that it can be an exponent as well. This rests on the coefficients being finite: a
dimension without base units stays one only when it is scaled by a finite number.
-/

namespace UnitCalc

/-- A plain number that is finite. -/
structure Quantity.Plain (q : Quantity) : Prop where
  /-- It has no base units. -/
  dimensionless : q.isDimensionless = true
  /-- Its coefficient is finite. -/
  finite : q.coefficient.isFinite = true

/-- A computation with plain numbers: what it gives is one of them, and it does not fail for an
exponent that has a dimension. -/
structure StaysPlain (x : Except ConversionError Quantity) : Prop where
  /-- The result, if there is one. -/
  result : ∀ q, x = .ok q → q.Plain
  /-- The error that does not occur. -/
  error : ∀ exponent, x ≠ .error (.evaluation (.dimensionedExponent exponent))

/-- A tree in which no unit stands, at any depth. -/
inductive Node.UnitFree : Node → Prop where
  /-- A number. -/
  | number (text : String) : UnitFree (token (.number text))
  /-- An operator. -/
  | operator (op : Operator) : UnitFree (token (.operator op))
  /-- A group of such trees. -/
  | group {ns : List Node} (h : ∀ n ∈ ns, UnitFree n) : UnitFree (group ns)

/-! ## One step -/

namespace StaysPlain

theorem ok {q : Quantity} (h : q.Plain) : StaysPlain (.ok q) where
  result q' hq' := by
    cases hq'
    exact h
  error _ h := by cases h

/-- A failure for another reason. -/
theorem fail {error : ConversionError}
    (h : ∀ exponent, error ≠ .evaluation (.dimensionedExponent exponent)) :
    StaysPlain (.error error) where
  result _ hq := by cases hq
  error exponent he := h exponent (Except.error.inj he)

theorem lone (op : Operator) : StaysPlain (.error op.lone) := .fail (by simp [Operator.lone])

theorem bind {x : Except ConversionError Quantity} {f : Quantity → Except ConversionError Quantity}
    (hx : StaysPlain x) (hf : ∀ q, q.Plain → StaysPlain (f q)) : StaysPlain (x >>= f) where
  result result h := by
    obtain ⟨q, hq, h⟩ := bind_eq_ok_iff.mp h
    exact (hf q (hx.result q hq)).result result h
  error exponent h := by
    rcases bind_eq_error_iff.mp h with h | ⟨q, hq, h⟩
    · exact hx.error exponent h
    · exact (hf q (hx.result q hq)).error exponent h

end StaysPlain

namespace Quantity

variable {a b : Quantity}

theorem plain_scalar {x : Float} (hx : x.isFinite = true) : (scalar x).Plain :=
  ⟨Dimension.isDimensionless_dimensionless, hx⟩

/-- What all operations have in common: a result without base units that is finite is plain, and one
that is not finite is an error of another kind. -/
theorem staysPlain_checked {q : Quantity} {error : NumberError} (h : q.isDimensionless = true) :
    StaysPlain (if q.isFinite then .ok q else .error (.numeric error)) := by
  split
  · rename_i hfinite
    exact .ok ⟨h, (finite_iff.mpr hfinite).coefficient⟩
  · exact .fail (by simp)

theorem Plain.multiply (ha : a.Plain) (hb : b.Plain) : StaysPlain (a.multiply b) :=
  staysPlain_checked (Dimension.isDimensionless_multiply ha.dimensionless hb.dimensionless)

theorem Plain.divide (ha : a.Plain) (hb : b.Plain) : StaysPlain (a.divide b) := by
  unfold Quantity.divide
  split
  · exact .fail (by simp)
  · exact staysPlain_checked (Dimension.isDimensionless_divide ha.dimensionless hb.dimensionless)

theorem Plain.power (ha : a.Plain) (hb : b.Plain) : StaysPlain (a.power b) := by
  unfold Quantity.power
  rw [hb.dimensionless]
  exact staysPlain_checked (Dimension.isDimensionless_power ha.dimensionless hb.finite)

theorem Plain.apply (op : Operator) (ha : a.Plain) (hb : b.Plain) : StaysPlain (op.apply a b) := by
  cases op with
  | multiply => exact ha.multiply hb
  | divide => exact ha.divide hb
  | power => exact ha.power hb

end Quantity

theorem StaysPlain.number (lookup : String → Option Quantity) (text : String) :
    StaysPlain ((Token.number text).eval lookup) := by
  unfold Token.eval
  dsimp only
  split
  · rename_i x hx
    exact .ok (Quantity.plain_scalar (isFinite_of_readNumber hx))
  · exact .fail (by simp)

/-! ## Trees -/

namespace Node

variable {lookup : String → Option Quantity}

mutual

/-- A tree without units is evaluated to a plain number, or fails for another reason than an
exponent. -/
theorem staysPlain_eval : ∀ n : Node, n.UnitFree → StaysPlain (eval lookup n)
  | _, .number text => .number lookup text
  | _, .operator op => .lone op
  | group cs, .group h => by
    rw [eval]
    exact staysPlain_evalSequence cs h

theorem staysPlain_evalSequence : ∀ cs : List Node, (∀ c ∈ cs, c.UnitFree) →
    StaysPlain (evalSequence lookup cs)
  | [], _ => .fail (by simp)
  | c :: cs, hall => by
    obtain ⟨hc, hcs⟩ := List.forall_mem_cons.mp hall
    rw [evalSequence]
    exact (staysPlain_eval c hc).bind fun first hfirst => staysPlain_evalAfter cs hcs first hfirst

theorem staysPlain_evalAfter : ∀ cs : List Node, (∀ c ∈ cs, c.UnitFree) → ∀ value : Quantity,
    value.Plain → StaysPlain (evalAfter lookup value cs)
  | [], _, value, hvalue => by
    rw [evalAfter]
    exact .ok hvalue
  | c :: cs, hall, value, hvalue => by
    obtain ⟨hc, hcs⟩ := List.forall_mem_cons.mp hall
    by_cases hop : c.IsOperator
    · obtain ⟨op, rfl⟩ := hop
      cases cs with
      | nil =>
        rw [evalAfter_lone]
        exact .lone op
      | cons d ds =>
        obtain ⟨hd, hds⟩ := List.forall_mem_cons.mp hcs
        rw [evalAfter_operator]
        exact (staysPlain_eval d hd).bind fun x hx =>
          (hvalue.apply op hx).bind fun result hresult => staysPlain_evalAfter ds hds result hresult
    · rw [evalAfter_operand hop]
      exact (staysPlain_eval c hc).bind fun x hx => (hvalue.multiply hx).bind fun result hresult =>
        staysPlain_evalAfter cs hcs result hresult

end

/-! ## Grouping -/

theorem UnitFree.powerTriple {base exponent : Node} (hb : base.UnitFree) (he : exponent.UnitFree) :
    (powerTriple base exponent).UnitFree :=
  .group (by simp [hb, he, UnitFree.operator])

mutual

/-- Grouping powers brings no units in. -/
theorem GroupsInside.unitFree : ∀ {n g : Node}, GroupsInside n g → n.UnitFree → g.UnitFree
  | _, _, .token _, hn => hn
  | _, _, .group h, .group hns => .group (h.unitFree hns)

theorem Groups.unitFree : ∀ {cs gs : List Node}, Groups cs gs → (∀ c ∈ cs, c.UnitFree) →
    ∀ g ∈ gs, g.UnitFree
  | _, _, .nil, _ => by simp
  | _, _, .cons _ h hs, hcs => by
    obtain ⟨hc, hcs⟩ := List.forall_mem_cons.mp hcs
    exact hs.unitFree (h.unitFree hc) hcs

theorem GroupsAfter.unitFree : ∀ {held : Node} {cs gs : List Node}, GroupsAfter held cs gs →
    held.UnitFree → (∀ c ∈ cs, c.UnitFree) → ∀ g ∈ gs, g.UnitFree
  | _, _, _, .nil _, hheld, _ => by simpa using hheld
  | _, _, _, .power h hs, hheld, hcs => by
    obtain ⟨-, he, hcs⟩ := by simpa using hcs
    exact hs.unitFree (hheld.powerTriple (h.unitFree he)) hcs
  | _, _, _, .next _ _ h hs, hheld, hcs => by
    obtain ⟨hc, hcs⟩ := List.forall_mem_cons.mp hcs
    exact List.forall_mem_cons.mpr ⟨hheld, hs.unitFree (h.unitFree hc) hcs⟩

end

end Node

open Node

/-! ## Expressions -/

/-- An expression in which no unit stands is converted to a plain number, whatever the limit and the
units are, and no exponent in it ever has a dimension. -/
theorem dimensionless_of_unitFree {readLimit : Nat} {expression : String} {n : Node}
    (hparse : parse readLimit expression = .ok n) (h : n.UnitFree) (limit : Nat)
    (units : Catalogue) :
    (∀ q, convertUnder limit units expression = .ok q → q.isDimensionless = true) ∧
    ∀ exponent, convertUnder limit units expression ≠
      .error (.evaluation (.dimensionedExponent exponent)) := by
  obtain ⟨ns, rfl, hns⟩ := reads_of_parse hparse
  have hplain : StaysPlain (convertUnder limit units expression) := by
    unfold convertUnder
    cases hgrouped : parseGrouped limit expression with
    | error error => exact .fail (by simp)
    | ok g =>
      obtain ⟨cs, gs, -, hcs, hg, rfl, -⟩ := parseGrouped_eq_ok hgrouped
      obtain rfl := hns.unique hcs
      exact staysPlain_eval _ ((GroupsInside.group hg).unitFree h)
  exact ⟨fun q hq => (hplain.result q hq).dimensionless, hplain.error⟩

/-- A power with a negative exponent, in a catalogue without units. The exponents of its result are
negative zeros. -/
theorem dimensionless_of_unitFree_power :
    let power := group [token (.number "1"), caret, group [token (.number "-2")]]
    let result : Quantity := ⟨.ofFn fun _ => -0.0, 1.0⟩
    parse 1 "1^(-2)" = .ok power ∧ power.UnitFree ∧
    convertUnder 2 .empty "1^(-2)" = .ok result ∧ result.isDimensionless = true ∧
    convertUnder 2 .empty "1^(-2)" ≠ .error (.evaluation (.dimensionedExponent "-2.0")) := by
  intro power result
  have hparse : ∀ limit, 1 ≤ limit → parse limit "1^(-2)" = .ok power := by
    have hone : parse 1 "1^(-2)" = .ok power := by with_unfolding_all rfl
    intro limit hlimit
    obtain ⟨ns, heq, hns, hdepth⟩ := parse_eq_ok_iff.mp hone
    exact parse_eq_ok_iff.mpr ⟨ns, heq, hns, Nat.le_trans hdepth hlimit⟩
  have hfree : power.UnitFree :=
    .group (by simp [UnitFree.number, UnitFree.operator, UnitFree.group])
  have hgrouped : parseGrouped 2 "1^(-2)" =
      .ok (group [powerTriple (token (.number "1")) (group [token (.number "-2")])]) := by
    unfold parseGrouped
    rw [hparse 2 (by decide)]
    rfl
  have hone : eval Catalogue.empty.lookup? (token (.number "1")) = .ok (.scalar 1.0) :=
    eval_number (by with_unfolding_all rfl)
  have htwo : eval Catalogue.empty.lookup? (token (.number "-2")) = .ok (.scalar (-2.0)) :=
    eval_number (by with_unfolding_all rfl)
  have hpower : (Quantity.scalar 1.0).power (.scalar (-2.0)) = .ok result := by
    have hresult :
        (⟨Dimension.dimensionless.power (-2.0), raise 1.0 (-2.0)⟩ : Quantity) = result := by
      have hdimension : Dimension.dimensionless.power (-2.0) = .ofFn fun _ => -0.0 := by
        ext u
        cases u <;> decide +kernel
      have hcoefficient : raise 1.0 (-2.0) = 1.0 := by decide +kernel
      rw [hdimension, hcoefficient]
    have hfinite : result.Finite := Quantity.finite_iff.mpr (by decide)
    rw [← hresult] at hfinite ⊢
    exact Quantity.power_of_finite (by decide) hfinite
  have hconvert : convertUnder 2 .empty "1^(-2)" = .ok result := by
    unfold convertUnder
    rw [hgrouped]
    dsimp only
    rw [eval_group_singleton, eval_powerTriple, eval_group_singleton, hone, htwo]
    exact hpower
  obtain ⟨hplain, herror⟩ := dimensionless_of_unitFree (hparse 1 (by decide)) hfree 2 .empty
  exact ⟨hparse 1 (by decide), hfree, hconvert, hplain result hconvert, herror _⟩

end UnitCalc
