import UnitCalc.Expression.Evaluation
import UnitCalc.Proofs.Outcomes

/-!
# Proofs: evaluating from left to right

A sequence takes one step for each of its operands: the operator in front of it, or the product when
there is none, is applied to the value so far. What has been evaluated matters to the rest only
through its value.
-/

namespace UnitCalc

/-! ## One step -/

theorem Quantity.error_of_checked {q : Quantity} {error : NumberError} {e : ConversionError}
    (h : (if q.isFinite then .ok q else .error (.numeric error)) = Except.error e) :
    e = .numeric error := by
  split at h
  · cases h
  · cases h
    rfl

/-- The errors of operators: a divisor that is zero, an exponent with base units, and a result that
is not finite. -/
theorem Operator.error_of_apply {op : Operator} {a b : Quantity} {e : ConversionError}
    (h : op.apply a b = .error e) :
    e = .evaluation .divisionByZero ∨ (∃ text, e = .evaluation (.dimensionedExponent text)) ∨
      ∃ error, e = .numeric error := by
  cases op with
  | multiply => exact .inr (.inr ⟨_, Quantity.error_of_checked h⟩)
  | divide =>
    change a.divide b = .error e at h
    unfold Quantity.divide at h
    split at h
    · cases h
      exact .inl rfl
    · exact .inr (.inr ⟨_, Quantity.error_of_checked h⟩)
  | power =>
    change a.power b = .error e at h
    unfold Quantity.power at h
    split at h
    · cases h
      exact .inr (.inl ⟨_, rfl⟩)
    · exact .inr (.inr ⟨_, Quantity.error_of_checked h⟩)

/-! ## Sequences -/

namespace Node

variable {lookup : String → Option Quantity} {value : Quantity}

/-- A tree that is only an operator. -/
def IsOperator (n : Node) : Prop := ∃ op, n = token (.operator op)

theorem not_isOperator_group (cs : List Node) : ¬ (group cs).IsOperator := by
  rintro ⟨op, h⟩
  cases h

theorem evalAfter_lone (op : Operator) :
    evalAfter lookup value [token (.operator op)] = .error op.lone := by
  rw [evalAfter]

/-- The step of an operand behind an operator. Where a second operator stands, there is no operand,
and the step fails for it. -/
theorem evalAfter_operator (op : Operator) (c : Node) (cs : List Node) :
    evalAfter lookup value (token (.operator op) :: c :: cs) =
      eval lookup c >>= fun x => op.apply value x >>= fun result => evalAfter lookup result cs := by
  cases c with
  | token t =>
    cases t with
    | number s => rfl
    | unit s => rfl
    | operator op' => rfl
  | group ds => rfl

/-- The step of an operand without an operator in front of it. -/
theorem evalAfter_operand {c : Node} (hc : ¬ c.IsOperator) (cs : List Node) :
    evalAfter lookup value (c :: cs) =
      eval lookup c >>= fun x => value.multiply x >>= fun result => evalAfter lookup result cs := by
  cases c with
  | token t =>
    cases t with
    | number s => rfl
    | unit s => rfl
    | operator op => exact absurd ⟨op, rfl⟩ hc
  | group ds => rfl

theorem eval_number {text : String} {x : Float} (h : readNumber text = .ok x) :
    eval lookup (token (.number text)) = .ok (.scalar x) := by
  rw [eval]
  unfold Token.eval
  dsimp only
  rw [h]

theorem eval_unit {symbol : String} {q : Quantity} (h : lookup symbol = some q) :
    eval lookup (token (.unit symbol)) = .ok q := by
  rw [eval]
  unfold Token.eval
  dsimp only
  rw [h]

/-- Brackets around a single tree change nothing. -/
theorem eval_group_singleton (n : Node) : eval lookup (group [n]) = eval lookup n := by
  rw [eval, evalSequence]
  exact bind_pure _

/-- A group that grouping made is the power of its base. -/
theorem eval_powerTriple (base exponent : Node) :
    eval lookup (powerTriple base exponent) =
      eval lookup base >>= fun x => eval lookup exponent >>= fun y => x.power y := by
  rw [powerTriple, eval, evalSequence]
  refine bind_congr fun x => ?_
  rw [evalAfter_operator]
  refine bind_congr fun y => ?_
  exact bind_pure (x.power y)

/-- The rest of a sequence is evaluated from the value of what stands before it. -/
theorem evalAfter_append (hs : List Node) : ∀ {value result : Quantity} (gs : List Node),
    evalAfter lookup value gs = .ok result →
      evalAfter lookup value (gs ++ hs) = evalAfter lookup result hs
  | value, result, [], h => by
    rw [evalAfter] at h
    cases h
    rfl
  | value, result, c :: cs, h => by
    by_cases hc : c.IsOperator
    · obtain ⟨op, rfl⟩ := hc
      cases cs with
      | nil =>
        rw [evalAfter_lone] at h
        cases h
      | cons d ds =>
        rw [evalAfter_operator] at h
        obtain ⟨x, hx, h⟩ := bind_eq_ok_iff.mp h
        obtain ⟨next, hnext, h⟩ := bind_eq_ok_iff.mp h
        rw [List.cons_append, List.cons_append, evalAfter_operator, hx]
        show (op.apply value x >>= _) = _
        rw [hnext]
        exact evalAfter_append hs ds h
    · rw [evalAfter_operand hc] at h
      obtain ⟨x, hx, h⟩ := bind_eq_ok_iff.mp h
      obtain ⟨next, hnext, h⟩ := bind_eq_ok_iff.mp h
      rw [List.cons_append, evalAfter_operand hc, hx]
      show (value.multiply x >>= _) = _
      rw [hnext]
      exact evalAfter_append hs cs h

theorem evalSequence_append {gs : List Node} (h : evalSequence lookup gs = .ok value)
    (hs : List Node) : evalSequence lookup (gs ++ hs) = evalAfter lookup value hs := by
  cases gs with
  | nil =>
    rw [evalSequence] at h
    cases h
  | cons c cs =>
    rw [evalSequence] at h
    obtain ⟨first, hfirst, h⟩ := bind_eq_ok_iff.mp h
    rw [List.cons_append, evalSequence, hfirst]
    exact evalAfter_append hs cs h

end Node

end UnitCalc
