import UnitCalc.Proofs.LeftToRight

/-!
# Proofs: a sequence as a loop

A sequence can be evaluated by one pass that keeps the value so far and the operator that waits for
an operand. The recursion over a sequence gives the same value and fails with the same errors, and
the pass shows that no sequence of one tree or more is left without a value.
-/

namespace UnitCalc

/-- What is kept in the middle of a sequence. -/
structure Midway where
  /-- The value of the operands so far, if there was one. -/
  value : Option Quantity
  /-- The operator that waits for its second operand. -/
  pending : Option Operator

namespace Midway

/-- An operator needs a value in front of it and no other operator that waits. -/
def operator (m : Midway) (op : Operator) : Except ConversionError Midway :=
  if m.value.isNone || m.pending.isSome then .error op.lone else .ok { m with pending := some op }

/-- An operand is the first value or is combined with the value so far. -/
def operand (m : Midway) (x : Quantity) : Except ConversionError Midway :=
  match m.value with
  | none => .ok { m with value := some x }
  | some value => ((m.pending.getD .multiply).apply value x).map fun result => ⟨some result, none⟩

/-- One tree more. -/
def next (lookup : String → Option Quantity) (m : Midway) : Node → Except ConversionError Midway
  | .token (.operator op) => m.operator op
  | c => c.eval lookup >>= m.operand

/-- The end of the sequence; the last case is one without any value. -/
def finish (m : Midway) : Except ConversionError Quantity :=
  match m.pending, m.value with
  | some op, _ => .error op.lone
  | none, some value => .ok value
  | none, none => .error (.badSyntax .emptyExpression)

/-- The state in which a loop over a sequence ends. -/
def loop (lookup : String → Option Quantity) (cs : List Node) : Except ConversionError Midway :=
  cs.foldlM (next lookup) ⟨none, none⟩

variable {lookup : String → Option Quantity} {m m' : Midway}

theorem next_operand {c : Node} (hc : ¬ c.IsOperator) :
    next lookup m c = c.eval lookup >>= m.operand := by
  cases c with
  | token t =>
    cases t with
    | number s => rfl
    | unit s => rfl
    | operator op => exact absurd ⟨op, rfl⟩ hc
  | group ds => rfl

/-- Behind every tree that a loop gets past there is a value. -/
theorem value_ne_none_of_next {c : Node} (h : next lookup m c = .ok m') : m'.value ≠ none := by
  by_cases hc : c.IsOperator
  · obtain ⟨op, rfl⟩ := hc
    simp only [next, operator] at h
    split at h
    · cases h
    · rename_i hready
      cases h
      intro hnone
      simp only at hnone
      simp [hnone] at hready
  · rw [next_operand hc] at h
    obtain ⟨x, -, h⟩ := bind_eq_ok_iff.mp h
    unfold operand at h
    split at h
    · cases h
      exact Option.some_ne_none x
    · obtain ⟨result, -, rfl⟩ := map_eq_ok_iff.mp h
      exact Option.some_ne_none result

/-- A loop that starts with a value, or has a tree to get past, does not end without a value. -/
theorem value_ne_none_of_foldlM {cs : List Node} (hstart : m.value ≠ none ∨ cs ≠ [])
    (h : cs.foldlM (next lookup) m = .ok m') : m'.value ≠ none := by
  induction cs generalizing m with
  | nil =>
    cases h
    exact hstart.resolve_right fun hne => hne rfl
  | cons c cs ih =>
    rw [List.foldlM_cons] at h
    obtain ⟨m₁, hnext, h⟩ := bind_eq_ok_iff.mp h
    exact ih (.inl (value_ne_none_of_next hnext)) h

theorem value_ne_none_of_loop {cs : List Node} (hne : cs ≠ []) (h : loop lookup cs = .ok m) :
    m.value ≠ none :=
  value_ne_none_of_foldlM (.inr hne) h

end Midway

/-! ## The loop and the recursion -/

namespace Node

variable {lookup : String → Option Quantity} {value : Quantity}

/-- The step of an operand is the same in a loop, and so is what follows it. -/
theorem foldlM_operand {c : Node} (hc : ¬ c.IsOperator) (cs : List Node) (pending : Option Operator)
    (hrest : ∀ result, (cs.foldlM (Midway.next lookup) ⟨some result, none⟩ >>= Midway.finish) =
      evalAfter lookup result cs) :
    ((c :: cs).foldlM (Midway.next lookup) ⟨some value, pending⟩ >>= Midway.finish) =
      eval lookup c >>= fun x => (pending.getD .multiply).apply value x >>= fun result =>
        evalAfter lookup result cs := by
  rw [List.foldlM_cons, Midway.next_operand hc]
  cases eval lookup c with
  | error error => rfl
  | ok x =>
    show (((pending.getD .multiply).apply value x).map _ >>= _) >>= _ =
      (pending.getD .multiply).apply value x >>= fun result => evalAfter lookup result cs
    cases (pending.getD .multiply).apply value x with
    | error error => rfl
    | ok result => exact hrest result

/-- From a value on, a loop gives what recursion gives. -/
theorem foldlM_eq_evalAfter : ∀ (value : Quantity) (cs : List Node),
    (cs.foldlM (Midway.next lookup) ⟨some value, none⟩ >>= Midway.finish) =
      evalAfter lookup value cs
  | value, [] => by
    rw [evalAfter]
    rfl
  | value, c :: cs => by
    by_cases hc : c.IsOperator
    · obtain ⟨op, rfl⟩ := hc
      cases cs with
      | nil =>
        rw [evalAfter_lone]
        rfl
      | cons d ds =>
        rw [evalAfter_operator]
        show ((d :: ds).foldlM (Midway.next lookup) ⟨some value, some op⟩ >>= Midway.finish) = _
        by_cases hd : d.IsOperator
        · -- the loop stops at the second operator with one still waiting
          obtain ⟨op', rfl⟩ := hd
          rfl
        · exact foldlM_operand hd ds (some op) fun result => foldlM_eq_evalAfter result ds
    · rw [evalAfter_operand hc]
      exact foldlM_operand hc cs none fun result => foldlM_eq_evalAfter result cs

/-- A sequence has the value that a loop over it ends with. -/
theorem evalSequence_eq_loop (cs : List Node) :
    evalSequence lookup cs = Midway.loop lookup cs >>= Midway.finish := by
  unfold Midway.loop
  cases cs with
  | nil =>
    rw [evalSequence]
    rfl
  | cons c cs =>
    rw [evalSequence, List.foldlM_cons]
    by_cases hc : c.IsOperator
    · obtain ⟨op, rfl⟩ := hc
      rfl
    · rw [Midway.next_operand hc]
      cases eval lookup c with
      | error error => rfl
      | ok first => exact (foldlM_eq_evalAfter first cs).symm

end Node

end UnitCalc
