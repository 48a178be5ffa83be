import UnitCalc.Converter
import UnitCalc.Proofs.LeftToRight

/-!
# Proofs: the quantities made in an evaluation

An evaluation makes a quantity for each number and each unit and for each operation that it carries
out. `Node.trace` evaluates as `Node.eval` does and keeps all of them, those of an evaluation that
fails in the end too.
-/

namespace UnitCalc

/-- An outcome with the quantities that were made on the way to it, in order. -/
structure Traced where
  /-- The quantities that were made. -/
  made : List Quantity
  /-- The outcome. -/
  outcome : Except ConversionError Quantity

namespace Traced

/-- A failure before anything is made. -/
def fail (error : ConversionError) : Traced := ⟨[], .error error⟩

/-- One step; the quantity that it gives, if any, is made by it. -/
def step (outcome : Except ConversionError Quantity) : Traced := ⟨outcome.toOption.toList, outcome⟩

/-- Goes on with the quantity that comes out. -/
def bind (t : Traced) (f : Quantity → Traced) : Traced :=
  match t.outcome with
  | .ok q => ⟨t.made ++ (f q).made, (f q).outcome⟩
  | .error error => ⟨t.made, .error error⟩

end Traced

namespace Node

mutual

/-- Evaluates a tree and keeps the quantities that are made. -/
def trace (lookup : String → Option Quantity) : Node → Traced
  | token t => .step (t.eval lookup)
  | group children => traceSequence lookup children

/-- Evaluates a sequence and keeps the quantities that are made. -/
def traceSequence (lookup : String → Option Quantity) : List Node → Traced
  | [] => .fail (.badSyntax .emptyExpression)
  | c :: cs => (trace lookup c).bind fun first => traceAfter lookup first cs

/-- Goes on with the rest of a sequence and keeps the quantities that are made from there on. -/
def traceAfter (lookup : String → Option Quantity) (value : Quantity) : List Node → Traced
  | [] => ⟨[], .ok value⟩
  | [token (.operator op)] => .fail op.lone
  | token (.operator _) :: token (.operator op) :: _ => .fail op.lone
  | token (.operator op) :: c :: cs =>
    (trace lookup c).bind fun operand =>
      (Traced.step (op.apply value operand)).bind fun value => traceAfter lookup value cs
  | c :: cs =>
    (trace lookup c).bind fun operand =>
      (Traced.step (value.multiply operand)).bind fun value => traceAfter lookup value cs

end

end Node

/-- Reduces an expression to base units, under a limit, and keeps the quantities that are made. -/
def traceUnder (limit : Nat) (units : Catalogue) (expression : String) : Traced :=
  match parseGrouped limit expression with
  | .error error => .fail (.badSyntax error)
  | .ok node => node.trace units.lookup?

/-! ## What holds of everything that is made -/

/-- The outcome is `x`, and `p` holds of all quantities that were made. If the outcome is a
quantity, it is one of them or one of those in `before`, which were there already. -/
structure Traced.Keeps (t : Traced) (p : Quantity → Prop) (before : List Quantity)
    (x : Except ConversionError Quantity) : Prop where
  /-- The outcome. -/
  outcome : t.outcome = x
  /-- What holds of the quantities that were made. -/
  made : ∀ q ∈ t.made, p q
  /-- Where the outcome comes from. -/
  result : ∀ q, x = .ok q → q ∈ before ++ t.made

namespace Traced.Keeps

variable {p : Quantity → Prop} {before : List Quantity} {x : Except ConversionError Quantity}

theorem fail (error : ConversionError) : (Traced.fail error).Keeps p before (.error error) where
  outcome := rfl
  made := by simp [Traced.fail]
  result := by simp

theorem done (value : Quantity) : (⟨[], .ok value⟩ : Traced).Keeps p [value] (.ok value) where
  outcome := rfl
  made := by simp
  result q hq := by
    cases hq
    simp

theorem step (h : ∀ q, x = .ok q → p q) : (Traced.step x).Keeps p [] x where
  outcome := rfl
  made q hq := by
    refine h q ?_
    cases x with
    | ok q' =>
      obtain rfl := List.mem_singleton.mp hq
      rfl
    | error _ => cases hq
  result q hq := by
    rw [hq]
    exact List.mem_singleton.mpr rfl

theorem bind {t : Traced} {f : Quantity → Traced} {g : Quantity → Except ConversionError Quantity}
    (ht : t.Keeps p [] x) (hf : ∀ q, (f q).Keeps p [q] (g q)) :
    (t.bind f).Keeps p before (x >>= g) := by
  cases x with
  | error error =>
    have hbind : t.bind f = ⟨t.made, .error error⟩ := by
      unfold Traced.bind
      rw [ht.outcome]
    rw [hbind]
    exact ⟨rfl, ht.made, fun q hq => by cases hq⟩
  | ok value =>
    have hbind : t.bind f = ⟨t.made ++ (f value).made, (f value).outcome⟩ := by
      unfold Traced.bind
      rw [ht.outcome]
    have hvalue : value ∈ t.made := ht.result value rfl
    rw [hbind]
    refine ⟨(hf value).outcome, List.forall_mem_append.mpr ⟨ht.made, (hf value).made⟩,
      fun q hq => List.mem_append_right before ?_⟩
    rcases List.mem_cons.mp ((hf value).result q hq) with rfl | hmade
    · exact List.mem_append_left _ hvalue
    · exact List.mem_append_right _ hmade

end Traced.Keeps

namespace Node

variable {lookup : String → Option Quantity} {value : Quantity}

theorem traceAfter_operator (op : Operator) (c : Node) (cs : List Node) :
    traceAfter lookup value (token (.operator op) :: c :: cs) =
      (trace lookup c).bind fun x =>
        (Traced.step (op.apply value x)).bind fun result => traceAfter lookup result cs := by
  cases c with
  | token t =>
    cases t with
    | number s => rfl
    | unit s => rfl
    | operator op' => rfl
  | group ds => rfl

theorem traceAfter_operand {c : Node} (hc : ¬ c.IsOperator) (cs : List Node) :
    traceAfter lookup value (c :: cs) =
      (trace lookup c).bind fun x =>
        (Traced.step (value.multiply x)).bind fun result => traceAfter lookup result cs := by
  cases c with
  | token t =>
    cases t with
    | number s => rfl
    | unit s => rfl
    | operator op => exact absurd ⟨op, rfl⟩ hc
  | group ds => rfl

/-- Whatever one step of an evaluation gives, `p` holds of it. -/
structure KeptBySteps (lookup : String → Option Quantity) (p : Quantity → Prop) : Prop where
  /-- The quantities that tokens stand for. -/
  token : ∀ {t : Token} {q : Quantity}, t.eval lookup = .ok q → p q
  /-- The results of operations. -/
  operation : ∀ {op : Operator} {a b q : Quantity}, op.apply a b = .ok q → p q

variable {p : Quantity → Prop} {before : List Quantity}

/-- The step of one operand, with the rest of the sequence behind it. -/
theorem KeptBySteps.operand (h : KeptBySteps lookup p) (op : Operator) {c : Node} {cs : List Node}
    (hc : (trace lookup c).Keeps p [] (eval lookup c))
    (hrest : ∀ result,
      (traceAfter lookup result cs).Keeps p [result] (evalAfter lookup result cs)) :
    ((trace lookup c).bind fun x =>
        (Traced.step (op.apply value x)).bind fun result => traceAfter lookup result cs).Keeps p
      before
      (eval lookup c >>= fun x => op.apply value x >>= fun result => evalAfter lookup result cs) :=
  hc.bind fun _ => (Traced.Keeps.step fun _ hq => h.operation hq).bind hrest

mutual

/-- An evaluation has the outcome that it has without a trace, and what its steps keep holds of
everything that is made in it. -/
theorem keeps_trace (h : KeptBySteps lookup p) : ∀ n : Node,
    (trace lookup n).Keeps p [] (eval lookup n)
  | token t => .step fun _ hq => h.token hq
  | group cs => by
    rw [trace, eval]
    exact keeps_traceSequence h cs

theorem keeps_traceSequence (h : KeptBySteps lookup p) : ∀ cs : List Node,
    (traceSequence lookup cs).Keeps p [] (evalSequence lookup cs)
  | [] => .fail _
  | c :: cs => by
    rw [traceSequence, evalSequence]
    exact (keeps_trace h c).bind fun first => keeps_traceAfter h cs first

theorem keeps_traceAfter (h : KeptBySteps lookup p) : ∀ (cs : List Node) (value : Quantity),
    (traceAfter lookup value cs).Keeps p [value] (evalAfter lookup value cs)
  | [], value => by
    rw [traceAfter, evalAfter]
    exact .done value
  | c :: cs, value => by
    by_cases hc : c.IsOperator
    · obtain ⟨op, rfl⟩ := hc
      cases cs with
      | nil =>
        rw [traceAfter, evalAfter]
        exact .fail _
      | cons d ds =>
        rw [traceAfter_operator, evalAfter_operator]
        exact h.operand op (keeps_trace h d) fun result => keeps_traceAfter h ds result
    · rw [traceAfter_operand hc, evalAfter_operand hc]
      exact h.operand .multiply (keeps_trace h c) fun result => keeps_traceAfter h cs result

end

end Node

theorem keeps_traceUnder {limit : Nat} {units : Catalogue} {expression : String}
    {p : Quantity → Prop} (h : Node.KeptBySteps units.lookup? p) :
    (traceUnder limit units expression).Keeps p [] (convertUnder limit units expression) := by
  unfold traceUnder convertUnder
  cases parseGrouped limit expression with
  | error error => exact .fail _
  | ok node => exact Node.keeps_trace h node

end UnitCalc
