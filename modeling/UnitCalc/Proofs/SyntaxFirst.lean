import UnitCalc.Proofs.SequenceLoop
import UnitCalc.Proofs.WrittenForms

/-!
# Proofs: syntax is decided first

An error in the form of an expression is found when it is read and when its powers are grouped, and
no catalogue is there yet to have a say in it. Evaluation has one error of this kind, for a sequence
without a value; it needs an empty group, and neither reading nor grouping makes one.
-/

namespace UnitCalc

open Text

/-! ## Evaluation finds no fault in the form -/

/-- A computation that does not fail for the form of an expression. -/
def PastSyntax (x : Except ConversionError Quantity) : Prop := ∀ error, x ≠ .error (.badSyntax error)

namespace PastSyntax

theorem ok (q : Quantity) : PastSyntax (.ok q) := fun _ h => by cases h

theorem bind {x : Except ConversionError Quantity} {f : Quantity → Except ConversionError Quantity}
    (hx : PastSyntax x) (hf : ∀ q, PastSyntax (f q)) : PastSyntax (x >>= f) := by
  intro error h
  rcases bind_eq_error_iff.mp h with h | ⟨q, -, h⟩
  · exact hx error h
  · exact hf q error h

theorem lone (op : Operator) : PastSyntax (.error op.lone) := fun _ h => by cases h

theorem apply (op : Operator) (a b : Quantity) : PastSyntax (op.apply a b) := by
  intro error h
  rcases Operator.error_of_apply h with h | ⟨_, h⟩ | ⟨_, h⟩ <;> cases h

theorem token (lookup : String → Option Quantity) (t : Token) : PastSyntax (t.eval lookup) := by
  intro error h
  unfold Token.eval at h
  split at h
  · split at h <;> cases h
  · split at h <;> cases h
  · cases h

end PastSyntax

namespace Node

variable {lookup : String → Option Quantity}

mutual

/-- A tree without empty groups has no fault in its form that evaluation could find. -/
theorem pastSyntax_eval : ∀ n : Node, n.WellFormed → PastSyntax (eval lookup n)
  | token t, _ => .token lookup t
  | group cs, h => by
    rw [eval]
    cases h with
    | group hne hcs => exact pastSyntax_evalSequence cs hne hcs

theorem pastSyntax_evalSequence : ∀ cs : List Node, cs ≠ [] → (∀ c ∈ cs, c.WellFormed) →
    PastSyntax (evalSequence lookup cs)
  | [], hne, _ => absurd rfl hne
  | c :: cs, _, hcs => by
    obtain ⟨hc, hcs⟩ := List.forall_mem_cons.mp hcs
    rw [evalSequence]
    exact (pastSyntax_eval c hc).bind fun first => pastSyntax_evalAfter cs hcs first

theorem pastSyntax_evalAfter : ∀ cs : List Node, (∀ c ∈ cs, c.WellFormed) → ∀ value,
    PastSyntax (evalAfter lookup value cs)
  | [], _, value => by
    rw [evalAfter]
    exact .ok value
  | c :: cs, hall, value => by
    obtain ⟨hc, hcs⟩ := List.forall_mem_cons.mp hall
    by_cases hop : c.IsOperator
    · obtain ⟨op, rfl⟩ := hop
      cases cs with
      | nil =>
        rw [evalAfter_lone]
        exact .lone op
      | cons d ds =>
        obtain ⟨hd, hds⟩ := List.forall_mem_cons.mp hcs
        rw [evalAfter_operator]
        exact (pastSyntax_eval d hd).bind fun x => (PastSyntax.apply op value x).bind fun result =>
          pastSyntax_evalAfter ds hds result
    · rw [evalAfter_operand hop]
      exact (pastSyntax_eval c hc).bind fun x =>
        (PastSyntax.apply .multiply value x).bind fun result => pastSyntax_evalAfter cs hcs result

end

/-! ## Blank expressions -/

theorem reads_nil_iff {cs : List Char} : Reads cs [] ↔ ∀ c ∈ cs, isBlank c = true := by
  constructor
  · intro h c hc
    by_contra hblank
    exact h.ne_nil ⟨c, hc, by simpa using hblank⟩ rfl
  · intro h
    have hblanks := Reads.blanks h .nil
    rwa [List.append_nil] at hblanks

theorem parse_eq_ok_nil_iff {limit : Nat} {expression : String} :
    parse limit expression = .ok (group []) ↔ ∀ c ∈ expression.toList, isBlank c = true := by
  rw [parse_eq_ok_iff, ← reads_nil_iff]
  constructor
  · rintro ⟨ns, heq, hr, -⟩
    cases heq
    exact hr
  · intro h
    exact ⟨[], rfl, h, Nat.zero_le limit⟩

end Node

open Node

theorem parse_ne_emptyExpression {limit : Nat} {expression : String} :
    parse limit expression ≠ .error .emptyExpression := by
  unfold parse
  split
  · simp
  · rename_i fault _
    cases fault <;> simp [ReadingFault.toError]

/-! ## Whole expressions -/

variable {limit : Nat} {units : Catalogue} {expression : String}

theorem wellFormed_of_parseGrouped {g : Node} (h : parseGrouped limit expression = .ok g) :
    g.WellFormed := by
  obtain ⟨cs, gs, hne, hr, hg, rfl, -⟩ := parseGrouped_eq_ok h
  exact .group (hg.ne_nil hne) (hg.wellFormed hr.wellFormed)

theorem convertUnder_eq_badSyntax_iff {error : SyntaxError} :
    convertUnder limit units expression = .error (.badSyntax error) ↔
      parseGrouped limit expression = .error error := by
  unfold convertUnder
  cases hparse : parseGrouped limit expression with
  | error error' => simp
  | ok g =>
    have heval : PastSyntax (eval units.lookup? g) :=
      pastSyntax_eval g (wellFormed_of_parseGrouped hparse)
    simpa using heval error

theorem parseGrouped_eq_emptyExpression_iff :
    parseGrouped limit expression = .error .emptyExpression ↔
      ∀ c ∈ expression.toList, isBlank c = true := by
  rw [← @parse_eq_ok_nil_iff limit]
  constructor
  · intro h
    cases hparse : parse limit expression with
    | error error =>
      unfold parseGrouped at h
      rw [hparse] at h
      cases h
      exact absurd hparse parse_ne_emptyExpression
    | ok n =>
      obtain ⟨cs, rfl, -⟩ := reads_of_parse hparse
      by_cases hne : cs = []
      · rw [hne]
      · -- a sequence that is not empty is grouped, and grouping fails for other reasons
        rw [parseGrouped_of_parse hparse hne] at h
        rcases isGroupingError_of_groupPowers h with h | h <;> cases h
  · intro h
    unfold parseGrouped
    rw [h]
    rfl

/-- An error in the form of an expression does not depend on the catalogue. Reading and grouping
leave no group empty, and then evaluation has no such error; in particular a loop over a sequence
that is not empty never ends without a value. The expression is empty exactly when it is blank. -/
theorem syntax_decided_first (limit : Nat) (expression : String) :
    (∀ (units units' : Catalogue) (error : SyntaxError),
      convertUnder limit units expression = .error (.badSyntax error) ↔
        convertUnder limit units' expression = .error (.badSyntax error)) ∧
    (∀ g, parseGrouped limit expression = .ok g → g.WellFormed ∧
      ∀ lookup error, g.eval lookup ≠ .error (.badSyntax error)) ∧
    (∀ lookup cs, evalSequence lookup cs = Midway.loop lookup cs >>= Midway.finish ∧
      (cs ≠ [] → ∀ m, Midway.loop lookup cs = .ok m → m.value ≠ none)) ∧
    ∀ units, convertUnder limit units expression = .error (.badSyntax .emptyExpression) ↔
      ∀ c ∈ expression.toList, isBlank c = true := by
  refine ⟨fun units units' error => ?_, fun g hg => ?_, fun lookup cs => ?_, fun units => ?_⟩
  · rw [convertUnder_eq_badSyntax_iff, convertUnder_eq_badSyntax_iff]
  · have hwell := wellFormed_of_parseGrouped hg
    exact ⟨hwell, fun lookup => pastSyntax_eval g hwell⟩
  · exact ⟨evalSequence_eq_loop cs, fun hne m => Midway.value_ne_none_of_loop hne⟩
  · rw [convertUnder_eq_badSyntax_iff, parseGrouped_eq_emptyExpression_iff]

/-- A power of a group, and a loop over a sequence that ends in an operator. -/
theorem syntax_decided_first_square :
    let square := powerTriple (group [token (.unit "m")]) (token (.number "2"))
    let half : Midway := ⟨some (.scalar 1.0), some .divide⟩
    parseGrouped 2 "[m]^2" = .ok (group [square]) ∧ (group [square]).WellFormed ∧
      (group [square]).eval (fun _ => none) ≠ .error (.badSyntax .emptyExpression) ∧
    Midway.loop (fun _ => some (.scalar 1.0)) [token (.unit "m"), token (.operator .divide)] =
      .ok half ∧ half.value ≠ none := by
  intro square half
  have hparse : parse 2 "[m]^2" =
      .ok (group [group [token (.unit "m")], token (.operator .power), token (.number "2")]) := by
    with_unfolding_all rfl
  have hgrouped : parseGrouped 2 "[m]^2" = .ok (group [square]) := by
    unfold parseGrouped
    rw [hparse]
    rfl
  have hloop : Midway.loop (fun _ => some (.scalar 1.0))
      [token (.unit "m"), token (.operator .divide)] = .ok half := rfl
  obtain ⟨-, hgroups, hloops, -⟩ := syntax_decided_first 2 "[m]^2"
  obtain ⟨hwell, heval⟩ := hgroups _ hgrouped
  exact ⟨hgrouped, hwell, heval _ _, hloop, (hloops _ _).2 (List.cons_ne_nil _ _) _ hloop⟩

end UnitCalc
