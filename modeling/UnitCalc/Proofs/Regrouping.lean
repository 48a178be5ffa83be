import UnitCalc.Proofs.Dissolving
import UnitCalc.Proofs.Interchange

/-!
# Proofs: grouping twice

In a tree that has been grouped, `^` stands in triples only. A second grouping makes the parts of
each triple a triple again, which is then alone in a group; `Node.wrapTriples` does this to all
triples of a tree at once. As a group of a single tree has the value of this tree, the second
grouping changes nothing for the evaluation, even where a triple has no value.
-/

namespace UnitCalc

namespace Node

mutual

/-- Puts one more group around each triple in a tree. -/
def wrapTriples : Node → Node
  | token t => token t
  | group cs =>
    if (group cs).isTriple then group [group (wrapAllTriples cs)] else group (wrapAllTriples cs)

/-- Puts one more group around each triple in some trees. -/
def wrapAllTriples : List Node → List Node
  | [] => []
  | c :: cs => c.wrapTriples :: wrapAllTriples cs

end

/-- When a tree is grouped, its triples are wrapped, and nothing changes for the evaluation. -/
structure Rewraps (g : Node) : Prop where
  /-- What the tree is grouped to. -/
  groups : GroupsInside g g.wrapTriples
  /-- What this evaluates to. -/
  alike : Alike g g.wrapTriples

variable {gs : List Node}

/-! ## One tree -/

theorem rewraps_token (t : Token) : (token t).Rewraps := ⟨.token t, .refl _⟩

theorem wrapTriples_powerTriple (base exponent : Node) :
    (powerTriple base exponent).wrapTriples =
      group [powerTriple base.wrapTriples exponent.wrapTriples] := by
  have htriple := isTriple_powerTriple base exponent
  rw [powerTriple] at htriple ⊢
  rw [wrapTriples, if_pos htriple]
  simp [wrapAllTriples, wrapTriples, powerTriple]

theorem rewraps_powerTriple {base exponent : Node} (hcaret : base ≠ caret) (hbase : base.Rewraps)
    (hexponent : exponent.Rewraps) : (powerTriple base exponent).Rewraps := by
  have hoperator := not_isOperator_powerTriple base.wrapTriples exponent.wrapTriples
  constructor
  · rw [wrapTriples_powerTriple]
    exact .group (.cons hcaret hbase.groups (.power hexponent.groups (.nil _)))
  · rw [wrapTriples_powerTriple]
    exact (hbase.alike.powerTriple hexponent.alike).trans (.brackets hoperator)

theorem wrapTriples_group_of_notMem (h : caret ∉ gs) :
    (group gs).wrapTriples = group (wrapAllTriples gs) := by
  rw [wrapTriples, isTriple_group_of_notMem h, if_neg Bool.false_ne_true]

/-- A sequence without `^` is grouped tree by tree. -/
theorem groups_wrapAllTriples : ∀ {gs : List Node}, caret ∉ gs → (∀ g ∈ gs, g.Rewraps) →
    Groups gs (wrapAllTriples gs)
  | [], _, _ => .nil
  | g :: gs, hcaret, hall => by
    obtain ⟨hg, hgs⟩ := List.forall_mem_cons.mp hall
    rw [List.mem_cons, not_or] at hcaret
    exact .cons (Ne.symm hcaret.1) hg.groups ((groups_wrapAllTriples hcaret.2 hgs).after _)

theorem alike_wrapAllTriples : ∀ {gs : List Node}, (∀ g ∈ gs, g.Rewraps) →
    List.Forall₂ Alike gs (wrapAllTriples gs)
  | [], _ => .nil
  | g :: gs, hall => by
    obtain ⟨hg, hgs⟩ := List.forall_mem_cons.mp hall
    exact .cons hg.alike (alike_wrapAllTriples hgs)

theorem rewraps_group (hcaret : caret ∉ gs) (hall : ∀ g ∈ gs, g.Rewraps) : (group gs).Rewraps := by
  constructor
  · rw [wrapTriples_group_of_notMem hcaret]
    exact .group (groups_wrapAllTriples hcaret hall)
  · rw [wrapTriples_group_of_notMem hcaret]
    exact .group (alike_wrapAllTriples hall)

/-! ## Grouped trees -/

mutual

theorem GroupsInside.rewraps : ∀ {n g : Node}, GroupsInside n g → g.Rewraps
  | _, _, .token t => rewraps_token t
  | _, _, .group h => rewraps_group h.caret_notMem h.rewraps

theorem Groups.rewraps : ∀ {cs gs : List Node}, Groups cs gs → ∀ g ∈ gs, g.Rewraps
  | _, _, .nil => List.forall_mem_nil _
  | _, _, .cons hc h hs => hs.rewraps (h.ne_caret hc) h.rewraps

/-- What is held is no `^`, so that a triple made of it can be grouped once more. -/
theorem GroupsAfter.rewraps : ∀ {held : Node} {cs gs : List Node}, GroupsAfter held cs gs →
    held ≠ caret → held.Rewraps → ∀ g ∈ gs, g.Rewraps
  | _, _, _, .nil held, _, hheld => List.forall_mem_singleton.mpr hheld
  | _, _, _, .power h hs, hcaret, hheld =>
    hs.rewraps Node.noConfusion (rewraps_powerTriple hcaret hheld h.rewraps)
  | _, _, _, .next held hc h hs, _, hheld =>
    List.forall_mem_cons.mpr ⟨hheld, hs.rewraps (h.ne_caret hc) h.rewraps⟩

end

/-- Grouping a grouped tree again wraps its triples, and does not change what the tree is evaluated
to, be it a quantity or an error. A limit that is great enough is not reached. -/
theorem eval_groupPowers_twice {n g : Node} {unreached : Nat}
    (h : n.groupPowers unreached = .ok g) :
    (∀ limit, g.size ≤ limit → g.groupPowers limit ≠ .error (.nestingTooDeep limit)) ∧
    (∀ limit, g.groupPowers limit ≠ .error (.nestingTooDeep limit) →
      g.groupPowers limit = .ok g.wrapTriples) ∧
    ∀ lookup, g.wrapTriples.eval lookup = g.eval lookup := by
  have hrewraps := (groupsInside_of_groupPowers h).rewraps
  refine ⟨fun limit hlimit => groupPowers_not_tooDeep hlimit, fun limit hlimit => ?_,
    fun lookup => ?_⟩
  · exact hrewraps.groups.groupPowers_eq_ok hlimit
  · exact (hrewraps.alike.eval_eq lookup).symm

/-- `a ^ b ^ c * ^ ^` is a chain of powers and a power of operators, which has no value. -/
theorem eval_groupPowers_twice_chain :
    let a := token (.unit "a")
    let b := token (.unit "b")
    let c := token (.unit "c")
    let times := token (.operator .multiply)
    let once := group [powerTriple (powerTriple a b) c, powerTriple times caret]
    let twice := group [group [powerTriple (group [powerTriple a b]) c],
      group [powerTriple times caret]]
    (group [a, caret, b, caret, c, times, caret, caret]).groupPowers 2 = .ok once ∧
      once.groupPowers 4 = .ok twice ∧
      ∀ lookup, twice.eval lookup = once.eval lookup := by
  intro a b c times once twice
  have h : (group [a, caret, b, caret, c, times, caret, caret]).groupPowers 2 = .ok once := rfl
  have hwrap : once.wrapTriples = twice := rfl
  obtain ⟨-, hgroup, heval⟩ := eval_groupPowers_twice h
  rw [hwrap] at hgroup heval
  exact ⟨h, hgroup 4 (by rintro ⟨⟩), heval⟩

end Node

end UnitCalc
