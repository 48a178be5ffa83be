import UnitCalc.Converter
import UnitCalc.Proofs.Groupings
import UnitCalc.Proofs.Readings

/-!
# Proofs: the nesting limit

Reading counts brackets and grouping counts powers, each against the same limit. Together they let
exactly those expressions through whose grouped tree nests within the limit.
-/

namespace UnitCalc

open Node

theorem parseGrouped_of_parse {limit : Nat} {expression : String} {cs : List Node}
    (h : parse limit expression = .ok (group cs)) (hne : cs ≠ []) :
    parseGrouped limit expression = groupPowers limit (group cs) := by
  unfold parseGrouped
  rw [h]
  cases cs with
  | nil => exact absurd rfl hne
  | cons c cs => rfl

/-- Under a limit, an expression becomes its grouped tree when this nests within the limit, and is
refused for its depth otherwise. -/
theorem parseGrouped_of_reads {expression : String} {cs gs : List Node}
    (hr : Reads expression.toList cs) (hne : cs ≠ []) (hg : Groups cs gs) (limit : Nat) :
    parseGrouped limit expression =
      if (group gs).nestingDepth ≤ limit then .ok (group gs)
      else .error (.nestingTooDeep limit) := by
  have hgrow : (group cs).nestingDepth ≤ (group gs).nestingDepth := hg.maxHeight_le
  by_cases hread : (group cs).nestingDepth ≤ limit
  · have hparse : parse limit expression = .ok (group cs) := by rw [parse_of_reads hr, if_pos hread]
    rw [parseGrouped_of_parse hparse hne, groupPowers_of_groups hg hread]
  · have hparse : parse limit expression = .error (.nestingTooDeep limit) := by
      rw [parse_of_reads hr, if_neg hread]
    rw [if_neg (by omega)]
    unfold parseGrouped
    rw [hparse]
    rfl

theorem parseGrouped_eq_ok {limit : Nat} {expression : String} {g : Node}
    (h : parseGrouped limit expression = .ok g) :
    ∃ cs gs, cs ≠ [] ∧ Reads expression.toList cs ∧ Groups cs gs ∧ g = group gs ∧
      g.nestingDepth ≤ limit := by
  cases hparse : parse limit expression with
  | error e =>
    unfold parseGrouped at h
    rw [hparse] at h
    cases h
  | ok n =>
    obtain ⟨cs, rfl, hr⟩ := reads_of_parse hparse
    by_cases hne : cs = []
    · unfold parseGrouped at h
      rw [hparse, hne] at h
      cases h
    · have hgroup := h
      rw [parseGrouped_of_parse hparse hne] at hgroup
      cases groupsInside_of_groupPowers hgroup with
      | @group _ gs hg =>
        rw [parseGrouped_of_reads hr hne hg] at h
        split at h
        · exact ⟨cs, gs, hne, hr, hg, rfl, by assumption⟩
        · cases h

namespace Converter

/-- A converter lets exactly those expressions through whose grouped tree nests within the limit it
keeps, and nothing else reaches evaluation. -/
theorem parse_withLimit_exact (c : Converter) (n : Nat) (expression : String) :
    let d := min n greatestNestingLimit
    (c.withLimit n).limit = d ∧
    (∀ (l l' : Nat) (cs : List Node) (g : Node), Node.parse l expression = .ok (group cs) →
      cs ≠ [] → groupPowers l' (group cs) = .ok g →
      (g.nestingDepth ≤ d → (c.withLimit n).parse expression = .ok g) ∧
      (d < g.nestingDepth →
        (c.withLimit n).parse expression = .error (.nestingTooDeep d) ∧
        (c.withLimit n).convert expression = .error (.badSyntax (.nestingTooDeep d)))) ∧
    ∀ g, (c.withLimit n).parse expression = .ok g →
      g.nestingDepth ≤ d ∧ (c.withLimit n).convert expression = g.eval c.units.lookup? := by
  intro d
  refine ⟨rfl, ?_, ?_⟩
  · intro l l' cs g hparse hne hgroup
    obtain ⟨cs', heq, hr⟩ := reads_of_parse hparse
    cases heq
    cases groupsInside_of_groupPowers hgroup with
    | @group _ gs hg =>
      have hwhole := parseGrouped_of_reads hr hne hg d
      constructor
      · intro hd
        rw [if_pos hd] at hwhole
        exact hwhole
      · intro hd
        rw [if_neg (Nat.not_le.mpr hd)] at hwhole
        refine ⟨hwhole, ?_⟩
        show convertUnder d c.units expression = _
        unfold convertUnder
        rw [hwhole]
  · intro g h
    obtain ⟨-, -, -, -, -, -, hd⟩ := parseGrouped_eq_ok h
    refine ⟨hd, ?_⟩
    show convertUnder d c.units expression = _
    change parseGrouped d expression = .ok g at h
    unfold convertUnder
    rw [h]

/-- A power in brackets as the base of a power nests three deep, and only two of them are seen when
it is read. -/
theorem parse_withLimit_power_of_power :
    let square := powerTriple (token (.number "2")) (token (.number "3"))
    let tree := group [powerTriple (group [square]) (token (.number "4"))]
    ((⟨.empty, 64⟩ : Converter).withLimit 3).parse "(2^3)^4" = .ok tree ∧
    ((⟨.empty, 64⟩ : Converter).withLimit 2).parse "(2^3)^4" = .error (.nestingTooDeep 2) := by
  intro square tree
  have hparse : Node.parse 1 "(2^3)^4" = .ok (group [group [token (.number "2"), caret,
      token (.number "3")], caret, token (.number "4")]) := by cbv
  have hgroup : groupPowers 3 (group [group [token (.number "2"), caret,
      token (.number "3")], caret, token (.number "4")]) = .ok tree := by cbv
  have hthree := (parse_withLimit_exact ⟨.empty, 64⟩ 3 "(2^3)^4").2.1 1 3 _ tree hparse
    (List.cons_ne_nil _ _) hgroup
  have htwo := (parse_withLimit_exact ⟨.empty, 64⟩ 2 "(2^3)^4").2.1 1 3 _ tree hparse
    (List.cons_ne_nil _ _) hgroup
  exact ⟨hthree.1 (by decide), (htwo.2 (by decide)).1⟩

end Converter

end UnitCalc
