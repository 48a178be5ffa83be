import UnitCalc.Proofs.Agreement
import UnitCalc.Proofs.NestingLimit

/-!
# Proofs: raising the nesting limit

A limit is looked at only where something nests too deep for it. Until then a run under a greater
limit takes the same steps, so that it has the same outcome unless the smaller limit was the reason
for a failure. This holds of reading and of grouping on its own, and of the conversion made of them.
-/

namespace UnitCalc

open Node

variable {limit limit' : Nat}

/-! ## Reading -/

theorem agrees_sequence (hle : limit ≤ limit') (cs : List Char) : ∀ depth position : Nat,
    AgreesUnless (· = .tooDeep) (sequence limit depth position cs)
      (sequence limit' depth position cs) := by
  induction cs using pieceInduction with
  | nil =>
    intro depth position
    rw [sequence_of_nil rfl, sequence_of_nil rfl]
    exact .refl _
  | blank hblank ih =>
    intro depth position
    rw [sequence_cons_of_isBlank hblank, sequence_cons_of_isBlank hblank]
    exact ih _ _
  | unclosed hclose =>
    intro depth position
    rw [sequence_opener_of_error hclose, sequence_opener_of_error hclose]
    exact .refl _
  | @bracket b inner cs hi ihi ih =>
    intro depth position
    rw [sequence_bracket b hi, sequence_bracket b hi]
    by_cases hlimit : limit ≤ depth
    · rw [if_pos hlimit]
      exact .failed rfl rfl
    · -- a depth that the smaller limit allows is allowed by the greater one
      rw [if_neg hlimit, if_neg (by omega)]
      cases ihi (depth + 1) (position + 1) with
      | failed hdeep herror =>
        rw [herror]
        exact .failed hdeep rfl
      | same hinner =>
        rw [hinner]
        split
        · exact .refl _
        · exact .refl _
        · exact (ih _ _).map
  | closer b =>
    intro depth position
    rw [sequence_closer, sequence_closer]
    exact .refl _
  | noToken hblank ho hc hscan =>
    intro depth position
    rw [sequence_of_scan?_eq_none hblank ho hc hscan, sequence_of_scan?_eq_none hblank ho hc hscan]
    exact .refl _
  | token hscan ih =>
    intro depth position
    rw [sequence_of_scan? hscan, sequence_of_scan? hscan]
    exact (ih _ _).map

/-- Only the error about the nesting has the limit in it. -/
theorem ReadingFault.toError_eq {fault : ReadingFault} (h : fault ≠ .tooDeep)
    (expression : List Char) : fault.toError limit' expression = fault.toError limit expression := by
  cases fault with
  | tooDeep => exact absurd rfl h
  | _ => rfl

theorem agrees_parse (hle : limit ≤ limit') (expression : String) :
    AgreesUnless (· = .nestingTooDeep limit) (parse limit expression) (parse limit' expression) := by
  unfold parse
  cases agrees_sequence hle expression.toList 0 0 with
  | failed hdeep herror =>
    rw [herror, hdeep]
    exact .failed rfl rfl
  | same heq =>
    rw [heq]
    cases sequence limit 0 0 expression.toList with
    | ok cs => exact .refl _
    | error fault =>
      by_cases hdeep : fault = .tooDeep
      · rw [hdeep]
        exact .failed rfl rfl
      · exact .same (congrArg Except.error (ReadingFault.toError_eq hdeep _))

/-! ## Grouping -/

mutual

theorem agrees_groupInside (hle : limit ≤ limit') : ∀ (depth : Nat) (n : Node),
    AgreesUnless (· = .nestingTooDeep limit) (groupInside limit depth n)
      (groupInside limit' depth n)
  | depth, token t => .refl _
  | depth, group cs => by
    rw [groupInside, groupInside]
    exact (agrees_groupSequence hle (depth + 1) cs).map

theorem agrees_groupSequence (hle : limit ≤ limit') : ∀ (depth : Nat) (cs : List Node),
    AgreesUnless (· = .nestingTooDeep limit) (groupSequence limit depth cs)
      (groupSequence limit' depth cs)
  | depth, [] => .refl _
  | depth, c :: cs => by
    by_cases hc : c = caret
    · rw [hc, groupSequence, groupSequence]
      exact .refl _
    · rw [groupSequence_cons hc, groupSequence_cons hc]
      exact (agrees_groupInside hle depth c).bind fun g => agrees_groupAfter hle depth g cs

theorem agrees_groupAfter (hle : limit ≤ limit') : ∀ (depth : Nat) (held : Node) (cs : List Node),
    AgreesUnless (· = .nestingTooDeep limit) (groupAfter limit depth held cs)
      (groupAfter limit' depth held cs)
  | depth, held, [] => by
    rw [groupAfter, groupAfter]
    exact .refl _
  | depth, held, c :: cs => by
    by_cases hc : c = caret
    · subst hc
      cases cs with
      | nil =>
        rw [groupAfter, groupAfter]
        exact .refl _
      | cons e cs =>
        rw [groupAfter_power, groupAfter_power]
        refine (agrees_groupInside hle depth e).bind fun g => ?_
        by_cases hdeep : limit < depth + (powerTriple held g).height
        · rw [if_pos hdeep]
          exact .failed rfl rfl
        · rw [if_neg hdeep, if_neg (by omega)]
          exact agrees_groupAfter hle depth (powerTriple held g) cs
    · rw [groupAfter_next hc, groupAfter_next hc]
      exact (agrees_groupInside hle depth c).bind fun g =>
        (agrees_groupAfter hle depth g cs).bind fun _ => .refl _

end

theorem agrees_groupPowers (hle : limit ≤ limit') (n : Node) :
    AgreesUnless (· = .nestingTooDeep limit) (groupPowers limit n) (groupPowers limit' n) := by
  cases n with
  | token t => exact .refl _
  | group cs => exact (agrees_groupSequence hle 0 cs).map

/-! ## Whole expressions -/

theorem agrees_parseGrouped (hle : limit ≤ limit') (expression : String) :
    AgreesUnless (· = .nestingTooDeep limit) (parseGrouped limit expression)
      (parseGrouped limit' expression) := by
  unfold parseGrouped
  refine (agrees_parse hle expression).bind fun n => ?_
  split
  · exact .refl _
  · exact agrees_groupPowers hle _

/-- A greater limit changes nothing about a conversion, be its outcome a quantity or an error, unless
the smaller limit was what it failed for. -/
theorem convertUnder_of_limit_le (units : Catalogue) (expression : String) {limit limit' : Nat}
    (hle : limit ≤ limit')
    (h : convertUnder limit units expression ≠ .error (.badSyntax (.nestingTooDeep limit))) :
    convertUnder limit' units expression = convertUnder limit units expression := by
  have hparse := (agrees_parseGrouped hle expression).eq fun error hdeep herror => by
    refine h ?_
    unfold convertUnder
    rw [herror, hdeep]
  unfold convertUnder
  rw [hparse]

/-- A character that starts no token is found in front of brackets that are too deep. -/
theorem convertUnder_of_limit_le_noToken :
    1 ≤ 3 ∧
    convertUnder 1 .empty "2(µm # ((3)))" =
      .error (.badSyntax (.noToken 5 "# ((3)))")) ∧
    convertUnder 3 .empty "2(µm # ((3)))" =
      .error (.badSyntax (.noToken 5 "# ((3)))")) := by
  have hone : convertUnder 1 .empty "2(µm # ((3)))" =
      .error (.badSyntax (.noToken 5 "# ((3)))")) := by with_unfolding_all rfl
  have hle : 1 ≤ 3 := by decide
  have hthree := convertUnder_of_limit_le .empty "2(µm # ((3)))" hle (by simp [hone])
  exact ⟨hle, hone, hthree.trans hone⟩

end UnitCalc
