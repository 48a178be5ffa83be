import Mathlib.Data.List.Forall2
import UnitCalc.Proofs.Precedence

/-!
# Proofs: trees that can take each other's place

What a tree means to the sequence it stands in is its value, and whether it is an operator. Trees
that agree in both after grouping can be exchanged anywhere in an expression. A tree that is not an
operator can be exchanged for itself in brackets, as a base, an exponent or any other operand, and
this changes neither the value of the expression nor the error.
-/

namespace UnitCalc

namespace Node

/-- Two grouped trees that the sequences they stand in cannot tell apart. -/
structure Alike (n n' : Node) : Prop where
  /-- An operator is only like itself. -/
  operator : n.IsOperator ∨ n'.IsOperator → n = n'
  /-- They have the same value, or the same error. -/
  eval_eq : ∀ lookup, eval lookup n = eval lookup n'

/-- Wherever the first tree can be grouped, the second can be too, and to something alike. -/
structure Replaceable (n n' : Node) : Prop where
  /-- An operator can be replaced by itself only. -/
  operator : n.IsOperator ∨ n'.IsOperator → n = n'
  /-- What is grouped from the one has its like among what is grouped from the other. -/
  groups : ∀ {g : Node}, GroupsInside n g → ∃ g', GroupsInside n' g' ∧ Alike g g'

/-- The second of two trees is the first one with `d` in the place of one occurrence of `c`. -/
inductive Exchanges (c d : Node) : Node → Node → Prop where
  /-- The occurrence is the whole tree. -/
  | here : Exchanges c d c d
  /-- The occurrence is in one of the trees that a group is made of. -/
  | inside (front : List Node) {n n' : Node} (behind : List Node) (h : Exchanges c d n n') :
      Exchanges c d (group (front ++ n :: behind)) (group (front ++ n' :: behind))

/-- Groups the powers of a tree under a limit, and evaluates what comes out. -/
def outcome (limit : Nat) (lookup : String → Option Quantity) (n : Node) :
    Except ConversionError Quantity :=
  match n.groupPowers limit with
  | .error error => .error (.badSyntax error)
  | .ok g => g.eval lookup

variable {limit : Nat} {lookup : String → Option Quantity} {c d n n' : Node} {cs cs' gs : List Node}

/-! ## Grouped trees -/

namespace Alike

theorem refl (n : Node) : Alike n n := ⟨fun _ => rfl, fun _ => rfl⟩

theorem symm (h : Alike n n') : Alike n' n where
  operator hop := (h.operator hop.symm).symm
  eval_eq lookup := (h.eval_eq lookup).symm

theorem trans {n'' : Node} (h : Alike n n') (h' : Alike n' n'') : Alike n n'' where
  operator := by
    rintro (hop | hop)
    · obtain rfl := h.operator (.inl hop)
      exact h'.operator (.inl hop)
    · obtain rfl := h'.operator (.inr hop)
      exact h.operator (.inr hop)
  eval_eq lookup := (h.eval_eq lookup).trans (h'.eval_eq lookup)

theorem isOperator_iff (h : Alike n n') : n.IsOperator ↔ n'.IsOperator := by
  constructor
  · intro hn
    rwa [← h.operator (.inl hn)]
  · intro hn'
    rwa [h.operator (.inr hn')]

/-- Trees that are not operators need the same value only. -/
theorem of_not_isOperator (hn : ¬ n.IsOperator) (hn' : ¬ n'.IsOperator)
    (h : ∀ lookup, eval lookup n = eval lookup n') : Alike n n' where
  operator hop := absurd hop (not_or.mpr ⟨hn, hn'⟩)
  eval_eq := h

theorem evalAfter_eq : ∀ {gs gs' : List Node}, List.Forall₂ Alike gs gs' → ∀ value,
    evalAfter lookup value gs = evalAfter lookup value gs'
  | [], _, .nil, value => rfl
  | g :: gs, g' :: _, .cons h hs, value => by
    by_cases hg : g.IsOperator
    · obtain rfl := h.operator (.inl hg)
      obtain ⟨op, rfl⟩ := hg
      cases hs with
      | nil => rfl
      | cons h hs =>
        rw [evalAfter_operator, evalAfter_operator, h.eval_eq]
        exact bind_congr fun x => bind_congr fun result => evalAfter_eq hs result
    · have hg' : ¬ g'.IsOperator := fun hg' => hg (h.isOperator_iff.mpr hg')
      rw [evalAfter_operand hg, evalAfter_operand hg', h.eval_eq]
      exact bind_congr fun x => bind_congr fun result => evalAfter_eq hs result

theorem group {gs gs' : List Node} (h : List.Forall₂ Alike gs gs') :
    Alike (group gs) (group gs') := by
  refine .of_not_isOperator (not_isOperator_group _) (not_isOperator_group _) fun lookup => ?_
  rw [eval, eval]
  cases h with
  | nil => rfl
  | cons h hs =>
    rw [evalSequence, evalSequence, h.eval_eq]
    exact bind_congr fun first => evalAfter_eq hs first

theorem powerTriple {base base' exponent exponent' : Node} (hbase : Alike base base')
    (hexponent : Alike exponent exponent') :
    Alike (powerTriple base exponent) (powerTriple base' exponent') :=
  .group (.cons hbase (.cons (.refl caret) (.cons hexponent .nil)))

theorem brackets (hn : ¬ n.IsOperator) : Alike n (.group [n]) :=
  .of_not_isOperator hn (not_isOperator_group _) fun _ => (eval_group_singleton n).symm

end Alike

/-! ## Trees before they are grouped -/

namespace Replaceable

theorem refl (n : Node) : Replaceable n n where
  operator _ := rfl
  groups h := ⟨_, h, .refl _⟩

theorem caret_iff (h : Replaceable n n') : n = caret ↔ n' = caret := by
  constructor
  · rintro rfl
    exact (h.operator (.inl ⟨.power, rfl⟩)).symm
  · rintro rfl
    exact h.operator (.inr ⟨.power, rfl⟩)

theorem exists_groupsAfter : ∀ {held held' : Node} {cs cs' gs : List Node},
    GroupsAfter held cs gs → Alike held held' → List.Forall₂ Replaceable cs cs' →
      ∃ gs', GroupsAfter held' cs' gs' ∧ List.Forall₂ Alike gs gs'
  | _, held', _, _, _, .nil _, hheld, .nil => ⟨[held'], .nil held', .cons hheld .nil⟩
  | _, held', _, _, _, .power h hs, hheld, .cons hcaret (.cons he hcs) => by
    obtain rfl := hcaret.caret_iff.mp rfl
    obtain ⟨g', hg', halike⟩ := he.groups h
    obtain ⟨gs', hgs', hrest⟩ := exists_groupsAfter hs (hheld.powerTriple halike) hcs
    exact ⟨gs', .power hg' hgs', hrest⟩
  | _, held', _, _, _, .next _ hc h hs, hheld, .cons hreplace hcs => by
    obtain ⟨g', hg', halike⟩ := hreplace.groups h
    obtain ⟨gs', hgs', hrest⟩ := exists_groupsAfter hs halike hcs
    have hc' : _ ≠ caret := fun hcaret => hc (hreplace.caret_iff.mpr hcaret)
    exact ⟨held' :: gs', .next held' hc' hg' hgs', .cons hheld hrest⟩

theorem exists_groups (h : Groups cs gs) (hcs : List.Forall₂ Replaceable cs cs') :
    ∃ gs', Groups cs' gs' ∧ List.Forall₂ Alike gs gs' := by
  cases h with
  | nil =>
    cases hcs
    exact ⟨[], .nil, .nil⟩
  | cons hc h hs =>
    cases hcs with
    | cons hreplace hcs =>
      obtain ⟨g', hg', halike⟩ := hreplace.groups h
      obtain ⟨gs', hgs', hrest⟩ := exists_groupsAfter hs halike hcs
      exact ⟨gs', .cons (fun hcaret => hc (hreplace.caret_iff.mpr hcaret)) hg' hgs', hrest⟩

theorem group (h : List.Forall₂ Replaceable cs cs') : Replaceable (group cs) (group cs') where
  operator := by
    rintro (hop | hop)
    · exact absurd hop (not_isOperator_group cs)
    · exact absurd hop (not_isOperator_group cs')
  groups := by
    rintro _ (_ | ⟨hgs⟩)
    obtain ⟨gs', hgs', halike⟩ := exists_groups hgs h
    exact ⟨_, .group hgs', .group halike⟩

theorem exchanges (h : Replaceable c d) (hn : Exchanges c d n n') : Replaceable n n' := by
  induction hn with
  | here => exact h
  | inside front behind _ ih =>
    have hsame : ∀ ns : List Node, List.Forall₂ Replaceable ns ns := fun ns =>
      List.forall₂_same.mpr fun n _ => .refl n
    exact .group (List.rel_append (hsame front) (.cons ih (hsame behind)))

end Replaceable

theorem Exchanges.symm (h : Exchanges c d n n') : Exchanges d c n' n := by
  induction h with
  | here => exact .here
  | inside front behind _ ih => exact .inside front behind ih

/-! ## Outcomes -/

theorem GroupsInside.groupPowers_eq_ok {g : Node} (h : GroupsInside n g)
    (hlimit : n.groupPowers limit ≠ .error (.nestingTooDeep limit)) :
    n.groupPowers limit = .ok g :=
  (groupPowers_of_groupsInside h).resolve_right hlimit

theorem groupPowers_eq_lone (h : ∀ g, ¬ GroupsInside n g)
    (hlimit : n.groupPowers limit ≠ .error (.nestingTooDeep limit)) :
    n.groupPowers limit = .error (.loneOperator Operator.power.symbol) := by
  cases hgroup : n.groupPowers limit with
  | ok g => exact absurd (groupsInside_of_groupPowers hgroup) (h g)
  | error error =>
    rcases isGroupingError_of_groupPowers hgroup with rfl | rfl
    · rfl
    · exact absurd hgroup hlimit

/-- Trees that can replace each other have the same outcome under limits that are not reached. -/
theorem outcome_eq_of_replaceable {limit' : Nat} (h : Replaceable n n') (h' : Replaceable n' n)
    (hlimit : n.groupPowers limit ≠ .error (.nestingTooDeep limit))
    (hlimit' : n'.groupPowers limit' ≠ .error (.nestingTooDeep limit')) :
    n'.outcome limit' lookup = n.outcome limit lookup := by
  unfold outcome
  by_cases hgroups : ∃ g, GroupsInside n g
  · obtain ⟨g, hg⟩ := hgroups
    obtain ⟨g', hg', halike⟩ := h.groups hg
    rw [hg.groupPowers_eq_ok hlimit, hg'.groupPowers_eq_ok hlimit']
    exact (halike.eval_eq lookup).symm
  · have hnone' : ∀ g', ¬ GroupsInside n' g' := by
      intro g' hg'
      obtain ⟨g, hg, -⟩ := h'.groups hg'
      exact hgroups ⟨g, hg⟩
    rw [groupPowers_eq_lone (not_exists.mp hgroups) hlimit, groupPowers_eq_lone hnone' hlimit']

/-- Brackets around a single tree are a group of the tree that would stand there without them. -/
theorem groupsInside_brackets_iff {g : Node} (hc : ¬ c.IsOperator) :
    GroupsInside (group [c]) g ↔ ∃ g', GroupsInside c g' ∧ g = group [g'] := by
  have hcaret : c ≠ caret := fun h => hc ⟨.power, h⟩
  constructor
  · rintro (_ | ⟨_ | ⟨_, h, ⟨_⟩⟩⟩)
    exact ⟨_, h, rfl⟩
  · rintro ⟨g', h, rfl⟩
    exact .group (.cons hcaret h (.nil g'))

theorem replaceable_brackets (hc : ¬ c.IsOperator) : Replaceable c (group [c]) where
  operator hop := absurd hop (not_or.mpr ⟨hc, not_isOperator_group _⟩)
  groups {g} h := by
    have hg : ¬ g.IsOperator := fun hg => hc (h.isOperator_iff.mp hg)
    exact ⟨group [g], (groupsInside_brackets_iff hc).mpr ⟨g, h, rfl⟩, .brackets hg⟩

theorem brackets_replaceable (hc : ¬ c.IsOperator) : Replaceable (group [c]) c where
  operator hop := absurd hop (not_or.mpr ⟨not_isOperator_group _, hc⟩)
  groups h := by
    obtain ⟨g, hg, rfl⟩ := (groupsInside_brackets_iff hc).mp h
    have hop : ¬ g.IsOperator := fun hop => hc (hg.isOperator_iff.mp hop)
    exact ⟨g, hg, (Alike.brackets hop).symm⟩

/-- Brackets around one occurrence of a tree that is not an operator change nothing about the
outcome of an expression, be it a quantity or an error, under limits that are not reached. Limits
that are great enough are not reached. -/
theorem outcome_of_exchanges_brackets (hc : ¬ c.IsOperator) (h : Exchanges c (group [c]) n n')
    (lookup : String → Option Quantity) :
    (∀ limit, max n.size n'.size ≤ limit →
      n.groupPowers limit ≠ .error (.nestingTooDeep limit) ∧
      n'.groupPowers limit ≠ .error (.nestingTooDeep limit)) ∧
    ∀ limit limit', n.groupPowers limit ≠ .error (.nestingTooDeep limit) →
      n'.groupPowers limit' ≠ .error (.nestingTooDeep limit') →
      n'.outcome limit' lookup = n.outcome limit lookup := by
  refine ⟨fun limit hlimit => ?_, fun limit limit' hlimit hlimit' => ?_⟩
  · obtain ⟨hn, hn'⟩ := Nat.max_le.mp hlimit
    exact ⟨groupPowers_not_tooDeep hn, groupPowers_not_tooDeep hn'⟩
  · exact outcome_eq_of_replaceable ((replaceable_brackets hc).exchanges h)
      ((brackets_replaceable hc).exchanges h.symm) hlimit hlimit'

/-- The base in `k / m ^ k` can be put in brackets, though this takes one more level; and so can the
exponent in `k ^ (^)`, where grouping fails. -/
theorem outcome_of_exchanges_brackets_base :
    let k := token (.unit "k")
    let m := token (.unit "m")
    let slash := token (.operator .divide)
    let two : Quantity := .scalar 2.0
    let metre : Quantity := ⟨.ofUnit .metre, 1.0⟩
    let lookup : String → Option Quantity := fun s => if s = "k" then some two else some metre
    ¬ m.IsOperator ∧
    Exchanges m (group [m]) (group [k, slash, m, caret, k])
      (group [k, slash, group [m], caret, k]) ∧
    (group [k, slash, group [m], caret, k]).outcome 2 lookup =
      (metre.power two >>= fun square => two.divide square) ∧
    ¬ (group [caret]).IsOperator ∧
    Exchanges (group [caret]) (group [group [caret]]) (group [k, caret, group [caret]])
      (group [k, caret, group [group [caret]]]) ∧
    (group [k, caret, group [group [caret]]]).outcome 3 lookup =
      .error (.badSyntax (.loneOperator '^')) := by
  intro k m slash two metre lookup
  have hm : ¬ m.IsOperator := (Operand.unit "m").not_isOperator_toNode
  have hbase : Exchanges m (group [m]) (group [k, slash, m, caret, k])
      (group [k, slash, group [m], caret, k]) := .inside [k, slash] [caret, k] .here
  have hexponent : Exchanges (group [caret]) (group [group [caret]])
      (group [k, caret, group [caret]]) (group [k, caret, group [group [caret]]]) :=
    .inside [k, caret] [] .here
  have hvalue : ∀ {lookup : String → Option Quantity} {x y : Quantity}, lookup "k" = some x →
      lookup "m" = some y → (group [k, slash, m, caret, k]).outcome 1 lookup =
        (y.power x >>= fun square => x.divide square) := by
    intro lookup x y hx hy
    show eval lookup (group [k, slash, powerTriple m k]) = _
    rw [eval, evalSequence, eval_unit hx]
    show evalAfter lookup x [slash, powerTriple m k] = _
    rw [evalAfter_operator, eval_powerTriple, eval_unit hx, eval_unit hy]
    exact bind_congr fun square => bind_pure _
  have htwo : lookup "k" = some two := if_pos rfl
  have hmetre : lookup "m" = some metre := if_neg (by decide)
  refine ⟨hm, hbase, ?_, not_isOperator_group _, hexponent, ?_⟩
  · rw [← hvalue htwo hmetre]
    exact (outcome_of_exchanges_brackets hm hbase lookup).2 1 2 (by rintro ⟨⟩) (by rintro ⟨⟩)
  · exact (outcome_of_exchanges_brackets (not_isOperator_group _) hexponent lookup).2 2 3
      (by rintro ⟨⟩) (by rintro ⟨⟩)

end Node

end UnitCalc
