import UnitCalc.Proofs.Groupings

/-!
# Proofs: grouping by rescanning

Powers can be grouped by looking again and again for the first `^` of a sequence, which then makes
one group with its two neighbours. `Node.regroup` does this from the root down. Grouping in one pass
over each sequence gives the same tree, and fails where this fails.
-/

namespace UnitCalc

/-- Whether a tree is only the operator `^`. -/
def Node.isCaret : Node → Bool
  | token (.operator .power) => true
  | _ => false

/-- A piece of a sequence that is being rewritten: one of the trees that the sequence was made of,
or a power that was put in the place of a `^` and its neighbours. -/
inductive Piece (α : Type) where
  /-- A tree of the sequence as it was. -/
  | original (a : α)
  /-- A power of two pieces. -/
  | power (base exponent : Piece α)

namespace Piece

variable {α : Type}

/-- Whether a piece is one of the trees that are only the operator `^`. -/
def isCaret (tree : α → Node) : Piece α → Bool
  | original a => (tree a).isCaret
  | power _ _ => false

/-- Looks for the first `^`, puts a power in the place of it and its two neighbours, and starts
again, until there is no `^`. A `^` at either end lacks a neighbour. -/
def rescan (tree : α → Node) (ps : List (Piece α)) : Option (List (Piece α)) :=
  match ps.findIdx? (isCaret tree) with
  | none => some ps
  | some i =>
    if h : 0 < i ∧ i + 1 < ps.length then
      let left := ps.get ⟨i - 1, Nat.lt_of_le_of_lt (Nat.sub_le i 1) (Nat.lt_of_succ_lt h.2)⟩
      let right := ps.get ⟨i + 1, h.2⟩
      rescan tree (ps.take (i - 1) ++ power left right :: ps.drop (i + 2))
    else none
termination_by ps.length
decreasing_by
  simp only [List.length_append, List.length_cons, List.length_take, List.length_drop]
  omega

/-- The tree of a piece, when a computation gives the trees that it was made of. -/
def toNode? (f : α → Option Node) : Piece α → Option Node
  | original a => f a
  | power base exponent => do
    let base ← base.toNode? f
    let exponent ← exponent.toNode? f
    pure (Node.powerTriple base exponent)

end Piece

namespace Node

/-- Groups the powers of a tree by rescanning each of its sequences, from the root down. The groups
that the sequence was made of are treated in the same way, also inside of powers; powers are not. -/
def regroup : Node → Option Node
  | token t => some (token t)
  | group cs => do
    let pieces ← Piece.rescan Subtype.val (cs.attach.map .original)
    let children ← pieces.mapM (Piece.toNode? fun c => regroup c.val)
    pure (group children)
decreasing_by
  have := List.sizeOf_lt_of_mem c.property
  simp only [group.sizeOf_spec]
  omega

end Node

/-! ## One step of rescanning -/

namespace Piece

variable {α : Type} {tree : α → Node} {front ps : List (Piece α)} {held p e : Piece α}

theorem forall_concat (hfront : ∀ q ∈ front, isCaret tree q = false)
    (hheld : isCaret tree held = false) : ∀ q ∈ front ++ [held], isCaret tree q = false :=
  List.forall_mem_append.mpr ⟨hfront, List.forall_mem_cons.mpr ⟨hheld, List.forall_mem_nil _⟩⟩

theorem findIdx?_append_cons (hfront : ∀ q ∈ front, isCaret tree q = false)
    (hp : isCaret tree p = true) :
    (front ++ p :: ps).findIdx? (isCaret tree) = some front.length := by
  have hnone : front.findIdx? (isCaret tree) = none := List.findIdx?_eq_none_iff.mpr hfront
  simp [List.findIdx?_append, List.findIdx?_cons, hnone, hp]

theorem rescan_of_forall (h : ∀ q ∈ ps, isCaret tree q = false) : rescan tree ps = some ps := by
  have hnone : ps.findIdx? (isCaret tree) = none := List.findIdx?_eq_none_iff.mpr h
  rw [rescan.eq_def, hnone]

theorem rescan_first (hp : isCaret tree p = true) : rescan tree (p :: ps) = none := by
  have hfirst : (p :: ps).findIdx? (isCaret tree) = some 0 :=
    findIdx?_append_cons (List.forall_mem_nil _) hp
  rw [rescan.eq_def, hfirst]
  rfl

theorem rescan_last (hfront : ∀ q ∈ front, isCaret tree q = false)
    (hp : isCaret tree p = true) : rescan tree (front ++ [p]) = none := by
  rw [rescan.eq_def, findIdx?_append_cons hfront hp]
  simp

theorem rescan_power (hfront : ∀ q ∈ front, isCaret tree q = false)
    (hheld : isCaret tree held = false) (hp : isCaret tree p = true) :
    rescan tree (front ++ held :: p :: e :: ps) =
      rescan tree (front ++ power held e :: ps) := by
  have hindex : (front ++ held :: p :: e :: ps).findIdx? (isCaret tree) =
      some (front.length + 1) := by
    have h : (front ++ [held] ++ p :: e :: ps).findIdx? (isCaret tree) =
        some (front ++ [held]).length := findIdx?_append_cons (forall_concat hfront hheld) hp
    rwa [List.append_assoc, List.length_append] at h
  have hlength : 0 < front.length + 1 ∧
      front.length + 1 + 1 < (front ++ held :: p :: e :: ps).length := by
    rw [List.length_append, List.length_cons, List.length_cons, List.length_cons]
    omega
  have hsplit : front ++ held :: p :: e :: ps = (front ++ [held, p]) ++ e :: ps := by simp
  have hright : (front ++ held :: p :: e :: ps)[front.length + 1 + 1] = e :=
    List.getElem_of_append hsplit (by simp)
  have hbehind : (front ++ held :: p :: e :: ps).drop (front.length + 1 + 2) = ps := by
    have hcut : front ++ held :: p :: e :: ps = (front ++ [held, p, e]) ++ ps := by simp
    rw [hcut]
    exact List.drop_left' (by simp)
  conv => lhs; rw [rescan.eq_def, hindex]
  dsimp only [List.get_eq_getElem]
  rw [dif_pos hlength, hright, hbehind]
  simp

theorem rescan_nil : rescan tree [] = some [] := rescan_of_forall (List.forall_mem_nil _)

end Piece

/-! ## Rescanning and grouping in one pass -/

namespace Node

theorem isCaret_iff {n : Node} : n.isCaret = true ↔ n = caret := by
  constructor
  · intro h
    match n with
    | token (.operator .power) => rfl
    | token (.operator .multiply) => cases h
    | token (.operator .divide) => cases h
    | token (.number _) => cases h
    | token (.unit _) => cases h
    | group _ => cases h
  · rintro rfl
    rfl

variable {held c e : Node} {cs gs : List Node}

theorem groups_nil_iff : Groups [] gs ↔ gs = [] := by
  constructor
  · rintro ⟨⟩
    rfl
  · rintro rfl
    exact .nil

theorem not_groups_caret : ¬ Groups (caret :: cs) gs := by
  rintro (_ | ⟨hc, _, _⟩)
  exact hc rfl

theorem groups_cons_iff (hc : c ≠ caret) :
    Groups (c :: cs) gs ↔ ∃ g, GroupsInside c g ∧ GroupsAfter g cs gs := by
  constructor
  · rintro (_ | ⟨_, h, hs⟩)
    exact ⟨_, h, hs⟩
  · rintro ⟨g, h, hs⟩
    exact .cons hc h hs

theorem groupsAfter_nil_iff : GroupsAfter held [] gs ↔ gs = [held] := by
  constructor
  · rintro ⟨⟩
    rfl
  · rintro rfl
    exact .nil held

theorem not_groupsAfter_caret : ¬ GroupsAfter held [caret] gs := by
  rintro (_ | _ | ⟨_, hc, _, _⟩)
  exact hc rfl

theorem groupsAfter_power_iff :
    GroupsAfter held (caret :: e :: cs) gs ↔
      ∃ g, GroupsInside e g ∧ GroupsAfter (powerTriple held g) cs gs := by
  constructor
  · rintro (_ | ⟨h, hs⟩ | ⟨_, hc, _, _⟩)
    · exact ⟨_, h, hs⟩
    · exact absurd rfl hc
  · rintro ⟨g, h, hs⟩
    exact .power h hs

theorem groupsAfter_next_iff (hc : c ≠ caret) :
    GroupsAfter held (c :: cs) gs ↔
      ∃ g hs, GroupsInside c g ∧ GroupsAfter g cs hs ∧ gs = held :: hs := by
  constructor
  · rintro (_ | ⟨_, _⟩ | ⟨_, _, h, hs⟩)
    · exact absurd rfl hc
    · exact ⟨_, _, h, hs, rfl⟩
  · rintro ⟨g, hs, h, hhs, rfl⟩
    exact .next held hc h hhs

end Node

namespace Piece

open Node

variable {α : Type} {tree : α → Node} {f : α → Option Node}

theorem eq_caret_of_original {a : α} (h : isCaret tree (original a) = true) : tree a = caret :=
  isCaret_iff.mp h

theorem ne_caret_of_original {a : α} (h : isCaret tree (original a) = false) : tree a ≠ caret := by
  intro hcaret
  rw [isCaret, isCaret_iff.mpr hcaret] at h
  cases h

/-- The trees of a sequence when it has been rescanned. -/
def finish? (tree : α → Node) (f : α → Option Node) (ps : List (Piece α)) : Option (List Node) :=
  (rescan tree ps).bind (List.mapM (toNode? f))

section Finish

variable {front ps : List (Piece α)} {held p e : Piece α} {gs : List Node}

theorem mapM_concat_eq_some_iff {β γ : Type} {g : β → Option γ} {xs : List β} {x : β}
    {ys : List γ} :
    (xs ++ [x]).mapM g = some ys ↔ ∃ zs z, xs.mapM g = some zs ∧ g x = some z ∧ ys = zs ++ [z] := by
  simp only [List.mapM_append, List.mapM_cons, List.mapM_nil, bind, Option.bind_eq_some_iff, pure,
    Option.some.injEq]
  constructor
  · rintro ⟨zs, hzs, _, ⟨z, hz, _, rfl, rfl⟩, rfl⟩
    exact ⟨zs, z, hzs, hz, rfl⟩
  · rintro ⟨zs, z, hzs, hz, rfl⟩
    exact ⟨zs, hzs, _, ⟨z, hz, _, rfl, rfl⟩, rfl⟩

theorem toNode?_power_eq_some_iff {base exponent : Piece α} {g : Node} :
    (power base exponent).toNode? f = some g ↔
      ∃ b e, base.toNode? f = some b ∧ exponent.toNode? f = some e ∧ g = powerTriple b e := by
  simp only [toNode?, bind, Option.bind_eq_some_iff, pure, Option.some.injEq]
  constructor
  · rintro ⟨b, hb, e, he, rfl⟩
    exact ⟨b, e, hb, he, rfl⟩
  · rintro ⟨b, e, hb, he, rfl⟩
    exact ⟨b, hb, e, he, rfl⟩

theorem finish?_concat (hfront : ∀ q ∈ front, isCaret tree q = false)
    (hheld : isCaret tree held = false) :
    finish? tree f (front ++ [held]) = (front ++ [held]).mapM (toNode? f) := by
  rw [finish?, rescan_of_forall (forall_concat hfront hheld), Option.bind_some]

theorem finish?_last (hfront : ∀ q ∈ front, isCaret tree q = false)
    (hheld : isCaret tree held = false) (hp : isCaret tree p = true) :
    finish? tree f (front ++ [held, p]) = none := by
  have hsplit : front ++ [held, p] = (front ++ [held]) ++ [p] := by simp
  rw [finish?, hsplit, rescan_last (forall_concat hfront hheld) hp, Option.bind_none]

theorem finish?_power (hfront : ∀ q ∈ front, isCaret tree q = false)
    (hheld : isCaret tree held = false) (hp : isCaret tree p = true) :
    finish? tree f (front ++ held :: p :: e :: ps) =
      finish? tree f (front ++ power held e :: ps) := by
  rw [finish?, finish?, rescan_power hfront hheld hp]

end Finish

/-- Behind pieces that are complete, what is still to be rescanned becomes what grouping in one pass
makes of it behind the last of them. -/
theorem finish?_eq_some_iff (hf : ∀ a g, f a = some g ↔ GroupsInside (tree a) g) :
    ∀ {front : List (Piece α)} {held : Piece α} (rest : List α) {gs : List Node},
      (∀ q ∈ front, isCaret tree q = false) → isCaret tree held = false →
      (finish? tree f (front ++ held :: rest.map original) = some gs ↔
        ∃ fs h hs, front.mapM (toNode? f) = some fs ∧ held.toNode? f = some h ∧
          GroupsAfter h (rest.map tree) hs ∧ gs = fs ++ hs)
  | front, held, [], gs, hfront, hheld => by
    rw [List.map_nil, finish?_concat hfront hheld, mapM_concat_eq_some_iff]
    constructor
    · rintro ⟨fs, h, hfs, hh, rfl⟩
      exact ⟨fs, h, [h], hfs, hh, .nil h, rfl⟩
    · rintro ⟨fs, h, hs, hfs, hh, hhs, rfl⟩
      exact ⟨fs, h, hfs, hh, by rw [groupsAfter_nil_iff.mp hhs]⟩
  | front, held, a :: rest, gs, hfront, hheld => by
    cases ha : isCaret tree (original a) with
    | false =>
      -- what was held is complete, and the next tree is held
      have hne : tree a ≠ caret := ne_caret_of_original ha
      have hsplit : front ++ held :: (a :: rest).map original =
          (front ++ [held]) ++ original a :: rest.map original := by simp
      rw [hsplit, finish?_eq_some_iff hf rest (forall_concat hfront hheld) ha]
      constructor
      · rintro ⟨_, g, hs, hbefore, hg, hhs, rfl⟩
        obtain ⟨fs, h, hfs, hh, rfl⟩ := mapM_concat_eq_some_iff.mp hbefore
        refine ⟨fs, h, h :: hs, hfs, hh, ?_, by simp⟩
        exact .next h hne ((hf a g).mp hg) hhs
      · rintro ⟨fs, h, _, hfs, hh, hafter, rfl⟩
        obtain ⟨g, hs, hg, hhs, rfl⟩ := (groupsAfter_next_iff hne).mp hafter
        refine ⟨fs ++ [h], g, hs, ?_, (hf a g).mpr hg, hhs, by simp⟩
        exact mapM_concat_eq_some_iff.mpr ⟨fs, h, hfs, hh, rfl⟩
    | true =>
      have hcaret : tree a = caret := eq_caret_of_original ha
      match rest with
      | [] =>
        rw [List.map_singleton, finish?_last hfront hheld ha, List.map_singleton, hcaret]
        constructor
        · rintro ⟨⟩
        · rintro ⟨fs, h, hs, -, -, hhs, -⟩
          exact absurd hhs not_groupsAfter_caret
      | e :: rest =>
        -- the power that replaces the `^` and its neighbours is held
        rw [List.map_cons, List.map_cons, finish?_power hfront hheld ha,
          finish?_eq_some_iff hf rest hfront rfl, List.map_cons, List.map_cons, hcaret]
        constructor
        · rintro ⟨fs, _, hs, hfs, htriple, hhs, rfl⟩
          obtain ⟨h, g, hh, hg, rfl⟩ := toNode?_power_eq_some_iff.mp htriple
          exact ⟨fs, h, hs, hfs, hh, .power ((hf e g).mp hg) hhs, rfl⟩
        · rintro ⟨fs, h, hs, hfs, hh, hafter, rfl⟩
          obtain ⟨g, hg, hhs⟩ := groupsAfter_power_iff.mp hafter
          refine ⟨fs, powerTriple h g, hs, hfs, ?_, hhs, rfl⟩
          exact toNode?_power_eq_some_iff.mpr ⟨h, g, hh, (hf e g).mpr hg, rfl⟩

/-- A whole sequence is rescanned to what grouping in one pass makes of it. -/
theorem finish?_map_original_eq_some_iff (hf : ∀ a g, f a = some g ↔ GroupsInside (tree a) g)
    (cs : List α) {gs : List Node} :
    finish? tree f (cs.map original) = some gs ↔ Groups (cs.map tree) gs := by
  cases cs with
  | nil =>
    rw [List.map_nil, finish?, rescan_nil, Option.bind_some, List.mapM_nil, List.map_nil,
      groups_nil_iff]
    constructor
    · rintro ⟨⟩
      rfl
    · rintro rfl
      rfl
  | cons a rest =>
    cases ha : isCaret tree (original a) with
    | true =>
      have hcaret : tree a = caret := eq_caret_of_original ha
      rw [List.map_cons, finish?, rescan_first ha, Option.bind_none, List.map_cons, hcaret]
      constructor
      · rintro ⟨⟩
      · intro h
        exact absurd h not_groups_caret
    | false =>
      have hne : tree a ≠ caret := ne_caret_of_original ha
      have hsplit : (a :: rest).map original = [] ++ original a :: rest.map original := rfl
      rw [hsplit, finish?_eq_some_iff hf rest (List.forall_mem_nil _) ha, List.map_cons,
        groups_cons_iff hne]
      constructor
      · rintro ⟨fs, h, hs, ⟨⟩, hh, hhs, rfl⟩
        exact ⟨h, (hf a h).mp hh, hhs⟩
      · rintro ⟨h, hh, hhs⟩
        exact ⟨[], h, gs, rfl, (hf a h).mpr hh, hhs, rfl⟩

end Piece

namespace Node

theorem regroup_group (cs : List Node) :
    (group cs).regroup =
      (Piece.finish? Subtype.val (fun c => regroup c.val)
        (cs.attach.map Piece.original)).map group := by
  rw [regroup, Piece.finish?]
  cases Piece.rescan Subtype.val (cs.attach.map Piece.original) with
  | none => rfl
  | some pieces => exact (Option.map_eq_bind ..).symm

/-- Rescanning from the root down and grouping in one pass give the same trees. -/
theorem regroup_eq_some_iff (n : Node) {g : Node} : n.regroup = some g ↔ GroupsInside n g := by
  induction n using regroup.induct generalizing g with
  | case1 t =>
    rw [regroup]
    constructor
    · rintro ⟨⟩
      exact .token t
    · rintro ⟨⟩
      rfl
  | case2 cs ih =>
    have hcs : ∀ gs, Piece.finish? Subtype.val (fun c => regroup c.val)
        (cs.attach.map Piece.original) = some gs ↔ Groups cs gs := by
      intro gs
      rw [Piece.finish?_map_original_eq_some_iff (fun c g => ih c), List.attach_map_subtype_val]
    rw [regroup_group, Option.map_eq_some_iff]
    constructor
    · rintro ⟨gs, hgs, rfl⟩
      exact .group ((hcs gs).mp hgs)
    · rintro (_ | ⟨hgs⟩)
      exact ⟨_, (hcs _).mpr hgs, rfl⟩

/-- Grouping under a limit that is not reached gives the tree that rescanning gives, and fails with
a `^` that lacks a neighbour where rescanning fails. A limit that is great enough is not reached. -/
theorem groupPowers_eq_regroup (n : Node) :
    (∀ limit, n.size ≤ limit → n.groupPowers limit ≠ .error (.nestingTooDeep limit)) ∧
    ∀ limit, n.groupPowers limit ≠ .error (.nestingTooDeep limit) →
      n.groupPowers limit =
        match n.regroup with
        | some g => .ok g
        | none => .error (.loneOperator '^') := by
  refine ⟨fun limit h => groupPowers_not_tooDeep h, fun limit hlimit => ?_⟩
  cases hg : n.regroup with
  | some g =>
    rcases groupPowers_of_groupsInside ((regroup_eq_some_iff n).mp hg) with hok | herror
    · exact hok
    · exact absurd herror hlimit
  | none =>
    cases hgroup : n.groupPowers limit with
    | ok g =>
      rw [(regroup_eq_some_iff n).mpr (groupsInside_of_groupPowers hgroup)] at hg
      cases hg
    | error error =>
      rcases isGroupingError_of_groupPowers hgroup with rfl | rfl
      · rfl
      · exact absurd hgroup hlimit

/-- `a ^ (b ^ c) ^ d`: the bracket becomes an exponent, and is rescanned there. In `a ^ b ^` the
second `^` lacks a neighbour when the first power has been made. -/
theorem groupPowers_eq_regroup_chain :
    let a := token (.unit "a")
    let b := token (.unit "b")
    let c := token (.unit "c")
    let d := token (.unit "d")
    let chain := group [a, caret, group [b, caret, c], caret, d]
    let trailing := group [a, caret, b, caret]
    chain.size ≤ 9 ∧ chain.groupPowers 9 ≠ .error (.nestingTooDeep 9) ∧
      chain.regroup = some (group [powerTriple (powerTriple a (group [powerTriple b c])) d]) ∧
      trailing.groupPowers 9 = .error (.loneOperator '^') ∧ trailing.regroup = none := by
  intro a b c d chain trailing
  have hsize : chain.size ≤ 9 := by decide
  have hchain : chain.groupPowers 9 ≠ .error (.nestingTooDeep 9) :=
    (groupPowers_eq_regroup chain).1 9 hsize
  have htrailing : trailing.groupPowers 9 ≠ .error (.nestingTooDeep 9) := by
    intro h
    cases h
  refine ⟨hsize, hchain, ?_, rfl, ?_⟩
  · have h := (groupPowers_eq_regroup chain).2 9 hchain
    cases hg : chain.regroup with
    | none =>
      rw [hg] at h
      cases h
    | some g =>
      rw [hg] at h
      cases h
      rfl
  · have h := (groupPowers_eq_regroup trailing).2 9 htrailing
    cases hg : trailing.regroup with
    | none => rfl
    | some g =>
      rw [hg] at h
      cases h

end Node

end UnitCalc
