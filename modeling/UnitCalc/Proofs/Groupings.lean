import UnitCalc.Expression.Power
import UnitCalc.Proofs.Outcomes

/-!
# Proofs: grouping without a limit

`Node.Groups` says what a sequence becomes when its powers are grouped and no limit stands in the
way. Under a limit, `Node.groupSequence` gives exactly this when it nests within the limit, and
otherwise fails for its depth, provided that the sequence itself nests within the limit.
-/

namespace UnitCalc

namespace Node

mutual

/-- What a tree becomes when the powers inside it are grouped. -/
inductive GroupsInside : Node → Node → Prop where
  /-- A token stays as it is. -/
  | token (t : Token) : GroupsInside (token t) (token t)
  /-- The powers of a group are grouped. -/
  | group {cs gs : List Node} (h : Groups cs gs) : GroupsInside (group cs) (group gs)

/-- What a sequence becomes when its powers are grouped. -/
inductive Groups : List Node → List Node → Prop where
  /-- Nothing stays nothing. -/
  | nil : Groups [] []
  /-- The first tree is open to become a base; it cannot be `^`. -/
  | cons {c g : Node} {cs gs : List Node} (hc : c ≠ caret) (h : GroupsInside c g)
      (hs : GroupsAfter g cs gs) : Groups (c :: cs) gs

/-- What the rest of a sequence becomes behind a tree that is open to become a base. -/
inductive GroupsAfter : Node → List Node → List Node → Prop where
  /-- Nothing follows. -/
  | nil (held : Node) : GroupsAfter held [] [held]
  /-- An exponent follows, and the power is open to become a base. -/
  | power {held e g : Node} {cs gs : List Node} (h : GroupsInside e g)
      (hs : GroupsAfter (powerTriple held g) cs gs) : GroupsAfter held (caret :: e :: cs) gs
  /-- Something else follows, and is open to become a base. -/
  | next (held : Node) {c g : Node} {cs gs : List Node} (hc : c ≠ caret) (h : GroupsInside c g)
      (hs : GroupsAfter g cs gs) : GroupsAfter held (c :: cs) (held :: gs)

end

variable {limit depth : Nat} {held : Node} {cs gs : List Node}

/-! ## One step of grouping -/

theorem groupSequence_cons {c : Node} (hc : c ≠ caret) :
    groupSequence limit depth (c :: cs) =
      groupInside limit depth c >>= fun g => groupAfter limit depth g cs :=
  groupSequence.eq_3 limit depth c cs hc

theorem groupAfter_power {e : Node} :
    groupAfter limit depth held (caret :: e :: cs) = groupInside limit depth e >>= fun g =>
      if limit < depth + (powerTriple held g).height then .error (.nestingTooDeep limit)
      else groupAfter limit depth (powerTriple held g) cs :=
  groupAfter.eq_3 limit depth held e cs

theorem groupAfter_next {c : Node} (hc : c ≠ caret) :
    groupAfter limit depth held (c :: cs) = groupInside limit depth c >>= fun g =>
      groupAfter limit depth g cs >>= fun gs => .ok (held :: gs) :=
  groupAfter.eq_4 limit depth held c cs (fun h _ => hc h) (fun _ _ h _ => hc h)

theorem groupAfter_next_eq_ok {c : Node} (hc : c ≠ caret)
    (h : groupAfter limit depth held (c :: cs) = .ok gs) :
    ∃ g hs, groupInside limit depth c = .ok g ∧ groupAfter limit depth g cs = .ok hs ∧
      gs = held :: hs := by
  rw [groupAfter_next hc] at h
  obtain ⟨g, hg, h⟩ := bind_eq_ok_iff.mp h
  obtain ⟨hs, hhs, h⟩ := bind_eq_ok_iff.mp h
  cases h
  exact ⟨g, hs, hg, hhs, rfl⟩

theorem groupAfter_power_eq_ok (h : groupAfter limit depth held (caret :: cs) = .ok gs) :
    ∃ e ds g, cs = e :: ds ∧ groupInside limit depth e = .ok g ∧
      depth + (powerTriple held g).height ≤ limit ∧
      groupAfter limit depth (powerTriple held g) ds = .ok gs := by
  cases cs with
  | nil =>
    rw [groupAfter] at h
    cases h
  | cons e ds =>
    rw [groupAfter_power] at h
    obtain ⟨g, hg, h⟩ := bind_eq_ok_iff.mp h
    split at h
    · cases h
    · exact ⟨e, ds, g, rfl, hg, by omega, h⟩

/-! ## The relation and the function -/

mutual

theorem groupsInside_of_groupInside : ∀ {depth : Nat} (n : Node) {g : Node},
    groupInside limit depth n = .ok g → GroupsInside n g
  | depth, token t, g, h => by
    rw [groupInside] at h
    cases h
    exact .token t
  | depth, group cs, g, h => by
    rw [groupInside] at h
    obtain ⟨gs, hgs, rfl⟩ := map_eq_ok_iff.mp h
    exact .group (groups_of_groupSequence cs hgs)

theorem groups_of_groupSequence : ∀ {depth : Nat} (cs : List Node) {gs : List Node},
    groupSequence limit depth cs = .ok gs → Groups cs gs
  | depth, [], gs, h => by
    rw [groupSequence] at h
    cases h
    exact .nil
  | depth, c :: cs, gs, h => by
    by_cases hc : c = caret
    · rw [hc, groupSequence] at h
      cases h
    · rw [groupSequence_cons hc] at h
      obtain ⟨g, hg, hgs⟩ := bind_eq_ok_iff.mp h
      exact .cons hc (groupsInside_of_groupInside c hg) (groupsAfter_of_groupAfter cs hgs)

theorem groupsAfter_of_groupAfter : ∀ {depth : Nat} {held : Node} (cs : List Node) {gs : List Node},
    groupAfter limit depth held cs = .ok gs → GroupsAfter held cs gs
  | depth, held, [], gs, h => by
    rw [groupAfter] at h
    cases h
    exact .nil held
  | depth, held, c :: cs, gs, h => by
    by_cases hc : c = caret
    · subst hc
      obtain ⟨e, ds, g, rfl, hg, -, h⟩ := groupAfter_power_eq_ok h
      exact .power (groupsInside_of_groupInside e hg) (groupsAfter_of_groupAfter ds h)
    · obtain ⟨g, hs, hg, hhs, rfl⟩ := groupAfter_next_eq_ok hc h
      exact .next held hc (groupsInside_of_groupInside c hg) (groupsAfter_of_groupAfter cs hhs)

end

/-! ## Heights -/

mutual

theorem GroupsInside.height_le : ∀ {n g : Node}, GroupsInside n g → n.height ≤ g.height
  | _, _, .token t => Nat.le_refl _
  | _, _, .group h => Nat.add_le_add_left h.maxHeight_le 1

/-- Grouping makes nothing lower. -/
theorem Groups.maxHeight_le : ∀ {cs gs : List Node}, Groups cs gs → maxHeight cs ≤ maxHeight gs
  | _, _, .nil => Nat.le_refl _
  | _, _, .cons _ h hs => by
    have hinside := h.height_le
    have hafter := hs.maxHeight_le
    rw [maxHeight_cons]
    omega

theorem GroupsAfter.maxHeight_le : ∀ {held : Node} {cs gs : List Node},
    GroupsAfter held cs gs → max held.height (maxHeight cs) ≤ maxHeight gs
  | _, _, _, .nil held => Nat.le_refl _
  | _, _, _, .power h hs => by
    have hinside := h.height_le
    have hafter := hs.maxHeight_le
    simp only [powerTriple, height, maxHeight_cons, maxHeight_nil] at hafter ⊢
    omega
  | _, _, _, .next held _ h hs => by
    have hinside := h.height_le
    have hafter := hs.maxHeight_le
    rw [maxHeight_cons, maxHeight_cons]
    omega

end

/-- The computation `x` gives `a` unless the limit cuts it off. That happens only when `a` nests
deeper than the limit, and it is sure to happen then if what `a` is made from does not nest that
deep. The depths of the two are `before` and `after`. -/
def CutOff {α : Type} (limit before after : Nat) (x : Except SyntaxError α) (a : α) : Prop :=
  x = .ok a ∧ (before ≤ limit → after ≤ limit) ∨ x = .error (.nestingTooDeep limit) ∧ limit < after

section CutOff

variable {α β : Type} {before middle after after' : Nat} {x : Except SyntaxError α} {a : α}

theorem CutOff.of_ok (h : x = .ok a) (hle : after ≤ before) : CutOff limit before after x a := by
  left
  exact ⟨h, fun hbefore => Nat.le_trans hle hbefore⟩

theorem CutOff.map {f : α → β} (hx : CutOff limit before after x a) :
    CutOff limit before after (x.map f) (f a) := by
  rcases hx with ⟨hok, hlimit⟩ | ⟨herror, hlimit⟩
  · left
    exact ⟨by rw [hok]; rfl, hlimit⟩
  · right
    exact ⟨by rw [herror]; rfl, hlimit⟩

/-- Of two steps, the second starts from what the first gives and from other parts of the whole. -/
theorem CutOff.bind {f : α → Except SyntaxError β} {b : β} {first : Nat}
    (hx : CutOff limit first after x a) (hf : CutOff limit middle after' (f a) b)
    (hfirst : first ≤ before) (hmiddle : middle ≤ max before after) (hle : after ≤ after') :
    CutOff limit before after' (x >>= f) b := by
  rcases hx with ⟨hok, hlimit⟩ | ⟨herror, hlimit⟩
  · subst hok
    rcases hf with ⟨hok, hlimit'⟩ | ⟨herror, hlimit'⟩
    · left
      exact ⟨hok, by omega⟩
    · right
      exact ⟨herror, hlimit'⟩
  · right
    exact ⟨by rw [herror]; rfl, by omega⟩

/-- A check of a depth that the result has in any case. -/
theorem CutOff.check {checked : Nat} (hx : CutOff limit middle after x a)
    (hmiddle : middle ≤ max before checked) (hle : checked ≤ after) :
    CutOff limit before after
      (if limit < checked then .error (.nestingTooDeep limit) else x) a := by
  by_cases hdeep : limit < checked
  · rw [if_pos hdeep]
    right
    exact ⟨rfl, by omega⟩
  · rw [if_neg hdeep]
    rcases hx with ⟨hok, hlimit⟩ | ⟨herror, hlimit⟩
    · left
      exact ⟨hok, by omega⟩
    · right
      exact ⟨herror, hlimit⟩

end CutOff

mutual

theorem GroupsInside.cutOff (limit : Nat) : ∀ {n g : Node}, GroupsInside n g → ∀ depth : Nat,
    CutOff limit (depth + n.height) (depth + g.height) (groupInside limit depth n) g
  | _, _, .token t, depth => .of_ok rfl (Nat.le_refl _)
  | _, _, @GroupsInside.group cs gs h, depth => by
    have hcut := h.cutOff limit (depth + 1)
    rw [height, height, ← Nat.add_assoc, ← Nat.add_assoc, groupInside]
    exact hcut.map

theorem Groups.cutOff (limit : Nat) : ∀ {cs gs : List Node}, Groups cs gs → ∀ depth : Nat,
    CutOff limit (depth + maxHeight cs) (depth + maxHeight gs) (groupSequence limit depth cs) gs
  | _, _, .nil, depth => .of_ok rfl (Nat.le_refl _)
  | _, _, @Groups.cons c g cs gs hc h hs, depth => by
    have hinside := h.cutOff limit depth
    have hafter := hs.cutOff limit depth
    have hheld := hs.maxHeight_le
    rw [groupSequence_cons hc, maxHeight_cons]
    exact hinside.bind hafter (by omega) (by omega) (by omega)

theorem GroupsAfter.cutOff (limit : Nat) : ∀ {held : Node} {cs gs : List Node},
    GroupsAfter held cs gs → ∀ depth : Nat,
      CutOff limit (depth + max held.height (maxHeight cs)) (depth + maxHeight gs)
        (groupAfter limit depth held cs) gs
  | _, _, _, .nil held, depth => .of_ok rfl (Nat.le_refl _)
  | _, _, _, @GroupsAfter.power held e g cs gs h hs, depth => by
    have hinside := h.cutOff limit depth
    have hafter := hs.cutOff limit depth
    have htriple := hs.maxHeight_le
    -- only whole triples are checked, so that one too deep for its exponent is found here as well
    have hexponent : g.height ≤ (powerTriple held g).height := by
      simp only [powerTriple, height, maxHeight_cons]
      omega
    rw [groupAfter_power, maxHeight_cons, maxHeight_cons]
    refine hinside.bind (hafter.check ?_ ?_) ?_ (Nat.le_max_left _ _) ?_
    all_goals omega
  | _, _, _, @GroupsAfter.next held c g cs gs hc h hs, depth => by
    have hinside := h.cutOff limit depth
    have hafter := hs.cutOff limit depth
    have hheld := hs.maxHeight_le
    rw [groupAfter_next hc, maxHeight_cons, maxHeight_cons]
    have hrest : CutOff limit (depth + max held.height (max g.height (maxHeight cs)))
        (depth + max held.height (maxHeight gs))
        (groupAfter limit depth g cs >>= fun gs => .ok (held :: gs)) (held :: gs) :=
      hafter.bind (.of_ok rfl (Nat.le_refl _)) (by omega) (by omega) (by omega)
    exact hinside.bind hrest (by omega) (by omega) (by omega)

end

/-- Under a limit a sequence that nests within it is grouped when the result still does; otherwise
grouping fails for the depth. -/
theorem groupSequence_of_groups (h : Groups cs gs) (hd : depth + maxHeight cs ≤ limit) :
    groupSequence limit depth cs =
      if depth + maxHeight gs ≤ limit then .ok gs else .error (.nestingTooDeep limit) := by
  rcases h.cutOff limit depth with ⟨hok, hlimit⟩ | ⟨herror, hlimit⟩
  · rw [hok, if_pos (hlimit hd)]
  · rw [herror, if_neg (by omega)]

/-- A result that nests within the limit is given. -/
theorem groupSequence_of_groups_of_le (h : Groups cs gs) (hd : depth + maxHeight gs ≤ limit) :
    groupSequence limit depth cs = .ok gs := by
  rcases h.cutOff limit depth with ⟨hok, -⟩ | ⟨-, hlimit⟩
  · exact hok
  · omega

/-- Without a limit there is one outcome at most: a limit that allows for two makes them equal. -/
theorem Groups.unique {hs : List Node} (hg : Groups cs gs) (hh : Groups cs hs) : gs = hs := by
  have hgs : groupSequence (maxHeight gs + maxHeight hs) 0 cs = .ok gs :=
    groupSequence_of_groups_of_le hg (by omega)
  have hhs : groupSequence (maxHeight gs + maxHeight hs) 0 cs = .ok hs :=
    groupSequence_of_groups_of_le hh (by omega)
  rw [hgs] at hhs
  cases hhs
  rfl

theorem GroupsInside.unique {n g g' : Node} (hg : GroupsInside n g) (hg' : GroupsInside n g') :
    g = g' := by
  cases hg with
  | token t =>
    cases hg'
    rfl
  | group h =>
    cases hg' with
    | group h' => rw [h.unique h']

/-! ## Sequences one behind the other -/

theorem Groups.after (h : Groups cs gs) (held : Node) : GroupsAfter held cs (held :: gs) := by
  cases h with
  | nil => exact .nil held
  | cons hc h hs => exact .next held hc h hs

/-- Grouping does not reach from one sequence into the next. -/
theorem GroupsAfter.append {ds hs : List Node} (hd : Groups ds hs) :
    ∀ {held : Node} {cs gs : List Node}, GroupsAfter held cs gs →
      GroupsAfter held (cs ++ ds) (gs ++ hs)
  | _, _, _, .nil held => hd.after held
  | _, _, _, .power h ht => .power h (ht.append hd)
  | _, _, _, .next held hc h ht => .next held hc h (ht.append hd)

theorem Groups.append {ds hs : List Node} (hg : Groups cs gs) (hd : Groups ds hs) :
    Groups (cs ++ ds) (gs ++ hs) := by
  cases hg with
  | nil => exact hd
  | cons hc h ht => exact .cons hc h (ht.append hd)

/-! ## A limit that is never reached -/

mutual

/-- The number of tokens and groups in a tree. -/
def size : Node → Nat
  | token _ => 1
  | group children => 1 + totalSize children

/-- The number of tokens and groups in some trees. -/
def totalSize : List Node → Nat
  | [] => 0
  | c :: cs => c.size + totalSize cs

end

mutual

theorem GroupsInside.height_le_size : ∀ {n g : Node}, GroupsInside n g → g.height ≤ n.size
  | _, _, .token t => Nat.zero_le _
  | _, _, .group h => Nat.add_le_add_left h.maxHeight_le_size 1

theorem Groups.maxHeight_le_size : ∀ {cs gs : List Node}, Groups cs gs →
    maxHeight gs ≤ totalSize cs
  | _, _, .nil => Nat.zero_le _
  | _, _, .cons _ h hs => by
    have hinside := h.height_le_size
    have hafter := hs.maxHeight_le_size
    rw [totalSize]
    omega

theorem GroupsAfter.maxHeight_le_size : ∀ {held : Node} {cs gs : List Node},
    GroupsAfter held cs gs → maxHeight gs ≤ held.height + totalSize cs
  | _, _, _, .nil held => by simp [totalSize]
  | _, _, _, .power h hs => by
    have hinside := h.height_le_size
    have hafter := hs.maxHeight_le_size
    simp only [powerTriple, height, maxHeight_cons, maxHeight_nil] at hafter
    rw [totalSize, totalSize, size]
    omega
  | _, _, _, .next held _ h hs => by
    have hinside := h.height_le_size
    have hafter := hs.maxHeight_le_size
    rw [totalSize, maxHeight_cons]
    omega

end

mutual

theorem groupInside_not_tooDeep : ∀ {depth : Nat} (n : Node), depth + n.size ≤ limit →
    groupInside limit depth n ≠ .error (.nestingTooDeep limit)
  | depth, token t, _, h => by
    rw [groupInside] at h
    cases h
  | depth, group cs, hd, h => by
    rw [groupInside] at h
    rw [size] at hd
    exact groupSequence_not_tooDeep cs (by omega) (map_eq_error_iff.mp h)

/-- A limit as great as the number of trees is not reached. -/
theorem groupSequence_not_tooDeep : ∀ {depth : Nat} (cs : List Node),
    depth + totalSize cs ≤ limit → groupSequence limit depth cs ≠ .error (.nestingTooDeep limit)
  | depth, [], _, h => by
    rw [groupSequence] at h
    cases h
  | depth, c :: cs, hd, h => by
    rw [totalSize] at hd
    by_cases hc : c = caret
    · rw [hc, groupSequence] at h
      cases h
    · rw [groupSequence_cons hc] at h
      rcases bind_eq_error_iff.mp h with h | ⟨g, hg, h⟩
      · exact groupInside_not_tooDeep c (by omega) h
      · have hheight := (groupsInside_of_groupInside c hg).height_le_size
        exact groupAfter_not_tooDeep cs (by omega) h

theorem groupAfter_not_tooDeep : ∀ {depth : Nat} {held : Node} (cs : List Node),
    depth + held.height + totalSize cs ≤ limit →
      groupAfter limit depth held cs ≠ .error (.nestingTooDeep limit)
  | depth, held, [], _, h => by
    rw [groupAfter] at h
    cases h
  | depth, held, c :: cs, hd, h => by
    by_cases hc : c = caret
    · subst hc
      cases cs with
      | nil =>
        rw [groupAfter] at h
        cases h
      | cons e cs =>
        simp only [totalSize, size] at hd
        rw [groupAfter_power] at h
        rcases bind_eq_error_iff.mp h with h | ⟨g, hg, h⟩
        · exact groupInside_not_tooDeep e (by omega) h
        · have hheight := (groupsInside_of_groupInside e hg).height_le_size
          have htriple : (powerTriple held g).height ≤ 1 + (held.height + g.height) := by
            simp only [powerTriple, height, maxHeight_cons, maxHeight_nil]
            omega
          split at h
          · omega
          · exact groupAfter_not_tooDeep cs (by omega) h
    · rw [totalSize] at hd
      rw [groupAfter_next hc] at h
      rcases bind_eq_error_iff.mp h with h | ⟨g, hg, h⟩
      · exact groupInside_not_tooDeep c (by omega) h
      · have hheight := (groupsInside_of_groupInside c hg).height_le_size
        rcases bind_eq_error_iff.mp h with h | ⟨hs, -, h⟩
        · exact groupAfter_not_tooDeep cs (by omega) h
        · cases h

end

/-! ## Why grouping fails -/

/-- The errors of grouping: a `^` that lacks a neighbour, or the depth. -/
def IsGroupingError (limit : Nat) (error : SyntaxError) : Prop :=
  error = .loneOperator Operator.power.symbol ∨ error = .nestingTooDeep limit

section Errors

variable {error : SyntaxError}

mutual

theorem isGroupingError_of_groupInside : ∀ {depth : Nat} (n : Node),
    groupInside limit depth n = .error error → IsGroupingError limit error
  | depth, token t, h => by
    rw [groupInside] at h
    cases h
  | depth, group cs, h => by
    rw [groupInside] at h
    exact isGroupingError_of_groupSequence cs (map_eq_error_iff.mp h)

theorem isGroupingError_of_groupSequence : ∀ {depth : Nat} (cs : List Node),
    groupSequence limit depth cs = .error error → IsGroupingError limit error
  | depth, [], h => by
    rw [groupSequence] at h
    cases h
  | depth, c :: cs, h => by
    by_cases hc : c = caret
    · rw [hc, groupSequence] at h
      cases h
      exact .inl rfl
    · rw [groupSequence_cons hc] at h
      rcases bind_eq_error_iff.mp h with h | ⟨g, -, h⟩
      · exact isGroupingError_of_groupInside c h
      · exact isGroupingError_of_groupAfter cs h

theorem isGroupingError_of_groupAfter : ∀ {depth : Nat} {held : Node} (cs : List Node),
    groupAfter limit depth held cs = .error error → IsGroupingError limit error
  | depth, held, [], h => by
    rw [groupAfter] at h
    cases h
  | depth, held, c :: cs, h => by
    by_cases hc : c = caret
    · subst hc
      cases cs with
      | nil =>
        rw [groupAfter] at h
        cases h
        exact .inl rfl
      | cons e cs =>
        rw [groupAfter_power] at h
        rcases bind_eq_error_iff.mp h with h | ⟨g, -, h⟩
        · exact isGroupingError_of_groupInside e h
        · split at h
          · cases h
            exact .inr rfl
          · exact isGroupingError_of_groupAfter cs h
    · rw [groupAfter_next hc] at h
      rcases bind_eq_error_iff.mp h with h | ⟨g, -, h⟩
      · exact isGroupingError_of_groupInside c h
      · rcases bind_eq_error_iff.mp h with h | ⟨gs, -, h⟩
        · exact isGroupingError_of_groupAfter cs h
        · cases h

end

theorem isGroupingError_of_groupPowers {n : Node} (h : groupPowers limit n = .error error) :
    IsGroupingError limit error := by
  cases n with
  | token t =>
    rw [groupPowers] at h
    cases h
  | group cs =>
    rw [groupPowers] at h
    exact isGroupingError_of_groupSequence cs (map_eq_error_iff.mp h)

end Errors

/-! ## Whole expressions -/

theorem groupsInside_of_groupPowers {n g : Node} (h : groupPowers limit n = .ok g) :
    GroupsInside n g := by
  cases n with
  | token t =>
    rw [groupPowers] at h
    cases h
    exact .token t
  | group cs =>
    rw [groupPowers] at h
    obtain ⟨gs, hgs, rfl⟩ := map_eq_ok_iff.mp h
    exact .group (groups_of_groupSequence cs hgs)

theorem groupPowers_of_groupsInside {n g : Node} (h : GroupsInside n g) :
    groupPowers limit n = .ok g ∨ groupPowers limit n = .error (.nestingTooDeep limit) := by
  cases h with
  | token t =>
    left
    rw [groupPowers]
  | group h =>
    rw [groupPowers]
    rcases h.cutOff limit 0 with ⟨hok, -⟩ | ⟨herror, -⟩
    · left
      rw [hok]
      rfl
    · right
      rw [herror]
      rfl

theorem groupPowers_not_tooDeep {n : Node} (h : n.size ≤ limit) :
    groupPowers limit n ≠ .error (.nestingTooDeep limit) := by
  intro herror
  cases n with
  | token t =>
    rw [groupPowers] at herror
    cases herror
  | group cs =>
    rw [groupPowers] at herror
    rw [size] at h
    exact groupSequence_not_tooDeep cs (by omega) (map_eq_error_iff.mp herror)

theorem groupPowers_of_groups (h : Groups cs gs) (hd : (group cs).nestingDepth ≤ limit) :
    groupPowers limit (group cs) =
      if (group gs).nestingDepth ≤ limit then .ok (group gs)
      else .error (.nestingTooDeep limit) := by
  rw [nestingDepth] at hd
  rw [groupPowers, groupSequence_of_groups h (by omega), Nat.zero_add, nestingDepth]
  by_cases hlimit : maxHeight gs ≤ limit
  · rw [if_pos hlimit, if_pos hlimit]
    rfl
  · rw [if_neg hlimit, if_neg hlimit]
    rfl

end Node

end UnitCalc
