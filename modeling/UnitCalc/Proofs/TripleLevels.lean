import UnitCalc.Proofs.Dissolving

/-!
# Proofs: what the limit of grouping counts

Each triple is checked when it is made, by its height and by the brackets around the sequence. The
triples that are put around it later are not seen by this check; they are seen by the check of the
outermost one, which also covers the brackets in it. So a limit is exceeded exactly by the groups
that are triples or lie inside one, and brackets elsewhere can nest as deep as they like.
-/

namespace UnitCalc

namespace Node

/-- A tree stands in another one, so many levels of groups below its root. -/
inductive OccursAt (m : Node) : Nat → Node → Prop where
  /-- At the root. -/
  | here : OccursAt m 0 m
  /-- In one of the trees that a group is made of. -/
  | inside {level : Nat} {c : Node} {cs : List Node} (hc : c ∈ cs) (h : OccursAt m level c) :
      OccursAt m (level + 1) (group cs)

/-- Somewhere in a tree is a triple, and a group that is this triple or lies inside it is `level`
levels below the root of the tree. -/
def TripleReaches (n : Node) (level : Nat) : Prop :=
  ∃ (t : Node) (cs : List Node) (above within : Nat), t.OccursAt above n ∧ t.isTriple = true ∧
    (group cs).OccursAt within t ∧ level = above + within

/-- The same of a triple below the root, which stands in one of the trees that the root is made
of. -/
def TripleBelowReaches (n : Node) (level : Nat) : Prop :=
  ∃ c ∈ n.children, ∃ below, c.TripleReaches below ∧ level = below + 1

/-- The groups of a tree that are triples or lie inside one are within a limit, when the tree stands
`level` levels below the root. -/
def TriplesWithin (limit level : Nat) (n : Node) : Prop :=
  ∀ below, n.TripleReaches below → level + below ≤ limit

variable {limit level : Nat} {m n : Node} {cs : List Node}

/-! ## Levels and heights -/

theorem height_le_maxHeight {c : Node} : ∀ {cs : List Node}, c ∈ cs → c.height ≤ maxHeight cs
  | d :: ds, h => by
    rw [maxHeight_cons]
    rcases List.mem_cons.mp h with rfl | h
    · exact Nat.le_max_left _ _
    · exact Nat.le_trans (height_le_maxHeight h) (Nat.le_max_right _ _)

theorem OccursAt.level_add_height_le (h : m.OccursAt level n) : level + m.height ≤ n.height := by
  induction h with
  | here => omega
  | inside hc _ ih =>
    have hheight := height_le_maxHeight hc
    rw [height]
    omega

theorem TripleReaches.lt_height (h : n.TripleReaches level) : level < n.height := by
  obtain ⟨t, cs, above, within, habove, -, hwithin, rfl⟩ := h
  have htriple := habove.level_add_height_le
  have hgroup := hwithin.level_add_height_le
  rw [height] at hgroup
  omega

mutual

/-- A tree that is not a token has a group on the last of its levels. -/
theorem exists_occursAt_of_height : ∀ (n : Node) {below : Nat}, n.height = below + 1 →
    ∃ cs, (group cs).OccursAt below n
  | token t, below, h => by cases h
  | group ds, below, h => by
    rw [height] at h
    cases below with
    | zero => exact ⟨ds, .here⟩
    | succ below =>
      have hmax : maxHeight ds = below + 1 := by omega
      obtain ⟨c, hc, cs, hcs⟩ := exists_mem_occursAt_of_maxHeight ds hmax
      exact ⟨cs, .inside hc hcs⟩

theorem exists_mem_occursAt_of_maxHeight : ∀ (ds : List Node) {below : Nat},
    maxHeight ds = below + 1 → ∃ c ∈ ds, ∃ cs, (group cs).OccursAt below c
  | [], below, h => by cases h
  | d :: ds, below, h => by
    rw [maxHeight_cons] at h
    by_cases hd : d.height = below + 1
    · exact ⟨d, List.mem_cons_self, exists_occursAt_of_height d hd⟩
    · have hmax : maxHeight ds = below + 1 := by omega
      obtain ⟨c, hc, hcs⟩ := exists_mem_occursAt_of_maxHeight ds hmax
      exact ⟨c, List.mem_cons_of_mem d hc, hcs⟩

end

/-! ## Trees with their triples within the limit -/

/-- A tree none of whose groups is too deep. -/
theorem triplesWithin_of_height_le (h : level + n.height ≤ limit + 1) :
    n.TriplesWithin limit level := by
  intro below hbelow
  have hlt := hbelow.lt_height
  omega

theorem triplesWithin_token (t : Token) : (token t).TriplesWithin limit level := by
  intro below hbelow
  cases hbelow.lt_height

/-- A bracket that is not a triple passes the question on to what stands in it. -/
theorem triplesWithin_group_iff (h : (group cs).isTriple = false) :
    (group cs).TriplesWithin limit level ↔ ∀ c ∈ cs, c.TriplesWithin limit (level + 1) := by
  constructor
  · rintro hall c hc _ ⟨t, ds, above, within, habove, htriple, hwithin, rfl⟩
    have hlevel := hall (above + 1 + within)
      ⟨t, ds, above + 1, within, .inside hc habove, htriple, hwithin, rfl⟩
    omega
  · rintro hall _ ⟨t, ds, _, within, _ | ⟨hc, habove⟩, htriple, hwithin, rfl⟩
    · rw [h] at htriple
      cases htriple
    · have hlevel := hall _ hc _ ⟨t, ds, _, within, habove, htriple, hwithin, rfl⟩
      omega

/-- All groups of a triple count. -/
theorem triplesWithin_powerTriple_iff {base exponent : Node} :
    (powerTriple base exponent).TriplesWithin limit level ↔
      level + (powerTriple base exponent).height ≤ limit + 1 := by
  refine ⟨fun hall => ?_, triplesWithin_of_height_le⟩
  have hheight : (powerTriple base exponent).height =
      maxHeight [base, caret, exponent] + 1 := Nat.add_comm _ _
  obtain ⟨cs, hcs⟩ := exists_occursAt_of_height _ hheight
  have hlevel := hall _ ⟨_, cs, 0, _, .here, isTriple_powerTriple base exponent, hcs, rfl⟩
  omega

theorem TriplesWithin.base {base exponent : Node}
    (h : (powerTriple base exponent).TriplesWithin limit level) :
    base.TriplesWithin limit level := by
  have hheight := triplesWithin_powerTriple_iff.mp h
  simp only [powerTriple, height, maxHeight_cons] at hheight
  exact triplesWithin_of_height_le (by omega)

theorem TriplesWithin.exponent {base exponent : Node}
    (h : (powerTriple base exponent).TriplesWithin limit level) :
    exponent.TriplesWithin limit level := by
  have hheight := triplesWithin_powerTriple_iff.mp h
  simp only [powerTriple, height, maxHeight_cons] at hheight
  exact triplesWithin_of_height_le (by omega)

/-- What is held is in the result, as it is or as a part of a triple. -/
theorem GroupsAfter.triplesWithin_held : ∀ {held : Node} {cs gs : List Node},
    GroupsAfter held cs gs → (∀ g ∈ gs, g.TriplesWithin limit level) →
      held.TriplesWithin limit level
  | _, _, _, .nil held, hall => hall held (List.mem_singleton_self held)
  | _, _, _, .power _ hs, hall => (hs.triplesWithin_held hall).base
  | _, _, _, .next held _ _ _, hall => hall held List.mem_cons_self

/-! ## Grouping under a limit -/

/-- The computation `x` gives `a` if `p` holds, and fails for the depth if it does not. -/
structure GivenIf {α : Type} (limit : Nat) (p : Prop) (x : Except SyntaxError α) (a : α) :
    Prop where
  /-- What it gives. -/
  ok : p → x = .ok a
  /-- How it fails. -/
  error : ¬ p → x = .error (.nestingTooDeep limit)

namespace GivenIf

variable {α β : Type} {p q : Prop} {x : Except SyntaxError α} {a a' : α} {b : β}

theorem holds (h : GivenIf limit p x a) (hx : x = .ok a') : p := by
  refine Classical.byContradiction fun hp => ?_
  rw [h.error hp] at hx
  cases hx

theorem of_ok (h : x = .ok a) (hp : p) : GivenIf limit p x a where
  ok _ := h
  error hnot := absurd hp hnot

theorem map {f : α → β} (h : GivenIf limit p x a) : GivenIf limit p (x.map f) (f a) where
  ok hp := by rw [h.ok hp]; rfl
  error hnot := by rw [h.error hnot]; rfl

/-- The second step is only taken when the first one gives something, and then it decides. -/
theorem bind {f : α → Except SyntaxError β} (hx : GivenIf limit p x a)
    (hf : p → GivenIf limit q (f a) b) (hle : q → p) : GivenIf limit q (x >>= f) b := by
  by_cases hp : p
  · rw [hx.ok hp]
    exact hf hp
  · rw [hx.error hp]
    exact ⟨fun hq => absurd (hle hq) hp, fun _ => rfl⟩

/-- A check of something that is needed in any case. -/
theorem check {checked : Nat} (hx : checked ≤ limit → GivenIf limit q x a)
    (hle : q → checked ≤ limit) :
    GivenIf limit q (if limit < checked then .error (.nestingTooDeep limit) else x) a := by
  by_cases hdeep : limit < checked
  · rw [if_pos hdeep]
    exact ⟨fun hq => absurd (hle hq) (by omega), fun _ => rfl⟩
  · rw [if_neg hdeep]
    exact hx (by omega)

end GivenIf

mutual

theorem GroupsInside.givenIf (limit : Nat) : ∀ {n g : Node}, GroupsInside n g → ∀ depth : Nat,
    GivenIf limit (g.TriplesWithin limit (depth + 1)) (groupInside limit depth n) g
  | _, _, .token t, depth => .of_ok rfl (triplesWithin_token t)
  | _, _, .group h, depth => by
    rw [groupInside, triplesWithin_group_iff (isTriple_group_of_notMem h.caret_notMem)]
    exact (h.givenIf limit (depth + 1)).map

theorem Groups.givenIf (limit : Nat) : ∀ {cs gs : List Node}, Groups cs gs → ∀ depth : Nat,
    GivenIf limit (∀ g ∈ gs, g.TriplesWithin limit (depth + 1)) (groupSequence limit depth cs) gs
  | _, _, .nil, depth => .of_ok rfl (List.forall_mem_nil _)
  | _, _, .cons hc h hs, depth => by
    rw [groupSequence_cons hc]
    exact (h.givenIf limit depth).bind (hs.givenIf limit depth) hs.triplesWithin_held

theorem GroupsAfter.givenIf (limit : Nat) : ∀ {held : Node} {cs gs : List Node},
    GroupsAfter held cs gs → ∀ depth : Nat, held.TriplesWithin limit (depth + 1) →
      GivenIf limit (∀ g ∈ gs, g.TriplesWithin limit (depth + 1))
        (groupAfter limit depth held cs) gs
  | _, _, _, .nil held, depth, hheld => .of_ok rfl (List.forall_mem_singleton.mpr hheld)
  | _, _, _, @GroupsAfter.power held e g cs gs h hs, depth, _ => by
    have htriple : (∀ g ∈ gs, g.TriplesWithin limit (depth + 1)) →
        (powerTriple held g).TriplesWithin limit (depth + 1) := hs.triplesWithin_held
    rw [groupAfter_power]
    refine (h.givenIf limit depth).bind (fun _ => GivenIf.check ?_ ?_) fun hall =>
      (htriple hall).exponent
    · intro hheight
      exact hs.givenIf limit depth (triplesWithin_powerTriple_iff.mpr (by omega))
    · intro hall
      have hheight := triplesWithin_powerTriple_iff.mp (htriple hall)
      omega
  | _, _, _, @GroupsAfter.next held c g cs gs hc h hs, depth, hheld => by
    rw [groupAfter_next hc]
    refine (h.givenIf limit depth).bind (fun hg => ?_) fun hall =>
      hs.triplesWithin_held (List.forall_mem_cons.mp hall).2
    rw [List.forall_mem_cons]
    refine (hs.givenIf limit depth hg).bind (fun hgs => ?_) And.right
    exact .of_ok rfl ⟨hheld, hgs⟩

end

/-! ## Whole expressions -/

theorem forall_tripleBelowReaches_le_iff :
    (∀ level, n.TripleBelowReaches level → level ≤ limit) ↔
      ∀ c ∈ n.children, c.TriplesWithin limit 1 := by
  constructor
  · intro hall c hc below hbelow
    rw [Nat.add_comm]
    exact hall (below + 1) ⟨c, hc, below, hbelow, rfl⟩
  · rintro hall _ ⟨c, hc, below, hbelow, rfl⟩
    rw [Nat.add_comm]
    exact hall c hc below hbelow

theorem TripleBelowReaches.le_nestingDepth (h : n.TripleBelowReaches level) :
    level ≤ n.nestingDepth := by
  obtain ⟨c, hc, below, hbelow, rfl⟩ := h
  have hlt := hbelow.lt_height
  cases n with
  | token t => cases hc
  | group cs => exact Nat.le_trans hlt (height_le_maxHeight hc)

theorem GroupsInside.givenIf_groupPowers {n g : Node} (h : GroupsInside n g) (limit : Nat) :
    GivenIf limit (∀ level, g.TripleBelowReaches level → level ≤ limit)
      (groupPowers limit n) g := by
  rw [forall_tripleBelowReaches_le_iff]
  cases h with
  | token t => exact .of_ok rfl (List.forall_mem_nil _)
  | group h => exact (h.givenIf limit 0).map

/-- A tree that a limit lets through has become no deeper than the limit or than it was. -/
theorem nestingDepth_le_of_groupPowers {n g : Node} (h : n.groupPowers limit = .ok g) :
    g.nestingDepth ≤ max limit n.nestingDepth := by
  have hinside := groupsInside_of_groupPowers h
  have hwithin := (hinside.givenIf_groupPowers limit).holds h
  have hgreater : n.groupPowers (max limit n.nestingDepth) = .ok g :=
    (hinside.givenIf_groupPowers _).ok fun level hlevel =>
      Nat.le_trans (hwithin level hlevel) (Nat.le_max_left _ _)
  cases hinside with
  | token t => exact Nat.zero_le _
  | group hs =>
    rw [groupPowers_of_groups hs (Nat.le_max_right _ _)] at hgreater
    split at hgreater
    · assumption
    · cases hgreater

/-- A limit lets a tree through when all groups that are triples or lie inside one are within it in
the grouped tree, and refuses the tree for its depth otherwise. -/
theorem groupPowers_counts_triples {n g : Node} {unreached : Nat}
    (h : n.groupPowers unreached = .ok g) (limit : Nat) :
    ((∀ level, g.TripleBelowReaches level → level ≤ limit) → n.groupPowers limit = .ok g) ∧
    (∀ level, g.TripleBelowReaches level → limit < level →
      n.groupPowers limit = .error (.nestingTooDeep limit)) ∧
    (g.nestingDepth ≤ limit → n.groupPowers limit = .ok g) ∧
    ∀ g', n.groupPowers limit = .ok g' → g'.nestingDepth ≤ max limit n.nestingDepth := by
  have hgiven := (groupsInside_of_groupPowers h).givenIf_groupPowers limit
  refine ⟨hgiven.ok, fun level hlevel hlt => hgiven.error fun hall => ?_, fun hdepth => ?_,
    fun g' hg' => nestingDepth_le_of_groupPowers hg'⟩
  · have hle := hall level hlevel
    omega
  · exact hgiven.ok fun level hlevel => Nat.le_trans hlevel.le_nestingDepth hdepth

/-- In `((((m)))) a ^ (b ^ c)` brackets nest four deep, and the groups in triples three deep. -/
theorem groupPowers_counts_triples_beside_brackets :
    let m := group [group [group [group [token (.unit "m")]]]]
    let a := token (.unit "a")
    let b := token (.unit "b")
    let c := token (.unit "c")
    let expression := group [m, a, caret, group [b, caret, c]]
    let grouped := group [m, powerTriple a (group [powerTriple b c])]
    expression.groupPowers 4 = .ok grouped ∧ grouped.nestingDepth = 4 ∧
      (∀ level, grouped.TripleBelowReaches level → level ≤ 3) ∧ grouped.TripleBelowReaches 3 ∧
      expression.groupPowers 3 = .ok grouped ∧
      expression.groupPowers 2 = .error (.nestingTooDeep 2) := by
  intro m a b c expression grouped
  have h : expression.groupPowers 4 = .ok grouped := rfl
  have hwithin : ∀ level, grouped.TripleBelowReaches level → level ≤ 3 := by
    have hbracket : ∀ {n : Node} {level : Nat}, n.TriplesWithin 3 (level + 1) →
        (group [n]).TriplesWithin 3 level := fun hn =>
      (triplesWithin_group_iff rfl).mpr (List.forall_mem_singleton.mpr hn)
    have hm : m.TriplesWithin 3 1 :=
      hbracket (hbracket (hbracket (hbracket (triplesWithin_token _))))
    have hpower : (powerTriple a (group [powerTriple b c])).TriplesWithin 3 1 :=
      triplesWithin_powerTriple_iff.mpr (by decide)
    rw [forall_tripleBelowReaches_le_iff]
    exact List.forall_mem_cons.mpr ⟨hm, List.forall_mem_singleton.mpr hpower⟩
  have hinner : (powerTriple b c).OccursAt 2 (powerTriple a (group [powerTriple b c])) :=
    .inside (List.mem_cons_of_mem _ (List.mem_cons_of_mem _ List.mem_cons_self))
      (.inside List.mem_cons_self .here)
  have hreaches : grouped.TripleBelowReaches 3 :=
    ⟨_, List.mem_cons_of_mem _ List.mem_cons_self, 2, ⟨_, _, 0, 2, .here, rfl, hinner, rfl⟩, rfl⟩
  refine ⟨h, rfl, hwithin, hreaches, ?_, ?_⟩
  · exact (groupPowers_counts_triples h 3).1 hwithin
  · exact (groupPowers_counts_triples h 2).2.1 3 hreaches (by decide)

end Node

end UnitCalc
