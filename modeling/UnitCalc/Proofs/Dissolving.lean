import UnitCalc.Proofs.Groupings

/-!
# Proofs: grouping only adds groups of three

The groups that grouping adds are the groups of three with a `^` in the middle. Brackets of this
form do not stay so, because the power in them is grouped in its turn. When all groups of three with
a `^` in the middle are dissolved, the tree is again what it was.
-/

namespace UnitCalc

namespace Node

/-- The trees that a group is made of. -/
def children : Node → List Node
  | token _ => []
  | group cs => cs

/-- Whether a tree is a group of three with a `^` in the middle. -/
def isTriple : Node → Bool
  | group [_, token (.operator .power), _] => true
  | _ => false

mutual

/-- What stands in the place of a tree when all triples are dissolved, itself included. -/
def dissolve : Node → List Node
  | token t => [token t]
  | group cs => if (group cs).isTriple then dissolveAll cs else [group (dissolveAll cs)]

/-- What a sequence becomes when all triples are dissolved. -/
def dissolveAll : List Node → List Node
  | [] => []
  | c :: cs => c.dissolve ++ dissolveAll cs

end

/-- A tree with all triples below the root dissolved. -/
def dissolveBelow : Node → Node
  | token t => token t
  | group cs => group (dissolveAll cs)

/-- A tree occurs in another one, at the root or below. -/
inductive Occurs (m : Node) : Node → Prop where
  /-- At the root. -/
  | here : Occurs m m
  /-- In one of the trees that a group is made of. -/
  | inside {c : Node} {cs : List Node} (hc : c ∈ cs) (h : Occurs m c) : Occurs m (group cs)

/-- A tree occurs in another one below the root. -/
def Below (m n : Node) : Prop := ∃ c ∈ n.children, m.Occurs c

/-- Every `^` in a tree belongs to a triple, or is the tree itself. -/
def Isolates (n : Node) : Prop :=
  ∀ m : Node, m.Occurs n → caret ∈ m.children → m.isTriple = true

variable {limit : Nat} {held n g : Node} {cs gs : List Node}

/-! ## Triples -/

theorem isTriple_powerTriple (base exponent : Node) :
    (powerTriple base exponent).isTriple = true := rfl

theorem caret_mem_of_isTriple (h : n.isTriple = true) : caret ∈ n.children := by
  match n with
  | group [_, token (.operator .power), _] => simp [children]

theorem isTriple_group_of_notMem (h : caret ∉ gs) : (group gs).isTriple = false :=
  Bool.eq_false_iff.mpr fun htriple => h (caret_mem_of_isTriple htriple)

theorem isolates_token (t : Token) : (token t).Isolates := by
  rintro m ⟨⟩ hm
  cases hm

theorem isolates_group (hcs : ∀ c ∈ cs, c.Isolates) (h : caret ∈ cs → (group cs).isTriple = true) :
    (group cs).Isolates := by
  rintro m (_ | ⟨hc, hm⟩) hcaret
  · exact h hcaret
  · exact hcs _ hc m hm hcaret

theorem isolates_powerTriple {base exponent : Node} (hbase : base.Isolates)
    (hexponent : exponent.Isolates) : (powerTriple base exponent).Isolates := by
  refine isolates_group ?_ fun _ => isTriple_powerTriple base exponent
  simp only [List.forall_mem_cons]
  exact ⟨hbase, isolates_token _, hexponent, List.forall_mem_nil _⟩

/-! ## Grouped sequences -/

theorem GroupsInside.ne_caret (h : GroupsInside n g) (hn : n ≠ caret) : g ≠ caret := by
  cases h with
  | token t => exact hn
  | group h => exact Node.noConfusion

/-- Behind anything but a `^`, no `^` stays in the sequence itself. -/
theorem GroupsAfter.caret_notMem : ∀ {held : Node} {cs gs : List Node}, GroupsAfter held cs gs →
    held ≠ caret → caret ∉ gs
  | _, _, _, .nil held, hheld => by
    rw [List.mem_singleton]
    exact hheld.symm
  | _, _, _, .power h hs, _ => hs.caret_notMem Node.noConfusion
  | _, _, _, .next held hc h hs, hheld => by
    rw [List.mem_cons, not_or]
    exact ⟨hheld.symm, hs.caret_notMem (h.ne_caret hc)⟩

theorem Groups.caret_notMem (h : Groups cs gs) : caret ∉ gs := by
  cases h with
  | nil => exact List.not_mem_nil
  | cons hc h hs => exact hs.caret_notMem (h.ne_caret hc)

mutual

theorem GroupsInside.isolates : ∀ {n g : Node}, GroupsInside n g → g.Isolates
  | _, _, .token t => isolates_token t
  | _, _, .group h => isolates_group h.isolates fun hcaret => absurd hcaret h.caret_notMem

theorem Groups.isolates : ∀ {cs gs : List Node}, Groups cs gs → ∀ g ∈ gs, g.Isolates
  | _, _, .nil => List.forall_mem_nil _
  | _, _, .cons _ h hs => hs.isolates h.isolates

theorem GroupsAfter.isolates : ∀ {held : Node} {cs gs : List Node}, GroupsAfter held cs gs →
    held.Isolates → ∀ g ∈ gs, g.Isolates
  | _, _, _, .nil held, hheld => List.forall_mem_singleton.mpr hheld
  | _, _, _, .power h hs, hheld => hs.isolates (isolates_powerTriple hheld h.isolates)
  | _, _, _, .next held _ h hs, hheld =>
    List.forall_mem_cons.mpr ⟨hheld, hs.isolates h.isolates⟩

end

/-! ## Dissolving what was grouped -/

theorem dissolve_group_of_notMem (h : caret ∉ gs) :
    (group gs).dissolve = [group (dissolveAll gs)] := by
  rw [dissolve, isTriple_group_of_notMem h, if_neg Bool.false_ne_true]

theorem dissolve_powerTriple (base exponent : Node) :
    (powerTriple base exponent).dissolve = base.dissolve ++ caret :: exponent.dissolve := by
  have htriple := isTriple_powerTriple base exponent
  rw [powerTriple] at htriple ⊢
  rw [dissolve, if_pos htriple]
  simp [dissolveAll, dissolve]

mutual

theorem GroupsInside.dissolve_eq : ∀ {n g : Node}, GroupsInside n g → g.dissolve = [n]
  | _, _, .token t => rfl
  | _, _, .group h => by rw [dissolve_group_of_notMem h.caret_notMem, h.dissolveAll_eq]

theorem Groups.dissolveAll_eq : ∀ {cs gs : List Node}, Groups cs gs → dissolveAll gs = cs
  | _, _, .nil => rfl
  | _, _, .cons _ h hs => by rw [hs.dissolveAll_eq, h.dissolve_eq, List.singleton_append]

/-- What is held dissolves to what it was made of, which stood in front of the rest. -/
theorem GroupsAfter.dissolveAll_eq : ∀ {held : Node} {cs gs : List Node}, GroupsAfter held cs gs →
    dissolveAll gs = held.dissolve ++ cs
  | _, _, _, .nil held => by rw [dissolveAll, dissolveAll]
  | _, _, _, .power h hs => by
    rw [hs.dissolveAll_eq, dissolve_powerTriple, h.dissolve_eq]
    simp
  | _, _, _, .next held _ h hs => by
    rw [dissolveAll, hs.dissolveAll_eq, h.dissolve_eq, List.singleton_append]

end

/-- No two trees become the same one. -/
theorem GroupsInside.injective {n' : Node} (h : GroupsInside n g) (h' : GroupsInside n' g) :
    n = n' := by
  have hdissolve := h.dissolve_eq
  rw [h'.dissolve_eq] at hdissolve
  exact (List.singleton_inj.mp hdissolve).symm

/-- In a grouped expression every `^` belongs to a triple below the root, and the expression is
what is left when these triples are dissolved. -/
theorem dissolveBelow_of_groupPowers (h : (group cs).groupPowers limit = .ok g) :
    caret ∉ g.children ∧ (∀ m : Node, m.Below g → caret ∈ m.children → m.isTriple = true) ∧
      g.dissolveBelow = group cs := by
  cases groupsInside_of_groupPowers h with
  | group hs =>
    refine ⟨hs.caret_notMem, ?_, ?_⟩
    · rintro m ⟨c, hc, hm⟩
      exact hs.isolates c hc m hm
    · rw [dissolveBelow, hs.dissolveAll_eq]

/-- In `(a ^ b) ^ c ^ (d * e) * ^ ^` a bracket holds a power, a chain has brackets at both ends,
and two operators are made the parts of a power. -/
theorem dissolveBelow_of_groupPowers_brackets :
    let power := group [token (.unit "a"), caret, token (.unit "b")]
    let product := group [token (.unit "d"), token (.operator .multiply), token (.unit "e")]
    let expression := group [power, caret, token (.unit "c"), caret, product,
      token (.operator .multiply), caret, caret]
    let grouped := group [
      powerTriple (powerTriple (group [power]) (token (.unit "c"))) product,
      powerTriple (token (.operator .multiply)) caret]
    expression.groupPowers 4 = .ok grouped ∧ caret ∉ grouped.children ∧
      (∀ m : Node, m.Below grouped → caret ∈ m.children → m.isTriple = true) ∧
      grouped.dissolveBelow = expression := by
  intro power product expression grouped
  have h : expression.groupPowers 4 = .ok grouped := rfl
  exact ⟨h, dissolveBelow_of_groupPowers h⟩

end Node

end UnitCalc
