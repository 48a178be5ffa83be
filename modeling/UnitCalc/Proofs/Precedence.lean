import UnitCalc.Proofs.Grammar
import UnitCalc.Proofs.Groupings

/-!
# Proofs: grouping gives powers their precedence

Grouping takes any neighbours of `^` for a base and an exponent, operators included, and leaves it
to the evaluation from left to right to refuse the outcome. Together they evaluate exactly what the
grammar allows, and to the value along the grammar.
-/

namespace UnitCalc

open Node

variable {lookup : String → Option Quantity}

/-! ## Failing computations -/

/-- A computation that gives no value. -/
def Fails {α : Type} (x : Except ConversionError α) : Prop := ∀ a, x ≠ .ok a

section Fails

variable {α β : Type} {x : Except ConversionError α} {f : α → Except ConversionError β}

theorem Fails.bind (h : Fails x) : Fails (x >>= f) := by
  intro b hb
  obtain ⟨a, ha, -⟩ := bind_eq_ok_iff.mp hb
  exact h a ha

theorem fails_bind (h : ∀ a, Fails (f a)) : Fails (x >>= f) := by
  intro b hb
  obtain ⟨a, -, hb⟩ := bind_eq_ok_iff.mp hb
  exact h a b hb

end Fails

namespace Node

theorem eval_isOperator {n : Node} (h : n.IsOperator) : Fails (n.eval lookup) := by
  obtain ⟨op, rfl⟩ := h
  intro q hq
  cases hq

theorem fails_powerTriple {base exponent : Node}
    (h : Fails (eval lookup base) ∨ Fails (eval lookup exponent)) :
    Fails (eval lookup (powerTriple base exponent)) := by
  rw [eval_powerTriple]
  rcases h with h | h
  · exact h.bind
  · exact fails_bind fun _ => h.bind

theorem not_isOperator_powerTriple (base exponent : Node) :
    ¬ (powerTriple base exponent).IsOperator := not_isOperator_group _

theorem GroupsInside.isOperator_iff {n g : Node} (h : GroupsInside n g) :
    g.IsOperator ↔ n.IsOperator := by
  cases h with
  | token t => exact Iff.rfl
  | @group cs gs h =>
    constructor
    · intro hg
      exact absurd hg (not_isOperator_group gs)
    · intro hn
      exact absurd hn (not_isOperator_group cs)

/-- The step of an operand behind any link. -/
theorem evalAfter_link (link : Link) {value : Quantity} {g : Node} (hg : ¬ g.IsOperator)
    (gs : List Node) :
    evalAfter lookup value (link.toNodes ++ g :: gs) =
      eval lookup g >>= fun x => link.apply value x >>= fun result =>
        evalAfter lookup result gs := by
  cases link with
  | times => exact evalAfter_operator .multiply g gs
  | per => exact evalAfter_operator .divide g gs
  | beside => exact evalAfter_operand hg gs

end Node

/-! ## Evaluating behind a product -/

/-- Evaluates grouped trees behind a product, or behind nothing. -/
def evalBehind (lookup : String → Option Quantity) (front : Option (Product × Link))
    (gs : List Node) : Except ConversionError Quantity :=
  match front with
  | none => evalSequence lookup gs
  | some (p, link) => p.value lookup >>= fun v => evalAfter lookup v (link.toNodes ++ gs)

variable {front : Option (Product × Link)} {f : Factor} {held g : Node} {cs gs : List Node}

/-- A factor that has been grouped to one tree is one more factor of the product. -/
theorem evalBehind_cons (hg : ¬ g.IsOperator) (hvalue : eval lookup g = f.value lookup) :
    evalBehind lookup front (g :: gs) =
      (Product.join front f).value lookup >>= fun v => evalAfter lookup v gs := by
  cases front with
  | none =>
    show evalSequence lookup (g :: gs) = f.value lookup >>= _
    rw [evalSequence, hvalue]
  | some before =>
    obtain ⟨p, link⟩ := before
    show (p.value lookup >>= fun v => evalAfter lookup v (link.toNodes ++ g :: gs)) =
      (p.value lookup >>= fun x => f.value lookup >>= fun y => link.apply x y) >>= _
    rw [bind_assoc]
    refine bind_congr fun v => ?_
    rw [evalAfter_link link hg, hvalue, bind_assoc]

/-- The front does not let an operator follow. -/
def WantsOperand (front : Option (Product × Link)) : Prop := ∀ p, front ≠ some (p, .beside)

/-- What has no value has none behind a product either, unless it is an operator and there is room
for one. -/
theorem fails_evalBehind_cons (hfails : Fails (eval lookup g))
    (hroom : ¬ g.IsOperator ∨ WantsOperand front) (gs : List Node) :
    Fails (evalBehind lookup front (g :: gs)) := by
  cases front with
  | none =>
    show Fails (evalSequence lookup (g :: gs))
    rw [evalSequence]
    exact hfails.bind
  | some before =>
    obtain ⟨p, link⟩ := before
    refine fails_bind fun v => ?_
    cases link with
    | times =>
      show Fails (evalAfter lookup v (token (.operator .multiply) :: g :: gs))
      rw [evalAfter_operator]
      exact hfails.bind
    | per =>
      show Fails (evalAfter lookup v (token (.operator .divide) :: g :: gs))
      rw [evalAfter_operator]
      exact hfails.bind
    | beside =>
      have hg : ¬ g.IsOperator := by
        rcases hroom with hg | hwants
        · exact hg
        · exact absurd rfl (hwants p)
      rw [evalAfter_link .beside hg]
      exact hfails.bind

/-- Nor does it get a value by becoming a base. -/
theorem fails_of_groupsAfter : ∀ {held : Node} {cs gs : List Node}, GroupsAfter held cs gs →
    Fails (eval lookup held) → ¬ held.IsOperator ∨ WantsOperand front →
      Fails (evalBehind lookup front gs)
  | _, _, _, .nil held, hfails, hroom => fails_evalBehind_cons hfails hroom []
  | _, _, _, .power _ hs, hfails, _ =>
    fails_of_groupsAfter hs (fails_powerTriple (.inl hfails))
      (.inl (not_isOperator_powerTriple _ _))
  | _, _, _, .next held _ _ _, hfails, hroom => fails_evalBehind_cons hfails hroom _

/-! ## What the grammar allows -/

mutual

/-- What is read as an operand is grouped, and evaluated to its value. -/
theorem Operand.groups_of_ofNode? : ∀ {n : Node} {o : Operand}, Operand.ofNode? n = some o →
    ∃ g, GroupsInside n g ∧ ¬ g.IsOperator ∧ eval lookup g = o.value lookup
  | .token (.number text), o, h => by
    rw [Operand.ofNode?] at h
    cases h
    exact ⟨_, .token _, (Operand.number text).not_isOperator_toNode, rfl⟩
  | .token (.unit text), o, h => by
    rw [Operand.ofNode?] at h
    cases h
    exact ⟨_, .token _, (Operand.unit text).not_isOperator_toNode, rfl⟩
  | .token (.operator op), o, h => by
    rw [Operand.ofNode?] at h
    cases h
  | .group cs, o, h => by
    rw [Operand.ofNode?] at h
    obtain ⟨p, hp, rfl⟩ := Option.map_eq_some_iff.mp h
    obtain ⟨gs, hgs, hvalue⟩ := Product.groups_of_ofNodes? hp
    exact ⟨group gs, .group hgs, not_isOperator_group gs, hvalue⟩

theorem Product.groups_of_ofNodes? : ∀ {front : Option (Product × Link)} {cs : List Node}
    {p : Product}, Product.ofNodes? front cs = some p →
      ∃ gs, Groups cs gs ∧ evalBehind lookup front gs = p.value lookup
  | front, [], p, h => by
    rw [Product.ofNodes?] at h
    cases h
  | front, c :: cs, p, h => by
    rw [Product.ofNodes?] at h
    obtain ⟨o, ho, hp⟩ := Option.bind_eq_some_iff.mp h
    obtain ⟨g, hg, hop, hvalue⟩ := Operand.groups_of_ofNode? ho
    obtain ⟨gs, hgs, hresult⟩ := Product.groupsAfter_of_readOn hp hop hvalue
    refine ⟨gs, .cons ?_ hg hgs, hresult⟩
    rintro rfl
    exact hop (hg.isOperator_iff.mpr ⟨.power, rfl⟩)

/-- The tree that is held stands for the factor that is read. -/
theorem Product.groupsAfter_of_readOn : ∀ {front : Option (Product × Link)} {f : Factor}
    {cs : List Node} {p : Product} {held : Node}, Product.readOn front f cs = some p →
      ¬ held.IsOperator → eval lookup held = f.value lookup →
        ∃ gs, GroupsAfter held cs gs ∧ evalBehind lookup front gs = p.value lookup
  | front, f, [], p, held, h, hop, hvalue => by
    rw [Product.readOn] at h
    cases h
    refine ⟨[held], .nil held, ?_⟩
    rw [evalBehind_cons hop hvalue]
    exact bind_pure _
  | front, f, c :: cs, p, held, h, hop, hvalue => by
    by_cases hc : c.IsOperator
    · obtain ⟨op, rfl⟩ := hc
      by_cases hpower : op = .power
      · subst hpower
        cases cs with
        | nil =>
          rw [Product.readOn] at h
          cases h
        | cons e cs =>
          rw [Product.readOn_power] at h
          obtain ⟨o, ho, hp⟩ := Option.bind_eq_some_iff.mp h
          obtain ⟨g, hg, -, hexponent⟩ := Operand.groups_of_ofNode? ho
          have htriple : eval lookup (powerTriple held g) = (Factor.power f o).value lookup := by
            rw [eval_powerTriple, hvalue, hexponent]
            rfl
          obtain ⟨gs, hgs, hresult⟩ :=
            Product.groupsAfter_of_readOn hp (not_isOperator_powerTriple held g) htriple
          exact ⟨gs, .power hg hgs, hresult⟩
      · obtain ⟨link, -, hlink, hread⟩ := Product.readOn_operator hpower
        rw [hread] at h
        obtain ⟨gs, hgs, hresult⟩ := Product.groups_of_ofNodes? h
        refine ⟨held :: token (.operator op) :: gs, .next held ?_ (.token _) (hgs.after _), ?_⟩
        · intro heq
          cases heq
          exact hpower rfl
        · rw [evalBehind_cons hop hvalue, ← hresult, evalBehind, hlink]
          rfl
    · rw [Product.readOn_beside hc, Product.ofNodes?] at h
      obtain ⟨o, ho, hp⟩ := Option.bind_eq_some_iff.mp h
      obtain ⟨g, hg, hop', hfactor⟩ := Operand.groups_of_ofNode? ho
      obtain ⟨gs, hgs, hresult⟩ := Product.groupsAfter_of_readOn hp hop' hfactor
      refine ⟨held :: gs, .next held ?_ hg hgs, ?_⟩
      · rintro rfl
        exact hc ⟨.power, rfl⟩
      · rw [evalBehind_cons hop hvalue, ← hresult]
        rfl

end

/-! ## What the grammar does not allow -/

/-- Behind a tree that is open, the rest is grouped by itself, unless the tree becomes a base. -/
theorem Node.GroupsAfter.eq_cons_or_power (h : GroupsAfter held cs gs) :
    (∃ hs, gs = held :: hs ∧ Groups cs hs) ∨
      ∃ e ds g, cs = caret :: e :: ds ∧ GroupsAfter (powerTriple held g) ds gs := by
  cases h with
  | nil =>
    left
    exact ⟨[], rfl, .nil⟩
  | @power _ e g cs gs h hs =>
    right
    exact ⟨e, cs, g, rfl, hs⟩
  | next _ hc h hs =>
    left
    exact ⟨_, rfl, .cons hc h hs⟩

theorem fails_evalBehind_nil (hwants : WantsOperand front) :
    Fails (evalBehind lookup front []) := by
  cases front with
  | none =>
    intro q hq
    cases hq
  | some before =>
    obtain ⟨p, link⟩ := before
    refine fails_bind fun v => ?_
    intro q hq
    cases link with
    | times => cases hq
    | per => cases hq
    | beside => exact absurd rfl (hwants p)

mutual

/-- What cannot be read as an operand has no value when it has been grouped. -/
theorem Operand.fails_of_ofNode? : ∀ {n g : Node}, Operand.ofNode? n = none → GroupsInside n g →
    Fails (eval lookup g)
  | .token (.number text), g, h, _ => by
    rw [Operand.ofNode?] at h
    cases h
  | .token (.unit text), g, h, _ => by
    rw [Operand.ofNode?] at h
    cases h
  | .token (.operator op), g, _, hg => eval_isOperator (hg.isOperator_iff.mpr ⟨op, rfl⟩)
  | .group cs, _, h, @GroupsInside.group _ gs hgs => by
    rw [Operand.ofNode?, Option.map_eq_none_iff] at h
    have hwants : WantsOperand none := fun p hp => by cases hp
    exact Product.fails_of_ofNodes? hwants h hgs

theorem Product.fails_of_ofNodes? : ∀ {front : Option (Product × Link)} {cs gs : List Node},
    WantsOperand front → Product.ofNodes? front cs = none → Groups cs gs →
      Fails (evalBehind lookup front gs)
  | front, [], _, hwants, _, .nil => fails_evalBehind_nil hwants
  | front, c :: cs, gs, hwants, h, @Groups.cons _ g _ _ hc hg hs => by
    rw [Product.ofNodes?] at h
    cases ho : Operand.ofNode? c with
    | none => exact fails_of_groupsAfter hs (Operand.fails_of_ofNode? ho hg) (.inr hwants)
    | some o =>
      rw [ho] at h
      obtain ⟨g', hg', hop, hvalue⟩ := @Operand.groups_of_ofNode? lookup _ _ ho
      obtain rfl := hg.unique hg'
      exact Product.fails_of_readOn h hop hvalue hs

theorem Product.fails_of_readOn : ∀ {front : Option (Product × Link)} {f : Factor}
    {cs gs : List Node} {held : Node}, Product.readOn front f cs = none → ¬ held.IsOperator →
      eval lookup held = f.value lookup → GroupsAfter held cs gs →
        Fails (evalBehind lookup front gs)
  | front, f, [], gs, held, h, _, _, _ => by
    rw [Product.readOn] at h
    cases h
  | front, f, .token (.operator .power) :: e :: cs, gs, held, h, hop, hvalue,
      @GroupsAfter.power _ _ g _ _ hg hs => by
    rw [Product.readOn_power] at h
    have htriple := not_isOperator_powerTriple held g
    cases ho : Operand.ofNode? e with
    | none =>
      have hexponent := Operand.fails_of_ofNode? (n := e) ho hg
      exact fails_of_groupsAfter hs (fails_powerTriple (.inr hexponent)) (.inl htriple)
    | some o =>
      rw [ho] at h
      obtain ⟨g', hg', -, hexponent⟩ := @Operand.groups_of_ofNode? lookup _ _ ho
      obtain rfl := hg.unique hg'
      refine Product.fails_of_readOn (f := .power f o) h htriple ?_ hs
      rw [eval_powerTriple, hvalue, hexponent]
      rfl
  | front, f, c :: cs, _, held, h, hop, hvalue, @GroupsAfter.next _ _ g _ gs hc hg hs => by
    -- what is held is complete; the rest is evaluated behind the product that it ends
    rw [evalBehind_cons hop hvalue]
    show Fails (evalBehind lookup (some (Product.join front f, .beside)) gs)
    by_cases hcop : c.IsOperator
    · obtain ⟨op, rfl⟩ := hcop
      cases hg
      rcases hs.eq_cons_or_power with ⟨hs', rfl, hgs⟩ | ⟨e, ds, g, rfl, htriple⟩
      · have hpower : op ≠ .power := fun heq => hc (by rw [heq])
        obtain ⟨link, hbeside, hlink, hread⟩ := Product.readOn_operator hpower
        rw [hread] at h
        have hwants : WantsOperand (some (Product.join front f, link)) := by
          rintro p hp
          cases hp
          exact hbeside rfl
        have hfails := Product.fails_of_ofNodes? hwants h hgs
        rw [evalBehind, hlink] at hfails
        exact hfails
      · -- the operator has become a base, and no exponent gives its power a value
        have hbase : Fails (eval lookup (token (.operator op))) := eval_isOperator ⟨op, rfl⟩
        exact fails_of_groupsAfter htriple (fails_powerTriple (.inl hbase))
          (.inl (not_isOperator_powerTriple _ g))
    · rw [Product.readOn_beside hcop, Product.ofNodes?] at h
      have hgop : ¬ g.IsOperator := fun hgop => hcop (hg.isOperator_iff.mp hgop)
      cases ho : Operand.ofNode? c with
      | none => exact fails_of_groupsAfter hs (Operand.fails_of_ofNode? ho hg) (.inl hgop)
      | some o =>
        rw [ho] at h
        obtain ⟨g', hg', -, hfactor⟩ := @Operand.groups_of_ofNode? lookup _ _ ho
        obtain rfl := hg.unique hg'
        exact Product.fails_of_readOn h hgop hfactor hs

end

/-- Grouping under a limit that is not reached and evaluating from left to right give the value
along the grammar, and no value to anything else. A limit that is great enough is not reached. -/
theorem Node.eval_groupPowers_eq_ok_iff (lookup : String → Option Quantity) (n : Node) :
    (∀ limit, n.size ≤ limit → n.groupPowers limit ≠ .error (.nestingTooDeep limit)) ∧
    ∀ limit, n.groupPowers limit ≠ .error (.nestingTooDeep limit) → ∀ r,
      (∃ g, n.groupPowers limit = .ok g ∧ g.eval lookup = .ok r) ↔
        n.directValue lookup = some r := by
  refine ⟨fun limit h => groupPowers_not_tooDeep h, ?_⟩
  intro limit hlimit r
  cases ho : Operand.ofNode? n with
  | none =>
    have hnone : n.directValue lookup = none := by rw [directValue, ho]; rfl
    rw [hnone]
    constructor
    · rintro ⟨g, hg, hr⟩
      exact absurd hr (Operand.fails_of_ofNode? ho (groupsInside_of_groupPowers hg) r)
    · intro h
      cases h
  | some o =>
    obtain ⟨g, hg, -, hvalue⟩ := @Operand.groups_of_ofNode? lookup _ _ ho
    have hdirect : n.directValue lookup = (g.eval lookup).toOption := by
      rw [directValue, ho, hvalue]
      rfl
    have hgroup : n.groupPowers limit = .ok g := by
      rcases groupPowers_of_groupsInside hg with hok | herror
      · exact hok
      · exact absurd herror hlimit
    rw [hdirect]
    constructor
    · rintro ⟨g', hg', hr⟩
      rw [hgroup] at hg'
      cases hg'
      rw [hr]
      rfl
    · intro hr
      refine ⟨g, hgroup, ?_⟩
      cases hvalue : g.eval lookup with
      | error e =>
        rw [hvalue] at hr
        cases hr
      | ok q =>
        rw [hvalue] at hr
        cases hr
        rfl

/-- `k * m ^ k` is `k * (m ^ k)`, and `m ^ * k` has no value, though it can be grouped. -/
theorem Node.eval_groupPowers_product_of_power :
    let k : Quantity := .scalar 2.0
    let m : Quantity := ⟨.ofUnit .metre, 1.0⟩
    let lookup : String → Option Quantity := fun s => if s = "k" then some k else some m
    let product := group [token (.unit "k"), token (.operator .multiply), token (.unit "m"), caret,
      token (.unit "k")]
    let broken := group [token (.unit "m"), caret, token (.operator .multiply), token (.unit "k")]
    (∀ r, (∃ g, product.groupPowers 1 = .ok g ∧ g.eval lookup = .ok r) ↔
      (m.power k >>= fun x => k.multiply x).toOption = some r) ∧
    ∀ r, ¬ ∃ g, broken.groupPowers 1 = .ok g ∧ g.eval lookup = .ok r := by
  intro k m lookup product broken
  have hproduct : product.groupPowers 1 ≠ .error (.nestingTooDeep 1) := by
    intro h
    cases h
  have hbroken : broken.groupPowers 1 ≠ .error (.nestingTooDeep 1) := by
    intro h
    cases h
  have hvalue : product.directValue lookup =
      (m.power k >>= fun x => k.multiply x).toOption := rfl
  constructor
  · intro r
    rw [← hvalue]
    exact (eval_groupPowers_eq_ok_iff lookup product).2 1 hproduct r
  · intro r h
    cases ((eval_groupPowers_eq_ok_iff lookup broken).2 1 hbroken r).mp h

end UnitCalc
