import UnitCalc.Proofs.LeftToRight

/-!
# Proofs: the grammar of sequences

A sequence is a product of factors, and a factor is a chain of powers; both associate to the left.
`Product.value` evaluates a sequence along this grammar, without grouping its powers first. The
grammar is unambiguous, and `Operand.ofNode?` finds the only way to read a tree.
-/

namespace UnitCalc

open Node

/-- What stands between two factors. -/
inductive Link where
  /-- The operator `*`. -/
  | times
  /-- The operator `/`. -/
  | per
  /-- Nothing. -/
  | beside

namespace Link

def toNodes : Link → List Node
  | times => [token (.operator .multiply)]
  | per => [token (.operator .divide)]
  | beside => []

def apply : Link → Quantity → Quantity → Except ConversionError Quantity
  | times => Quantity.multiply
  | per => Quantity.divide
  | beside => Quantity.multiply

end Link

mutual

/-- A number, a unit or a group. -/
inductive Operand where
  | number (text : String)
  | unit (text : String)
  | group (content : Product)

/-- One or more operands with `^` between them. -/
inductive Factor where
  | single (operand : Operand)
  | power (base : Factor) (exponent : Operand)

/-- One or more factors with links between them. -/
inductive Product where
  | single (factor : Factor)
  | joined (front : Product) (link : Link) (last : Factor)

end

/-! ## The trees of the grammar -/

mutual

def Operand.toNode : Operand → Node
  | .number text => token (.number text)
  | .unit text => token (.unit text)
  | .group content => group content.toNodes

def Factor.toNodes : Factor → List Node
  | .single operand => [operand.toNode]
  | .power base exponent => base.toNodes ++ [caret, exponent.toNode]

def Product.toNodes : Product → List Node
  | .single factor => factor.toNodes
  | .joined front link last => front.toNodes ++ (link.toNodes ++ last.toNodes)

end

/-! ## Values along the grammar -/

section Value

variable (lookup : String → Option Quantity)

mutual

def Operand.value : Operand → Except ConversionError Quantity
  | .number text => (Token.number text).eval lookup
  | .unit text => (Token.unit text).eval lookup
  | .group content => content.value

def Factor.value : Factor → Except ConversionError Quantity
  | .single operand => operand.value
  | .power base exponent => do
    let x ← base.value
    let y ← exponent.value
    x.power y

def Product.value : Product → Except ConversionError Quantity
  | .single factor => factor.value
  | .joined front link last => do
    let x ← front.value
    let y ← last.value
    link.apply x y

end

end Value

/-! ## Reading a tree -/

/-- Puts a factor behind a product, or behind nothing. -/
def Product.join : Option (Product × Link) → Factor → Product
  | none, f => .single f
  | some (p, link), f => .joined p link f

mutual

/-- The operand that a tree is. -/
def Operand.ofNode? : Node → Option Operand
  | .token (.number text) => some (.number text)
  | .token (.unit text) => some (.unit text)
  | .token (.operator _) => none
  | .group cs => (Product.ofNodes? none cs).map .group

/-- The product that a sequence continues `front` to, with a new factor. -/
def Product.ofNodes? (front : Option (Product × Link)) : List Node → Option Product
  | [] => none
  | c :: cs => (Operand.ofNode? c).bind fun o => Product.readOn front (.single o) cs

/-- The product that a sequence continues `front` to, in or behind the factor `f`. -/
def Product.readOn (front : Option (Product × Link)) (f : Factor) : List Node → Option Product
  | [] => some (.join front f)
  | [.token (.operator .power)] => none
  | .token (.operator .power) :: e :: cs =>
    (Operand.ofNode? e).bind fun o => Product.readOn front (.power f o) cs
  | .token (.operator .multiply) :: cs => Product.ofNodes? (some (.join front f, .times)) cs
  | .token (.operator .divide) :: cs => Product.ofNodes? (some (.join front f, .per)) cs
  | c :: cs =>
    (Operand.ofNode? c).bind fun o =>
      Product.readOn (some (.join front f, .beside)) (.single o) cs

end

/-- The value of a tree that is read along the grammar. -/
def Node.directValue (lookup : String → Option Quantity) (n : Node) : Option Quantity :=
  (Operand.ofNode? n).bind fun o => (o.value lookup).toOption

namespace Product

variable {front : Option (Product × Link)} {f : Factor} {cs : List Node}

theorem readOn_power {e : Node} :
    readOn front f (caret :: e :: cs) =
      (Operand.ofNode? e).bind fun o => readOn front (f.power o) cs := by
  rw [readOn]

theorem readOn_beside {c : Node} (hc : ¬ c.IsOperator) :
    readOn front f (c :: cs) = ofNodes? (some (join front f, .beside)) (c :: cs) := by
  cases c with
  | token t =>
    cases t with
    | number s => rfl
    | unit s => rfl
    | operator op => exact absurd ⟨op, rfl⟩ hc
  | group ds => rfl

theorem readOn_operator {op : Operator} (hop : op ≠ .power) :
    ∃ link : Link, link ≠ .beside ∧ link.toNodes = [token (.operator op)] ∧
      ∀ front f cs, readOn front f (token (.operator op) :: cs) =
        ofNodes? (some (join front f, link)) cs := by
  cases op with
  | multiply => exact ⟨.times, Link.noConfusion, rfl, fun _ _ _ => by rw [readOn]⟩
  | divide => exact ⟨.per, Link.noConfusion, rfl, fun _ _ _ => by rw [readOn]⟩
  | power => exact absurd rfl hop

end Product

/-! ## The grammar is unambiguous -/

theorem Operand.not_isOperator_toNode (o : Operand) : ¬ o.toNode.IsOperator := by
  rintro ⟨op, h⟩
  cases o <;> cases h

theorem Factor.exists_toNodes_eq_cons : ∀ f : Factor, ∃ (o : Operand) (cs : List Node),
    f.toNodes = o.toNode :: cs
  | .single o => ⟨o, [], rfl⟩
  | .power base exponent => by
    obtain ⟨o, cs, h⟩ := base.exists_toNodes_eq_cons
    exact ⟨o, cs ++ [caret, exponent.toNode], by rw [toNodes, h, List.cons_append]⟩

/-- The trees of a product and of the link behind it. -/
def Product.frontNodes : Option (Product × Link) → List Node
  | none => []
  | some (p, link) => p.toNodes ++ link.toNodes

theorem Product.toNodes_join (front : Option (Product × Link)) (f : Factor) :
    (join front f).toNodes = frontNodes front ++ f.toNodes := by
  cases front with
  | none => rfl
  | some before =>
    obtain ⟨p, link⟩ := before
    rw [join, toNodes, frontNodes, List.append_assoc]

mutual

theorem Operand.toNode_of_ofNode? : ∀ {n : Node} {o : Operand},
    Operand.ofNode? n = some o → o.toNode = n
  | .token (.number text), o, h => by
    rw [Operand.ofNode?] at h
    cases h
    rfl
  | .token (.unit text), o, h => by
    rw [Operand.ofNode?] at h
    cases h
    rfl
  | .token (.operator op), o, h => by
    rw [Operand.ofNode?] at h
    cases h
  | .group cs, o, h => by
    rw [Operand.ofNode?] at h
    obtain ⟨p, hp, rfl⟩ := Option.map_eq_some_iff.mp h
    have hcs := Product.toNodes_of_ofNodes? hp
    rw [Operand.toNode, hcs]
    rfl

theorem Product.toNodes_of_ofNodes? {front : Option (Product × Link)} : ∀ {cs : List Node}
    {p : Product}, Product.ofNodes? front cs = some p → p.toNodes = Product.frontNodes front ++ cs
  | [], p, h => by
    rw [Product.ofNodes?] at h
    cases h
  | c :: cs, p, h => by
    rw [Product.ofNodes?] at h
    obtain ⟨o, ho, hp⟩ := Option.bind_eq_some_iff.mp h
    rw [Product.toNodes_of_readOn hp, Factor.toNodes, Operand.toNode_of_ofNode? ho]
    simp

theorem Product.toNodes_of_readOn : ∀ {front : Option (Product × Link)} {f : Factor}
    {cs : List Node} {p : Product}, Product.readOn front f cs = some p →
      p.toNodes = Product.frontNodes front ++ f.toNodes ++ cs
  | front, f, [], p, h => by
    rw [Product.readOn] at h
    cases h
    rw [Product.toNodes_join, List.append_nil]
  | front, f, c :: cs, p, h => by
    by_cases hc : c.IsOperator
    · obtain ⟨op, rfl⟩ := hc
      by_cases hop : op = .power
      · subst hop
        cases cs with
        | nil =>
          rw [Product.readOn] at h
          cases h
        | cons e cs =>
          rw [Product.readOn_power] at h
          obtain ⟨o, ho, hp⟩ := Option.bind_eq_some_iff.mp h
          rw [Product.toNodes_of_readOn hp, Factor.toNodes, Operand.toNode_of_ofNode? ho]
          simp
      · obtain ⟨link, -, hlink, hread⟩ := Product.readOn_operator hop
        rw [hread] at h
        rw [Product.toNodes_of_ofNodes? h, Product.frontNodes, Product.toNodes_join, hlink]
        simp
    · rw [Product.readOn_beside hc, Product.ofNodes?] at h
      obtain ⟨o, ho, hp⟩ := Option.bind_eq_some_iff.mp h
      rw [Product.toNodes_of_readOn hp, Factor.toNodes, Operand.toNode_of_ofNode? ho,
        Product.frontNodes, Product.toNodes_join, Link.toNodes]
      simp

end

mutual

theorem Operand.ofNode?_toNode : ∀ o : Operand, Operand.ofNode? o.toNode = some o
  | .number text => rfl
  | .unit text => rfl
  | .group p => by
    obtain ⟨front, f, rfl, hread⟩ := p.ofNodes?_toNodes
    have hp := hread []
    rw [List.append_nil] at hp
    rw [Operand.toNode, Operand.ofNode?, hp, Product.readOn]
    rfl

/-- A factor is read as one, whatever follows it. -/
theorem Factor.ofNodes?_toNodes : ∀ (f : Factor) (front : Option (Product × Link))
    (tail : List Node), Product.ofNodes? front (f.toNodes ++ tail) = Product.readOn front f tail
  | .single o, front, tail => by
    show Product.ofNodes? front (o.toNode :: tail) = _
    rw [Product.ofNodes?, o.ofNode?_toNode]
    rfl
  | .power base exponent, front, tail => by
    rw [Factor.toNodes, List.append_assoc, base.ofNodes?_toNodes]
    show Product.readOn front base (caret :: exponent.toNode :: tail) = _
    rw [Product.readOn_power, exponent.ofNode?_toNode]
    rfl

/-- A product is read up to its last factor, whatever follows it. -/
theorem Product.ofNodes?_toNodes : ∀ p : Product, ∃ front f, p = Product.join front f ∧
    ∀ tail, Product.ofNodes? none (p.toNodes ++ tail) = Product.readOn front f tail
  | .single f => ⟨none, f, rfl, f.ofNodes?_toNodes none⟩
  | .joined p link f => by
    obtain ⟨front, f', hp, hread⟩ := p.ofNodes?_toNodes
    refine ⟨some (p, link), f, rfl, ?_⟩
    intro tail
    rw [Product.toNodes, List.append_assoc, hread, List.append_assoc, ← f.ofNodes?_toNodes]
    cases link with
    | times => rw [hp]; rfl
    | per => rw [hp]; rfl
    | beside =>
      -- a factor starts with an operand, which cannot be taken for a link
      obtain ⟨o, cs, hf⟩ := f.exists_toNodes_eq_cons
      rw [hf, hp]
      exact Product.readOn_beside o.not_isOperator_toNode

end

/-- A tree is read as an operand exactly when it is the operand's tree, so that there is at most one
way to read it. -/
theorem Operand.ofNode?_eq_some_iff {n : Node} {o : Operand} :
    ofNode? n = some o ↔ o.toNode = n := by
  constructor
  · exact toNode_of_ofNode?
  · rintro rfl
    exact o.ofNode?_toNode

theorem Node.directValue_eq_some_iff {lookup : String → Option Quantity} {n : Node}
    {q : Quantity} : n.directValue lookup = some q ↔
      ∃ o : Operand, o.toNode = n ∧ o.value lookup = .ok q := by
  unfold directValue
  rw [Option.bind_eq_some_iff]
  refine exists_congr fun o => ?_
  rw [Operand.ofNode?_eq_some_iff]
  cases o.value lookup <;> simp [Except.toOption]

end UnitCalc
