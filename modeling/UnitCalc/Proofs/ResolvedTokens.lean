import UnitCalc.Proofs.FirstClaimant
import UnitCalc.Proofs.LeftToRight
import UnitCalc.Proofs.NestingLimit

/-!
# Proofs: every token is accounted for

Grouping keeps the tokens of an expression in their order, and evaluation comes to each of them
before it gives a value. So a conversion that succeeds has found a number or a definition for every
token that is not an operator, and one that fails for an unknown unit names a token of the
expression that no definition has as a spelling.
-/

namespace UnitCalc

/-- A token with a meaning: an operator, a literal of a number, or a unit that is known. -/
inductive Token.Resolves (lookup : String → Option Quantity) : Token → Prop where
  /-- The text of a number. -/
  | number {text : String} {x : Float} (h : readNumber text = .ok x) :
      Resolves lookup (.number text)
  /-- A unit that the look-up finds. -/
  | unit {symbol : String} {q : Quantity} (h : lookup symbol = some q) :
      Resolves lookup (.unit symbol)
  /-- An operator. -/
  | operator (op : Operator) : Resolves lookup (.operator op)

/-- If a computation fails for an unknown unit, this is one of the tokens, and the look-up does not
find it. -/
def NamesUnknown (lookup : String → Option Quantity) (ts : List Token)
    (x : Except ConversionError Quantity) : Prop :=
  ∀ symbol, x = .error (.evaluation (.unknownUnit symbol)) →
    Token.unit symbol ∈ ts ∧ lookup symbol = none

namespace Node

mutual

/-- The tokens of a tree from left to right, at any depth. -/
def tokens : Node → List Token
  | token t => [t]
  | group cs => tokensOfAll cs

/-- The tokens of some trees from left to right. -/
def tokensOfAll : List Node → List Token
  | [] => []
  | c :: cs => c.tokens ++ tokensOfAll cs

end

/-! ## Grouping keeps the tokens -/

theorem tokens_powerTriple (base exponent : Node) :
    (powerTriple base exponent).tokens =
      base.tokens ++ .operator .power :: exponent.tokens := by
  simp [powerTriple, tokens, tokensOfAll]

mutual

theorem GroupsInside.tokens_eq : ∀ {n g : Node}, GroupsInside n g → g.tokens = n.tokens
  | _, _, .token _ => rfl
  | _, _, .group h => h.tokens_eq

theorem Groups.tokens_eq : ∀ {cs gs : List Node}, Groups cs gs → tokensOfAll gs = tokensOfAll cs
  | _, _, .nil => rfl
  | _, _, .cons _ h hs => by rw [hs.tokens_eq, tokensOfAll, h.tokens_eq]

/-- The tokens of what is held stand in front of the others, however much it has grown. -/
theorem GroupsAfter.tokens_eq : ∀ {held : Node} {cs gs : List Node}, GroupsAfter held cs gs →
    tokensOfAll gs = held.tokens ++ tokensOfAll cs
  | _, _, _, .nil _ => rfl
  | _, _, _, .power h hs => by
    rw [hs.tokens_eq, tokens_powerTriple, h.tokens_eq]
    simp [tokensOfAll, tokens]
  | _, _, _, .next _ _ h hs => by rw [tokensOfAll, hs.tokens_eq, tokensOfAll, h.tokens_eq]

end

end Node

/-! ## A value resolves the tokens -/

variable {lookup : String → Option Quantity}

theorem Token.resolves_of_eval {t : Token} {q : Quantity} (h : t.eval lookup = .ok q) :
    t.Resolves lookup := by
  unfold Token.eval at h
  split at h
  · split at h
    · rename_i x hread
      exact .number hread
    · cases h
  · split at h
    · rename_i q' hlookup
      exact .unit hlookup
    · cases h
  · cases h

namespace Node

mutual

theorem resolves_of_eval : ∀ (n : Node) {q : Quantity}, eval lookup n = .ok q →
    ∀ t ∈ n.tokens, t.Resolves lookup
  | token t, q, h => List.forall_mem_singleton.mpr (Token.resolves_of_eval h)
  | group cs, q, h => by
    rw [eval] at h
    exact resolves_of_evalSequence cs h

theorem resolves_of_evalSequence : ∀ (cs : List Node) {q : Quantity},
    evalSequence lookup cs = .ok q → ∀ t ∈ tokensOfAll cs, t.Resolves lookup
  | [], q, h => List.forall_mem_nil _
  | c :: cs, q, h => by
    rw [evalSequence] at h
    obtain ⟨first, hfirst, h⟩ := bind_eq_ok_iff.mp h
    exact List.forall_mem_append.mpr
      ⟨resolves_of_eval c hfirst, resolves_of_evalAfter cs h⟩

theorem resolves_of_evalAfter : ∀ (cs : List Node) {value q : Quantity},
    evalAfter lookup value cs = .ok q → ∀ t ∈ tokensOfAll cs, t.Resolves lookup
  | [], value, q, h => List.forall_mem_nil _
  | c :: cs, value, q, h => by
    by_cases hc : c.IsOperator
    · -- the operand behind an operator is evaluated in the same step
      obtain ⟨op, rfl⟩ := hc
      cases cs with
      | nil =>
        rw [evalAfter_lone] at h
        cases h
      | cons d ds =>
        rw [evalAfter_operator] at h
        obtain ⟨x, hx, h⟩ := bind_eq_ok_iff.mp h
        obtain ⟨next, -, h⟩ := bind_eq_ok_iff.mp h
        have hrest : ∀ t ∈ d.tokens ++ tokensOfAll ds, t.Resolves lookup :=
          List.forall_mem_append.mpr ⟨resolves_of_eval d hx, resolves_of_evalAfter ds h⟩
        exact List.forall_mem_cons.mpr ⟨.operator op, hrest⟩
    · rw [evalAfter_operand hc] at h
      obtain ⟨x, hx, h⟩ := bind_eq_ok_iff.mp h
      obtain ⟨next, -, h⟩ := bind_eq_ok_iff.mp h
      exact List.forall_mem_append.mpr ⟨resolves_of_eval c hx, resolves_of_evalAfter cs h⟩

end

end Node

/-! ## An error names a token -/

namespace NamesUnknown

variable {ts us : List Token}

theorem bind {x : Except ConversionError Quantity} {f : Quantity → Except ConversionError Quantity}
    (hx : NamesUnknown lookup ts x) (hf : ∀ q, NamesUnknown lookup us (f q)) :
    NamesUnknown lookup (ts ++ us) (x >>= f) := by
  intro symbol h
  rcases bind_eq_error_iff.mp h with h | ⟨q, -, h⟩
  · exact ⟨List.mem_append_left us (hx symbol h).1, (hx symbol h).2⟩
  · exact ⟨List.mem_append_right ts (hf q symbol h).1, (hf q symbol h).2⟩

theorem behind (t : Token) {x : Except ConversionError Quantity} (hx : NamesUnknown lookup ts x) :
    NamesUnknown lookup (t :: ts) x :=
  fun symbol h => ⟨List.mem_cons_of_mem t (hx symbol h).1, (hx symbol h).2⟩

theorem ok (q : Quantity) : NamesUnknown lookup ts (.ok q) := fun _ h => by cases h

theorem lone (op : Operator) : NamesUnknown lookup ts (.error op.lone) := fun _ h => by cases h

theorem apply (op : Operator) (a b : Quantity) : NamesUnknown lookup [] (op.apply a b) := by
  intro symbol h
  rcases Operator.error_of_apply h with h | ⟨_, h⟩ | ⟨_, h⟩ <;> cases h

theorem token (t : Token) : NamesUnknown lookup [t] (t.eval lookup) := by
  intro symbol h
  unfold Token.eval at h
  split at h
  · split at h <;> cases h
  · split at h
    · cases h
    · rename_i hlookup
      cases h
      exact ⟨List.mem_singleton_self _, hlookup⟩
  · cases h

end NamesUnknown

namespace Node

mutual

theorem namesUnknown_eval : ∀ n : Node, NamesUnknown lookup n.tokens (eval lookup n)
  | token t => .token t
  | group cs => by
    rw [eval]
    exact namesUnknown_evalSequence cs

theorem namesUnknown_evalSequence : ∀ cs : List Node,
    NamesUnknown lookup (tokensOfAll cs) (evalSequence lookup cs)
  | [] => fun _ h => by cases h
  | c :: cs => by
    rw [evalSequence]
    exact (namesUnknown_eval c).bind fun first => namesUnknown_evalAfter cs first

theorem namesUnknown_evalAfter : ∀ (cs : List Node) (value : Quantity),
    NamesUnknown lookup (tokensOfAll cs) (evalAfter lookup value cs)
  | [], value => by
    rw [evalAfter]
    exact .ok value
  | c :: cs, value => by
    by_cases hc : c.IsOperator
    · obtain ⟨op, rfl⟩ := hc
      cases cs with
      | nil =>
        rw [evalAfter_lone]
        exact .lone op
      | cons d ds =>
        rw [evalAfter_operator]
        exact .behind (.operator op) ((namesUnknown_eval d).bind fun x =>
          (NamesUnknown.apply op value x).bind fun result => namesUnknown_evalAfter ds result)
    · rw [evalAfter_operand hc]
      exact (namesUnknown_eval c).bind fun x =>
        (NamesUnknown.apply .multiply value x).bind fun result => namesUnknown_evalAfter cs result

end

end Node

/-! ## Catalogues -/

namespace Catalogue

theorem exists_of_lookup?_ofList {ds : List UnitDefinition} {s : String} {q : Quantity}
    (h : (ofList ds).lookup? s = some q) : ∃ d ∈ ds, d.symbol = s ∨ d.alternate = some s := by
  rw [lookup?_ofList] at h
  obtain ⟨d, hd, -⟩ := Option.map_eq_some_iff.mp h
  have hspelling : s ∈ d.spellings := by simpa using List.find?_some hd
  exact ⟨d, List.mem_of_find?_eq_some hd, mem_spellings_iff.mp hspelling⟩

theorem forall_of_lookup?_ofList_eq_none {ds : List UnitDefinition} {s : String}
    (h : (ofList ds).lookup? s = none) : ∀ d ∈ ds, d.symbol ≠ s ∧ d.alternate ≠ some s := by
  rw [lookup?_ofList, Option.map_eq_none_iff, List.find?_eq_none] at h
  intro d hd
  have hspelling : s ∉ d.spellings := by simpa using h d hd
  rwa [mem_spellings_iff, not_or] at hspelling

end Catalogue

/-! ## Conversions -/

open Node

/-- What is evaluated has the tokens of what was read. -/
theorem exists_parse_of_parseGrouped {limit : Nat} {expression : String} {g : Node}
    (h : parseGrouped limit expression = .ok g) :
    ∃ n, parse limit expression = .ok n ∧ n.tokens = g.tokens := by
  obtain ⟨cs, gs, -, hr, hg, rfl, hd⟩ := parseGrouped_eq_ok h
  have hread : (group cs).nestingDepth ≤ limit := Nat.le_trans hg.maxHeight_le hd
  refine ⟨group cs, ?_, hg.tokens_eq.symm⟩
  rw [parse_of_reads hr, if_pos hread]

/-- A conversion that succeeds has resolved every token of the expression: each unit is the primary
symbol or the alternate of a definition, and each number can be read. A conversion that fails for an
unknown unit names a token of the expression, which is neither for any definition. -/
theorem tokens_resolved_or_named (limit : Nat) (ds : List UnitDefinition) (expression : String) :
    (∀ q, convertUnder limit (.ofList ds) expression = .ok q →
      ∃ n, parse limit expression = .ok n ∧
        (∀ symbol, .unit symbol ∈ n.tokens →
          ∃ d ∈ ds, d.symbol = symbol ∨ d.alternate = some symbol) ∧
        ∀ text, .number text ∈ n.tokens → ∃ x, readNumber text = .ok x) ∧
    ∀ symbol, convertUnder limit (.ofList ds) expression =
        .error (.evaluation (.unknownUnit symbol)) →
      ∃ n, parse limit expression = .ok n ∧ .unit symbol ∈ n.tokens ∧
        ∀ d ∈ ds, d.symbol ≠ symbol ∧ d.alternate ≠ some symbol := by
  unfold convertUnder
  cases hgrouped : parseGrouped limit expression with
  | error error =>
    constructor
    · rintro q ⟨⟩
    · rintro symbol ⟨⟩
  | ok g =>
    obtain ⟨n, hparse, htokens⟩ := exists_parse_of_parseGrouped hgrouped
    constructor
    · intro q h
      have hall : ∀ t ∈ n.tokens, t.Resolves (Catalogue.ofList ds).lookup? :=
        htokens ▸ resolves_of_eval g h
      refine ⟨n, hparse, fun symbol hsymbol => ?_, fun text htext => ?_⟩
      · cases hall _ hsymbol with
        | unit hlookup => exact Catalogue.exists_of_lookup?_ofList hlookup
      · cases hall _ htext with
        | number hread => exact ⟨_, hread⟩
    · intro symbol h
      obtain ⟨hmem, hlookup⟩ := namesUnknown_eval g symbol h
      exact ⟨n, hparse, htokens ▸ hmem, Catalogue.forall_of_lookup?_ofList_eq_none hlookup⟩

/-- An alternate in brackets beside a number, and an unknown unit in the base of a power. -/
theorem tokens_resolved_or_named_kilometre :
    let kilometre : UnitDefinition := ⟨"km", some "kilo", ⟨.ofUnit .metre, 1000.0⟩⟩
    let number := group [token (.number "2"), group [token (.unit "kilo")]]
    let power := group [group [token (.number "2"), token (.unit "mile")], caret,
      token (.unit "km")]
    (convertUnder 2 (.ofList [kilometre]) "2[kilo]" = .ok ⟨.ofUnit .metre, 2000.0⟩ ∧
      parse 2 "2[kilo]" = .ok number ∧ number.tokens = [.number "2", .unit "kilo"] ∧
      (∃ d ∈ [kilometre], d.symbol = "kilo" ∨ d.alternate = some "kilo") ∧
      ∃ x, readNumber "2" = .ok x) ∧
    (convertUnder 2 (.ofList [kilometre]) "(2 mile)^km" =
        .error (.evaluation (.unknownUnit "mile")) ∧
      parse 2 "(2 mile)^km" = .ok power ∧ .unit "mile" ∈ power.tokens ∧
      ∀ d ∈ [kilometre], d.symbol ≠ "mile" ∧ d.alternate ≠ some "mile") := by
  intro kilometre number power
  have htwo : readNumber "2" = .ok 2.0 := by with_unfolding_all rfl
  have hparse : parse 2 "2[kilo]" = .ok number := by with_unfolding_all rfl
  have hnumber : convertUnder 2 (.ofList [kilometre]) "2[kilo]" = .ok ⟨.ofUnit .metre, 2000.0⟩ := by
    have hgrouped : parseGrouped 2 "2[kilo]" = .ok number := by
      unfold parseGrouped
      rw [hparse]
      rfl
    have hlookup : (Catalogue.ofList [kilometre]).lookup? "kilo" = some kilometre.quantity := by
      rw [Catalogue.lookup?_ofList]
      rfl
    have hproduct : (Quantity.scalar 2.0).multiply kilometre.quantity =
        .ok ⟨.ofUnit .metre, 2000.0⟩ := by
      have hdimension : Dimension.dimensionless.multiply (.ofUnit .metre) = .ofUnit .metre := by
        ext u
        cases u <;> decide +kernel
      have hcoefficient : (2.0 : Float) * 1000.0 = 2000.0 := by decide +kernel
      have hfinite : Quantity.isFinite ⟨.ofUnit .metre, 2000.0⟩ = true := by decide +kernel
      simp only [Quantity.multiply, Quantity.scalar, kilometre, hdimension, hcoefficient]
      exact if_pos hfinite
    unfold convertUnder
    rw [hgrouped]
    simp only [number, Node.eval, Node.evalSequence, Node.evalAfter, Token.eval, hlookup, htwo,
      bind, Except.bind, hproduct]
  have hparse' : parse 2 "(2 mile)^km" = .ok power := by with_unfolding_all rfl
  have hpower : convertUnder 2 (.ofList [kilometre]) "(2 mile)^km" =
      .error (.evaluation (.unknownUnit "mile")) := by
    have hgrouped : parseGrouped 2 "(2 mile)^km" = .ok (group [powerTriple
        (group [token (.number "2"), token (.unit "mile")]) (token (.unit "km"))]) := by
      unfold parseGrouped
      rw [hparse']
      rfl
    have hlookup : (Catalogue.ofList [kilometre]).lookup? "mile" = none := by
      rw [Catalogue.lookup?_ofList]
      rfl
    unfold convertUnder
    rw [hgrouped]
    simp only [powerTriple, Node.eval, Node.evalSequence, Node.evalAfter, Token.eval, hlookup,
      htwo, bind, Except.bind]
  obtain ⟨n, hn, hunits, hnumbers⟩ :=
    (tokens_resolved_or_named 2 [kilometre] "2[kilo]").1 _ hnumber
  obtain ⟨n', hn', hmem, hnone⟩ :=
    (tokens_resolved_or_named 2 [kilometre] "(2 mile)^km").2 _ hpower
  cases hparse.symm.trans hn
  cases hparse'.symm.trans hn'
  refine ⟨⟨hnumber, hparse, rfl, ?_, ?_⟩, hpower, hparse', hmem, hnone⟩
  · exact hunits "kilo" (by simp [number, tokens, tokensOfAll])
  · exact hnumbers "2" (by simp [number, tokens, tokensOfAll])

end UnitCalc
