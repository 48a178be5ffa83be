import UnitCalc.Proofs.LeftToRight
import UnitCalc.Proofs.NestingLimit

/-!
# Proofs: conversion is compositional

An expression put in brackets behind another one, with or without an operator between them, is
converted to what the operation makes of the two results. Only the limit has to grow, by the
brackets and by the group of a power.
-/

namespace UnitCalc

open Node

/-! ## An expression that can be converted -/

theorem convertUnder_eq_ok {limit : Nat} {units : Catalogue} {expression : String} {q : Quantity}
    (h : convertUnder limit units expression = .ok q) :
    ∃ cs gs, cs ≠ [] ∧ Reads expression.toList cs ∧ Groups cs gs ∧ maxHeight gs ≤ limit ∧
      evalSequence units.lookup? gs = .ok q := by
  unfold convertUnder at h
  cases hparse : parseGrouped limit expression with
  | error e =>
    rw [hparse] at h
    cases h
  | ok g =>
    rw [hparse] at h
    obtain ⟨cs, gs, hne, hr, hg, rfl, hd⟩ := parseGrouped_eq_ok hparse
    exact ⟨cs, gs, hne, hr, hg, hd, h⟩

theorem convertUnder_of_reads {limit : Nat} {units : Catalogue} {expression : String}
    {cs gs : List Node} (hr : Reads expression.toList cs) (hne : cs ≠ []) (hg : Groups cs gs)
    (hd : maxHeight gs ≤ limit) :
    convertUnder limit units expression = evalSequence units.lookup? gs := by
  have hparse : parseGrouped limit expression = .ok (group gs) := by
    rw [parseGrouped_of_reads hr hne hg]
    exact if_pos hd
  unfold convertUnder
  rw [hparse]
  rfl

/-! ## Text in brackets -/

/-- A text between brackets. -/
def Bracket.around (b : Bracket) (text : String) : String :=
  b.opener.toString ++ text ++ b.closer.toString

theorem Bracket.toList_around (b : Bracket) (text : String) :
    (b.around text).toList = b.opener :: (text.toList ++ [b.closer]) := by
  simp [around]

theorem Bracket.goesOn_opener (b : Bracket) : Token.goesOn b.opener = false := by
  cases b <;> decide

variable {text : String} {cs gs : List Node}

theorem reads_around (b : Bracket) (hr : Reads text.toList cs) (hne : cs ≠ []) :
    Reads (b.around text).toList [group cs] := by
  rw [b.toList_around]
  exact .bracket b hr hne .nil

theorem groups_around (hg : Groups cs gs) : Groups [group cs] [group gs] :=
  .cons Node.noConfusion (.group hg) (.nil _)

/-! ## Two expressions -/

theorem reads_operator (op : Operator) {rest : List Char} {ns : List Node} (hr : Reads rest ns) :
    Reads (op.symbol :: rest) (token (.operator op) :: ns) :=
  .token (Token.scan?_symbol op rest) hr

variable {limit : Nat} {units : Catalogue} {X Y : String} {x y : Quantity}

/-- An expression in brackets behind another one multiplies it. -/
theorem convertUnder_beside (hx : convertUnder limit units X = .ok x)
    (hy : convertUnder limit units Y = .ok y) (b : Bracket) :
    convertUnder (limit + 2) units (X ++ b.around Y) = x.multiply y := by
  obtain ⟨cx, gx, hnex, hrx, hgx, hdx, hvx⟩ := convertUnder_eq_ok hx
  obtain ⟨cy, gy, hney, hry, hgy, hdy, hvy⟩ := convertUnder_eq_ok hy
  have hread : Reads (X ++ b.around Y).toList (cx ++ [group cy]) := by
    rw [String.toList_append]
    refine hrx.append (reads_around b hry hney) ?_
    rw [b.toList_around]
    simp [b.goesOn_opener]
  have hgroup : Groups (cx ++ [group cy]) (gx ++ [group gy]) := hgx.append (groups_around hgy)
  have hdepth : maxHeight (gx ++ [group gy]) ≤ limit + 2 := by
    rw [maxHeight_append, maxHeight_cons, height, maxHeight_nil]
    omega
  rw [convertUnder_of_reads hread (by simp) hgroup hdepth, evalSequence_append hvx,
    evalAfter_operand (not_isOperator_group gy), eval, hvy]
  show (x.multiply y >>= fun result => .ok result) = _
  exact bind_pure _

/-- An expression in brackets behind another one and an operator that is not a power is the
operator's second operand. -/
theorem convertUnder_operator (op : Operator) (hop : op ≠ .power)
    (hx : convertUnder limit units X = .ok x) (hy : convertUnder limit units Y = .ok y)
    (b : Bracket) :
    convertUnder (limit + 2) units (X ++ op.symbol.toString ++ b.around Y) = op.apply x y := by
  obtain ⟨cx, gx, hnex, hrx, hgx, hdx, hvx⟩ := convertUnder_eq_ok hx
  obtain ⟨cy, gy, hney, hry, hgy, hdy, hvy⟩ := convertUnder_eq_ok hy
  have hread : Reads (X ++ op.symbol.toString ++ b.around Y).toList
      (cx ++ [token (.operator op), group cy]) := by
    rw [String.append_assoc, String.toList_append, String.toList_append]
    have hsymbol : op.symbol.toString.toList = [op.symbol] := by simp
    rw [hsymbol]
    refine hrx.append (reads_operator op (reads_around b hry hney)) ?_
    simp [Token.goesOn_symbol]
  have hgroup : Groups (cx ++ [token (.operator op), group cy])
      (gx ++ [token (.operator op), group gy]) := by
    refine hgx.append (.cons ?_ (.token _) ((groups_around hgy).after _))
    intro h
    cases h
    exact hop rfl
  have hdepth : maxHeight (gx ++ [token (.operator op), group gy]) ≤ limit + 2 := by
    simp only [maxHeight_append, maxHeight_cons, height, maxHeight_nil]
    omega
  rw [convertUnder_of_reads hread (by simp) hgroup hdepth, evalSequence_append hvx,
    evalAfter_operator, eval, hvy]
  show (op.apply x y >>= fun result => .ok result) = _
  exact bind_pure _

/-- An expression in brackets is the base, and another one the exponent. -/
theorem convertUnder_power (hx : convertUnder limit units X = .ok x)
    (hy : convertUnder limit units Y = .ok y) (b b' : Bracket) :
    convertUnder (limit + 2) units (b.around X ++ "^" ++ b'.around Y) = x.power y := by
  obtain ⟨cx, gx, hnex, hrx, hgx, hdx, hvx⟩ := convertUnder_eq_ok hx
  obtain ⟨cy, gy, hney, hry, hgy, hdy, hvy⟩ := convertUnder_eq_ok hy
  have hread : Reads (b.around X ++ "^" ++ b'.around Y).toList [group cx, caret, group cy] := by
    rw [String.append_assoc, String.toList_append, String.toList_append]
    refine (reads_around b hrx hnex).append
      (reads_operator .power (reads_around b' hry hney)) ?_
    intro c hc
    cases hc
    exact Token.goesOn_symbol .power
  have hgroup : Groups [group cx, caret, group cy] [powerTriple (group gx) (group gy)] :=
    .cons Node.noConfusion (.group hgx) (.power (.group hgy) (.nil _))
  have hdepth : maxHeight [powerTriple (group gx) (group gy)] ≤ limit + 2 := by
    simp only [powerTriple, maxHeight_cons, height, maxHeight_nil]
    omega
  rw [convertUnder_of_reads hread (by simp) hgroup hdepth, evalSequence, powerTriple, eval,
    evalSequence, eval, hvx]
  show (evalAfter _ x [caret, group gy] >>= fun result => .ok result) = _
  rw [evalAfter_operator, eval, hvy]
  show ((x.power y >>= fun result => .ok result) >>= fun result => .ok result) = _
  cases x.power y with
  | error e => rfl
  | ok q => rfl

/-- What two expressions are converted to decides what their product, quotient and power are
converted to, with any brackets around them. -/
theorem convertUnder_compositional (units : Catalogue) (limit : Nat) (X Y : String)
    (x y : Quantity) (hx : convertUnder limit units X = .ok x)
    (hy : convertUnder limit units Y = .ok y) (b b' : Bracket) :
    convertUnder (limit + 2) units (X ++ "*" ++ b.around Y) = x.multiply y ∧
    convertUnder (limit + 2) units (X ++ b.around Y) = x.multiply y ∧
    convertUnder (limit + 2) units (X ++ "/" ++ b.around Y) = x.divide y ∧
    convertUnder (limit + 2) units (b.around X ++ "^" ++ b'.around Y) = x.power y := by
  refine ⟨?_, convertUnder_beside hx hy b, ?_, convertUnder_power hx hy b b'⟩
  · exact convertUnder_operator .multiply (by decide) hx hy b
  · exact convertUnder_operator .divide (by decide) hx hy b

theorem convertUnder_compositional_metre_second :
    let m : Quantity := ⟨.ofUnit .metre, 1.0⟩
    let s : Quantity := ⟨.ofUnit .second, 1.0⟩
    let units := Catalogue.ofList [⟨"m", none, m⟩, ⟨"s", none, s⟩]
    convertUnder 0 units "m" = .ok m ∧ convertUnder 0 units "s" = .ok s ∧
    convertUnder 2 units "m/(s)" = m.divide s ∧ convertUnder 2 units "[m]^(s)" = m.power s := by
  intro m s units
  have hm : units.lookup? "m" = some m := by
    simp [units, Catalogue.lookup?, Catalogue.get?, Catalogue.ofList, Catalogue.claimAll,
      Catalogue.claim, UnitDefinition.spellings, Std.HashMap.getElem_insertIfNew]
  have hs : units.lookup? "s" = some s := by
    simp [units, Catalogue.lookup?, Catalogue.get?, Catalogue.ofList, Catalogue.claimAll,
      Catalogue.claim, UnitDefinition.spellings, Std.HashMap.getElem_insertIfNew]
  have hread : ∀ t, t = "m" ∨ t = "s" → Reads t.toList [token (.unit t)] := by
    rintro t (rfl | rfl)
    · exact .token rfl .nil
    · exact .token rfl .nil
  have hone : ∀ t q, t = "m" ∨ t = "s" → units.lookup? t = some q →
      convertUnder 0 units t = .ok q := by
    intro t q ht hq
    have hgroup : Groups [token (.unit t)] [token (.unit t)] :=
      .cons (by intro h; cases h) (.token _) (.nil _)
    rw [convertUnder_of_reads (hread t ht) (List.cons_ne_nil _ _) hgroup (Nat.le_refl 0)]
    show (Token.eval units.lookup? (.unit t) >>= fun first => .ok first) = _
    rw [Token.eval, hq]
    rfl
  have hx := hone "m" m (.inl rfl) hm
  have hy := hone "s" s (.inr rfl) hs
  have hall := convertUnder_compositional units 0 "m" "s" m s hx hy
  exact ⟨hx, hy, (hall .round .round).2.2.1, (hall .square .round).2.2.2⟩

end UnitCalc
