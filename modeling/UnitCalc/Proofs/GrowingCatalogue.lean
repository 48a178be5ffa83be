import UnitCalc.Converter
import UnitCalc.Proofs.Agreement
import UnitCalc.Proofs.FirstClaimant
import UnitCalc.Proofs.LeftToRight

/-!
# Proofs: growing a catalogue

Definitions put behind those of a catalogue can give a meaning to a spelling that had none, and do
nothing else. An evaluation therefore comes out as before unless it failed for an unknown unit, also
where it fails for something else with unknown units still ahead of it.
-/

namespace UnitCalc

/-- The error is about a unit that the catalogue does not know. -/
def ConversionError.IsUnknownUnit (e : ConversionError) : Prop :=
  ∃ symbol, e = .evaluation (.unknownUnit symbol)

/-- Whatever has a meaning in the first look-up has the same meaning in the second. -/
def Extends (lookup lookup' : String → Option Quantity) : Prop :=
  ∀ s q, lookup s = some q → lookup' s = some q

variable {lookup lookup' : String → Option Quantity}

theorem Token.agrees_eval (h : Extends lookup lookup') (t : Token) :
    AgreesUnless ConversionError.IsUnknownUnit (t.eval lookup) (t.eval lookup') := by
  cases t with
  | number text => exact .refl _
  | unit text =>
    rw [Token.eval, Token.eval]
    cases hlookup : lookup text with
    | none => exact .failed ⟨text, rfl⟩ rfl
    | some q =>
      rw [h text q hlookup]
      exact .refl _
  | operator op => exact .refl _

namespace Node

mutual

theorem agrees_eval (h : Extends lookup lookup') : ∀ n : Node,
    AgreesUnless ConversionError.IsUnknownUnit (eval lookup n) (eval lookup' n)
  | token t => t.agrees_eval h
  | group cs => by
    rw [eval, eval]
    exact agrees_evalSequence h cs

theorem agrees_evalSequence (h : Extends lookup lookup') : ∀ cs : List Node,
    AgreesUnless ConversionError.IsUnknownUnit (evalSequence lookup cs) (evalSequence lookup' cs)
  | [] => .refl _
  | c :: cs => by
    rw [evalSequence, evalSequence]
    exact (agrees_eval h c).bind fun first => agrees_evalAfter h cs first

theorem agrees_evalAfter (h : Extends lookup lookup') : ∀ (cs : List Node) (value : Quantity),
    AgreesUnless ConversionError.IsUnknownUnit (evalAfter lookup value cs)
      (evalAfter lookup' value cs)
  | [], value => by
    rw [evalAfter, evalAfter]
    exact .refl _
  | c :: cs, value => by
    by_cases hc : c.IsOperator
    · obtain ⟨op, rfl⟩ := hc
      cases cs with
      | nil =>
        rw [evalAfter_lone, evalAfter_lone]
        exact .refl _
      | cons d ds =>
        rw [evalAfter_operator, evalAfter_operator]
        exact (agrees_eval h d).bind fun x =>
          (AgreesUnless.refl (op.apply value x)).bind fun result => agrees_evalAfter h ds result
    · rw [evalAfter_operand hc, evalAfter_operand hc]
      exact (agrees_eval h c).bind fun x =>
        (AgreesUnless.refl (value.multiply x)).bind fun result => agrees_evalAfter h cs result

end

end Node

theorem agrees_convertUnder {units units' : Catalogue} (h : Extends units.lookup? units'.lookup?)
    (limit : Nat) (expression : String) : AgreesUnless ConversionError.IsUnknownUnit
      (convertUnder limit units expression) (convertUnder limit units' expression) := by
  unfold convertUnder
  -- both runs evaluate the same tree, since reading and grouping look nothing up
  cases parseGrouped limit expression with
  | error error => exact .refl _
  | ok n => exact n.agrees_eval h

/-- Definitions behind those of a catalogue do not change its look-ups, whatever spellings they
claim. -/
theorem Catalogue.extends_ofList_append (ds es : List UnitDefinition) :
    Extends (ofList ds).lookup? (ofList (ds ++ es)).lookup? := by
  intro s q h
  rw [lookup?_ofList] at h ⊢
  obtain ⟨d, hd, rfl⟩ := Option.map_eq_some_iff.mp h
  rw [List.find?_append, hd]
  rfl

/-- Definitions behind those of a catalogue change nothing about a conversion, be its outcome a
quantity or an error, unless it failed for an unknown unit. -/
theorem convertUnder_ofList_append (limit : Nat) (expression : String) (ds es : List UnitDefinition)
    (h : ∀ symbol, convertUnder limit (.ofList ds) expression ≠
      .error (.evaluation (.unknownUnit symbol))) :
    convertUnder limit (.ofList (ds ++ es)) expression =
      convertUnder limit (.ofList ds) expression := by
  refine (agrees_convertUnder (Catalogue.extends_ofList_append ds es) limit expression).eq ?_
  rintro _ ⟨symbol, rfl⟩
  exact h symbol

/-- An alternate spelling that a later definition claims for its primary symbol, and a division by
zero in front of a unit that only the later definitions have. -/
theorem convertUnder_ofList_append_kilo :
    let kilometre : UnitDefinition := ⟨"km", some "kilo", ⟨.ofUnit .metre, 1000.0⟩⟩
    let kilogram : UnitDefinition := ⟨"kilo", some "x", ⟨.ofUnit .kilogram, 1.0⟩⟩
    ((∀ symbol, convertUnder 1 (.ofList [kilometre]) "[kilo]" ≠
        .error (.evaluation (.unknownUnit symbol))) ∧
      convertUnder 1 (.ofList [kilometre]) "[kilo]" = .ok kilometre.quantity ∧
      convertUnder 1 (.ofList ([kilometre] ++ [kilogram])) "[kilo]" = .ok kilometre.quantity) ∧
    ((∀ symbol, convertUnder 1 (.ofList [kilometre]) "kilo/0 x" ≠
        .error (.evaluation (.unknownUnit symbol))) ∧
      convertUnder 1 (.ofList [kilometre]) "kilo/0 x" = .error (.evaluation .divisionByZero) ∧
      convertUnder 1 (.ofList ([kilometre] ++ [kilogram])) "kilo/0 x" =
        .error (.evaluation .divisionByZero)) := by
  intro kilometre kilogram
  have hkilo : (Catalogue.ofList [kilometre]).lookup? "kilo" = some kilometre.quantity := by
    rw [Catalogue.lookup?_ofList]
    rfl
  have hunit : convertUnder 1 (.ofList [kilometre]) "[kilo]" = .ok kilometre.quantity := by
    have hparse : Node.parse 1 "[kilo]" = .ok (.group [.group [.token (.unit "kilo")]]) := by
      with_unfolding_all rfl
    have hgrouped : parseGrouped 1 "[kilo]" = .ok (.group [.group [.token (.unit "kilo")]]) := by
      unfold parseGrouped
      rw [hparse]
      rfl
    unfold convertUnder
    rw [hgrouped]
    simp only [Node.eval, Node.evalSequence, Node.evalAfter, Token.eval, hkilo, bind, Except.bind]
  have hzero : convertUnder 1 (.ofList [kilometre]) "kilo/0 x" =
      .error (.evaluation .divisionByZero) := by
    have hparse : Node.parse 1 "kilo/0 x" = .ok (.group [.token (.unit "kilo"),
        .token (.operator .divide), .token (.number "0"), .token (.unit "x")]) := by
      with_unfolding_all rfl
    have hgrouped : parseGrouped 1 "kilo/0 x" = .ok (.group [.token (.unit "kilo"),
        .token (.operator .divide), .token (.number "0"), .token (.unit "x")]) := by
      unfold parseGrouped
      rw [hparse]
      rfl
    have hread : readNumber "0" = .ok 0.0 := by with_unfolding_all rfl
    have hdivisor : ((0.0 : Float) == 0.0) = true := by decide +kernel
    have hdivide : kilometre.quantity.divide (.scalar 0.0) =
        .error (.evaluation .divisionByZero) := by
      simp only [Quantity.divide, Quantity.scalar, hdivisor, if_true]
    unfold convertUnder
    rw [hgrouped]
    simp only [Node.eval, Node.evalSequence, Node.evalAfter, Token.eval, hkilo, hread, bind,
      Except.bind, Operator.apply, hdivide]
  have hunit' : ∀ symbol, convertUnder 1 (.ofList [kilometre]) "[kilo]" ≠
      .error (.evaluation (.unknownUnit symbol)) := by simp [hunit]
  have hzero' : ∀ symbol, convertUnder 1 (.ofList [kilometre]) "kilo/0 x" ≠
      .error (.evaluation (.unknownUnit symbol)) := by simp [hzero]
  exact ⟨⟨hunit', hunit, (convertUnder_ofList_append 1 _ _ [kilogram] hunit').trans hunit⟩,
    ⟨hzero', hzero, (convertUnder_ofList_append 1 _ _ [kilogram] hzero').trans hzero⟩⟩

end UnitCalc
