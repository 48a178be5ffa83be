import UnitCalc.Proofs.EvaluationTrace
import UnitCalc.Proofs.FiniteQuantities
import UnitCalc.Proofs.NumberTexts
import UnitCalc.Rendering

/-!
# Proofs: finite results

No number that is not finite comes out of a conversion, nor is one made in it. As JSON has no number
for other values and writes `null` for them, the rendering of a result never has this word in it.
-/

namespace UnitCalc

namespace Json

/-! ## The word for no value -/

/-- A text without the first two letters of `null` in a row, and one that no such pair ends in when
a text is put in front of it. -/
structure Free (cs : List Char) : Prop where
  /-- The two letters do not stand in the text. -/
  inside : ¬ ['n', 'u'] <:+: cs
  /-- The second of them does not start it. -/
  start : cs.head? ≠ some 'u'

theorem free_of_not_mem {cs : List Char} (h : 'u' ∉ cs) : Free cs where
  inside hin := h (hin.subset (by simp))
  start hstart := h (List.mem_of_mem_head? hstart)

theorem Free.append {cs ds : List Char} (hc : Free cs) (hd : Free ds) : Free (cs ++ ds) where
  inside h := by
    rcases List.infix_append_iff_ne_nil.mp h with h | h | ⟨front, behind, hf, hb, heq, -, hpre⟩
    · exact hc.inside h
    · exact hd.inside h
    · -- the pair can only be cut between its letters
      obtain ⟨c, front, rfl⟩ := List.exists_cons_of_ne_nil hf
      obtain ⟨d, behind, rfl⟩ := List.exists_cons_of_ne_nil hb
      have hfront : front = [] := by
        have hlength := congrArg List.length heq
        simp only [List.length_append, List.length_cons, List.length_nil] at hlength
        exact List.length_eq_zero_iff.mp (by omega)
      subst hfront
      obtain ⟨rest, rfl⟩ := hpre
      simp only [List.cons_append, List.nil_append, List.cons.injEq] at heq
      obtain ⟨-, rfl, -⟩ := heq
      exact hd.start rfl
  start := by
    cases cs with
    | nil => exact hd.start
    | cons c cs => exact hc.start

theorem free_true : Free "true".toList where
  inside h := by
    have hmem : 'n' ∈ "true".toList := h.subset (by simp)
    exact absurd hmem (by decide)
  start := by decide

theorem free_false : Free "false".toList := free_of_not_mem (by decide)

theorem Free.cons {c : Char} {cs : List Char} (hc : c ≠ 'u') (h : Free cs) : Free (c :: cs) :=
  (free_of_not_mem (by simpa using hc.symm) : Free [c]).append h

theorem Free.without_null {cs : List Char} (h : Free cs) : ¬ "null".toList <:+: cs := by
  intro hnull
  have hpair : ['n', 'u'] <:+: "null".toList := ⟨[], ['l', 'l'], rfl⟩
  exact h.inside (hpair.trans hnull)

/-- A value without `null`, in which no string or number has the second letter of this word. -/
inductive NullFree : Json → Prop where
  /-- A truth value. -/
  | bool (b : Bool) : NullFree (bool b)
  /-- A number. -/
  | number {literal : List Char} (h : 'u' ∉ literal) : NullFree (number literal)
  /-- An object. -/
  | object {members : List (List Char × Json)} (hkeys : ∀ m ∈ members, 'u' ∉ m.1)
      (h : ∀ m ∈ members, NullFree m.2) : NullFree (object members)

theorem free_quoted {key rest : List Char} (hkey : 'u' ∉ key) (h : Free rest) :
    Free (quoted key rest) :=
  .cons (by decide) ((free_of_not_mem hkey).append (.cons (by decide) h))

theorem free_writeMembers {members : List (List Char × Json)} (hkeys : ∀ m ∈ members, 'u' ∉ m.1)
    (hwrite : ∀ m ∈ members, ∀ rest, Free rest → Free (write m.2 rest)) :
    ∀ rest, Free rest → Free (writeMembers members rest) := by
  intro rest hrest
  induction members with
  | nil => exact .cons (by decide) hrest
  | cons m ms ih =>
    obtain ⟨hkey, hkeys⟩ := List.forall_mem_cons.mp hkeys
    obtain ⟨hm, hwrite⟩ := List.forall_mem_cons.mp hwrite
    have hbehind := hm _ (ih hkeys hwrite)
    exact .cons (by decide) (free_quoted hkey (.cons (by decide) hbehind))

theorem NullFree.free_write {j : Json} (h : j.NullFree) :
    ∀ rest, Free rest → Free (write j rest) := by
  induction h with
  | bool b =>
    intro rest hrest
    cases b with
    | true => exact free_true.append hrest
    | false => exact free_false.append hrest
  | number h => exact fun rest hrest => (free_of_not_mem h).append hrest
  | @object members hkeys _ ih =>
    intro rest hrest
    cases members with
    | nil => exact .cons (by decide) (.cons (by decide) hrest)
    | cons m ms =>
      obtain ⟨hkey, hkeys⟩ := List.forall_mem_cons.mp hkeys
      obtain ⟨hm, hms⟩ := List.forall_mem_cons.mp ih
      have hbehind := hm _ (free_writeMembers hkeys hms rest hrest)
      exact .cons (by decide) (free_quoted hkey (.cons (by decide) hbehind))

theorem NullFree.text_without_null {j : Json} (h : j.NullFree) : ¬ "null".toList <:+: j.text :=
  (h.free_write [] (free_of_not_mem (by simp))).without_null

/-! ## Results as JSON -/

theorem nullFree_ofFloat {x : Float} (h : x.isFinite = true) : (ofFloat x).NullFree := by
  have hnumber : ofFloat x = number (Layout.json.floatText x).toList := by
    unfold ofFloat floatText?
    rw [if_pos h]
  rw [hnumber]
  refine .number fun hu => ?_
  rcases Layout.json.isNumeral_floatText h 'u' hu with hu | hu
  · exact absurd hu (by decide)
  · exact absurd hu (by decide)

theorem nullFree_ofMembers {members : List (String × Json)}
    (hkeys : ∀ m ∈ members, 'u' ∉ escape m.1.toList) (h : ∀ m ∈ members, m.2.NullFree) :
    (ofMembers members).NullFree := by
  refine .object ?_ ?_
  · exact List.forall_mem_map.mpr hkeys
  · exact List.forall_mem_map.mpr h

end Json

open Json

theorem Quantity.Finite.nullFree_membersJson {q : Quantity} (h : q.Finite) :
    q.dimension.membersJson.NullFree := by
  refine nullFree_ofMembers ?_ ?_
  · refine List.forall_mem_map.mpr fun u _ => ?_
    show 'u' ∉ escape u.symbol.toList
    cases u <;> decide
  · exact List.forall_mem_map.mpr fun u _ => nullFree_ofFloat (isFinite_unsignedZero (h.exponent u))

theorem Quantity.Finite.exists_nullFree {q : Quantity} (h : q.Finite) :
    ∃ j : Json, j.NullFree ∧ (Format.json.render q).toList = j.text := by
  refine ⟨_, ?_, String.toList_ofList⟩
  refine nullFree_ofMembers ?_ ?_
  · simp only [List.forall_mem_cons]
    decide
  · simp only [List.forall_mem_cons]
    exact ⟨nullFree_ofFloat (isFinite_unsignedZero h.coefficient), h.nullFree_membersJson,
      .bool _, by simp⟩

theorem Quantity.Finite.render_without_null {q : Quantity} (h : q.Finite) :
    ¬ "null".toList <:+: (Format.json.render q).toList := by
  obtain ⟨j, hj, hrender⟩ := h.exists_nullFree
  rw [hrender]
  exact hj.text_without_null

/-! ## Conversions -/

theorem Catalogue.Finite.keptBySteps {units : Catalogue} (h : units.Finite) :
    Node.KeptBySteps units.lookup? Quantity.Finite where
  token hq := Token.finite_of_eval h.lookup? hq
  operation hq := Operator.finite_of_apply hq

/-- No number that is not finite gets into a catalogue, however it is loaded. With a catalogue of
finite quantities everything that is made in a conversion is finite, also where the conversion
fails; its result is one of the quantities made and is written as JSON without `null`. -/
theorem finite_throughout :
    (∀ bytes units, Catalogue.ofBytes bytes = .ok units → units.Finite) ∧
    (∀ text units, Catalogue.ofText text = .ok units → units.Finite) ∧
    (∀ path content units, Catalogue.ofFile path content = .ok units → units.Finite) ∧
    ∀ (units : Catalogue) (limit : Nat) (expression : String), units.Finite →
      (traceUnder limit units expression).outcome = convertUnder limit units expression ∧
      (∀ q ∈ (traceUnder limit units expression).made, q.Finite) ∧
      ∀ q, convertUnder limit units expression = .ok q →
        q ∈ (traceUnder limit units expression).made ∧ q.Finite ∧
        ¬ "null".toList <:+: (Format.json.render q).toList := by
  refine ⟨fun _ _ => Catalogue.finite_of_ofBytes, fun _ _ => Catalogue.finite_of_ofText,
    fun _ _ _ => Catalogue.finite_of_ofFile, fun units limit expression h => ?_⟩
  have hkeeps : (traceUnder limit units expression).Keeps Quantity.Finite []
      (convertUnder limit units expression) := keeps_traceUnder h.keptBySteps
  refine ⟨hkeeps.outcome, hkeeps.made, fun q hq => ?_⟩
  have hmade : q ∈ (traceUnder limit units expression).made := hkeeps.result q hq
  have hfinite := hkeeps.made q hmade
  exact ⟨hmade, hfinite, hfinite.render_without_null⟩

/-- A database of one unit, loaded in each way, and a conversion with this unit. -/
theorem finite_throughout_kilometre :
    let units := Catalogue.ofList [⟨"km", none, ⟨.ofUnit .metre, 1000.0⟩⟩]
    let result : Quantity := ⟨.ofUnit .metre, 2000.0⟩
    (Catalogue.ofBytes "Symbol,m,COEFF\nkm,1,1000\n".toUTF8.toList = .ok units ∧
      Catalogue.ofText "Symbol,m,COEFF\nkm,1,1000\n" = .ok units ∧
      Catalogue.ofFile "units.csv" (.ok "Symbol,m,COEFF\nkm,1,1000\n".toUTF8) = .ok units ∧
      units.Finite) ∧
    convertUnder 1 units "[km] * 2" = .ok result ∧
    result ∈ (traceUnder 1 units "[km] * 2").made ∧ result.Finite ∧
    ¬ "null".toList <:+: (Format.json.render result).toList := by
  have hbytes : Catalogue.ofBytes "Symbol,m,COEFF\nkm,1,1000\n".toUTF8.toList =
      .ok (Catalogue.ofList [⟨"km", none, ⟨.ofUnit .metre, 1000.0⟩⟩]) := by
    with_unfolding_all rfl
  have htext : Catalogue.ofText "Symbol,m,COEFF\nkm,1,1000\n" =
      .ok (Catalogue.ofList [⟨"km", none, ⟨.ofUnit .metre, 1000.0⟩⟩]) := by
    with_unfolding_all rfl
  have hfile : Catalogue.ofFile "units.csv" (.ok "Symbol,m,COEFF\nkm,1,1000\n".toUTF8) =
      .ok (Catalogue.ofList [⟨"km", none, ⟨.ofUnit .metre, 1000.0⟩⟩]) := by
    with_unfolding_all rfl
  have hparse : Node.parse 1 "[km] * 2" = .ok (.group [.group [.token (.unit "km")],
      .token (.operator .multiply), .token (.number "2")]) := by
    with_unfolding_all rfl
  have hgrouped : parseGrouped 1 "[km] * 2" = .ok (.group [.group [.token (.unit "km")],
      .token (.operator .multiply), .token (.number "2")]) := by
    unfold parseGrouped
    rw [hparse]
    rfl
  have htwo : readNumber "2" = .ok 2.0 := by with_unfolding_all rfl
  intro units result
  have hlookup : units.lookup? "km" = some ⟨.ofUnit .metre, 1000.0⟩ := by
    simp [units, Catalogue.lookup?, Catalogue.get?, Catalogue.ofList, Catalogue.claimAll,
      Catalogue.claim, UnitDefinition.spellings, Std.HashMap.getElem_insertIfNew]
  have hproduct : Quantity.multiply ⟨.ofUnit .metre, 1000.0⟩ (.scalar 2.0) =
      .ok ⟨.ofUnit .metre, 2000.0⟩ := by
    have hdimension : (Dimension.ofUnit .metre).multiply .dimensionless = .ofUnit .metre := by
      ext u
      cases u <;> decide +kernel
    have hcoefficient : (1000.0 : Float) * 2.0 = 2000.0 := by decide +kernel
    have hfinite : Quantity.isFinite ⟨.ofUnit .metre, 2000.0⟩ = true := by decide +kernel
    simp only [Quantity.multiply, Quantity.scalar, hdimension, hcoefficient]
    exact if_pos hfinite
  have hresult : convertUnder 1 units "[km] * 2" = .ok result := by
    unfold convertUnder
    rw [hgrouped]
    simp only [Node.eval, Node.evalSequence, Node.evalAfter, Token.eval, hlookup, htwo, bind,
      Except.bind, Operator.apply, hproduct, result]
  obtain ⟨ofBytes, ofText, ofFile, conversion⟩ := finite_throughout
  have hunits := ofBytes _ _ hbytes
  exact ⟨⟨hbytes, htext, hfile, hunits⟩, hresult,
    (conversion units 1 "[km] * 2" hunits).2.2 result hresult⟩

end UnitCalc
