import UnitCalc.Expression.Evaluation
import UnitCalc.Expression.Power
import UnitCalc.Proofs.WrittenValues

/-!
# Proofs: trees survive being stored as JSON

A tree is read back from its JSON as long as this does not nest deeper than values can. A group has
two levels, its object and the array in it, and so has a token with its two objects.
-/

namespace UnitCalc

namespace Json

/-! ## Levels -/

mutual

/-- The number of arrays and objects on the longest way into a value. -/
def levels : Json → Nat
  | null | bool _ | number _ | string _ => 0
  | array items => 1 + levelsOfItems items
  | object members => 1 + levelsOfMembers members

/-- The greatest number of levels of some values. -/
def levelsOfItems : List Json → Nat
  | [] => 0
  | j :: js => max (levels j) (levelsOfItems js)

/-- The greatest number of levels of the values of some members. -/
def levelsOfMembers : List (List Char × Json) → Nat
  | [] => 0
  | (_, j) :: ms => max (levels j) (levelsOfMembers ms)

end

@[simp]
theorem levels_ofText (s : String) : (ofText s).levels = 0 := by
  rw [ofText, levels]

theorem levels_ofMembers_singleton (name : String) (j : Json) :
    (ofMembers [(name, j)]).levels = 1 + j.levels := by
  simp [ofMembers, levels, levelsOfMembers]

end Json

open Json

/-! ## Tokens -/

theorem Operator.decode_toJson (levels : Nat) (op : Operator) :
    Operator.decode levels op.toJson = some op := by
  rw [decode, toJson, choice?_ofText]
  cases op <;> decide

theorem Token.levels_toJson (t : Token) : t.toJson.levels = 1 := by
  cases t with
  | number text => rw [toJson, levels_ofMembers_singleton, levels_ofText]
  | unit text => rw [toJson, levels_ofMembers_singleton, levels_ofText]
  | operator op => rw [toJson, levels_ofMembers_singleton, Operator.toJson, levels_ofText]

theorem Token.spelled_toJson (t : Token) : t.toJson.Spelled := by
  cases t with
  | number text => exact spelled_ofMembers (by simpa using spelled_ofText text)
  | unit text => exact spelled_ofMembers (by simpa using spelled_ofText text)
  | operator op =>
    have hname : op.toJson.Spelled := spelled_ofText op.name
    exact spelled_ofMembers (by simpa using hname)

theorem Token.decode_toJson (levels : Nat) (t : Token) :
    Token.decode (levels + 1) t.toJson = some t := by
  cases t with
  | number text => simp [Token.decode, toJson, tagged?_ofMembers, text?_ofText]
  | unit text => simp [Token.decode, toJson, tagged?_ofMembers, text?_ofText]
  | operator op => simp [Token.decode, toJson, tagged?_ofMembers, Operator.decode_toJson]

namespace Node

/-! ## Trees -/

theorem levels_toJson_token (t : Token) : (token t).toJson.levels = 2 := by
  rw [toJson, levels_ofMembers_singleton, t.levels_toJson]

theorem levels_toJson_group (cs : List Node) :
    (group cs).toJson.levels = 2 + levelsOfItems (childrenToJson cs) := by
  rw [toJson, levels_ofMembers_singleton, levels, ← Nat.add_assoc]

mutual

theorem spelled_toJson : ∀ n : Node, n.toJson.Spelled
  | token t => by
    rw [toJson]
    exact spelled_ofMembers (by simpa using t.spelled_toJson)
  | group cs => by
    rw [toJson]
    exact spelled_ofMembers (by simpa using .array (spelled_childrenToJson cs))

theorem spelled_childrenToJson : ∀ cs : List Node, ∀ j ∈ childrenToJson cs, j.Spelled
  | [] => by simp [childrenToJson]
  | c :: cs => by
    rw [childrenToJson]
    exact List.forall_mem_cons.mpr ⟨spelled_toJson c, spelled_childrenToJson cs⟩

end

theorem decode_token (levels : Nat) (t : Token) :
    decode levels (token t).toJson =
      (enter? levels).bind fun inner => (Token.decode inner t.toJson).map token := by
  have hobject : ∃ ms, t.toJson = object ms := by cases t <;> exact ⟨_, rfl⟩
  obtain ⟨ms, hms⟩ := hobject
  simp only [toJson, ofMembers, List.map_cons, List.map_nil, hms, decode, unescape?_escape, bind,
    Option.bind]
  rfl

theorem decode_group (levels : Nat) (cs : List Node) :
    decode levels (group cs).toJson =
      (enter? levels).bind fun inner => (enter? inner).bind fun innermost =>
        (decodeAll innermost (childrenToJson cs)).map group := by
  simp only [toJson, ofMembers, List.map_cons, List.map_nil, decode, unescape?_escape, bind,
    Option.bind]
  rfl

mutual

/-- A tree is read back exactly if its values have no more levels than are allowed. -/
theorem decode_toJson : ∀ (levels : Nat) (n : Node),
    decode levels n.toJson = if n.toJson.levels ≤ levels then some n else none
  | 0, token t => by
    rw [levels_toJson_token, decode_token]
    rfl
  | 1, token t => by
    have hnone : Token.decode 0 t.toJson = none := by cases t <;> rfl
    rw [levels_toJson_token, decode_token, enter?, Option.bind_some, hnone]
    rfl
  | levels + 2, token t => by
    rw [levels_toJson_token, decode_token, enter?, Option.bind_some, t.decode_toJson,
      if_pos (by omega), Option.map_some]
  | 0, group cs => by
    rw [levels_toJson_group, decode_group, if_neg (by omega)]
    rfl
  | 1, group cs => by
    rw [levels_toJson_group, decode_group, if_neg (by omega)]
    rfl
  | levels + 2, group cs => by
    rw [levels_toJson_group, decode_group, enter?, Option.bind_some, enter?, Option.bind_some,
      decodeAll_childrenToJson levels cs]
    by_cases hle : levelsOfItems (childrenToJson cs) ≤ levels
    · rw [if_pos hle, if_pos (by omega), Option.map_some]
    · rw [if_neg hle, if_neg (by omega), Option.map_none]

theorem decodeAll_childrenToJson : ∀ (levels : Nat) (cs : List Node),
    decodeAll levels (childrenToJson cs) =
      if levelsOfItems (childrenToJson cs) ≤ levels then some cs else none
  | levels, [] => by
    rw [childrenToJson, decodeAll, levelsOfItems, if_pos (Nat.zero_le _)]
  | levels, c :: cs => by
    rw [childrenToJson, decodeAll, levelsOfItems, decode_toJson levels c,
      decodeAll_childrenToJson levels cs]
    by_cases hc : c.toJson.levels ≤ levels
    · by_cases hcs : levelsOfItems (childrenToJson cs) ≤ levels
      · rw [if_pos hc, if_pos hcs, if_pos (Nat.max_le.mpr ⟨hc, hcs⟩)]
        rfl
      · rw [if_pos hc, if_neg hcs, if_neg (by omega)]
        rfl
    · have hmax : ¬ max c.toJson.levels (levelsOfItems (childrenToJson cs)) ≤ levels := by omega
      rw [if_neg hc, if_neg hmax]
      rfl

end

/-! ## Trees as texts -/

/-- A tree as a text of JSON. -/
def jsonText (n : Node) : String := String.ofList n.toJson.text

theorem decodeText_jsonText (n : Node) :
    decodeText decode n.jsonText = if n.toJson.levels ≤ levelLimit then some n else none := by
  rw [jsonText, n.spelled_toJson.decodeText_text, decode_toJson]

theorem toJson_injective {m n : Node} (h : m.toJson = n.toJson) : m = n := by
  have hm := decode_toJson m.toJson.levels m
  have hn := decode_toJson n.toJson.levels n
  rw [if_pos (Nat.le_refl _)] at hm hn
  rw [h, hn] at hm
  exact (Option.some.inj hm).symm

theorem jsonText_injective {m n : Node} (h : m.jsonText = n.jsonText) : m = n := by
  have htext : m.toJson.text = n.toJson.text := by
    rw [← String.toList_ofList (l := m.toJson.text), ← String.toList_ofList (l := n.toJson.text)]
    exact congrArg String.toList h
  exact toJson_injective (m.spelled_toJson.eq_of_text_eq n.spelled_toJson htext)

/-- An empty group inside as many further groups as are wanted. -/
def nested : Nat → Node
  | 0 => group []
  | n + 1 => group [nested n]

theorem levels_nested (n : Nat) : (nested n).toJson.levels = 2 * n + 2 := by
  induction n with
  | zero => rfl
  | succ n ih =>
    rw [nested, levels_toJson_group, childrenToJson, childrenToJson, levelsOfItems, ih,
      levelsOfItems]
    omega

/-- A tree whose JSON has no more levels than values can have, which is 127, is read back from it,
and what is read back is grouped and evaluated as the tree that was written. No two trees have one
text, however deep they are. -/
theorem survives_jsonText :
    (∀ n : Node, n.toJson.levels ≤ levelLimit →
      decodeText decode n.jsonText = some n ∧
      (∀ limit, (decodeText decode n.jsonText).map (groupPowers limit) =
        some (n.groupPowers limit)) ∧
      ∀ lookup, (decodeText decode n.jsonText).map (eval lookup) = some (n.eval lookup)) ∧
    ∀ m n : Node, m ≠ n → m.jsonText ≠ n.jsonText := by
  refine ⟨fun n hlevels => ?_, fun m n hne htext => hne (jsonText_injective htext)⟩
  have hback : decodeText decode n.jsonText = some n := by
    rw [decodeText_jsonText, if_pos hlevels]
  rw [hback]
  exact ⟨rfl, fun limit => rfl, fun lookup => rfl⟩

/-- A tree with an empty group, an operator and a unit of characters that are written as escapes. -/
theorem survives_jsonText_escapes :
    let n := group [token (.number "7."), token (.operator .power), group [],
      group [token (.unit "\"\\\n\u0001")]]
    (n.toJson.levels ≤ levelLimit ∧ decodeText decode n.jsonText = some n ∧
      (decodeText decode n.jsonText).map (groupPowers 2) = some (n.groupPowers 2)) ∧
    (group [] ≠ n ∧ (group []).jsonText ≠ n.jsonText) := by
  intro n
  obtain ⟨readBack, different⟩ := survives_jsonText
  have hlevels : n.toJson.levels ≤ levelLimit := by decide
  obtain ⟨hback, hgroup, -⟩ := readBack n hlevels
  have hne : group [] ≠ n := by simp [n]
  exact ⟨⟨hlevels, hback, hgroup 2⟩, hne, different _ _ hne⟩

/-- The limit does not include its 128th level: sixty-four groups, of two levels each, are not read
back. -/
theorem not_survives_jsonText_sixty_four :
    (nested 63).toJson.levels = 128 ∧ decodeText decode (nested 63).jsonText = none := by
  have hlevels : (nested 63).toJson.levels = 128 := levels_nested 63
  refine ⟨hlevels, ?_⟩
  rw [decodeText_jsonText, hlevels]
  rfl

end Node

end UnitCalc
