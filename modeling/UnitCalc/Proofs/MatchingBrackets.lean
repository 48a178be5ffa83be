import UnitCalc.Proofs.Culprits

/-!
# Proofs: pairs of brackets in a range

The search for a closing bracket, taken over a range of a text, finds the first position through
which the text from the opening bracket on is balanced. What stands between the two brackets is
balanced then, and so is every range that reading it goes into; each bracket opened there is closed
there, so that reading never fails for a bracket.
-/

namespace UnitCalc

namespace Bracket

variable {b : Bracket} {text cs : List Char} {opening closing stop index : ℕ}

/-! ## Balanced texts -/

theorem opener_injective {b b' : Bracket} (h : b.opener = b'.opener) : b = b' := by
  have hsome := ofOpener?_opener b
  rw [h, ofOpener?_opener] at hsome
  exact (Option.some.inj hsome).symm

theorem opener_ne_closer (b b' : Bracket) : b.opener ≠ b'.closer := by
  intro h
  have hsome := ofOpener?_opener b
  rw [h, ofOpener?_closer] at hsome
  cases hsome

/-- A bracket that is closed in a text is closed at the same place when the text goes on. -/
theorem closer?_append (h : b.closer? cs = .ok index) (ds : List Char) :
    b.closer? (cs ++ ds) = .ok index := by
  obtain ⟨inner, rest, rfl, hi, rfl⟩ := closer?_eq_ok_iff.mp h
  exact closer?_eq_ok_iff.mpr ⟨inner, rest ++ ds, by simp, hi, rfl⟩

/-- A balanced text that starts with an opening bracket. -/
theorem Balanced.of_opener (h : Balanced (b.opener :: cs)) :
    ∃ inner rest, cs = inner ++ b.closer :: rest ∧ Balanced inner := by
  generalize hds : b.opener :: cs = ds at h
  cases h with
  | nil => cases hds
  | other ho hc h =>
    obtain ⟨rfl, rfl⟩ := List.cons.inj hds
    rw [ofOpener?_opener] at ho
    cases ho
  | @pair b' inner rest hi h =>
    obtain ⟨hb, rfl⟩ := List.cons.inj hds
    obtain rfl := opener_injective hb
    exact ⟨inner, rest, rfl, hi⟩

/-- An opening bracket in a balanced text is closed in it. -/
theorem Balanced.exists_closer? {front behind : List Char}
    (h : Balanced (front ++ b.opener :: behind)) : ∃ index, b.closer? behind = .ok index := by
  generalize hds : front ++ b.opener :: behind = ds at h
  induction h generalizing front behind with
  | nil => simp at hds
  | @other c cs ho hc h ih =>
    cases front with
    | nil =>
      obtain ⟨rfl, -⟩ := List.cons.inj hds
      rw [ofOpener?_opener] at ho
      cases ho
    | cons d front => exact ih (List.cons.inj hds).2
  | @pair b' inner cs hi h ihi ih =>
    cases front with
    | nil =>
      obtain ⟨hb, rfl⟩ := List.cons.inj hds
      obtain rfl := opener_injective hb
      exact ⟨inner.length, closer?_eq_ok_iff.mpr ⟨inner, cs, rfl, hi, rfl⟩⟩
    | cons d front =>
      obtain ⟨-, hrest⟩ := List.cons.inj hds
      -- the bracket stands between the two of the first pair, or behind them
      obtain ⟨middle, rfl, hmiddle⟩ | ⟨middle, rfl, hmiddle⟩ := List.append_eq_append_iff.mp hrest
      · cases middle with
        | nil => exact absurd (List.cons.inj hmiddle).1 (opener_ne_closer b b')
        | cons d middle =>
          obtain ⟨rfl, rfl⟩ := List.cons.inj hmiddle
          obtain ⟨index, hindex⟩ := ihi rfl
          exact ⟨index, closer?_append hindex (b'.closer :: cs)⟩
      · cases middle with
        | nil => exact absurd (List.cons.inj hmiddle).1.symm (opener_ne_closer b b')
        | cons d middle => exact ih (List.cons.inj hmiddle).2.symm

/-- The text through the bracket found, with the opening one in front, is balanced. -/
theorem balanced_take_of_closer? (h : b.closer? cs = .ok index) :
    Balanced (b.opener :: cs.take (index + 1)) := by
  obtain ⟨inner, rest, rfl, hi, rfl⟩ := closer?_eq_ok_iff.mp h
  rw [List.take_length_add_append, List.take_succ_cons, List.take_zero]
  exact .pair b hi .nil

theorem exists_closer?_of_balanced_take {n : ℕ} (h : Balanced (b.opener :: cs.take n)) :
    ∃ index < n, b.closer? cs = .ok index := by
  obtain ⟨inner, rest, htake, hi⟩ := h.of_opener
  have hfound : b.closer? (cs.take n) = .ok inner.length :=
    closer?_eq_ok_iff.mpr ⟨inner, rest, htake, hi, rfl⟩
  have hlength := List.length_take_le n cs
  rw [htake, List.length_append, List.length_cons] at hlength
  refine ⟨inner.length, by omega, ?_⟩
  rw [← List.take_append_drop n cs]
  exact closer?_append hfound _

/-! ## Ranges of a text -/

/-- The position in a text of the bracket that closes the one at `opening`, looked for in front of
`stop`. -/
def closing? (b : Bracket) (text : List Char) (opening stop : ℕ) : Except BracketFault ℕ :=
  (b.closer? (text.extract (opening + 1) stop)).map (opening + 1 + ·)

/-- The first position through which the text from the bracket at `opening` on is balanced, with no
wrongly paired closing bracket on the way. -/
structure FirstBalanced (text : List Char) (opening closing : ℕ) : Prop where
  le : opening ≤ closing
  balanced : Balanced (text.extract opening (closing + 1))
  first : ∀ d, opening ≤ d → d < closing → ¬ Balanced (text.extract opening (d + 1))
  paired : ∀ d c opened, opening ≤ d → d ≤ closing → text[d]? = some c →
    openBehind [] opening (text.extract opening d) = some opened → ¬ Unpaired opened c

/-- The ranges that reading the range from `start` to `stop` goes into: this range, and the one
between the brackets of each pair that is found in such a range. -/
inductive Level (text : List Char) (start stop : ℕ) : ℕ → ℕ → Prop where
  /-- The range itself. -/
  | self : Level text start stop start stop
  /-- What stands between two brackets. -/
  | inside {b : Bracket} {first last opening closing : ℕ} (h : Level text start stop first last)
      (hfirst : first ≤ opening) (hopener : text[opening]? = some b.opener)
      (hclosing : b.closing? text opening last = .ok closing) :
      Level text start stop (opening + 1) closing

theorem extract_eq_take {start : ℕ} (h : closing ≤ stop) :
    text.extract start closing = (text.extract start stop).take (closing - start) := by
  rw [List.extract_eq_take_drop, List.extract_eq_take_drop, List.take_take,
    Nat.min_eq_left (Nat.sub_le_sub_right h start)]

theorem extract_eq_cons {c : Char} {start : ℕ} (hc : text[start]? = some c) (h : start < stop) :
    text.extract start stop = c :: text.extract (start + 1) stop := by
  obtain ⟨hlt, hget⟩ := List.getElem?_eq_some_iff.mp hc
  rw [List.extract_eq_take_drop, List.extract_eq_take_drop, List.drop_eq_getElem_cons hlt, hget,
    show stop - start = stop - (start + 1) + 1 by omega, List.take_succ_cons]

theorem extract_eq_drop {start middle : ℕ} (h : start ≤ middle) :
    text.extract middle stop = (text.extract start stop).drop (middle - start) := by
  rw [List.extract_eq_take_drop, List.extract_eq_take_drop, List.drop_take, List.drop_drop,
    Nat.add_sub_cancel' h, Nat.sub_sub, Nat.add_sub_cancel' h]

theorem extract_append {start middle : ℕ} (hle : start ≤ middle) (h : middle ≤ stop) :
    text.extract start stop = text.extract start middle ++ text.extract middle stop := by
  rw [extract_eq_take h, extract_eq_drop hle, List.take_append_drop]

/-- Through a position of the range, the text is the opening bracket and what is taken behind it. -/
theorem extract_through (hopener : text[opening]? = some b.opener) (hle : opening ≤ closing)
    (hlt : closing < stop) :
    text.extract opening (closing + 1) =
      b.opener :: (text.extract (opening + 1) stop).take (closing - opening) := by
  rw [extract_eq_cons hopener (by omega), extract_eq_take (show closing + 1 ≤ stop from hlt),
    Nat.add_sub_add_right]

/-! ## The bracket found -/

theorem closing?_eq_ok_iff : b.closing? text opening stop = .ok closing ↔
    ∃ index, b.closer? (text.extract (opening + 1) stop) = .ok index ∧
      opening + 1 + index = closing := map_eq_ok_iff

theorem closing?_lt (h : b.closing? text opening stop = .ok closing) : closing < stop := by
  obtain ⟨index, hindex, rfl⟩ := closing?_eq_ok_iff.mp h
  obtain ⟨inner, rest, htext, -, rfl⟩ := closer?_eq_ok_iff.mp hindex
  have hlength := List.length_take_le (stop - (opening + 1)) (text.drop (opening + 1))
  rw [← List.extract_eq_take_drop, htext, List.length_append, List.length_cons] at hlength
  omega

/-- The bracket found divides the range. What stands between the two brackets is balanced. -/
theorem extract_of_closing? (h : b.closing? text opening stop = .ok closing) :
    text.extract (opening + 1) stop =
        text.extract (opening + 1) closing ++ b.closer :: text.extract (closing + 1) stop ∧
      Balanced (text.extract (opening + 1) closing) ∧
      opening + (text.extract (opening + 1) closing).length + 1 = closing := by
  have hlt := closing?_lt h
  obtain ⟨index, hindex, rfl⟩ := closing?_eq_ok_iff.mp h
  obtain ⟨inner, rest, htext, hi, rfl⟩ := closer?_eq_ok_iff.mp hindex
  have hinner : text.extract (opening + 1) (opening + 1 + inner.length) = inner := by
    rw [extract_eq_take hlt.le, htext, Nat.add_sub_cancel_left, List.take_left]
  have hrest : text.extract (opening + 1 + inner.length + 1) stop = rest := by
    rw [extract_eq_drop (show opening + 1 ≤ opening + 1 + inner.length + 1 by omega), htext,
      Nat.add_assoc, Nat.add_sub_cancel_left, List.drop_length_add_append, List.drop_succ_cons,
      List.drop_zero]
  rw [hinner, hrest]
  exact ⟨htext, hi, by omega⟩

theorem firstBalanced_of_closing? (hopener : text[opening]? = some b.opener)
    (h : b.closing? text opening stop = .ok closing) : FirstBalanced text opening closing := by
  have hlt := closing?_lt h
  obtain ⟨index, hindex, rfl⟩ := closing?_eq_ok_iff.mp h
  have hbalanced : Balanced (text.extract opening (opening + 1 + index + 1)) := by
    rw [extract_through hopener (by omega) hlt,
      show opening + 1 + index - opening = index + 1 by omega]
    exact balanced_take_of_closer? hindex
  refine ⟨by omega, hbalanced, fun d hle hd hsooner => ?_, fun d c opened hle hd hc hopened => ?_⟩
  · rw [extract_through hopener hle (hd.trans hlt)] at hsooner
    obtain ⟨found, hless, hfound⟩ := exists_closer?_of_balanced_take hsooner
    have heq : found = index := Except.ok.inj (hfound.symm.trans hindex)
    omega
  · rw [extract_append hle (Nat.le_succ_of_le hd), extract_eq_cons hc (by omega)] at hbalanced
    exact hbalanced.not_unpaired hopened

theorem closing?_of_firstBalanced (hopener : text[opening]? = some b.opener) (hlt : closing < stop)
    (h : FirstBalanced text opening closing) : b.closing? text opening stop = .ok closing := by
  obtain ⟨hle, hbalanced, hfirst, -⟩ := h
  rw [extract_through hopener hle hlt] at hbalanced
  obtain ⟨index, hindex, hfound⟩ := exists_closer?_of_balanced_take hbalanced
  have hthrough := balanced_take_of_closer? hfound
  have hge : ¬ opening + 1 + index < closing := by
    intro hless
    refine hfirst (opening + 1 + index) (by omega) hless ?_
    rw [extract_through hopener (by omega) (hless.trans hlt),
      show opening + 1 + index - opening = index + 1 by omega]
    exact hthrough
  exact closing?_eq_ok_iff.mpr ⟨index, hfound, by omega⟩

/-! ## Reading between the brackets -/

/-- At an opening bracket, reading goes into the range between it and the bracket found, and on
behind it. -/
theorem sequence_extract {limit depth : ℕ} (hopener : text[opening]? = some b.opener)
    (hlt : opening < stop) :
    Node.sequence limit depth opening (text.extract opening stop) =
      match b.closing? text opening stop with
      | .error fault => .error (Node.bracketFault opening fault)
      | .ok closing =>
        if limit ≤ depth then .error .tooDeep
        else
          match Node.sequence limit (depth + 1) (opening + 1)
              (text.extract (opening + 1) closing) with
          | .error fault => .error fault
          | .ok [] => .error (.emptyGroup opening)
          | .ok inner =>
            (Node.sequence limit depth (closing + 1) (text.extract (closing + 1) stop)).map
              (.group inner :: ·) := by
  rw [extract_eq_cons hopener hlt]
  cases hclosing : b.closing? text opening stop with
  | error fault =>
    exact Node.sequence_opener_of_error (map_eq_error_iff.mp hclosing)
  | ok closing =>
    obtain ⟨htext, hbalanced, hclosing⟩ := extract_of_closing? hclosing
    have hposition : closing + 1 = opening + (text.extract (opening + 1) closing).length + 2 := by
      omega
    dsimp only
    rw [htext, hposition]
    exact Node.sequence_bracket b hbalanced

/-- Every range that reading goes into is balanced when the first one is. -/
theorem Level.balanced {start first last : ℕ} (h : Level text start stop first last)
    (hb : Balanced (text.extract start stop)) : Balanced (text.extract first last) := by
  cases h with
  | self => exact hb
  | inside _ _ _ hclosing => exact (extract_of_closing? hclosing).2.1

theorem Balanced.exists_closing? {first last inner : ℕ} (h : Balanced (text.extract first last))
    (hfirst : first ≤ inner) (hlast : inner < last) (hopener : text[inner]? = some b.opener) :
    ∃ closing, b.closing? text inner last = .ok closing := by
  rw [extract_append hfirst hlast.le, extract_eq_cons hopener hlast] at h
  obtain ⟨index, hindex⟩ := h.exists_closer?
  exact ⟨_, closing?_eq_ok_iff.mpr ⟨index, hindex, rfl⟩⟩

/-- Reading a balanced text fails for no bracket. -/
theorem Balanced.not_bracket_of_sequence {limit depth start : ℕ} {fault : ReadingFault}
    (h : Balanced cs) (hfault : Node.sequence limit depth start cs = .error fault) :
    (∀ position shown, fault ≠ .mismatched position shown) ∧
      ∀ position, fault ≠ .unclosed position := by
  have hexplained := Node.explained_of_sequence hfault
  constructor
  · rintro position shown rfl
    exact ReadingFault.not_explained_mismatched h hexplained
  · rintro position rfl
    exact ReadingFault.not_explained_unclosed h hexplained

/-- The search from an opening bracket finds, in a range of a text, exactly the first position
through which the text from the bracket on is balanced without a wrongly paired closing bracket. In
every range that reading goes into between the two, each bracket opened is closed, and reading fails
for no bracket, at any depth and under any limit. -/
theorem closing?_exact (hopener : text[opening]? = some b.opener) :
    (∀ closing, b.closing? text opening stop = .ok closing ↔
      closing < stop ∧ FirstBalanced text opening closing) ∧
    ∀ closing first last, b.closing? text opening stop = .ok closing →
      Level text (opening + 1) closing first last →
      (∀ (b' : Bracket) inner, first ≤ inner → inner < last → text[inner]? = some b'.opener →
        ∃ c, b'.closing? text inner last = .ok c) ∧
      ∀ limit depth start fault,
        Node.sequence limit depth start (text.extract first last) = .error fault →
        (∀ position shown, fault ≠ .mismatched position shown) ∧
          ∀ position, fault ≠ .unclosed position := by
  refine ⟨fun closing => ⟨fun h => ?_, fun h => ?_⟩, fun closing first last h hlevel => ?_⟩
  · exact ⟨closing?_lt h, firstBalanced_of_closing? hopener h⟩
  · exact closing?_of_firstBalanced hopener h.1 h.2
  · have hbalanced := hlevel.balanced (extract_of_closing? h).2.1
    exact ⟨fun b' inner => hbalanced.exists_closing?,
      fun limit depth start fault => hbalanced.not_bracket_of_sequence⟩

/-- A pair around two others, one of which has a third pair inside, and a pair of two kinds. -/
theorem closing?_exact_three_levels :
    let text := "x (\x7b2\x7d [3 (4)]) ]".toList
    (round.closing? text 2 17 = .ok 14 ∧ 14 < 17 ∧ FirstBalanced text 2 14) ∧
    (Level text 3 14 8 13 ∧ (∃ c, round.closing? text 10 13 = .ok c) ∧
      ∀ limit depth start fault,
        Node.sequence limit depth start (text.extract 8 13) = .error fault →
        (∀ position shown, fault ≠ .mismatched position shown) ∧
          ∀ position, fault ≠ .unclosed position) ∧
    ∀ closing, ¬ (closing < 4 ∧ FirstBalanced "(2])".toList 0 closing) := by
  intro text
  have houter : round.closing? text 2 17 = .ok 14 := by decide
  have hlevel : Level text 3 14 8 13 :=
    .inside .self (show 3 ≤ 7 by omega) (show text[7]? = some square.opener by decide)
      (show square.closing? text 7 14 = .ok 13 by decide)
  have hopener : text[2]? = some round.opener := by decide
  obtain ⟨hfound, hlevels⟩ := closing?_exact hopener
  obtain ⟨hinner, hread⟩ := hlevels 14 8 13 houter hlevel
  refine ⟨⟨houter, (hfound 14).mp houter⟩, ⟨hlevel, ?_, hread⟩, fun closing hclosing => ?_⟩
  · exact hinner round 10 (by omega) (by omega) (by decide)
  · have hnone : round.closing? "(2])".toList 0 4 = .error (.mismatched 1) := by decide
    cases hnone.symm.trans (((closing?_exact (by decide)).1 closing).mpr hclosing)

end Bracket

end UnitCalc
