import UnitCalc.Expression.Reading
import UnitCalc.Proofs.BalancedBrackets
import UnitCalc.Proofs.Outcomes
import UnitCalc.Proofs.LongestToken

/-!
# Proofs: reading without a limit

`Node.Reads` says which nodes a text stands for when no limit stands in the way. Under a limit,
`Node.sequence` gives exactly these nodes when they nest within the limit, and otherwise fails for
their depth and for nothing else.
-/

namespace UnitCalc

open Text

theorem Token.not_bracket_of_occurs {c : Char} (h : Token.occurs c = true) :
    Bracket.ofOpener? c = none ∧ Bracket.ofCloser? c = none :=
  Bracket.not_bracket (by intro b; cases b <;> decide) h

theorem Bracket.not_bracket_of_isBlank {c : Char} (h : isBlank c = true) :
    ofOpener? c = none ∧ ofCloser? c = none :=
  not_bracket (by intro b; cases b <;> decide) h

/-- No bracket stands in a token. -/
theorem Token.balanced_text {t : Token} (h : t.WellFormed) : Bracket.Balanced t.text.toList :=
  Bracket.balanced_of_forall fun c hc => not_bracket_of_occurs (occurs_of_mem_text h c hc)

namespace Node

/-- The nodes that a text stands for, brackets of any depth allowed. -/
inductive Reads : List Char → List Node → Prop where
  /-- No text, no nodes. -/
  | nil : Reads [] []
  /-- A blank changes nothing. -/
  | blank {c : Char} {cs : List Char} {ns : List Node} (hc : isBlank c = true) (h : Reads cs ns) :
      Reads (c :: cs) ns
  /-- The longest token at the start is the first node. -/
  | token {cs rest : List Char} {t : Token} {ns : List Node}
      (ht : Token.scan? cs = some (t, rest)) (h : Reads rest ns) : Reads cs (token t :: ns)
  /-- A pair of brackets around something is a group. -/
  | bracket (b : Bracket) {inner cs : List Char} {ms ns : List Node} (hi : Reads inner ms)
      (hne : ms ≠ []) (h : Reads cs ns) :
      Reads (b.opener :: (inner ++ b.closer :: cs)) (group ms :: ns)

theorem Reads.balanced {cs : List Char} {ns : List Node} (h : Reads cs ns) :
    Bracket.Balanced cs := by
  induction h with
  | nil => exact .nil
  | blank hc _ ih =>
    obtain ⟨ho, hcl⟩ := Bracket.not_bracket_of_isBlank hc
    exact .other ho hcl ih
  | token ht _ ih =>
    obtain ⟨rfl, -⟩ := Token.text_append_of_scan? ht
    exact (Token.balanced_text (Token.wellFormed_of_scan? ht)).append ih
  | bracket b _ _ _ ihi ih => exact .pair b ihi ih

/-- Two texts one behind the other stand for their nodes one behind the other, unless a token goes
on from the first into the second. -/
theorem Reads.append {cs ds : List Char} {ns ms : List Node} (h : Reads cs ns) (hd : Reads ds ms)
    (stop : ∀ c ∈ ds.head?, Token.goesOn c = false) : Reads (cs ++ ds) (ns ++ ms) := by
  induction h with
  | nil => exact hd
  | blank hc _ ih => exact .blank hc ih
  | token ht _ ih => exact .token (Token.scan?_append ht stop) ih
  | @bracket b inner cs ks ns hi hne _ _ ih =>
    rw [List.cons_append, List.append_assoc, List.cons_append]
    exact .bracket b hi hne ih

/-- A text with a character that is not blank stands for one node or more. -/
theorem Reads.ne_nil {cs : List Char} {ns : List Node} (h : Reads cs ns)
    (hne : ∃ c ∈ cs, isBlank c = false) : ns ≠ [] := by
  induction h with
  | nil => simp at hne
  | blank hc _ ih =>
    obtain ⟨d, hd, hblank⟩ := hne
    rcases List.mem_cons.mp hd with rfl | hd
    · rw [hc] at hblank
      cases hblank
    · exact ih ⟨d, hd, hblank⟩
  | token _ _ _ => exact List.cons_ne_nil _ _
  | bracket _ _ _ _ _ _ => exact List.cons_ne_nil _ _

/-! ## One step of reading -/

theorem sequence_of_nil {limit depth position : Nat} {cs : List Char} (h : dropBlanks cs = []) :
    sequence limit depth position cs = .ok [] := by
  rw [sequence]
  split
  · rfl
  · rename_i heq
    rw [h] at heq
    cases heq

/-- What is done at the first character behind the blanks. -/
theorem sequence_of_cons {limit depth position : Nat} {cs rest : List Char} {c : Char}
    (h : dropBlanks cs = c :: rest) :
    sequence limit depth position cs =
      let position := position + (cs.takeWhile isBlank).length
      match Bracket.ofOpener? c with
      | some b =>
        match b.closer? rest with
        | .error .unclosed => .error (.unclosed position)
        | .error (.mismatched index) => .error (.mismatched (position + 1 + index) position)
        | .ok index =>
          if limit ≤ depth then .error .tooDeep
          else
            match sequence limit (depth + 1) (position + 1) (rest.take index) with
            | .error fault => .error fault
            | .ok [] => .error (.emptyGroup position)
            | .ok inner =>
              (sequence limit depth (position + index + 2) (rest.drop (index + 1))).map
                (group inner :: ·)
      | none =>
        if (Bracket.ofCloser? c).isSome then .error (.mismatched position position)
        else
          match Token.scan? (c :: rest) with
          | none => .error (.noToken position)
          | some (t, behind) =>
            (sequence limit depth (position + t.text.length) behind).map (token t :: ·) := by
  rw [sequence]
  split
  · rename_i heq
    rw [h] at heq
    cases heq
  · rename_i heq
    rw [h] at heq
    obtain ⟨rfl, rfl⟩ := List.cons.inj heq
    dsimp only
    cases Bracket.ofOpener? c with
    | some b => rfl
    | none =>
      dsimp only
      split
      · rfl
      · split
        · rename_i hscan
          rw [hscan]
        · rename_i hscan
          rw [hscan]

theorem dropBlanks_cons_of_isBlank {c : Char} {cs : List Char} (h : isBlank c = true) :
    dropBlanks (c :: cs) = dropBlanks cs := List.dropWhile_cons_of_pos h

theorem dropBlanks_cons_of_not_isBlank {c : Char} {cs : List Char} (h : isBlank c = false) :
    dropBlanks (c :: cs) = c :: cs := List.dropWhile_cons_of_neg (by simp [h])

theorem sequence_cons_of_isBlank {limit depth position : Nat} {c : Char} {cs : List Char}
    (h : isBlank c = true) :
    sequence limit depth position (c :: cs) = sequence limit depth (position + 1) cs := by
  cases hd : dropBlanks cs with
  | nil => rw [sequence_of_nil hd, sequence_of_nil ((dropBlanks_cons_of_isBlank h).trans hd)]
  | cons d rest =>
    rw [sequence_of_cons hd, sequence_of_cons ((dropBlanks_cons_of_isBlank h).trans hd),
      List.takeWhile_cons_of_pos h, List.length_cons, Nat.add_assoc, Nat.add_comm 1]

theorem sequence_of_scan? {limit depth position : Nat} {cs rest : List Char} {t : Token}
    (h : Token.scan? cs = some (t, rest)) :
    sequence limit depth position cs =
      (sequence limit depth (position + t.text.length) rest).map (token t :: ·) := by
  obtain ⟨c, w, htext, hc, -⟩ := Token.text_of_wellFormed (Token.wellFormed_of_scan? h)
  obtain ⟨happ, -⟩ := Token.text_append_of_scan? h
  rw [htext, List.cons_append] at happ
  subst happ
  have hblank := Token.not_isBlank_of_occurs hc
  obtain ⟨ho, hcl⟩ := Token.not_bracket_of_occurs hc
  rw [sequence_of_cons (dropBlanks_cons_of_not_isBlank hblank), ho, hcl, h,
    List.takeWhile_cons_of_neg (by simp [hblank])]
  rfl

theorem sequence_bracket {limit depth position : Nat} (b : Bracket) {inner cs : List Char}
    (h : Bracket.Balanced inner) :
    sequence limit depth position (b.opener :: (inner ++ b.closer :: cs)) =
      if limit ≤ depth then .error .tooDeep
      else
        match sequence limit (depth + 1) (position + 1) inner with
        | .error fault => .error fault
        | .ok [] => .error (.emptyGroup position)
        | .ok ms =>
          (sequence limit depth (position + inner.length + 2) cs).map (group ms :: ·) := by
  have hblank : isBlank b.opener = false := by cases b <;> decide
  have hclose : b.closer? (inner ++ b.closer :: cs) = .ok inner.length :=
    Bracket.closer?_eq_ok_iff.mpr ⟨inner, cs, rfl, h, rfl⟩
  rw [sequence_of_cons (dropBlanks_cons_of_not_isBlank hblank), Bracket.ofOpener?_opener]
  dsimp only
  rw [hclose, List.takeWhile_cons_of_neg (by simp [hblank])]
  dsimp only
  rw [List.take_left]
  have hdrop : (inner ++ b.closer :: cs).drop (inner.length + 1) = cs := by simp
  rw [hdrop]
  rfl

/-- The fault that the bracket at `position` is in when its closing bracket is not found. -/
def bracketFault (position : Nat) : BracketFault → ReadingFault
  | .mismatched index => .mismatched (position + 1 + index) position
  | .unclosed => .unclosed position

theorem sequence_opener_of_error {limit depth position : Nat} {b : Bracket} {cs : List Char}
    {fault : BracketFault} (h : b.closer? cs = .error fault) :
    sequence limit depth position (b.opener :: cs) = .error (bracketFault position fault) := by
  have hblank : isBlank b.opener = false := by cases b <;> decide
  rw [sequence_of_cons (dropBlanks_cons_of_not_isBlank hblank), Bracket.ofOpener?_opener]
  dsimp only
  rw [h, List.takeWhile_cons_of_neg (by simp [hblank])]
  cases fault <;> rfl

theorem sequence_closer {limit depth position : Nat} (b : Bracket) {cs : List Char} :
    sequence limit depth position (b.closer :: cs) = .error (.mismatched position position) := by
  have hblank : isBlank b.closer = false := by cases b <;> decide
  rw [sequence_of_cons (dropBlanks_cons_of_not_isBlank hblank), Bracket.ofOpener?_closer,
    Bracket.ofCloser?_closer, List.takeWhile_cons_of_neg (by simp [hblank])]
  rfl

theorem sequence_of_scan?_eq_none {limit depth position : Nat} {c : Char} {cs : List Char}
    (hblank : isBlank c = false) (ho : Bracket.ofOpener? c = none)
    (hc : Bracket.ofCloser? c = none) (h : Token.scan? (c :: cs) = none) :
    sequence limit depth position (c :: cs) = .error (.noToken position) := by
  rw [sequence_of_cons (dropBlanks_cons_of_not_isBlank hblank), ho, hc, h,
    List.takeWhile_cons_of_neg (by simp [hblank])]
  rfl

/-- Induction along the pieces of a text in the order in which they are read. -/
@[elab_as_elim]
theorem pieceInduction {motive : List Char → Prop} (nil : motive [])
    (blank : ∀ {c : Char} {cs : List Char}, isBlank c = true → motive cs → motive (c :: cs))
    (unclosed : ∀ {b : Bracket} {cs : List Char} {fault : BracketFault},
      b.closer? cs = .error fault → motive (b.opener :: cs))
    (bracket : ∀ {b : Bracket} {inner cs : List Char}, Bracket.Balanced inner → motive inner →
      motive cs → motive (b.opener :: (inner ++ b.closer :: cs)))
    (closer : ∀ (b : Bracket) {cs : List Char}, motive (b.closer :: cs))
    (noToken : ∀ {c : Char} {cs : List Char}, isBlank c = false → Bracket.ofOpener? c = none →
      Bracket.ofCloser? c = none → Token.scan? (c :: cs) = none → motive (c :: cs))
    (token : ∀ {t : Token} {cs rest : List Char}, Token.scan? cs = some (t, rest) → motive rest →
      motive cs) (cs : List Char) : motive cs := by
  -- by the length, since both the text in brackets and the text behind them are read again
  induction hn : cs.length using Nat.strongRecOn generalizing cs with
  | ind n ih =>
    subst hn
    cases cs with
    | nil => exact nil
    | cons c cs =>
      by_cases hblank : isBlank c = true
      · exact blank hblank (ih cs.length (by simp) cs rfl)
      · rw [Bool.not_eq_true] at hblank
        rcases Bracket.opener_or_closer_or_other c with ⟨b, rfl⟩ | ⟨b, rfl⟩ | ⟨ho, hc⟩
        · cases hclose : b.closer? cs with
          | error fault => exact unclosed hclose
          | ok index =>
            obtain ⟨inner, rest, rfl, hi, -⟩ := Bracket.closer?_eq_ok_iff.mp hclose
            rw [List.length_cons, List.length_append, List.length_cons] at ih
            exact bracket hi (ih inner.length (by omega) inner rfl)
              (ih rest.length (by omega) rest rfl)
        · exact closer b
        · cases hscan : Token.scan? (c :: cs) with
          | none => exact noToken hblank ho hc hscan
          | some taken =>
            obtain ⟨t, rest⟩ := taken
            exact token hscan (ih rest.length (Token.length_lt_of_scan? hscan) rest rfl)

/-! ## Reading under a limit -/

/-- Under a limit the nodes of a text are read when they nest within it; otherwise reading fails for
their depth. -/
theorem sequence_of_reads {cs : List Char} {ns : List Node} (h : Reads cs ns) :
    ∀ {limit depth position : Nat}, depth ≤ limit →
      sequence limit depth position cs =
        if depth + maxHeight ns ≤ limit then .ok ns else .error .tooDeep := by
  induction h with
  | nil =>
    intro limit depth position hd
    rw [sequence_of_nil rfl, if_pos (by simpa using hd)]
  | blank hc _ ih =>
    intro limit depth position hd
    rw [sequence_cons_of_isBlank hc, ih hd]
  | @token cs rest t ns ht _ ih =>
    intro limit depth position hd
    have hheight : maxHeight (token t :: ns) = maxHeight ns := by simp [height]
    rw [sequence_of_scan? ht, ih hd, hheight]
    split <;> rfl
  | @bracket b inner cs ms ns hi hne _ ihi ih =>
    intro limit depth position hd
    have hheight : maxHeight (group ms :: ns) = max (1 + maxHeight ms) (maxHeight ns) := by
      simp [height]
    rw [sequence_bracket b hi.balanced, hheight]
    by_cases hlimit : limit ≤ depth
    · rw [if_pos hlimit, if_neg (by omega)]
    · rw [if_neg hlimit, ihi (by omega)]
      by_cases hms : depth + 1 + maxHeight ms ≤ limit
      · rw [if_pos hms, ih hd]
        cases ms with
        | nil => exact absurd rfl hne
        | cons m ms =>
          dsimp only
          by_cases hns : depth + maxHeight ns ≤ limit
          · rw [if_pos hns, if_pos (by omega)]
            rfl
          · rw [if_neg hns, if_neg (by omega)]
            rfl
      · rw [if_neg hms, if_neg (by omega)]

/-- A text stands for only one list of nodes. -/
theorem Reads.unique {cs : List Char} {ns ms : List Node} (hn : Reads cs ns) (hm : Reads cs ms) :
    ns = ms := by
  have hns : sequence (maxHeight ns + maxHeight ms) 0 0 cs = _ := sequence_of_reads hn (Nat.zero_le _)
  have hms : sequence (maxHeight ns + maxHeight ms) 0 0 cs = _ := sequence_of_reads hm (Nat.zero_le _)
  rw [if_pos (by omega)] at hns hms
  exact Except.ok.inj (hns.symm.trans hms)

/-- What is read from a text is what it stands for. -/
theorem reads_of_sequence {cs : List Char} : ∀ {limit depth position : Nat} {ns : List Node},
    sequence limit depth position cs = .ok ns → Reads cs ns := by
  induction cs using pieceInduction with
  | nil =>
    intro limit depth position ns h
    rw [sequence_of_nil rfl] at h
    cases h
    exact .nil
  | blank hblank ih =>
    intro limit depth position ns h
    rw [sequence_cons_of_isBlank hblank] at h
    exact .blank hblank (ih h)
  | unclosed hclose =>
    intro limit depth position ns h
    rw [sequence_opener_of_error hclose] at h
    cases h
  | @bracket b inner cs hi ihi ih =>
    intro limit depth position ns h
    rw [sequence_bracket b hi] at h
    split at h
    · cases h
    · split at h
      · cases h
      · cases h
      · rename_i ms hne hms
        obtain ⟨ns, hns, rfl⟩ := map_eq_ok_iff.mp h
        refine .bracket b (ihi hms) ?_ (ih hns)
        rintro rfl
        exact hne rfl
  | closer b =>
    intro limit depth position ns h
    rw [sequence_closer] at h
    cases h
  | noToken hblank ho hc hscan =>
    intro limit depth position ns h
    rw [sequence_of_scan?_eq_none hblank ho hc hscan] at h
    cases h
  | token hscan ih =>
    intro limit depth position ns h
    rw [sequence_of_scan? hscan] at h
    obtain ⟨ns, hns, rfl⟩ := map_eq_ok_iff.mp h
    exact .token hscan (ih hns)

theorem reads_of_parse {limit : Nat} {expression : String} {n : Node}
    (h : parse limit expression = .ok n) : ∃ ns, n = group ns ∧ Reads expression.toList ns := by
  unfold parse at h
  split at h
  · rename_i ns hns
    cases h
    exact ⟨ns, rfl, reads_of_sequence hns⟩
  · cases h

/-- A text that can be read at all is read under every limit that its nodes nest within. -/
theorem parse_of_reads {expression : String} {ns : List Node} (h : Reads expression.toList ns)
    (limit : Nat) :
    parse limit expression =
      if (group ns).nestingDepth ≤ limit then .ok (group ns)
      else .error (.nestingTooDeep limit) := by
  unfold parse
  rw [sequence_of_reads h (Nat.zero_le limit), Nat.zero_add]
  show _ = if maxHeight ns ≤ limit then _ else _
  by_cases hlimit : maxHeight ns ≤ limit
  · rw [if_pos hlimit, if_pos hlimit]
  · rw [if_neg hlimit, if_neg hlimit]
    rfl

/-- A text is read under a limit exactly when it stands for nodes that nest within the limit. -/
theorem parse_eq_ok_iff {limit : Nat} {expression : String} {n : Node} :
    parse limit expression = .ok n ↔
      ∃ ns, n = group ns ∧ Reads expression.toList ns ∧ n.nestingDepth ≤ limit := by
  constructor
  · intro h
    obtain ⟨ns, rfl, hns⟩ := reads_of_parse h
    rw [parse_of_reads hns] at h
    split at h
    · exact ⟨ns, rfl, hns, by assumption⟩
    · cases h
  · rintro ⟨ns, rfl, hns, hlimit⟩
    rw [parse_of_reads hns, if_pos hlimit]

end Node

end UnitCalc
