import UnitCalc.Proofs.OpenBrackets
import UnitCalc.Proofs.Readings

/-!
# Proofs: where an expression is at fault

A fault that carries a position points at a character of the whole expression that is to blame for
it. Inside brackets only a character that starts no token and an empty group can be found, since the
search for the closing bracket has gone over everything in between before; so a bracket that does
not pair is the first one of the whole expression.
-/

namespace UnitCalc

open Text

/-- No token goes on with a closing bracket. -/
theorem Bracket.not_goesOn_closer (b : Bracket) (cs : List Char) :
    ∀ c ∈ (b.closer :: cs).head?, Token.goesOn c = false := by
  rintro c ⟨⟩
  cases b <;> decide

namespace Node

/-- What stands in front of `rest` in a text splits into blanks, brackets and tokens, each token the
longest one where it starts. -/
inductive SplitsBefore (rest : List Char) : List Char → Prop where
  /-- Nothing stands in front. -/
  | nil : SplitsBefore rest rest
  /-- A blank. -/
  | blank {c : Char} {cs : List Char} (hc : isBlank c = true) (h : SplitsBefore rest cs) :
      SplitsBefore rest (c :: cs)
  /-- An opening bracket. -/
  | opener (b : Bracket) {cs : List Char} (h : SplitsBefore rest cs) :
      SplitsBefore rest (b.opener :: cs)
  /-- A closing bracket. -/
  | closer (b : Bracket) {cs : List Char} (h : SplitsBefore rest cs) :
      SplitsBefore rest (b.closer :: cs)
  /-- A token. -/
  | token {t : Token} {cs : List Char} (ht : t.IsLongest (t.text.toList ++ cs))
      (h : SplitsBefore rest cs) : SplitsBefore rest (t.text.toList ++ cs)

theorem SplitsBefore.trans {rest behind cs : List Char} (h : SplitsBefore behind cs)
    (hrest : SplitsBefore rest behind) : SplitsBefore rest cs := by
  induction h with
  | nil => exact hrest
  | blank hc _ ih => exact .blank hc ih
  | opener b _ ih => exact .opener b ih
  | closer b _ ih => exact .closer b ih
  | token ht _ ih => exact .token ht ih

theorem SplitsBefore.append {rest cs tail : List Char} (h : SplitsBefore rest cs)
    (stop : ∀ c ∈ tail.head?, Token.goesOn c = false) :
    SplitsBefore (rest ++ tail) (cs ++ tail) := by
  induction h with
  | nil => exact .nil
  | blank hc _ ih => exact .blank hc ih
  | opener b _ ih => exact .opener b ih
  | closer b _ ih => exact .closer b ih
  | token ht _ ih =>
    have hlongest := ht.append stop
    rw [List.append_assoc] at hlongest ⊢
    exact .token hlongest ih

/-- What stands for some nodes splits as a whole. -/
theorem Reads.splitsBefore {cs : List Char} {ns : List Node} (h : Reads cs ns) :
    SplitsBefore [] cs := by
  induction h with
  | nil => exact .nil
  | blank hc _ ih => exact .blank hc ih
  | token ht _ ih =>
    obtain ⟨hlongest, rfl⟩ := Token.scan?_eq_some_iff.mp ht
    exact .token hlongest ih
  | @bracket b inner cs ms ns _ _ _ ihi ih =>
    have hinner : SplitsBefore (b.closer :: cs) (inner ++ b.closer :: cs) :=
      ihi.append (b.not_goesOn_closer cs)
    exact .opener b (hinner.trans (.closer b ih))

end Node

namespace ReadingFault

open UnitCalc.Bracket Node

/-- What a fault says about the text `cs`, which starts at `start` of the expression. -/
def Explained (start : Nat) (cs : List Char) : ReadingFault → Prop
  | mismatched position shown => ∃ front c rest opened, cs = front ++ c :: rest ∧
      position = start + front.length ∧ openBehind [] start front = some opened ∧
      Unpaired opened c ∧ shown = (opened.getLast?.map OpenBracket.position).getD position
  | unclosed position => ∃ front b rest opened, cs = front ++ b.opener :: rest ∧
      position = start + front.length ∧ openBehind [] start cs = some opened ∧
      ⟨b, position⟩ ∈ opened ∧ ∀ o ∈ opened, position ≤ o.position
  | noToken position => ∃ front c rest, cs = front ++ c :: rest ∧
      position = start + front.length ∧ isBlank c = false ∧ ofOpener? c = none ∧
      ofCloser? c = none ∧ (∀ t : Token, t.WellFormed → ¬ t.text.toList <+: c :: rest) ∧
      SplitsBefore (c :: rest) cs
  | tooDeep => True
  | emptyGroup position => ∃ front, ∃ b : Bracket, ∃ blanks rest,
      cs = front ++ b.opener :: (blanks ++ b.closer :: rest) ∧
      position = start + front.length ∧ ∀ c ∈ blanks, isBlank c = true

variable {start : Nat} {cs : List Char} {fault : ReadingFault}

/-- A fault stays one when pieces of text are put in front. -/
theorem Explained.behind {front : List Char} (hb : Balanced front)
    (hs : SplitsBefore cs (front ++ cs)) (h : Explained (start + front.length) cs fault) :
    Explained start (front ++ cs) fault := by
  have hopened : ∀ ds, openBehind [] start (front ++ ds) =
      openBehind [] (start + front.length) ds := by
    intro ds
    rw [openBehind_append, hb.openBehind, Option.bind_some]
  have hposition : ∀ front' : List Char, start + front.length + front'.length =
      start + (front ++ front').length := by
    intro front'
    rw [List.length_append]
    omega
  cases fault with
  | mismatched position shown =>
    obtain ⟨front', c, rest, opened, rfl, rfl, ho, hunpaired, hshown⟩ := h
    exact ⟨front ++ front', c, rest, opened, (List.append_assoc ..).symm, hposition front',
      (hopened front').trans ho, hunpaired, hshown⟩
  | unclosed position =>
    obtain ⟨front', b, rest, opened, rfl, rfl, ho, hmem, hleast⟩ := h
    exact ⟨front ++ front', b, rest, opened, (List.append_assoc ..).symm, hposition front',
      (hopened _).trans ho, hmem, hleast⟩
  | noToken position =>
    obtain ⟨front', c, rest, rfl, rfl, hblank, ho, hc, hnone, hsplits⟩ := h
    exact ⟨front ++ front', c, rest, (List.append_assoc ..).symm, hposition front', hblank, ho, hc,
      hnone, hs.trans hsplits⟩
  | tooDeep => trivial
  | emptyGroup position =>
    obtain ⟨front', b, blanks, rest, rfl, rfl, hblanks⟩ := h
    exact ⟨front ++ front', b, blanks, rest, (List.append_assoc ..).symm, hposition front', hblanks⟩

theorem not_explained_mismatched (hb : Balanced cs) {position shown : Nat} :
    ¬ Explained start cs (.mismatched position shown) := by
  rintro ⟨front, c, rest, opened, rfl, rfl, ho, hunpaired, -⟩
  exact hb.not_unpaired ho hunpaired

theorem not_explained_unclosed (hb : Balanced cs) {position : Nat} :
    ¬ Explained start cs (.unclosed position) := by
  rintro ⟨front, b, rest, opened, -, -, ho, hmem, -⟩
  rw [hb.openBehind] at ho
  cases ho
  cases hmem

/-- A fault inside a pair of brackets is one of the text with the brackets. It cannot be about a
bracket, since the text inside is balanced. -/
theorem Explained.inside (b : Bracket) {inner : List Char} (hb : Balanced inner)
    (h : Explained (start + 1) inner fault) (cs : List Char) :
    Explained start (b.opener :: (inner ++ b.closer :: cs)) fault := by
  have hposition : ∀ front : List Char, start + 1 + front.length =
      start + (b.opener :: front).length := by
    intro front
    rw [List.length_cons]
    omega
  cases fault with
  | mismatched position shown => exact absurd h (not_explained_mismatched hb)
  | unclosed position => exact absurd h (not_explained_unclosed hb)
  | noToken position =>
    obtain ⟨front, c, rest, rfl, rfl, hblank, ho, hc, hnone, hsplits⟩ := h
    refine ⟨b.opener :: front, c, rest ++ b.closer :: cs, by simp, hposition front, hblank, ho, hc,
      fun t ht hstarts => ?_, .opener b (hsplits.append (b.not_goesOn_closer cs))⟩
    exact hnone t ht (Token.prefix_of_prefix_append ht (List.cons_ne_nil _ _)
      (b.not_goesOn_closer cs) hstarts)
  | tooDeep => trivial
  | emptyGroup position =>
    obtain ⟨front, b', blanks, rest, rfl, rfl, hblanks⟩ := h
    exact ⟨b.opener :: front, b', blanks, rest ++ b.closer :: cs, by simp, hposition front, hblanks⟩

theorem Explained.behind_token {t : Token} {rest : List Char}
    (ht : Token.scan? cs = some (t, rest)) (h : Explained (start + t.text.length) rest fault) :
    Explained start cs fault := by
  obtain ⟨hlongest, rfl⟩ := Token.scan?_eq_some_iff.mp ht
  exact h.behind (Token.balanced_text hlongest.wellFormed) (.token hlongest .nil)

theorem Explained.behind_bracket (b : Bracket) {inner : List Char} {ns : List Node}
    (hi : Reads inner ns) (h : Explained (start + inner.length + 2) cs fault) :
    Explained start (b.opener :: (inner ++ b.closer :: cs)) fault := by
  have hfront : b.opener :: (inner ++ b.closer :: cs) =
      b.opener :: (inner ++ [b.closer]) ++ cs := by simp
  have hlength : start + inner.length + 2 =
      start + (b.opener :: (inner ++ [b.closer])).length := by
    simp only [List.length_cons, List.length_append, List.length_nil]
    omega
  have hinner : SplitsBefore (b.closer :: cs) (inner ++ b.closer :: cs) :=
    hi.splitsBefore.append (b.not_goesOn_closer cs)
  have hsplits : SplitsBefore cs (b.opener :: (inner ++ b.closer :: cs)) :=
    .opener b (hinner.trans (.closer b .nil))
  rw [hlength] at h
  rw [hfront] at hsplits ⊢
  exact h.behind (.pair b hi.balanced .nil) hsplits

/-! ## Faults at the start of a text -/

theorem Explained.of_blank (b : Bracket) {inner : List Char} (hi : Reads inner []) :
    Explained start (b.opener :: (inner ++ b.closer :: cs)) (.emptyGroup start) := by
  refine ⟨[], b, inner, cs, rfl, rfl, fun c hc => ?_⟩
  by_contra hblank
  exact hi.ne_nil ⟨c, hc, by simpa using hblank⟩ rfl

theorem Explained.of_scan?_eq_none {c : Char} (hblank : isBlank c = false)
    (ho : ofOpener? c = none) (hc : ofCloser? c = none) (h : Token.scan? (c :: cs) = none) :
    Explained start (c :: cs) (.noToken start) := by
  refine ⟨[], c, cs, rfl, rfl, hblank, ho, hc, fun t ht hstarts => ?_, .nil⟩
  obtain ⟨u, rest, hu, -⟩ := Token.exists_scan? ht hstarts
  rw [h] at hu
  cases hu

theorem Explained.of_closer? (b : Bracket) {fault : BracketFault}
    (h : b.closer? cs = .error fault) :
    Explained start (b.opener :: cs) (bracketFault start fault) := by
  have hfails : FailsFor [⟨b, start⟩] (start + 1) 0 cs fault :=
    failsFor_of_closerFrom (List.cons_ne_nil _ _) h
  cases fault with
  | mismatched index =>
    obtain ⟨front, c, rest, opened, rfl, rfl, ho, hlast, hunpaired⟩ := hfails
    refine ⟨b.opener :: front, c, rest, opened, rfl, ?_, ?_, hunpaired, ?_⟩
    · rw [List.length_cons]
      omega
    · rw [openBehind_opener, ho]
    · rw [hlast]
      rfl
  | unclosed =>
    obtain ⟨opened, ho, hlast⟩ := hfails
    refine ⟨[], b, cs, opened, rfl, rfl, ?_, List.mem_of_getLast? hlast, ?_⟩
    · rw [openBehind_opener, ho]
    · exact le_position_of_openBehind ho (by simp) (by omega)

end ReadingFault

namespace Node

/-- Every fault that reading fails for is one of the text. -/
theorem explained_of_sequence {cs : List Char} : ∀ {limit depth start : Nat} {fault : ReadingFault},
    sequence limit depth start cs = .error fault → fault.Explained start cs := by
  induction cs using pieceInduction with
  | nil =>
    intro limit depth start fault h
    rw [sequence_of_nil rfl] at h
    cases h
  | @blank c cs hblank ih =>
    intro limit depth start fault h
    rw [sequence_cons_of_isBlank hblank] at h
    obtain ⟨ho, hc⟩ := Bracket.not_bracket_of_isBlank hblank
    have hbalanced : Bracket.Balanced [c] := .other ho hc .nil
    exact .behind hbalanced (.blank hblank .nil) (ih h)
  | @unclosed b cs fault hclose =>
    intro limit depth start fault h
    rw [sequence_opener_of_error hclose] at h
    cases h
    exact .of_closer? b hclose
  | @bracket b inner cs hi ihi ih =>
    intro limit depth start fault h
    rw [sequence_bracket b hi] at h
    split at h
    · cases h
      trivial
    · split at h
      · rename_i hinner
        cases h
        exact .inside b hi (ihi hinner) cs
      · rename_i hinner
        cases h
        exact .of_blank b (reads_of_sequence hinner)
      · rename_i hinner
        exact .behind_bracket b (reads_of_sequence hinner) (ih (map_eq_error_iff.mp h))
  | @closer b cs =>
    intro limit depth start fault h
    rw [sequence_closer] at h
    cases h
    exact ⟨[], b.closer, cs, [], rfl, rfl, rfl, Bracket.unpaired_nil b, rfl⟩
  | noToken hblank ho hc hscan =>
    intro limit depth start fault h
    rw [sequence_of_scan?_eq_none hblank ho hc hscan] at h
    cases h
    exact .of_scan?_eq_none hblank ho hc hscan
  | token hscan ih =>
    intro limit depth start fault h
    rw [sequence_of_scan? hscan] at h
    exact .behind_token hscan (ih (map_eq_error_iff.mp h))

theorem explained_of_parse {limit : Nat} {expression : String} {error : SyntaxError}
    (h : parse limit expression = .error error) :
    ∃ fault : ReadingFault, fault.Explained 0 expression.toList ∧
      error = fault.toError limit expression.toList := by
  unfold parse at h
  split at h
  · cases h
  · rename_i fault hfault
    cases h
    exact ⟨fault, explained_of_sequence hfault, rfl⟩

theorem toList_excerpt (cs : List Char) (position : Nat) :
    (excerpt cs position).toList = (cs.drop position).take 20 := String.toList_ofList

/-- The position in a syntax error counts the characters of the expression in front of the one to
blame. It is the first closing bracket that does not pair; the outermost bracket that is never
closed, when all closing brackets pair; the first character behind blanks, brackets and tokens that
is none of them; or the opening bracket of an empty group. The text that is shown starts there, and
for a closing bracket inside others at the outermost of them. -/
theorem culprit_of_parse_error {limit : Nat} {expression : String} {position : Nat} :
    (∀ near, parse limit expression = .error (.mismatchedBrackets position near) →
      ∃ front c rest opened, expression.toList = front ++ c :: rest ∧ front.length = position ∧
        Bracket.openBehind [] 0 front = some opened ∧ Bracket.Unpaired opened c ∧
        near.toList = (expression.toList.drop
          ((opened.getLast?.map OpenBracket.position).getD position)).take 20) ∧
    (∀ near, parse limit expression = .error (.unclosedBracket position near) →
      ∃ front, ∃ b : Bracket, ∃ rest opened, expression.toList = front ++ b.opener :: rest ∧
        front.length = position ∧ Bracket.openBehind [] 0 expression.toList = some opened ∧
        ⟨b, position⟩ ∈ opened ∧ (∀ o ∈ opened, position ≤ o.position) ∧
        near.toList = (expression.toList.drop position).take 20) ∧
    (∀ near, parse limit expression = .error (.noToken position near) →
      ∃ front c rest, expression.toList = front ++ c :: rest ∧ front.length = position ∧
        isBlank c = false ∧ Bracket.ofOpener? c = none ∧ Bracket.ofCloser? c = none ∧
        (∀ t : Token, t.WellFormed → ¬ t.text.toList <+: c :: rest) ∧
        SplitsBefore (c :: rest) expression.toList ∧
        near.toList = (expression.toList.drop position).take 20) ∧
    (parse limit expression = .error (.emptyGroup position) →
      ∃ front, ∃ b : Bracket, ∃ blanks rest,
        expression.toList = front ++ b.opener :: (blanks ++ b.closer :: rest) ∧
        front.length = position ∧ ∀ c ∈ blanks, isBlank c = true) := by
  refine ⟨fun near h => ?_, fun near h => ?_, fun near h => ?_, fun h => ?_⟩
  all_goals
    obtain ⟨fault, hexplained, herror⟩ := explained_of_parse h
    cases fault <;> cases herror
  · obtain ⟨front, c, rest, opened, hcs, rfl, hopened, hunpaired, rfl⟩ := hexplained
    rw [Nat.zero_add]
    exact ⟨front, c, rest, opened, hcs, rfl, hopened, hunpaired, toList_excerpt ..⟩
  · obtain ⟨front, b, rest, opened, hcs, rfl, hopened, hmem, hleast⟩ := hexplained
    rw [Nat.zero_add] at hmem hleast ⊢
    exact ⟨front, b, rest, opened, hcs, rfl, hopened, hmem, hleast, toList_excerpt ..⟩
  · obtain ⟨front, c, rest, hcs, rfl, hblank, ho, hc, hnone, hsplits⟩ := hexplained
    rw [Nat.zero_add]
    exact ⟨front, c, rest, hcs, rfl, hblank, ho, hc, hnone, hsplits, toList_excerpt ..⟩
  · obtain ⟨front, b, blanks, rest, hcs, rfl, hblanks⟩ := hexplained
    rw [Nat.zero_add]
    exact ⟨front, b, blanks, rest, hcs, rfl, hblanks⟩

/-- A bracket that does not pair inside others, one that is never closed, a character behind one
that two bytes encode, and an empty group. -/
theorem culprit_of_parse_error_each_kind :
    (parse 64 "2 * ([)]" = .error (.mismatchedBrackets 6 "([)]") ∧
      ∃ front c rest opened, "2 * ([)]".toList = front ++ c :: rest ∧ front.length = 6 ∧
        Bracket.openBehind [] 0 front = some opened ∧ Bracket.Unpaired opened c ∧
        "([)]".toList = ("2 * ([)]".toList.drop
          ((opened.getLast?.map OpenBracket.position).getD 6)).take 20) ∧
    (parse 64 "[3] * (2" = .error (.unclosedBracket 6 "(2") ∧
      ∃ front, ∃ b : Bracket, ∃ rest opened, "[3] * (2".toList = front ++ b.opener :: rest ∧
        front.length = 6 ∧ Bracket.openBehind [] 0 "[3] * (2".toList = some opened ∧
        ⟨b, 6⟩ ∈ opened ∧ (∀ o ∈ opened, 6 ≤ o.position) ∧
        "(2".toList = ("[3] * (2".toList.drop 6).take 20) ∧
    (parse 64 "(µm # x)" = .error (.noToken 4 "# x)") ∧
      ∃ front c rest, "(µm # x)".toList = front ++ c :: rest ∧ front.length = 4 ∧
        isBlank c = false ∧ Bracket.ofOpener? c = none ∧ Bracket.ofCloser? c = none ∧
        (∀ t : Token, t.WellFormed → ¬ t.text.toList <+: c :: rest) ∧
        SplitsBefore (c :: rest) "(µm # x)".toList ∧
        "# x)".toList = ("(µm # x)".toList.drop 4).take 20) ∧
    (parse 64 "(3 * ( ))" = .error (.emptyGroup 5) ∧
      ∃ front, ∃ b : Bracket, ∃ blanks rest,
        "(3 * ( ))".toList = front ++ b.opener :: (blanks ++ b.closer :: rest) ∧
        front.length = 5 ∧ ∀ c ∈ blanks, isBlank c = true) := by
  have hmismatched : parse 64 "2 * ([)]" = .error (.mismatchedBrackets 6 "([)]") := by
    with_unfolding_all rfl
  have hunclosed : parse 64 "[3] * (2" = .error (.unclosedBracket 6 "(2") := by
    with_unfolding_all rfl
  have hnone : parse 64 "(µm # x)" = .error (.noToken 4 "# x)") := by with_unfolding_all rfl
  have hempty : parse 64 "(3 * ( ))" = .error (.emptyGroup 5) := by with_unfolding_all rfl
  exact ⟨⟨hmismatched, culprit_of_parse_error.1 _ hmismatched⟩,
    ⟨hunclosed, culprit_of_parse_error.2.1 _ hunclosed⟩,
    ⟨hnone, culprit_of_parse_error.2.2.1 _ hnone⟩,
    ⟨hempty, culprit_of_parse_error.2.2.2 hempty⟩⟩

end Node

end UnitCalc
