import UnitCalc.Proofs.Readings

/-!
# Proofs: nothing is lost in reading

The written form of the tree that a text is read as has the characters of the text in their order.
It differs from the text in its blanks and in the kinds of its brackets only.
-/

namespace UnitCalc

open Text

/-- A bracket as it stands in the written form of a tree, where all brackets are round. Any other
character stays as it is. -/
def Bracket.rounded (c : Char) : Char :=
  if (ofOpener? c).isSome then round.opener
  else if (ofCloser? c).isSome then round.closer
  else c

/-- The characters of a text that are not blank, with round brackets for brackets of any kind. -/
def Text.essence (cs : List Char) : List Char :=
  (cs.filter fun c => !isBlank c).map Bracket.rounded

/-- The characters of a text that are not spaces. -/
def Text.withoutSpaces (cs : List Char) : List Char := cs.filter (· != ' ')

theorem Bracket.rounded_of_not_bracket {c : Char} (ho : ofOpener? c = none)
    (hc : ofCloser? c = none) : rounded c = c := by
  simp [rounded, ho, hc]

namespace Text

theorem essence_append (cs ds : List Char) : essence (cs ++ ds) = essence cs ++ essence ds := by
  simp [essence]

theorem essence_cons_of_isBlank {c : Char} (h : isBlank c = true) (cs : List Char) :
    essence (c :: cs) = essence cs := by
  simp [essence, h]

theorem essence_opener (b : Bracket) : essence [b.opener] = ['('] := by cases b <;> decide

theorem essence_closer (b : Bracket) : essence [b.closer] = [')'] := by cases b <;> decide

end Text

/-- A token consists of essential characters. -/
theorem Token.essence_text {t : Token} (h : t.WellFormed) :
    essence t.text.toList = t.text.toList := by
  have hchars := occurs_of_mem_text h
  have hfilter : (t.text.toList.filter fun c => !isBlank c) = t.text.toList := by
    refine List.filter_eq_self.mpr fun c hc => ?_
    simp [not_isBlank_of_occurs (hchars c hc)]
  rw [essence, hfilter]
  calc t.text.toList.map Bracket.rounded
      = t.text.toList.map id := List.map_congr_left fun c hc => by
        obtain ⟨ho, hcl⟩ := not_bracket_of_occurs (hchars c hc)
        exact Bracket.rounded_of_not_bracket ho hcl
    _ = t.text.toList := List.map_id _

/-- No token has a space in it. -/
theorem Token.withoutSpaces_text {t : Token} (h : t.WellFormed) :
    withoutSpaces t.text.toList = t.text.toList := by
  refine List.filter_eq_self.mpr fun c hc => ?_
  have hblank := not_isBlank_of_occurs (occurs_of_mem_text h c hc)
  rw [bne_iff_ne]
  rintro rfl
  cases hblank

namespace Node

/-- Apart from the spaces between them, trees are written one behind the other. -/
theorem withoutSpaces_textOfChildren_cons (c : Node) (cs : List Node) :
    withoutSpaces (textOfChildren (c :: cs)).toList =
      withoutSpaces c.text.toList ++ withoutSpaces (textOfChildren cs).toList := by
  cases cs with
  | nil => simp [textOfChildren, withoutSpaces]
  | cons d ds => simp [textOfChildren, withoutSpaces]

theorem essence_of_reads {cs : List Char} {ns : List Node} (h : Reads cs ns) :
    withoutSpaces (textOfChildren ns).toList = essence cs := by
  induction h with
  | nil => rfl
  | blank hc _ ih => rw [ih, essence_cons_of_isBlank hc]
  | @token cs rest t ns ht _ ih =>
    obtain ⟨rfl, -⟩ := Token.text_append_of_scan? ht
    have hword := Token.wellFormed_of_scan? ht
    rw [withoutSpaces_textOfChildren_cons, ih, text, Token.withoutSpaces_text hword,
      essence_append, Token.essence_text hword]
  | @bracket b inner cs ms ns _ _ _ ihi ih =>
    have hgroup : withoutSpaces (group ms).text.toList = '(' :: (essence inner ++ [')']) := by
      rw [toList_text_group, ← ihi]
      simp [withoutSpaces]
    have hcs : b.opener :: (inner ++ b.closer :: cs) =
        [b.opener] ++ (inner ++ ([b.closer] ++ cs)) := rfl
    rw [withoutSpaces_textOfChildren_cons, ih, hgroup, hcs]
    simp only [essence_append, essence_opener, essence_closer]
    simp

/-- What is read from a text is written, but for spaces and the brackets around the whole, as the
text without its blanks and with round brackets. -/
theorem essence_of_parse {limit : Nat} {expression : String} {n : Node}
    (h : parse limit expression = .ok n) :
    ∃ inner, n.text.toList = '(' :: (inner ++ [')']) ∧
      withoutSpaces inner = essence expression.toList := by
  obtain ⟨ns, rfl, hns⟩ := reads_of_parse h
  exact ⟨(textOfChildren ns).toList, toList_text_group ns, essence_of_reads hns⟩

/-- Blanks of several kinds and all three kinds of brackets are read; the tree is written with
spaces and round brackets. -/
theorem essence_of_parse_three_kinds :
    let n := group [token (.number "2"), group [group [token (.unit "m")]],
      token (.operator .divide), group [token (.unit "s")]]
    parse 2 "2\t\x7b[m]\x7d/\u3000( s)" = .ok n ∧
    ∃ inner, n.text.toList = '(' :: (inner ++ [')']) ∧
      withoutSpaces inner = "2((m))/(s)".toList := by
  intro n
  have hparse : parse 2 "2\t\x7b[m]\x7d/\u3000( s)" = .ok n := by with_unfolding_all rfl
  have hessence : essence "2\t\x7b[m]\x7d/\u3000( s)".toList = "2((m))/(s)".toList := by
    with_unfolding_all rfl
  exact ⟨hparse, hessence ▸ essence_of_parse hparse⟩

end Node

end UnitCalc
