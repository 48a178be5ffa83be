/-!
# Splitting a text

A scanner takes the start of a text and gives the rest. The two parts together are always the whole
text, so nothing is lost and the rest is no longer than the text.
-/

namespace UnitCalc.Text

/-- The longest start of a text whose characters all satisfy `p`, and the rest. -/
def splitWhile (p : Char → Bool) (cs : List Char) : List Char × List Char :=
  (cs.takeWhile p, cs.dropWhile p)

/-- The plus or minus at the start of a text, and the rest. -/
def splitSign : List Char → List Char × List Char
  | c :: cs => if c = '+' ∨ c = '-' then ([c], cs) else ([], c :: cs)
  | [] => ([], [])

theorem splitWhile_append (p : Char → Bool) (cs : List Char) :
    (splitWhile p cs).1 ++ (splitWhile p cs).2 = cs :=
  List.takeWhile_append_dropWhile

theorem splitSign_append (cs : List Char) : (splitSign cs).1 ++ (splitSign cs).2 = cs := by
  cases cs with
  | nil => rfl
  | cons c cs => simp only [splitSign]; split <;> rfl

/-- What is left of a text behind a start that is not empty is shorter than the text. -/
theorem length_lt_of_append {cs start rest : List Char} (h : start ++ rest = cs)
    (nonempty : start ≠ []) : rest.length < cs.length := by
  subst h
  have := List.length_pos_iff.2 nonempty
  rw [List.length_append]
  omega

end UnitCalc.Text
