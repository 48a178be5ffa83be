import UnitCalc.Expression.Bracket

/-!
# Proofs: balanced texts

A text is balanced when its brackets pair up and the two of each pair are of one kind. The search
for a closing bracket passes over every balanced text, and what it passes over before it finds the
bracket is balanced.
-/

namespace UnitCalc

namespace Bracket

/-- The character that opens a bracket of this kind. -/
def opener : Bracket → Char
  | round => '('
  | square => '['
  | curly => '\x7b'

/-- The character that closes a bracket of this kind. -/
def closer : Bracket → Char
  | round => ')'
  | square => ']'
  | curly => '\x7d'

/-- A text whose brackets pair up, each pair of one kind. -/
inductive Balanced : List Char → Prop where
  /-- No text at all. -/
  | nil : Balanced []
  /-- A character that is no bracket, in front of a balanced text. -/
  | other {c : Char} {cs : List Char} (ho : ofOpener? c = none) (hc : ofCloser? c = none)
      (h : Balanced cs) : Balanced (c :: cs)
  /-- A pair of brackets around a balanced text, in front of another one. -/
  | pair (b : Bracket) {inner cs : List Char} (hi : Balanced inner) (h : Balanced cs) :
      Balanced (b.opener :: (inner ++ b.closer :: cs))

@[simp]
theorem ofOpener?_opener (b : Bracket) : ofOpener? b.opener = some b := by cases b <;> rfl

@[simp]
theorem ofOpener?_closer (b : Bracket) : ofOpener? b.closer = none := by cases b <;> rfl

@[simp]
theorem ofCloser?_closer (b : Bracket) : ofCloser? b.closer = some b := by cases b <;> rfl

theorem eq_opener {c : Char} {b : Bracket} (h : ofOpener? c = some b) : c = b.opener := by
  simp only [ofOpener?] at h
  split at h
  · cases h; assumption
  · split at h
    · cases h; assumption
    · split at h
      · cases h; assumption
      · cases h

theorem eq_closer {c : Char} {b : Bracket} (h : ofCloser? c = some b) : c = b.closer := by
  simp only [ofCloser?] at h
  split at h
  · cases h; assumption
  · split at h
    · cases h; assumption
    · split at h
      · cases h; assumption
      · cases h

/-- A character opens a bracket, closes one, or is none. -/
theorem opener_or_closer_or_other (c : Char) :
    (∃ b : Bracket, c = b.opener) ∨ (∃ b : Bracket, c = b.closer) ∨
      (ofOpener? c = none ∧ ofCloser? c = none) := by
  cases ho : ofOpener? c with
  | some b => exact .inl ⟨b, eq_opener ho⟩
  | none =>
    cases hc : ofCloser? c with
    | some b => exact .inr (.inl ⟨b, eq_closer hc⟩)
    | none => exact .inr (.inr ⟨rfl, rfl⟩)

/-- What no bracket satisfies holds only of other characters. -/
theorem not_bracket {p : Char → Bool} (hp : ∀ b : Bracket, p b.opener = false ∧ p b.closer = false)
    {c : Char} (h : p c = true) : ofOpener? c = none ∧ ofCloser? c = none := by
  constructor
  · cases ho : ofOpener? c with
    | none => rfl
    | some b =>
      rw [eq_opener ho, (hp b).1] at h
      cases h
  · cases hc : ofCloser? c with
    | none => rfl
    | some b =>
      rw [eq_closer hc, (hp b).2] at h
      cases h

/-! ## One character of the search -/

theorem closerFrom_other {pending : List Bracket} {index : Nat} {c : Char} {cs : List Char}
    (ho : ofOpener? c = none) (hc : ofCloser? c = none) :
    closerFrom pending index (c :: cs) = closerFrom pending (index + 1) cs := by
  simp only [closerFrom, ho, hc]

theorem closerFrom_opener {pending : List Bracket} {index : Nat} (b : Bracket) {cs : List Char} :
    closerFrom pending index (b.opener :: cs) = closerFrom (b :: pending) (index + 1) cs := by
  simp only [closerFrom, ofOpener?_opener]

theorem closerFrom_closer {b innermost : Bracket} {outer : List Bracket} {index : Nat}
    {cs : List Char} :
    closerFrom (innermost :: outer) index (b.closer :: cs) =
      if b ≠ innermost then .error (.mismatched index)
      else if outer.isEmpty then .ok index
      else closerFrom outer (index + 1) cs := by
  simp only [closerFrom, ofOpener?_closer, ofCloser?_closer]

/-! ## Balanced texts -/

theorem Balanced.append {cs ds : List Char} (hcs : Balanced cs) (hds : Balanced ds) :
    Balanced (cs ++ ds) := by
  induction hcs with
  | nil => exact hds
  | other ho hc _ ih => exact .other ho hc ih
  | pair b hi _ _ ih =>
    rw [List.cons_append, List.append_assoc, List.cons_append]
    exact .pair b hi ih

/-- A text without brackets is balanced. -/
theorem balanced_of_forall {cs : List Char}
    (h : ∀ c ∈ cs, ofOpener? c = none ∧ ofCloser? c = none) : Balanced cs := by
  induction cs with
  | nil => exact .nil
  | cons c cs ih =>
    obtain ⟨ho, hc⟩ := h c (by simp)
    exact .other ho hc (ih fun d hd => h d (List.mem_cons_of_mem c hd))

/-- The search goes on behind a balanced text as it came there. -/
theorem closerFrom_append {inner : List Char} (h : Balanced inner) (b : Bracket)
    (outer : List Bracket) (index : Nat) (cs : List Char) :
    closerFrom (b :: outer) index (inner ++ cs) =
      closerFrom (b :: outer) (index + inner.length) cs := by
  induction h generalizing b outer index cs with
  | nil => rfl
  | other ho hc _ ih =>
    rw [List.cons_append, closerFrom_other ho hc, ih, List.length_cons]
    congr 1
    omega
  | pair b' _ _ ihi ih =>
    rw [List.cons_append, List.append_assoc, List.cons_append, closerFrom_opener, ihi,
      closerFrom_closer, if_neg (by simp), if_neg (by simp), ih]
    congr 1
    simp only [List.length_cons, List.length_append]
    omega

/-- What the search passes over until the innermost bracket is closed is balanced. -/
theorem exists_of_closerFrom {cs : List Char} :
    ∀ {b : Bracket} {outer : List Bracket} {index found : Nat},
      closerFrom (b :: outer) index cs = .ok found →
      ∃ inner rest, cs = inner ++ b.closer :: rest ∧ Balanced inner ∧
        ((outer = [] ∧ found = index + inner.length) ∨
          (outer ≠ [] ∧ closerFrom outer (index + inner.length + 1) rest = .ok found)) := by
  induction hn : cs.length using Nat.strongRecOn generalizing cs with
  | ind n ih =>
    intro b outer index found h
    subst hn
    cases cs with
    | nil => cases h
    | cons c cs =>
      cases ho : ofOpener? c with
      | some b' =>
        -- the pair that opens here lies inside, and the search goes on behind it
        obtain rfl := eq_opener ho
        rw [closerFrom_opener] at h
        obtain ⟨inner, rest, rfl, hi, hrest⟩ := ih cs.length (by simp) rfl h
        replace hrest := (hrest.resolve_left (by simp)).2
        obtain ⟨inner', rest', rfl, hi', hrest'⟩ := ih rest.length (by simp; omega) rfl hrest
        refine ⟨b'.opener :: (inner ++ b'.closer :: inner'), rest', by simp, .pair b' hi hi', ?_⟩
        have hlen : index + (b'.opener :: (inner ++ b'.closer :: inner')).length =
            index + 1 + inner.length + 1 + inner'.length := by
          simp only [List.length_cons, List.length_append]
          omega
        rw [hlen]
        exact hrest'
      | none =>
        cases hc : ofCloser? c with
        | none =>
          rw [closerFrom_other ho hc] at h
          obtain ⟨inner, rest, rfl, hi, hrest⟩ := ih cs.length (by simp) rfl h
          refine ⟨c :: inner, rest, rfl, .other ho hc hi, ?_⟩
          have hlen : index + (c :: inner).length = index + 1 + inner.length := by
            rw [List.length_cons]
            omega
          rw [hlen]
          exact hrest
        | some b' =>
          obtain rfl := eq_closer hc
          rw [closerFrom_closer] at h
          split at h
          · cases h
          · rename_i hb
            obtain rfl : b' = b := by simpa using hb
            refine ⟨[], cs, rfl, .nil, ?_⟩
            split at h
            · rename_i houter
              exact Or.inl ⟨List.isEmpty_iff.mp houter, (Except.ok.inj h).symm⟩
            · rename_i houter
              exact Or.inr ⟨by simpa using houter, h⟩

/-- The bracket found is the one behind the balanced text that follows the opening bracket. -/
theorem closer?_eq_ok_iff {b : Bracket} {cs : List Char} {index : Nat} :
    b.closer? cs = .ok index ↔
      ∃ inner rest, cs = inner ++ b.closer :: rest ∧ Balanced inner ∧ index = inner.length := by
  constructor
  · intro h
    obtain ⟨inner, rest, hcs, hi, hfound⟩ := exists_of_closerFrom h
    have hindex := (hfound.resolve_right fun h => h.1 rfl).2
    exact ⟨inner, rest, hcs, hi, by omega⟩
  · rintro ⟨inner, rest, rfl, hi, rfl⟩
    rw [closer?, closerFrom_append hi, closerFrom_closer, if_neg (by simp), Nat.zero_add]
    rfl

end Bracket

end UnitCalc
