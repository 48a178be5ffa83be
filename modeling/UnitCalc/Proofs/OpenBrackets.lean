import UnitCalc.Proofs.BalancedBrackets

/-!
# Proofs: open brackets

Which brackets are open behind a text, and where they were opened. The search for a closing bracket
fails at the first closing bracket that does not pair, or at the end of a text whose closing
brackets all pair; either way, the bracket it started from is still the outermost one that is open.
-/

namespace UnitCalc

/-- A bracket that has not been closed yet. -/
structure OpenBracket where
  /-- Its kind. -/
  kind : Bracket
  /-- Where it stands. -/
  position : Nat
  deriving Repr, DecidableEq

namespace Bracket

/-- The brackets that are open behind a text, the innermost first, when those in `opened` are open
in front of it. The text starts at `position`. There is no answer when a closing bracket of the text
does not pair with the innermost one that is open before it. -/
def openBehind (opened : List OpenBracket) (position : Nat) :
    List Char → Option (List OpenBracket)
  | [] => some opened
  | c :: cs =>
    match ofOpener? c with
    | some b => openBehind (⟨b, position⟩ :: opened) (position + 1) cs
    | none =>
      match ofCloser? c, opened with
      | none, _ => openBehind opened (position + 1) cs
      | some _, [] => none
      | some b, innermost :: outer =>
        if b = innermost.kind then openBehind outer (position + 1) cs else none

/-- A closing bracket that does not pair: no bracket is open before it, or the innermost open one is
of another kind. -/
def Unpaired (opened : List OpenBracket) (c : Char) : Prop :=
  ∃ b, ofCloser? c = some b ∧ ∀ innermost ∈ opened.head?, innermost.kind ≠ b

theorem unpaired_nil (b : Bracket) : Unpaired [] b.closer := ⟨b, ofCloser?_closer b, by simp⟩

theorem unpaired_cons {b : Bracket} {innermost : OpenBracket} (h : b ≠ innermost.kind)
    (outer : List OpenBracket) : Unpaired (innermost :: outer) b.closer :=
  ⟨b, ofCloser?_closer b, by simpa using h.symm⟩

variable {opened opened' : List OpenBracket} {position : Nat} {cs : List Char}

/-! ## One character -/

theorem openBehind_other {c : Char} (ho : ofOpener? c = none) (hc : ofCloser? c = none) :
    openBehind opened position (c :: cs) = openBehind opened (position + 1) cs := by
  simp only [openBehind, ho, hc]

theorem openBehind_opener (b : Bracket) :
    openBehind opened position (b.opener :: cs) =
      openBehind (⟨b, position⟩ :: opened) (position + 1) cs := by
  simp only [openBehind, ofOpener?_opener]

theorem openBehind_closer {b : Bracket} {innermost : OpenBracket} {outer : List OpenBracket} :
    openBehind (innermost :: outer) position (b.closer :: cs) =
      if b = innermost.kind then openBehind outer (position + 1) cs else none := by
  simp only [openBehind, ofOpener?_closer, ofCloser?_closer]

theorem openBehind_unpaired {c : Char} (h : Unpaired opened c) :
    openBehind opened position (c :: cs) = none := by
  obtain ⟨b, hc, hkind⟩ := h
  obtain rfl := eq_closer hc
  cases opened with
  | nil => simp only [openBehind, ofOpener?_closer, ofCloser?_closer]
  | cons innermost outer =>
    rw [openBehind_closer, if_neg]
    exact fun heq => hkind innermost rfl heq.symm

/-! ## Whole texts -/

theorem openBehind_append (ds : List Char) :
    openBehind opened position (cs ++ ds) =
      (openBehind opened position cs).bind fun opened' =>
        openBehind opened' (position + cs.length) ds := by
  induction cs generalizing opened position with
  | nil => rfl
  | cons c cs ih =>
    have hlength : position + (c :: cs).length = position + 1 + cs.length := by
      rw [List.length_cons]
      omega
    rw [hlength, List.cons_append]
    rcases opener_or_closer_or_other c with ⟨b, rfl⟩ | ⟨b, rfl⟩ | ⟨ho, hc⟩
    · rw [openBehind_opener, openBehind_opener, ih]
    · cases opened with
      | nil =>
        rw [openBehind_unpaired (unpaired_nil b), openBehind_unpaired (unpaired_nil b)]
        rfl
      | cons innermost outer =>
        rw [openBehind_closer, openBehind_closer]
        split
        · rw [ih]
        · rfl
    · rw [openBehind_other ho hc, openBehind_other ho hc, ih]

/-- A balanced text leaves open what was open before it. -/
theorem Balanced.openBehind (h : Balanced cs) :
    Bracket.openBehind opened position cs = some opened := by
  induction h generalizing opened position with
  | nil => rfl
  | other ho hc _ ih => rw [openBehind_other ho hc, ih]
  | pair b _ _ ihi ih =>
    rw [openBehind_opener, openBehind_append, ihi, Option.bind_some, openBehind_closer, if_pos rfl,
      ih]

/-- No closing bracket of a balanced text is wrongly paired. -/
theorem Balanced.not_unpaired {front rest : List Char} {c : Char} (h : Balanced (front ++ c :: rest))
    (hopened : Bracket.openBehind [] position front = some opened) : ¬ Unpaired opened c := by
  intro hunpaired
  have hnone : Bracket.openBehind [] position (front ++ c :: rest) = none := by
    rw [openBehind_append, hopened, Option.bind_some, openBehind_unpaired hunpaired]
  rw [h.openBehind] at hnone
  cases hnone

/-- A bracket that is open behind a text was open before it or stands in it. -/
theorem le_position_of_openBehind {least : Nat} (h : openBehind opened position cs = some opened')
    (hopened : ∀ o ∈ opened, least ≤ o.position) (hposition : least ≤ position) :
    ∀ o ∈ opened', least ≤ o.position := by
  induction cs generalizing opened position with
  | nil =>
    cases h
    exact hopened
  | cons c cs ih =>
    rcases opener_or_closer_or_other c with ⟨b, rfl⟩ | ⟨b, rfl⟩ | ⟨ho, hc⟩
    · rw [openBehind_opener] at h
      exact ih h (List.forall_mem_cons.mpr ⟨hposition, hopened⟩) (by omega)
    · cases opened with
      | nil =>
        rw [openBehind_unpaired (unpaired_nil b)] at h
        cases h
      | cons innermost outer =>
        rw [openBehind_closer] at h
        split at h
        · exact ih h (List.forall_mem_cons.mp hopened).2 (by omega)
        · cases h
    · rw [openBehind_other ho hc] at h
      exact ih h hopened (by omega)

/-! ## Where the search for a closing bracket fails -/

/-- How the search ends that started with some brackets open, as a statement about the text it goes
over: the outermost bracket stays open to the end, or to the first closing bracket that does not
pair. -/
def FailsFor (opened : List OpenBracket) (position index : Nat) (cs : List Char) :
    BracketFault → Prop
  | .mismatched found => ∃ front c rest opened', cs = front ++ c :: rest ∧
      found = index + front.length ∧ openBehind opened position front = some opened' ∧
      opened'.getLast? = opened.getLast? ∧ Unpaired opened' c
  | .unclosed => ∃ opened', openBehind opened position cs = some opened' ∧
      opened'.getLast? = opened.getLast?

/-- One character that the search passes over. -/
theorem FailsFor.cons {index : Nat} {c : Char} {fault : BracketFault}
    (hlast : opened'.getLast? = opened.getLast?)
    (hstep : ∀ ds, openBehind opened position (c :: ds) = openBehind opened' (position + 1) ds)
    (h : FailsFor opened' (position + 1) (index + 1) cs fault) :
    FailsFor opened position index (c :: cs) fault := by
  cases fault with
  | mismatched found =>
    obtain ⟨front, d, rest, opened'', rfl, hfound, hopened, hlast', hunpaired⟩ := h
    refine ⟨c :: front, d, rest, opened'', rfl, ?_, ?_, hlast'.trans hlast, hunpaired⟩
    · rw [hfound, List.length_cons]
      omega
    · rw [hstep, hopened]
  | unclosed =>
    obtain ⟨opened'', hopened, hlast'⟩ := h
    exact ⟨opened'', by rw [hstep, hopened], hlast'.trans hlast⟩

theorem failsFor_of_closerFrom {index : Nat} {fault : BracketFault} (hne : opened ≠ [])
    (h : closerFrom (opened.map OpenBracket.kind) index cs = .error fault) :
    FailsFor opened position index cs fault := by
  induction cs generalizing opened position index with
  | nil =>
    cases h
    exact ⟨opened, rfl, rfl⟩
  | cons c cs ih =>
    obtain ⟨innermost, outer, rfl⟩ := List.exists_cons_of_ne_nil hne
    rw [List.map_cons] at h
    rcases opener_or_closer_or_other c with ⟨b, rfl⟩ | ⟨b, rfl⟩ | ⟨ho, hc⟩
    · rw [closerFrom_opener] at h
      have hrest : FailsFor (⟨b, position⟩ :: innermost :: outer) (position + 1) (index + 1) cs
          fault := ih (List.cons_ne_nil _ _) h
      exact .cons (by simp) (fun ds => openBehind_opener b) hrest
    · rw [closerFrom_closer] at h
      by_cases hkind : b = innermost.kind
      · rw [if_neg (not_not_intro hkind)] at h
        split at h
        · cases h
        · rename_i houter
          -- the bracket that is closed here is not the outermost one
          have houter : outer ≠ [] := by simpa using houter
          have hrest : FailsFor outer (position + 1) (index + 1) cs fault := ih houter h
          refine .cons ?_ (fun ds => by rw [openBehind_closer, if_pos hkind]) hrest
          rw [List.getLast?_cons_of_ne_nil houter]
      · rw [if_pos hkind] at h
        cases h
        exact ⟨[], b.closer, cs, innermost :: outer, rfl, rfl, rfl, rfl, unpaired_cons hkind outer⟩
    · rw [closerFrom_other ho hc] at h
      have hrest : FailsFor (innermost :: outer) (position + 1) (index + 1) cs fault :=
        ih (List.cons_ne_nil _ _) h
      exact .cons rfl (fun ds => openBehind_other ho hc) hrest

end Bracket

end UnitCalc
