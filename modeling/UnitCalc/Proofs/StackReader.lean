import Mathlib.Logic.Relation
import UnitCalc.Proofs.Readings

/-!
# Proofs: reading with a stack

A reader that goes over a text once, from left to right, and keeps the open brackets on a stack.
It is stated as a step relation. It accepts a text with the same nodes as `Node.parse`, which looks
for the closing bracket of each opening one before it reads what stands between them.
-/

namespace UnitCalc

open Text Relation

/-- A reader between two steps. -/
structure StackReader where
  /-- The open brackets, the innermost first, each with the nodes in front of it in its list. -/
  opened : List (Bracket × List Node)
  /-- The nodes of the innermost list. -/
  current : List Node
  /-- The text that is left. -/
  rest : List Char

namespace StackReader

/-- One step of a reader that opens at most `limit` brackets within each other. -/
inductive Step (limit : Nat) : StackReader → StackReader → Prop where
  /-- A blank is skipped. -/
  | blank {opened : List (Bracket × List Node)} {current : List Node} {c : Char} {cs : List Char}
      (hc : isBlank c = true) : Step limit ⟨opened, current, c :: cs⟩ ⟨opened, current, cs⟩
  /-- An opening bracket starts a new list. -/
  | opener {opened : List (Bracket × List Node)} {current : List Node} {c : Char} {cs : List Char}
      {b : Bracket} (hc : Bracket.ofOpener? c = some b) (hlimit : opened.length < limit) :
      Step limit ⟨opened, current, c :: cs⟩ ⟨(b, current) :: opened, [], cs⟩
  /-- A closing bracket of the innermost kind makes a group of a list that is not empty. -/
  | closer {opened : List (Bracket × List Node)} {before current : List Node} {c : Char}
      {cs : List Char} {b : Bracket} (hc : Bracket.ofCloser? c = some b) (hne : current ≠ []) :
      Step limit ⟨(b, before) :: opened, current, c :: cs⟩
        ⟨opened, before ++ [.group current], cs⟩
  /-- At anything else the longest token is taken. -/
  | token {opened : List (Bracket × List Node)} {current : List Node} {c : Char}
      {cs rest : List Char} {t : Token} (hb : isBlank c = false)
      (ho : Bracket.ofOpener? c = none) (hc : Bracket.ofCloser? c = none)
      (ht : t.IsLongest (c :: cs)) (hrest : t.text.toList ++ rest = c :: cs) :
      Step limit ⟨opened, current, c :: cs⟩ ⟨opened, current ++ [.token t], rest⟩

/-- The reader accepts a text: it reaches its end with no bracket open. -/
def Accepts (limit : Nat) (cs : List Char) (ns : List Node) : Prop :=
  ReflTransGen (Step limit) ⟨[], [], cs⟩ ⟨[], ns, []⟩

/-! ## What a text stands for is accepted -/

/-- The reader takes a text that stands for nodes within the limit, whatever is open and whatever
follows, unless the text's last token goes on there. -/
theorem steps_of_reads {limit : Nat} {cs : List Char} {ns : List Node} (h : Node.Reads cs ns) :
    ∀ (opened : List (Bracket × List Node)) (current : List Node) (tail : List Char),
      (∀ c ∈ tail.head?, Token.goesOn c = false) → opened.length + Node.maxHeight ns ≤ limit →
      ReflTransGen (Step limit) ⟨opened, current, cs ++ tail⟩ ⟨opened, current ++ ns, tail⟩ := by
  induction h with
  | nil =>
    intro opened current tail _ _
    rw [List.nil_append, List.append_nil]
  | blank hc _ ih =>
    intro opened current tail hstop hlimit
    exact .head (.blank hc) (ih opened current tail hstop hlimit)
  | @token cs rest t ns ht _ ih =>
    intro opened current tail hstop hlimit
    have hlong := (Token.isLongest_of_scan? ht).append hstop
    obtain ⟨c, w, htext, hc, -⟩ := Token.text_of_wellFormed hlong.wellFormed
    obtain ⟨rfl, -⟩ := Token.text_append_of_scan? ht
    obtain ⟨hopen, hclose⟩ := Token.not_bracket_of_occurs hc
    have hblank : isBlank c = false := Token.not_isBlank_of_occurs hc
    have hrun := ih opened (current ++ [.token t]) tail hstop hlimit
    rw [List.append_assoc, List.singleton_append] at hrun
    refine .head ?_ hrun
    have hcons : t.text.toList ++ rest ++ tail = c :: (w ++ rest ++ tail) := by rw [htext]; rfl
    rw [hcons] at hlong ⊢
    refine .token hblank hopen hclose hlong ?_
    rw [← hcons, List.append_assoc]
  | @bracket b inner cs ms ns _ hne _ ihi ih =>
    intro opened current tail hstop hlimit
    have hheight : Node.maxHeight (.group ms :: ns) =
        max (1 + Node.maxHeight ms) (Node.maxHeight ns) := rfl
    rw [hheight] at hlimit
    have hcloser : Token.goesOn b.closer = false := by cases b <;> decide
    have hinner := ihi ((b, current) :: opened) [] (b.closer :: (cs ++ tail))
      (by simpa using hcloser) (by rw [List.length_cons]; omega)
    have hrun := ih opened (current ++ [.group ms]) tail hstop (by omega)
    rw [List.append_assoc, List.singleton_append] at hrun
    rw [List.cons_append, List.append_assoc, List.cons_append]
    -- open, read inside with one more bracket open, close, and go on
    refine .head (.opener (Bracket.ofOpener?_opener b) (by omega)) (hinner.trans ?_)
    exact .head (.closer (Bracket.ofCloser?_closer b) hne) hrun

/-! ## What is accepted stands for its nodes -/

/-- What is open asks of the text that is left: every open bracket is closed in turn, what stands
before its closing bracket completes its list, and the outermost list becomes `ns`. -/
def Closes : List (Bracket × List Node) → List Node → List Char → List Node → Prop
  | [], current, cs, ns => ∃ ms, Node.Reads cs ms ∧ ns = current ++ ms
  | (b, before) :: outer, current, cs, ns =>
    ∃ inner ms rest, cs = inner ++ b.closer :: rest ∧ Node.Reads inner ms ∧ current ++ ms ≠ [] ∧
      Closes outer (before ++ [.group (current ++ ms)]) rest ns

/-- A piece of text that stands for nodes wherever it is put can be put in front of a text. -/
theorem Closes.front {opened : List (Bracket × List Node)} {current ks ns : List Node}
    {cs : List Char} (w : List Char) (h : Closes opened (current ++ ks) cs ns)
    (hfront : ∀ start more ms, cs = start ++ more → Node.Reads start ms →
      Node.Reads (w ++ start) (ks ++ ms)) :
    Closes opened current (w ++ cs) ns := by
  cases opened with
  | nil =>
    obtain ⟨ms, hms, rfl⟩ := h
    exact ⟨ks ++ ms, hfront cs [] ms (by simp) hms, by simp⟩
  | cons frame outer =>
    obtain ⟨b, before⟩ := frame
    obtain ⟨inner, ms, rest, rfl, hms, hne, hrest⟩ := h
    rw [List.append_assoc] at hne hrest
    exact ⟨w ++ inner, ks ++ ms, rest, by simp, hfront inner (b.closer :: rest) ms rfl hms, hne,
      hrest⟩

/-- What is asked after a step is asked before it. -/
theorem Closes.of_step {limit : Nat} {s s' : StackReader} {ns : List Node} (hstep : Step limit s s')
    (h : Closes s'.opened s'.current s'.rest ns) : Closes s.opened s.current s.rest ns := by
  cases hstep with
  | @blank opened current c cs hc =>
    rw [← List.append_nil current] at h
    exact h.front [c] fun _ _ _ _ hms => .blank hc hms
  | @opener opened current c cs b hc hlimit =>
    obtain rfl := Bracket.eq_opener hc
    obtain ⟨inner, ms, rest, hcs, hms, hne, hrest⟩ := h
    change cs = inner ++ b.closer :: rest at hcs
    have hfront := hrest.front (b.opener :: (inner ++ [b.closer])) fun start more ks _ hks => by
      rw [List.cons_append, List.append_assoc]
      exact .bracket b hms hne hks
    show Closes opened current (b.opener :: cs) ns
    rw [hcs]
    rwa [List.cons_append, List.append_assoc] at hfront
  | @closer opened before current c cs b hc hne =>
    obtain rfl := Bracket.eq_closer hc
    exact ⟨[], [], cs, rfl, .nil, by simpa using hne, by simpa using h⟩
  | @token opened current c cs rest t hb ho hc ht hrest =>
    show Closes opened current (c :: cs) ns
    rw [← hrest] at ht ⊢
    refine h.front t.text.toList fun start more ms hstart hms => .token ?_ hms
    change rest = start ++ more at hstart
    subst hstart
    rw [← List.append_assoc] at ht
    exact Token.scan?_eq_some_iff.mpr ⟨ht.of_append (List.prefix_append _ _), rfl⟩

theorem closes_of_steps {limit : Nat} {s : StackReader} {ns : List Node}
    (h : ReflTransGen (Step limit) s ⟨[], ns, []⟩) : Closes s.opened s.current s.rest ns := by
  induction h using ReflTransGen.head_induction_on with
  | refl => exact ⟨[], .nil, by simp⟩
  | head hstep _ ih => exact .of_step hstep ih

/-! ## The depth of what is accepted -/

/-- The depth of the tree if all brackets were closed at once. -/
def nesting : List (Bracket × List Node) → List Node → Nat
  | [], current => Node.maxHeight current
  | (_, before) :: outer, current => nesting outer (before ++ [.group current])

theorem nesting_eq (opened : List (Bracket × List Node)) (current : List Node) :
    nesting opened current = max (opened.length + Node.maxHeight current) (nesting opened []) := by
  induction opened generalizing current with
  | nil => simp [nesting]
  | cons frame outer ih =>
    obtain ⟨b, before⟩ := frame
    have hcurrent := ih (before ++ [.group current])
    have hempty := ih (before ++ [.group []])
    have hheight : ∀ ns : List Node, Node.maxHeight (before ++ [.group ns]) =
        max (Node.maxHeight before) (1 + Node.maxHeight ns) := by
      intro ns
      simp [Node.maxHeight_append, Node.height]
    rw [hheight] at hcurrent hempty
    rw [Node.maxHeight_nil] at hempty
    show nesting outer _ = max _ (nesting outer _)
    rw [hcurrent, hempty, List.length_cons]
    omega

/-- A step leaves the depth within the limit. -/
theorem nesting_le_of_step {limit : Nat} {s s' : StackReader} (hstep : Step limit s s')
    (h : nesting s.opened s.current ≤ limit) : nesting s'.opened s'.current ≤ limit := by
  cases hstep with
  | blank => exact h
  | @opener opened current c cs b hc hlimit =>
    have hopen := nesting_eq opened (current ++ [.group []])
    have hcurrent := nesting_eq opened current
    change nesting opened current ≤ limit at h
    show nesting opened (current ++ [.group []]) ≤ limit
    simp only [Node.maxHeight_append, Node.maxHeight_cons, Node.maxHeight_nil, Node.height] at hopen
    omega
  | closer => exact h
  | @token opened current c cs rest t =>
    have htoken := nesting_eq opened (current ++ [.token t])
    have hcurrent := nesting_eq opened current
    change nesting opened current ≤ limit at h
    show nesting opened (current ++ [.token t]) ≤ limit
    simp only [Node.maxHeight_append, Node.maxHeight_cons, Node.maxHeight_nil, Node.height]
      at htoken
    omega

theorem nesting_le_of_steps {limit : Nat} {s s' : StackReader} (h : ReflTransGen (Step limit) s s')
    (hs : nesting s.opened s.current ≤ limit) : nesting s'.opened s'.current ≤ limit := by
  induction h with
  | refl => exact hs
  | tail _ hstep ih => exact nesting_le_of_step hstep ih

theorem accepts_iff {limit : Nat} {cs : List Char} {ns : List Node} :
    Accepts limit cs ns ↔ Node.Reads cs ns ∧ Node.maxHeight ns ≤ limit := by
  constructor
  · intro h
    obtain ⟨ms, hms, rfl⟩ := closes_of_steps h
    exact ⟨hms, nesting_le_of_steps h (Nat.zero_le limit)⟩
  · rintro ⟨h, hlimit⟩
    have hrun := steps_of_reads h [] [] [] (by simp) (by simpa using hlimit)
    rwa [List.append_nil] at hrun

end StackReader

/-- An expression is read under a limit exactly when the reader with a stack accepts it under this
limit, and with the same nodes. -/
theorem Node.parse_eq_ok_iff_accepts (limit : Nat) (expression : String) (n : Node) :
    Node.parse limit expression = .ok n ↔
      ∃ ns, n = .group ns ∧ StackReader.Accepts limit expression.toList ns := by
  rw [parse_eq_ok_iff]
  constructor
  · rintro ⟨ns, rfl, hns, hlimit⟩
    exact ⟨ns, rfl, StackReader.accepts_iff.mpr ⟨hns, hlimit⟩⟩
  · rintro ⟨ns, rfl, h⟩
    obtain ⟨hns, hlimit⟩ := StackReader.accepts_iff.mp h
    exact ⟨ns, rfl, hns, hlimit⟩

end UnitCalc
