import UnitCalc.Proofs.NestingLimit

/-!
# Proofs: the written forms of a tree

A tree can be written in many ways: each group in brackets of any kind, with blanks wherever a token
does not go on. Every one of these texts is read as the tree it was written for, under every limit
that the tree nests within. The form that `Node.text` gives is one of them.
-/

namespace UnitCalc

open Text

/-- A blank cannot stand in a token behind its first character. -/
theorem Token.goesOn_of_isBlank {c : Char} (h : isBlank c = true) : goesOn c = false := by
  by_contra hgo
  rw [Bool.not_eq_false] at hgo
  rw [not_isBlank_of_occurs (occurs_of_goesOn hgo)] at h
  cases h

/-- A token is read back when the text behind it does not start with a character that it could go on
with. -/
theorem Token.scan?_text_append {t : Token} (h : t.WellFormed) {rest : List Char}
    (stop : ∀ c ∈ rest.head?, goesOn c = false) :
    scan? (t.text.toList ++ rest) = some (t, rest) := by
  have hlongest : t.IsLongest t.text.toList :=
    { wellFormed := h
      starts := List.prefix_rfl
      longest := fun _ _ hu => hu.length_le }
  exact scan?_eq_some_iff.mpr ⟨hlongest.append stop, rfl⟩

namespace Node

/-- A tree that can be written: its numbers and units are words of their kind, and no group is
empty. -/
inductive WellFormed : Node → Prop where
  /-- A token that is a word of its kind. -/
  | token {t : Token} (h : t.WellFormed) : WellFormed (token t)
  /-- A group of one tree or more. -/
  | group {ns : List Node} (hne : ns ≠ []) (h : ∀ n ∈ ns, WellFormed n) : WellFormed (group ns)

/-- Between the tree `n` and the trees `ns` behind it, which are written as `ds`, no blank is
missing: only between two tokens there has to be one. -/
def Apart (n : Node) (ns : List Node) (ds : List Char) : Prop :=
  (∃ ms, n = group ms) ∨ (∀ m ∈ ns.head?, ∃ ms, m = group ms) ∨ ∃ c ∈ ds.head?, isBlank c = true

mutual

/-- The texts that a tree can be written as. -/
inductive Written : Node → List Char → Prop where
  /-- A token is written as it is. -/
  | token (t : Token) : Written (token t) t.text.toList
  /-- A group is written in brackets of any kind. -/
  | group (b : Bracket) {ns : List Node} {cs : List Char} (h : WrittenInOrder ns cs) :
      Written (group ns) (b.opener :: (cs ++ [b.closer]))

/-- The texts that trees in order can be written as. -/
inductive WrittenInOrder : List Node → List Char → Prop where
  /-- No trees: only blanks. -/
  | nil {w : List Char} (hw : ∀ c ∈ w, isBlank c = true) : WrittenInOrder [] w
  /-- Blanks, a tree and the trees behind it. -/
  | cons {w cs ds : List Char} {n : Node} {ns : List Node} (hw : ∀ c ∈ w, isBlank c = true)
      (h : Written n cs) (hs : WrittenInOrder ns ds) (apart : Apart n ns ds) :
      WrittenInOrder (n :: ns) (w ++ cs ++ ds)

end

/-! ## Reading a written form -/

theorem Reads.blanks {w cs : List Char} {ns : List Node} (hw : ∀ c ∈ w, isBlank c = true)
    (h : Reads cs ns) : Reads (w ++ cs) ns := by
  induction w with
  | nil => exact h
  | cons c w ih =>
    have hrest := ih fun d hd => hw d (List.mem_cons_of_mem c hd)
    exact .blank (hw c List.mem_cons_self) hrest

/-- The text of a group starts with a bracket or, behind blanks, with a blank. -/
theorem WrittenInOrder.not_goesOn_of_group {ms ns : List Node} {ds : List Char}
    (h : WrittenInOrder (Node.group ms :: ns) ds) : ∀ c ∈ ds.head?, Token.goesOn c = false := by
  cases h with
  | @cons w cs ds _ _ hw h _ _ =>
    cases h with
    | group b h =>
      cases w with
      | nil =>
        intro c hc
        obtain rfl : b.opener = c := by simpa using hc
        cases b <;> decide
      | cons d w =>
        intro c hc
        obtain rfl : d = c := by simpa using hc
        exact Token.goesOn_of_isBlank (hw d List.mem_cons_self)

/-- A token does not go on in the trees written behind it. -/
theorem Apart.not_goesOn {t : Token} {ns : List Node} {ds : List Char}
    (apart : Apart (Node.token t) ns ds) (hs : WrittenInOrder ns ds) :
    ∀ c ∈ ds.head?, Token.goesOn c = false := by
  rcases apart with ⟨ms, heq⟩ | hgroup | ⟨d, hd, hblank⟩
  · cases heq
  · cases ns with
    | nil =>
      cases hs with
      | nil hw => exact fun c hc => Token.goesOn_of_isBlank (hw c (List.mem_of_mem_head? hc))
    | cons m ns =>
      obtain ⟨ms, rfl⟩ := hgroup m rfl
      exact hs.not_goesOn_of_group
  · intro c hc
    obtain rfl : d = c := Option.some.inj (hd.symm.trans hc)
    exact Token.goesOn_of_isBlank hblank

/-- A written form is read as what it was written for. -/
theorem WrittenInOrder.reads : ∀ {ns : List Node} {cs : List Char}, WrittenInOrder ns cs →
    (∀ n ∈ ns, n.WellFormed) → Reads cs ns
  | _, w, .nil hw, _ => by
    have hblanks := Reads.blanks hw .nil
    rwa [List.append_nil] at hblanks
  | _, _, @WrittenInOrder.cons w cs ds n ns hw h hs apart, hwf => by
    have hrest : Reads ds ns := hs.reads fun m hm => hwf m (List.mem_cons_of_mem n hm)
    have hn := hwf n List.mem_cons_self
    rw [List.append_assoc]
    refine .blanks hw ?_
    cases h with
    | token t =>
      cases hn with
      | token ht => exact .token (Token.scan?_text_append ht (apart.not_goesOn hs)) hrest
    | @group b ms inner h =>
      cases hn with
      | group hne hms =>
        rw [List.cons_append, List.append_assoc]
        exact .bracket b (h.reads hms) hne hrest

/-! ## What is read can be written -/

theorem Reads.wellFormed {cs : List Char} {ns : List Node} (h : Reads cs ns) :
    ∀ n ∈ ns, n.WellFormed := by
  induction h with
  | nil => simp
  | blank _ _ ih => exact ih
  | token ht _ ih => exact List.forall_mem_cons.mpr ⟨.token (Token.wellFormed_of_scan? ht), ih⟩
  | bracket _ _ hne _ ihi ih => exact List.forall_mem_cons.mpr ⟨.group hne ihi, ih⟩

theorem WellFormed.powerTriple {base exponent : Node} (hb : base.WellFormed)
    (he : exponent.WellFormed) : (powerTriple base exponent).WellFormed :=
  .group (List.cons_ne_nil _ _) (by simp [hb, he, WellFormed.token (t := .operator .power) trivial])

theorem GroupsAfter.ne_nil : ∀ {held : Node} {cs gs : List Node}, GroupsAfter held cs gs → gs ≠ []
  | _, _, _, h => by
    cases h with
    | nil => exact List.cons_ne_nil _ _
    | power _ hs => exact hs.ne_nil
    | next => exact List.cons_ne_nil _ _

theorem Groups.ne_nil {cs gs : List Node} (h : Groups cs gs) (hne : cs ≠ []) : gs ≠ [] := by
  cases h with
  | nil => exact absurd rfl hne
  | cons _ _ hs => exact hs.ne_nil

mutual

theorem GroupsInside.wellFormed : ∀ {n g : Node}, GroupsInside n g → n.WellFormed → g.WellFormed
  | _, _, .token _, hn => hn
  | _, _, .group h, hn => by
    cases hn with
    | group hne hns => exact .group (h.ne_nil hne) (h.wellFormed hns)

/-- Grouping powers leaves a sequence one that can be written. -/
theorem Groups.wellFormed : ∀ {cs gs : List Node}, Groups cs gs → (∀ n ∈ cs, n.WellFormed) →
    ∀ g ∈ gs, g.WellFormed
  | _, _, .nil, _ => by simp
  | _, _, .cons _ h hs, hcs => by
    obtain ⟨hc, hcs⟩ := List.forall_mem_cons.mp hcs
    exact hs.wellFormed (h.wellFormed hc) hcs

theorem GroupsAfter.wellFormed : ∀ {held : Node} {cs gs : List Node}, GroupsAfter held cs gs →
    held.WellFormed → (∀ n ∈ cs, n.WellFormed) → ∀ g ∈ gs, g.WellFormed
  | _, _, _, .nil _, hheld, _ => by simpa using hheld
  | _, _, _, .power h hs, hheld, hcs => by
    obtain ⟨-, he, hcs⟩ := by simpa using hcs
    exact hs.wellFormed (hheld.powerTriple (h.wellFormed he)) hcs
  | _, _, _, .next _ _ h hs, hheld, hcs => by
    obtain ⟨hc, hcs⟩ := List.forall_mem_cons.mp hcs
    exact List.forall_mem_cons.mpr ⟨hheld, hs.wellFormed (h.wellFormed hc) hcs⟩

end

/-! ## The usual form -/

/-- One more blank in front. -/
theorem WrittenInOrder.blank {ns : List Node} {cs : List Char} (h : WrittenInOrder ns cs) {c : Char}
    (hc : isBlank c = true) : WrittenInOrder ns (c :: cs) := by
  cases h with
  | nil hw => exact .nil (List.forall_mem_cons.mpr ⟨hc, hw⟩)
  | cons hw h hs apart => exact .cons (List.forall_mem_cons.mpr ⟨hc, hw⟩) h hs apart

mutual

theorem written_text : ∀ n : Node, Written n n.text.toList
  | token t => .token t
  | group cs => by
    rw [toList_text_group]
    exact .group .round (written_textOfChildren cs)

theorem written_textOfChildren : ∀ ns : List Node, WrittenInOrder ns (textOfChildren ns).toList
  | [] => .nil (by simp [textOfChildren])
  | [c] => by
    have hc := WrittenInOrder.cons (w := []) (by simp) (written_text c) (.nil (w := []) (by simp))
      (.inr (.inl (by simp)))
    simpa [textOfChildren] using hc
  | c :: d :: ds => by
    have hspace := (written_textOfChildren (d :: ds)).blank (c := ' ') (by decide)
    have hc := WrittenInOrder.cons (w := []) (by simp) (written_text c) hspace
      (.inr (.inr ⟨' ', rfl, by decide⟩))
    simpa [textOfChildren] using hc

end

/-! ## Reading back -/

/-- A tree that nests within a limit is read from each of its written forms. -/
theorem parse_of_writtenInOrder {ns : List Node} {expression : String} {limit : Nat}
    (hns : ∀ n ∈ ns, n.WellFormed) (h : WrittenInOrder ns expression.toList)
    (hlimit : (group ns).nestingDepth ≤ limit) : parse limit expression = .ok (group ns) := by
  rw [parse_of_reads (h.reads hns), if_pos hlimit]

/-- The usual form of a group is read as this group alone. -/
theorem parse_text_group {ns : List Node} {limit : Nat} (hne : ns ≠ [])
    (hns : ∀ n ∈ ns, n.WellFormed) (hlimit : 1 + (group ns).nestingDepth ≤ limit) :
    parse limit (group ns).text = .ok (group [group ns]) := by
  have hform : WrittenInOrder [group ns] (group ns).text.toList := by
    have hlast := WrittenInOrder.cons (w := []) (by simp) (written_text (group ns))
      (.nil (w := []) (by simp)) (.inl ⟨ns, rfl⟩)
    simpa using hlast
  have hdepth : (group [group ns]).nestingDepth = 1 + (group ns).nestingDepth := by
    rw [nestingDepth, maxHeight_cons, height_group, maxHeight_nil, Nat.max_zero]
  exact parse_of_writtenInOrder (by simpa using WellFormed.group hne hns) hform (by omega)

/-- Every written form of a tree is read as this tree, and the usual form of a tree that was read
from an expression, grouped or not, is read as this tree again. -/
theorem parse_written_forms :
    (∀ (ns : List Node) (expression : String) (limit : Nat), (∀ n ∈ ns, n.WellFormed) →
      WrittenInOrder ns expression.toList → (group ns).nestingDepth ≤ limit →
      parse limit expression = .ok (group ns)) ∧
    ∀ (expression : String) (n : Node), (∃ c ∈ expression.toList, isBlank c = false) →
      ((∃ limit, parse limit expression = .ok n) ∨
        ∃ c : Converter, c.parse expression = .ok n) →
      ∀ limit, 1 + n.nestingDepth ≤ limit → parse limit n.text = .ok (group [n]) := by
  refine ⟨fun ns expression limit => parse_of_writtenInOrder, ?_⟩
  rintro expression n hne (⟨limit', h⟩ | ⟨c, h⟩) limit hlimit
  · obtain ⟨ns, rfl, hns⟩ := reads_of_parse h
    exact parse_text_group (hns.ne_nil hne) hns.wellFormed hlimit
  · change parseGrouped c.limit expression = .ok n at h
    obtain ⟨cs, gs, hcs, hr, hg, rfl, -⟩ := parseGrouped_eq_ok h
    exact parse_text_group (hg.ne_nil hcs) (hg.wellFormed hr.wellFormed) hlimit

/-- A tree in braces with several kinds of blanks, and a power that was grouped. -/
theorem parse_written_forms_speed :
    let speed := [token (.number "3"), group [token (.unit "m"), token (.operator .divide),
      token (.unit "s")]]
    let area := group [powerTriple (token (.unit "m")) (token (.number "2"))]
    (∀ n ∈ speed, n.WellFormed) ∧ WrittenInOrder speed "\t3\x7bm\u00a0/ s \x7d".toList ∧
    parse 1 "\t3\x7bm\u00a0/ s \x7d" = .ok (group speed) ∧
    (⟨.empty, 1⟩ : Converter).parse "m^2" = .ok area ∧
    parse 2 area.text = .ok (group [area]) := by
  intro speed area
  have hword : ∀ t : Token, Token.scan? t.text.toList = some (t, []) → (token t).WellFormed :=
    fun t h => .token (Token.wellFormed_of_scan? h)
  have hthree := hword (.number "3") (by with_unfolding_all rfl)
  have hmetre := hword (.unit "m") (by with_unfolding_all rfl)
  have hsecond := hword (.unit "s") (by with_unfolding_all rfl)
  have hwell : ∀ n ∈ speed, n.WellFormed := by
    have hquotient : (group [token (.unit "m"), token (.operator .divide),
        token (.unit "s")]).WellFormed :=
      .group (List.cons_ne_nil _ _)
        (by simp [hmetre, hsecond, WellFormed.token (t := .operator .divide) trivial])
    simp [speed, hthree, hquotient]
  have hwritten : WrittenInOrder speed "\t3\x7bm\u00a0/ s \x7d".toList := by
    have hblank : ∀ {c : Char}, isBlank c = true → ∀ d ∈ [c], isBlank d = true := fun h =>
      List.forall_mem_singleton.mpr h
    have hs := WrittenInOrder.cons (hblank (c := ' ') rfl) (.token (.unit "s"))
      (.nil (hblank (c := ' ') rfl)) (.inr (.inl (by simp)))
    have hslash := WrittenInOrder.cons (hblank (c := '\u00a0') rfl) (.token (.operator .divide)) hs
      (.inr (.inr ⟨' ', rfl, by decide⟩))
    have hm := WrittenInOrder.cons (w := []) (by simp) (.token (.unit "m")) hslash
      (.inr (.inr ⟨'\u00a0', rfl, by decide⟩))
    have hgroup := WrittenInOrder.cons (w := []) (by simp) (.group .curly hm)
      (.nil (w := []) (by simp)) (.inl ⟨_, rfl⟩)
    exact .cons (hblank (c := '\t') rfl) (.token (.number "3")) hgroup (.inr (.inl (by simp)))
  have harea : (⟨.empty, 1⟩ : Converter).parse "m^2" = .ok area := by with_unfolding_all rfl
  exact ⟨hwell, hwritten, parse_written_forms.1 speed _ 1 hwell hwritten (by decide), harea,
    parse_written_forms.2 "m^2" area ⟨'m', by decide, by decide⟩ (.inr ⟨_, harea⟩) 2 (by decide)⟩

end Node

end UnitCalc
