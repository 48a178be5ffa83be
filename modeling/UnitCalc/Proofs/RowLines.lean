import UnitCalc.Proofs.DatabaseRows

/-!
# Proofs: the line of a row

The reader of a sheet knows of a row where it began to look for it, and that is right behind the
byte that ended the row before. Line ends that it skips from there to the first byte of the row do
not count. An error about a row therefore names the line on which the row begins if and only if
there is no line feed among them.
-/

namespace UnitCalc

open Text

namespace Sheet

/-- The number of the line on which what follows these bytes stands. -/
def lineBehind (front : List UInt8) : Nat := front.count lineFeed + 1

/-- The row with this index begins right behind the bytes in `front`: they make all rows before it,
and with the next byte there is a row more. -/
structure BeginsBehind (bytes : List UInt8) (index : Nat) (front : List UInt8) : Prop where
  before : (rows front).length = index
  next : ∃ first rest, bytes = front ++ first :: rest ∧
    (rows (front ++ [first])).length = index + 1

/-- What stands between a row and the one after it: the byte that ends the row, and line ends that
are skipped. The row goes up to the end of `previous`, so its last byte is not a line end. -/
structure Gap (previous : List UInt8) (ending : UInt8) (skipped : List UInt8) : Prop where
  previous : ∃ b, previous.getLast? = some b ∧ isLineEnd b = false
  ending : isLineEnd ending = true
  skipped : ∀ b ∈ skipped, isLineEnd b = true

theorem lineBehind_append (front back : List UInt8) :
    lineBehind (front ++ back) = lineBehind front + back.count lineFeed := by
  rw [lineBehind, lineBehind, List.count_append]
  omega

/-! ## One byte -/

namespace Reader

/-- What a byte does to the rows and to the place of the present row. -/
inductive Move (r : Reader) (b : UInt8) (r' : Reader) : Prop where
  /-- A line end between two rows is skipped. -/
  | skip (hphase : r.phase = .betweenRows) (hb : isLineEnd b = true)
      (hphase' : r'.phase = .betweenRows) (hrows : r'.rows = r.rows) (hplace : r'.place = r.place)
  /-- A row begins. -/
  | enter (hphase : r.phase = .betweenRows) (hb : isLineEnd b = false)
      (hphase' : r'.phase ≠ .betweenRows) (hrows : r'.rows = r.rows) (hplace : r'.place = r.place)
  /-- The present row goes on. A line end can belong to it only inside quotes. -/
  | stay (hphase : r.phase ≠ .betweenRows) (hb : r'.phase = .quoted ∨ isLineEnd b = false)
      (hphase' : r'.phase ≠ .betweenRows) (hrows : r'.rows = r.rows) (hplace : r'.place = r.place)
  /-- The present row ends, and the reader looks for the next one from here. -/
  | leave (hphase : r.phase ≠ .betweenRows) (hquoted : r.phase ≠ .quoted)
      (hb : isLineEnd b = true) (hphase' : r'.phase = .betweenRows)
      {cells : List (List UInt8)} (hrows : r'.rows = ⟨r.place, cells⟩ :: r.rows)
      (hplace : r'.place.line = r'.line)

variable {r : Reader} {b : UInt8}

theorem stepPlain_of_lineEnd (h : isLineEnd b = true) : r.stepPlain b = r.endRow := by
  have hcomma : (b == comma) = false := by
    rw [beq_eq_false_iff_ne]
    rintro rfl
    exact absurd h (by decide)
  unfold stepPlain
  rw [hcomma, h]
  rfl

/-- A byte outside quotes that does not end the row leaves it under way. -/
theorem stepPlain_of_not_lineEnd (h : isLineEnd b = false) :
    (r.stepPlain b).phase ≠ .betweenRows ∧ (r.stepPlain b).rows = r.rows ∧
      (r.stepPlain b).place = r.place ∧ (r.stepPlain b).line = r.line := by
  unfold stepPlain
  rw [h]
  split
  · exact ⟨Phase.noConfusion, rfl, rfl, rfl⟩
  · exact ⟨Phase.noConfusion, rfl, rfl, rfl⟩

theorem line_stepPlain (r : Reader) (b : UInt8) : (r.stepPlain b).line = r.line := by
  cases h : isLineEnd b with
  | true =>
    rw [stepPlain_of_lineEnd h]
    rfl
  | false => exact (stepPlain_of_not_lineEnd h).2.2.2

/-- Each byte is counted, whatever it does. -/
theorem line_step (r : Reader) (b : UInt8) : (r.step b).line = r.line + [b].count lineFeed := by
  have hcount : (r.count b).line = r.line + [b].count lineFeed := by
    rw [List.count_singleton]
    unfold count
    split <;> simp [*]
  rw [← hcount]
  unfold step
  dsimp only
  repeat' split
  all_goals first | rfl | exact line_stepPlain _ _

theorem move_stepPlain (hphase : r.phase ≠ .betweenRows) (hquoted : r.phase ≠ .quoted) :
    Move r b ((r.count b).stepPlain b) := by
  cases hb : isLineEnd b with
  | true =>
    rw [stepPlain_of_lineEnd hb]
    exact .leave hphase hquoted hb rfl rfl rfl
  | false =>
    obtain ⟨hphase', hrows, hplace, -⟩ := stepPlain_of_not_lineEnd (r := r.count b) hb
    exact .stay hphase (.inr hb) hphase' hrows hplace

theorem not_isLineEnd_quote : isLineEnd quote = false := by decide

theorem move_step (r : Reader) (b : UInt8) : Move r b (r.step b) := by
  have hcounted : (r.count b).phase = r.phase := rfl
  unfold step
  dsimp only
  rw [hcounted]
  cases hphase : r.phase with
  | betweenRows =>
    dsimp only
    split
    · exact .skip hphase (by assumption) hphase rfl rfl
    · have hb : isLineEnd b = false := Bool.eq_false_iff.mpr (by assumption)
      split
      · exact .enter hphase hb Phase.noConfusion rfl rfl
      · obtain ⟨hphase', hrows, hplace, -⟩ := stepPlain_of_not_lineEnd (r := r.count b) hb
        exact .enter hphase hb hphase' hrows hplace
  | cellStart =>
    have hinside : r.phase ≠ .betweenRows := by simp [hphase]
    dsimp only
    split
    · exact .stay hinside (.inl rfl) Phase.noConfusion rfl rfl
    · exact move_stepPlain hinside (by simp [hphase])
  | plain => exact move_stepPlain (by simp [hphase]) (by simp [hphase])
  | quoted =>
    have hinside : r.phase ≠ .betweenRows := by simp [hphase]
    dsimp only
    split
    · obtain rfl : b = quote := beq_iff_eq.mp (by assumption)
      exact .stay hinside (.inr not_isLineEnd_quote) Phase.noConfusion rfl rfl
    · exact .stay hinside (.inl rfl) Phase.noConfusion rfl rfl
  | afterQuote =>
    have hinside : r.phase ≠ .betweenRows := by simp [hphase]
    dsimp only
    split
    · exact .stay hinside (.inl rfl) Phase.noConfusion rfl rfl
    · exact move_stepPlain hinside (by simp [hphase])

end Reader

/-! ## All bytes -/

/-- The place of the row with this index, in the bytes that a reader has taken: where the row begins,
and what stands between it and the row before. -/
inductive Stands (start : Reader) (index : Nat) (place : Place) : List UInt8 → Prop where
  | intro {previous : List UInt8} {ending first : UInt8} {skipped rest : List UInt8}
      (hgap : Gap previous ending skipped)
      (hphase : ((previous ++ ending :: skipped).foldl Reader.step start).phase = .betweenRows)
      (hrows : ((previous ++ ending :: skipped).foldl Reader.step start).rows.length = index)
      (hfirst : isLineEnd first = false) (hline : place.line = lineBehind (previous ++ [ending])) :
      Stands start index place (previous ++ ending :: skipped ++ first :: rest)

/-- What a reader that has taken these bytes knows about them. -/
structure Tracks (start : Reader) (taken : List UInt8) (r : Reader) : Prop where
  reached : taken.foldl Reader.step start = r
  line : r.line = lineBehind taken
  /-- All complete rows but the first one stand behind another row. -/
  complete : ∀ newer row older, r.rows = newer ++ row :: older → older ≠ [] →
    Stands start older.length row.place taken
  /-- Between two rows it is in the gap between them. -/
  between : r.phase = .betweenRows → r.rows ≠ [] → ∃ previous ending skipped,
    taken = previous ++ ending :: skipped ∧ Gap previous ending skipped ∧
      r.place.line = lineBehind (previous ++ [ending])
  /-- The present row stands behind another one, unless it is the first. -/
  present : r.phase ≠ .betweenRows → r.rows ≠ [] → Stands start r.rows.length r.place taken
  /-- Outside quotes no line end belongs to a row. -/
  last : r.phase ≠ .betweenRows → r.phase ≠ .quoted →
    ∃ b, taken.getLast? = some b ∧ isLineEnd b = false

variable {start r : Reader} {taken : List UInt8} {index : Nat} {place : Place}

theorem Stands.append (h : Stands start index place taken) (bytes : List UInt8) :
    Stands start index place (taken ++ bytes) := by
  cases h with
  | intro hgap hphase hrows hfirst hline =>
    rw [List.append_assoc, List.cons_append]
    exact .intro hgap hphase hrows hfirst hline

theorem Tracks.step (h : Tracks start taken r) (b : UInt8) :
    Tracks start (taken ++ [b]) (r.step b) := by
  have hreached : (taken ++ [b]).foldl Reader.step start = r.step b := by
    rw [List.foldl_append, h.reached]
    rfl
  have hline : (r.step b).line = lineBehind (taken ++ [b]) := by
    rw [Reader.line_step, lineBehind_append, h.line]
  have hkept : (r.step b).rows = r.rows → ∀ newer row older,
      (r.step b).rows = newer ++ row :: older → older ≠ [] →
        Stands start older.length row.place (taken ++ [b]) := by
    intro hrows newer row older hsplit hne
    exact (h.complete newer row older (hrows ▸ hsplit) hne).append [b]
  cases Reader.move_step r b with
  | skip hphase hb hphase' hrows hplace =>
    refine ⟨hreached, hline, hkept hrows, fun _ hne => ?_, fun hne => absurd hphase' hne,
      fun hne => absurd hphase' hne⟩
    obtain ⟨previous, ending, skipped, rfl, hgap, hline⟩ := h.between hphase (hrows ▸ hne)
    refine ⟨previous, ending, skipped ++ [b], by simp, ⟨hgap.previous, hgap.ending, ?_⟩,
      by rw [hplace, hline]⟩
    exact List.forall_mem_append.mpr ⟨hgap.skipped, List.forall_mem_singleton.mpr hb⟩
  | enter hphase hb hphase' hrows hplace =>
    refine ⟨hreached, hline, hkept hrows, fun heq => absurd heq hphase', fun _ hne => ?_,
      fun _ _ => ⟨b, List.getLast?_concat, hb⟩⟩
    rw [hrows] at hne ⊢
    -- The place is still the one from which the reader looked for a row.
    obtain ⟨previous, ending, skipped, rfl, hgap, hline⟩ := h.between hphase hne
    rw [hplace]
    exact .intro hgap (by rwa [h.reached]) (by rw [h.reached]) hb hline
  | stay hphase hb hphase' hrows hplace =>
    refine ⟨hreached, hline, hkept hrows, fun heq => absurd heq hphase', fun _ hne => ?_,
      fun _ hquoted => ⟨b, List.getLast?_concat, hb.resolve_left hquoted⟩⟩
    rw [hrows] at hne ⊢
    rw [hplace]
    exact (h.present hphase hne).append [b]
  | leave hphase hquoted hb hphase' hrows hplace =>
    refine ⟨hreached, hline, fun newer row older hsplit hne => ?_, fun _ _ => ?_,
      fun hne => absurd hphase' hne, fun hne => absurd hphase' hne⟩
    · rw [hrows] at hsplit
      -- Either it is the row that has just ended, or one that was complete before.
      cases newer with
      | nil =>
        obtain ⟨rfl, rfl⟩ := List.cons.inj hsplit
        exact (h.present hphase hne).append [b]
      | cons row' newer =>
        exact (h.complete newer row older (List.cons.inj hsplit).2 hne).append [b]
    · exact ⟨taken, b, [], rfl, ⟨h.last hphase hquoted, hb, by simp⟩, by rw [hplace, hline]⟩

theorem tracks_foldl (h : Tracks start taken r) (bytes : List UInt8) :
    Tracks start (taken ++ bytes) (bytes.foldl Reader.step r) := by
  induction bytes generalizing taken r with
  | nil =>
    rw [List.append_nil]
    exact h
  | cons b bytes ih =>
    rw [List.append_cons]
    exact ih (h.step b)

theorem tracks_start (hphase : start.phase = .betweenRows) (hrows : start.rows = [])
    (hline : start.line = 1) : Tracks start [] start where
  reached := rfl
  line := hline
  complete newer row older h := by
    rw [hrows] at h
    cases newer <;> cases h
  between _ hne := absurd hrows hne
  present hne := absurd hphase hne
  last hne := absurd hphase hne

theorem finish_of_between (hphase : r.phase = .betweenRows) : r.finish = r.rows.reverse := by
  unfold Reader.finish
  rw [hphase]

theorem finish_of_inside (hphase : r.phase ≠ .betweenRows) :
    ∃ cells, r.finish = (⟨r.place, cells⟩ :: r.rows).reverse := by
  unfold Reader.finish
  split
  · exact absurd (by assumption) hphase
  · exact ⟨_, rfl⟩

/-- A byte that begins a row makes a row more at the end of the text. -/
theorem length_finish_step {first : UInt8} (hphase : r.phase = .betweenRows)
    (hfirst : isLineEnd first = false) : (r.step first).finish.length = r.rows.length + 1 := by
  cases Reader.move_step r first with
  | skip _ hb => simp [hfirst] at hb
  | enter _ _ hphase' hrows =>
    obtain ⟨cells, hcells⟩ := finish_of_inside hphase'
    rw [hcells, hrows, List.length_reverse, List.length_cons]
  | stay hne => exact absurd hphase hne
  | leave hne => exact absurd hphase hne

theorem Tracks.stands_of_finish {front back : List Row} {row : Row} (h : Tracks start taken r)
    (hfinish : r.finish = front ++ row :: back) (hne : front ≠ []) :
    Stands start front.length row.place taken := by
  have holder : front.reverse ≠ [] := by simpa using hne
  rw [← List.length_reverse]
  by_cases hphase : r.phase = .betweenRows
  · rw [finish_of_between hphase] at hfinish
    refine h.complete back.reverse row front.reverse ?_ holder
    rw [← List.reverse_reverse r.rows, hfinish]
    simp
  · obtain ⟨cells, hcells⟩ := finish_of_inside hphase
    rw [hcells] at hfinish
    have hrows : ⟨r.place, cells⟩ :: r.rows = back.reverse ++ row :: front.reverse := by
      rw [← List.reverse_reverse (_ :: r.rows), hfinish]
      simp
    cases hback : back.reverse with
    | nil =>
      rw [hback] at hrows
      obtain ⟨rfl, holder'⟩ := List.cons.inj hrows
      rw [← holder'] at holder ⊢
      exact h.present hphase holder
    | cons newest newer =>
      rw [hback] at hrows
      exact h.complete newer row front.reverse (List.cons.inj hrows).2 holder

/-- A byte order mark, if there is one, only changes where the reader starts to count bytes. -/
theorem exists_start (bytes : List UInt8) : ∃ mark content start, bytes = mark ++ content ∧
    lineFeed ∉ mark ∧ Tracks start [] start ∧
    ∀ taken, taken <+: content →
      rows (mark ++ taken) = (taken.foldl Reader.step start).finish := by
  by_cases hmark : byteOrderMark.isPrefixOf bytes
  · obtain ⟨content, rfl⟩ := List.isPrefixOf_iff_prefix.mp hmark
    refine ⟨byteOrderMark, content, Reader.start byteOrderMark.length, rfl, by decide,
      tracks_start rfl rfl rfl, fun taken _ => ?_⟩
    have hprefix : byteOrderMark.isPrefixOf (byteOrderMark ++ taken) :=
      List.isPrefixOf_iff_prefix.mpr (List.prefix_append _ _)
    rw [rows, if_pos hprefix, List.drop_left]
  · refine ⟨[], bytes, Reader.start 0, rfl, by simp, tracks_start rfl rfl rfl,
      fun taken htaken => ?_⟩
    have hnone : ¬ byteOrderMark.isPrefixOf taken := by
      rw [List.isPrefixOf_iff_prefix] at hmark ⊢
      exact fun h => hmark (h.trans htaken)
    rw [List.nil_append, rows, if_neg hnone]

/-- Each row but the first begins behind a gap, and its place is right behind the byte that ended
the row before. -/
theorem exists_gap {bytes : List UInt8} {front back : List Row} {row : Row}
    (h : rows bytes = front ++ row :: back) (hne : front ≠ []) :
    ∃ previous ending skipped, BeginsBehind bytes front.length (previous ++ ending :: skipped) ∧
      Gap previous ending skipped ∧ row.place.line = lineBehind (previous ++ [ending]) := by
  obtain ⟨mark, content, start, rfl, hmark, htracks, hrows⟩ := exists_start bytes
  have hall := tracks_foldl htracks content
  rw [List.nil_append] at hall
  rw [hrows content List.prefix_rfl] at h
  have hstands := hall.stands_of_finish h hne
  generalize hlength : front.length = index at hstands
  cases hstands with
  | @intro previous ending first skipped rest hgap hphase hcount hfirst hline =>
    have hbefore := hrows (previous ++ ending :: skipped) (List.prefix_append _ _)
    have hnext := hrows (previous ++ ending :: skipped ++ [first]) ⟨rest, by simp⟩
    rw [finish_of_between hphase] at hbefore
    rw [List.foldl_append] at hnext
    refine ⟨mark ++ previous, ending, skipped, ⟨?_, first, rest, by simp, ?_⟩,
      ⟨?_, hgap.ending, hgap.skipped⟩, ?_⟩
    · rw [List.append_assoc, hbefore, List.length_reverse, hcount]
    · have hfront : mark ++ previous ++ ending :: skipped ++ [first] =
          mark ++ (previous ++ ending :: skipped ++ [first]) := by simp
      rw [hfront, hnext, ← hcount]
      exact length_finish_step hphase hfirst
    · obtain ⟨b, hb, hlast⟩ := hgap.previous
      exact ⟨b, by rw [List.getLast?_append, hb]; rfl, hlast⟩
    · have hcount : (mark ++ (previous ++ [ending])).count lineFeed =
          (previous ++ [ending]).count lineFeed := by
        rw [List.count_append, List.count_eq_zero.mpr hmark, Nat.zero_add]
      rw [hline, List.append_assoc, lineBehind, lineBehind, hcount]

end Sheet

/-! ## The row at fault -/

/-- The line that an error names, if it is about one row of data. -/
def DatabaseError.line? : DatabaseError → Option Nat
  | missingSymbol line => some line
  | badNumber line .. => some line
  | _ => none

theorem Dimension.exists_error_of_ofFnExcept {ε : Type} {f : BaseUnit → Except ε Float} {e : ε}
    (h : ofFnExcept f = .error e) : ∃ u, f u = .error e := by
  obtain ⟨-, u, -, -, -, hu⟩ := exists_of_ofFnExcept_error h
  exact ⟨u, hu⟩

namespace Database

variable {names : List String} {row : Row} {e : DatabaseError} {line : Nat}

theorem line_of_numberOf {given : List (Column × String)} {column : Column} {n : Nat}
    (h : numberOf n given column = .error e) (hline : e.line? = some line) : line = n := by
  unfold numberOf at h
  dsimp only at h
  split at h
  · cases h
  · split at h
    · cases h
    · cases h
      exact (Option.some.inj hline).symm

theorem line_of_definition {given : List (Column × String)} {n : Nat}
    (h : definition n given = .error e) (hline : e.line? = some line) : line = n := by
  unfold definition at h
  dsimp only at h
  split at h
  · cases h
    exact (Option.some.inj hline).symm
  · obtain h | ⟨dimension, -, h⟩ := bind_eq_error_iff.mp h
    · obtain ⟨u, hu⟩ := Dimension.exists_error_of_ofFnExcept h
      exact line_of_numberOf hu hline
    · obtain h | ⟨coefficient, -, h⟩ := bind_eq_error_iff.mp h
      · exact line_of_numberOf h hline
      · cases h

theorem line_of_rowUnit? (h : rowUnit? names row = .error e) (hline : e.line? = some line) :
    line = row.place.line := by
  unfold rowUnit? definition? at h
  split at h
  · cases h
    cases hline
  · split at h
    · cases h
    · split at h
      · cases h
        cases hline
      · exact line_of_definition (map_eq_error_iff.mp h) hline

/-- The first row that makes an error decides the outcome of all rows. -/
theorem exists_row_of_definitions {rows : List Row} (h : definitions names rows = .error e) :
    ∃ front row back, rows = front ++ row :: back ∧ (∃ ds, definitions names front = .ok ds) ∧
      definitions names (front ++ [row]) = .error e ∧ rowUnit? names row = .error e := by
  induction rows with
  | nil => cases h
  | cons row rows ih =>
    rw [definitions_cons] at h
    obtain h | ⟨unit?, hunit, h⟩ := bind_eq_error_iff.mp h
    · refine ⟨[], row, rows, rfl, ⟨[], rfl⟩, ?_, h⟩
      rw [List.nil_append, definitions_cons, h]
      rfl
    · obtain h | ⟨rest, -, h⟩ := bind_eq_error_iff.mp h
      · obtain ⟨front, row', back, rfl, ⟨ds, hds⟩, herror, hrow⟩ := ih h
        refine ⟨row :: front, row', back, rfl, ⟨unit?.toList ++ ds, ?_⟩, ?_, hrow⟩
        · rw [definitions_cons, hunit, hds]
          rfl
        · rw [List.cons_append, definitions_cons, hunit, herror]
          rfl
      · cases h

/-- An error that names a line is about a row of data: the rows in front of it can be loaded, and it
is the first that cannot. -/
theorem exists_row_of_ofRows {rows : List Row} (h : ofRows rows = .error e)
    (hline : e.line? = some line) :
    ∃ header front row back, rows = header :: (front ++ row :: back) ∧
      (∃ units, ofRows (header :: front) = .ok units) ∧
      ofRows (header :: (front ++ [row])) = .error e ∧ line = row.place.line := by
  cases rows with
  | nil => cases h
  | cons header rows =>
    cases hnames : texts header.place 0 header.cells with
    | error error =>
      rw [ofRows, hnames] at h
      cases h
      cases hline
    | ok names =>
      rw [ofRows_of_names hnames] at h
      obtain ⟨front, row, back, rfl, ⟨ds, hds⟩, herror, hrow⟩ :=
        exists_row_of_definitions (map_eq_error_iff.mp h)
      refine ⟨header, front, row, back, rfl, ⟨Catalogue.ofList ds, ?_⟩, ?_,
        line_of_rowUnit? hrow hline⟩
      · rw [ofRows_of_names hnames, hds]
        rfl
      · rw [ofRows_of_names hnames]
        exact map_eq_error_iff.mpr herror

end Database

namespace Catalogue

/-- The bytes of a text without the byte order mark in front of it. -/
def content (text : String) : List UInt8 :=
  match text.toList with
  | '\ufeff' :: cs => (String.ofList cs).toUTF8.toList
  | _ => text.toUTF8.toList

theorem ofText_eq (text : String) : ofText text = ofBytes (content text) := by
  unfold ofText content
  split <;> simp only [*]

/-- The row that a failed load is about. All rows in front of it can be loaded, and it makes the
error; it begins behind a gap. -/
structure FaultBehind (bytes : List UInt8) (e : DatabaseError) (previous : List UInt8)
    (ending : UInt8) (skipped : List UInt8) : Prop where
  row : ∃ header front row back, Sheet.rows bytes = header :: (front ++ row :: back) ∧
    (∃ units, Database.ofRows (header :: front) = .ok units) ∧
    Database.ofRows (header :: (front ++ [row])) = .error e ∧
    Sheet.BeginsBehind bytes (front.length + 1) (previous ++ ending :: skipped)
  gap : Sheet.Gap previous ending skipped

/-- An error about a row names the line of the byte behind the one that ended the row before. This
is the line on which the row itself begins if and only if no line feed is skipped in between,
neither that of a blank line nor that behind a carriage return. -/
theorem line_of_faulty_row {text : String} {e : DatabaseError} {line : Nat}
    (h : ofText text = .error e) (hline : e.line? = some line) :
    ∃ previous ending skipped, FaultBehind (content text) e previous ending skipped ∧
      line = Sheet.lineBehind (previous ++ [ending]) ∧
      (line = Sheet.lineBehind (previous ++ ending :: skipped) ↔ Sheet.lineFeed ∉ skipped) := by
  rw [ofText_eq] at h
  obtain ⟨header, front, row, back, hrows, hunits, herror, rfl⟩ :=
    Database.exists_row_of_ofRows h hline
  obtain ⟨previous, ending, skipped, hbegins, hgap, hplace⟩ :=
    Sheet.exists_gap hrows (List.cons_ne_nil header front)
  refine ⟨previous, ending, skipped, ⟨⟨header, front, row, back, hrows, hunits, herror, hbegins⟩,
    hgap⟩, hplace, ?_⟩
  rw [hplace, List.append_cons previous ending skipped,
    Sheet.lineBehind_append (previous ++ [ending]) skipped, ← List.count_eq_zero]
  omega

/-- A row behind a quoted line feed, two carriage returns and a blank line. -/
theorem line_of_faulty_row_behind_quotes :
    let text := "Symbol,m\n\"a\nb\",1\r\n\r\n,2\n"
    ofText text = .error (.missingSymbol 3) ∧
    ∃ previous ending skipped, FaultBehind (content text) (.missingSymbol 3) previous ending skipped ∧
      3 = Sheet.lineBehind (previous ++ [ending]) ∧
      (3 = Sheet.lineBehind (previous ++ ending :: skipped) ↔ Sheet.lineFeed ∉ skipped) := by
  have herror : ofText "Symbol,m\n\"a\nb\",1\r\n\r\n,2\n" = .error (.missingSymbol 3) := by
    with_unfolding_all rfl
  exact ⟨herror, line_of_faulty_row herror rfl⟩

/-- A row without a symbol begins on line 3, and the error names line 2. -/
theorem missingSymbol_two_for_row_on_line_three :
    ofText "Symbol,m\n\n,bad\n" = .error (.missingSymbol 2) ∧
    (Sheet.rows (content "Symbol,m\n\n,bad\n")).length = 2 ∧
    Sheet.BeginsBehind (content "Symbol,m\n\n,bad\n") 1 "Symbol,m\n\n".toUTF8.toList ∧
    Sheet.lineBehind "Symbol,m\n\n".toUTF8.toList = 3 := by
  have hnext : content "Symbol,m\n\n,bad\n" =
      "Symbol,m\n\n".toUTF8.toList ++ Sheet.comma :: "bad\n".toUTF8.toList := by
    with_unfolding_all rfl
  refine ⟨by with_unfolding_all rfl, by with_unfolding_all rfl, ⟨?_, _, _, hnext, ?_⟩, ?_⟩
  · with_unfolding_all rfl
  · with_unfolding_all rfl
  · with_unfolding_all rfl

end Catalogue

end UnitCalc
