import Mathlib.Data.List.FinRange
import Mathlib.Data.List.InsertIdx
import UnitCalc.Proofs.DatabaseRows

/-!
# Proofs: the order of columns

Rows are read by the names of the columns. So the outcome of loading depends neither on the order of
the columns nor on columns without a meaning, as long as the latter do not decide whether a row is
blank. Both follow from one fact: a row counts only through the cell that each column has in it.
-/

namespace UnitCalc

open Text

/-- Two computations with the same result, or with errors that are related. -/
inductive SameOutcome {ε α : Type} (R : ε → ε → Prop) : Except ε α → Except ε α → Prop where
  | ok (a : α) : SameOutcome R (.ok a) (.ok a)
  | error {e e' : ε} (h : R e e') : SameOutcome R (.error e) (.error e')

namespace SameOutcome

variable {ε α β : Type} {R S : ε → ε → Prop} {x x' : Except ε α}

theorem mono (h : SameOutcome R x x') (hR : ∀ e e', R e e' → S e e') : SameOutcome S x x' := by
  cases h with
  | ok a => exact .ok a
  | error h => exact .error (hR _ _ h)

theorem bind {f f' : α → Except ε β} (hx : SameOutcome R x x')
    (hf : ∀ a, SameOutcome R (f a) (f' a)) : SameOutcome R (x >>= f) (x' >>= f') := by
  cases hx with
  | ok a => exact hf a
  | error h => exact .error h

theorem map (f : α → β) (hx : SameOutcome R x x') : SameOutcome R (x.map f) (x'.map f) := by
  cases hx with
  | ok a => exact .ok (f a)
  | error h => exact .error h

theorem ofFnExcept {f f' : BaseUnit → Except ε Float} (h : ∀ u, SameOutcome R (f u) (f' u)) :
    SameOutcome R (Dimension.ofFnExcept f) (Dimension.ofFnExcept f') :=
  (h .second).bind fun _ => (h .metre).bind fun _ => (h .kilogram).bind fun _ =>
    (h .mole).bind fun _ => (h .coulomb).bind fun _ => (h .kelvin).bind fun _ =>
      (h .candela).bind fun _ => .ok _

end SameOutcome

/-! ## Moved lists -/

/-- The second list has the items of the first, moved by a permutation of the positions. -/
def Rearranged {α : Type} {n : Nat} (σ : Equiv.Perm (Fin n)) (xs xs' : List α) : Prop :=
  ∃ f : Fin n → α, xs = List.ofFn f ∧ xs' = List.ofFn (f ∘ σ)

namespace Rearranged

variable {α β : Type} {n : Nat} {σ : Equiv.Perm (Fin n)} {xs xs' : List α} {ys ys' : List β}

theorem perm (h : Rearranged σ xs xs') : xs'.Perm xs := by
  obtain ⟨f, rfl, rfl⟩ := h
  exact Equiv.Perm.ofFn_comp_perm σ f

theorem length (h : Rearranged σ xs xs') : xs.length = n := by
  obtain ⟨f, rfl, -⟩ := h
  exact List.length_ofFn

theorem map (g : α → β) (h : Rearranged σ xs xs') : Rearranged σ (xs.map g) (xs'.map g) := by
  obtain ⟨f, rfl, rfl⟩ := h
  exact ⟨g ∘ f, List.map_ofFn, List.map_ofFn⟩

theorem zip (hx : Rearranged σ xs xs') (hy : Rearranged σ ys ys') :
    Rearranged σ (xs.zip ys) (xs'.zip ys') := by
  obtain ⟨f, rfl, rfl⟩ := hx
  obtain ⟨g, rfl, rfl⟩ := hy
  have hzip : ∀ (f : Fin n → α) (g : Fin n → β),
      (List.ofFn f).zip (List.ofFn g) = List.ofFn fun i => (f i, g i) :=
    fun f g => List.ext_getElem (by simp) (by simp)
  exact ⟨fun i => (f i, g i), hzip f g, hzip (f ∘ σ) (g ∘ σ)⟩

end Rearranged

theorem zip_insertIdx {α β : Type} {x : α} {y : β} : ∀ {position : Nat} {xs : List α} {ys : List β},
    xs.length = ys.length → (xs.insertIdx position x).zip (ys.insertIdx position y) =
      (xs.zip ys).insertIdx position (x, y)
  | 0, xs, ys, _ => by simp
  | position + 1, [], [], _ => by simp
  | position + 1, x' :: xs, y' :: ys, h => by
    simp [zip_insertIdx (Nat.succ.inj h)]

namespace Database

variable {names names' cells cells' : List String} {place place' : Place}

/-! ## The cells of columns -/

/-- When a key occurs once at most, looking it up finds exactly what stands beside it. -/
theorem lookup_eq_some_iff_mem {pairs : List (String × String)} {key value : String}
    (h : (pairs.map Prod.fst).count key ≤ 1) :
    pairs.lookup key = some value ↔ (key, value) ∈ pairs := by
  induction pairs with
  | nil => simp
  | cons pair pairs ih =>
    obtain ⟨key', value'⟩ := pair
    rw [List.map_cons, List.count_cons] at h
    rw [List.lookup_cons, List.mem_cons]
    by_cases hkey : key = key'
    · subst hkey
      have hzero : (pairs.map Prod.fst).count key = 0 := by simpa using h
      have hnone : (key, value) ∉ pairs := fun hmem =>
        List.count_eq_zero.mp hzero (List.mem_map_of_mem hmem)
      simp [hnone, eq_comm]
    · have hle : (pairs.map Prod.fst).count key ≤ 1 := by omega
      rw [beq_eq_false_iff_ne.mpr hkey]
      dsimp only
      rw [ih hle, or_iff_right fun heq => hkey (Prod.mk.inj heq).1]

/-- Two rows under headers of their own that count as one and the same: no column is named twice,
neither row lacks a cell, each column has the same cell in both, and both or none are blank. -/
structure SameCells (names cells names' cells' : List String) : Prop where
  distinct : Distinct names
  distinct' : Distinct names'
  long : names.length ≤ cells.length
  long' : names'.length ≤ cells'.length
  cell : ∀ column, cellUnder names cells column = cellUnder names' cells' column
  blank : cells.all String.isEmpty = cells'.all String.isEmpty

theorem cellUnder_congr (hdistinct : Distinct names) (hdistinct' : Distinct names')
    (hlong : names.length ≤ cells.length) (hlong' : names'.length ≤ cells'.length)
    (h : ∀ (column : Column) cell,
      (column.name, cell) ∈ names.zip cells ↔ (column.name, cell) ∈ names'.zip cells')
    (column : Column) : cellUnder names cells column = cellUnder names' cells' column := by
  have hlookup : (names.zip cells).lookup column.name = (names'.zip cells').lookup column.name := by
    ext cell
    rw [lookup_eq_some_iff_mem, lookup_eq_some_iff_mem, h]
    · rw [List.map_fst_zip hlong']
      exact hdistinct' column
    · rw [List.map_fst_zip hlong]
      exact hdistinct column
  rw [cellUnder, cellUnder, hlookup]

/-- Moving columns changes no cell. -/
theorem sameCells_of_rearranged {n : Nat} {σ : Equiv.Perm (Fin n)} (hdistinct : Distinct names)
    (hnames : Rearranged σ names names') (hcells : Rearranged σ cells cells') :
    SameCells names cells names' cells' := by
  have hdistinct' : Distinct names' := fun column => by
    rw [hnames.perm.count_eq]
    exact hdistinct column
  have hlong : names.length ≤ cells.length := by rw [hnames.length, hcells.length]
  have hlong' : names'.length ≤ cells'.length := by
    rwa [hnames.perm.length_eq, hcells.perm.length_eq]
  refine ⟨hdistinct, hdistinct', hlong, hlong', ?_, ?_⟩
  · refine cellUnder_congr hdistinct hdistinct' hlong hlong' fun column cell => ?_
    exact (hnames.zip hcells).perm.mem_iff.symm
  · rw [Bool.eq_iff_iff, List.all_eq_true, List.all_eq_true]
    simp only [hcells.perm.mem_iff]

/-- A column without a meaning changes no cell of another one. -/
theorem sameCells_of_insertIdx {name cell : String} {position : Nat} (hdistinct : Distinct names)
    (hlength : names.length = cells.length) (hposition : position ≤ names.length)
    (hname : Column.ofName? name = none) (hcells : cells.all String.isEmpty = false) :
    SameCells names cells (names.insertIdx position name) (cells.insertIdx position cell) := by
  have hne : ∀ column : Column, name ≠ column.name := by
    rintro column rfl
    rw [Column.ofName?_name] at hname
    cases hname
  have hdistinct' : Distinct (names.insertIdx position name) := fun column => by
    rw [(List.perm_insertIdx name names hposition).count_eq, List.count_cons_of_ne (hne column)]
    exact hdistinct column
  have hlong' : (names.insertIdx position name).length ≤ (cells.insertIdx position cell).length := by
    rw [List.length_insertIdx, List.length_insertIdx, hlength]
  refine ⟨hdistinct, hdistinct', Nat.le_of_eq hlength, hlong', ?_, ?_⟩
  · refine cellUnder_congr hdistinct hdistinct' (Nat.le_of_eq hlength) hlong' fun column c => ?_
    have hzip : position ≤ (names.zip cells).length := by
      rw [List.length_zip, ← hlength, Nat.min_self]
      exact hposition
    have hpair : (column.name, c) ≠ (name, cell) := fun h => hne column (Prod.mk.inj h).1.symm
    rw [zip_insertIdx hlength, List.mem_insertIdx hzip, or_iff_right hpair]
  · obtain ⟨c, hc, hnonempty⟩ := List.all_eq_false.mp hcells
    rw [hcells]
    have hmem : c ∈ cells.insertIdx position cell :=
      (List.mem_insertIdx (hlength ▸ hposition)).mpr (.inr hc)
    exact (List.all_eq_false.mpr ⟨c, hmem, hnonempty⟩).symm

/-! ## Rows with the same cells -/

/-- Two errors that differ only in the line, which for each is that of its own row. -/
inductive SameFault (place place' : Place) : DatabaseError → DatabaseError → Prop where
  | symbol : SameFault place place' (.missingSymbol place.line) (.missingSymbol place'.line)
  | number (column : Column) (source : NumberError) : SameFault place place'
      (.badNumber place.line column source) (.badNumber place'.line column source)

variable {given given' : List (Column × String)}

theorem sameOutcome_numberOf {column : Column} (h : cellOf given column = cellOf given' column) :
    SameOutcome (SameFault place place') (numberOf place.line given column)
      (numberOf place'.line given' column) := by
  unfold numberOf
  dsimp only
  rw [h]
  split
  · exact .ok _
  · split
    · exact .ok _
    · exact .error (.number column _)

theorem sameOutcome_definition (h : ∀ column, cellOf given column = cellOf given' column) :
    SameOutcome (SameFault place place') (definition place.line given)
      (definition place'.line given') := by
  unfold definition
  dsimp only
  rw [h .symbol, h .alternate]
  -- The checks go by the fields of a unit and not by the columns: first the symbol, then the numbers.
  split
  · exact .error .symbol
  · have hdimension : SameOutcome (SameFault place place')
        (Dimension.ofFnExcept fun u => numberOf place.line given (.exponent u))
        (Dimension.ofFnExcept fun u => numberOf place'.line given' (.exponent u)) :=
      .ofFnExcept fun u => sameOutcome_numberOf (h (.exponent u))
    exact hdimension.bind fun _ => (sameOutcome_numberOf (h .coefficient)).bind fun _ => .ok _

/-- A row without a missing cell, under a header that names no column twice, is matched with it. -/
theorem exists_given (place : Place) (hlong : names.length ≤ cells.length)
    (hdistinct : Distinct names) :
    ∃ given, assign place [] names cells = .ok given ∧
      ∀ column, cellOf given column = cellUnder names cells column := by
  have hmatching := matching_assign_nil names place cells
  generalize assign place [] names cells = outcome at hmatching
  cases hmatching with
  | complete _ _ hgiven => exact ⟨_, rfl, hgiven⟩
  | fault h =>
    cases h with
    | repeated hsplit _ _ hmem => exact absurd hmem (hsplit ▸ hdistinct).not_mem
    | short hsplit hend _ =>
      rw [hsplit, List.length_append, List.length_cons] at hlong
      omega

theorem SameCells.sameOutcome (h : SameCells names cells names' cells') :
    SameOutcome (SameFault place place') (definition? names place cells)
      (definition? names' place' cells') := by
  obtain ⟨given, hgiven, hcell⟩ := exists_given place h.long h.distinct
  obtain ⟨given', hgiven', hcell'⟩ := exists_given place' h.long' h.distinct'
  unfold definition?
  rw [h.blank, hgiven, hgiven']
  split
  · exact .ok none
  · exact (sameOutcome_definition fun column => by rw [hcell, hcell', h.cell]).map some

/-! ## All rows -/

/-- The errors are the same but for the line, and each is about the row with the same index in its
own sheet. -/
def SameRowFault (rows rows' : List Row) (e e' : DatabaseError) : Prop :=
  ∃ (index : Nat) (row row' : Row), rows[index]? = some row ∧ rows'[index]? = some row' ∧
    SameFault row.place row'.place e e'

theorem SameRowFault.cons {rows rows' : List Row} {e e' : DatabaseError}
    (h : SameRowFault rows rows' e e') (row row' : Row) :
    SameRowFault (row :: rows) (row' :: rows') e e' := by
  obtain ⟨index, r, r', hr, hr', hfault⟩ := h
  exact ⟨index + 1, r, r', hr, hr', hfault⟩

theorem sameOutcome_definitions {rows rows' : List Row}
    (h : List.Forall₂ (fun row row' => SameOutcome (SameFault row.place row'.place)
      (rowUnit? names row) (rowUnit? names' row')) rows rows') :
    SameOutcome (SameRowFault rows rows') (definitions names rows) (definitions names' rows') := by
  induction h with
  | nil => exact .ok []
  | @cons row row' rows rows' hrow _ ih =>
    rw [definitions_cons, definitions_cons]
    have hfirst := hrow.mono (S := SameRowFault (row :: rows) (row' :: rows')) fun e e' hfault =>
      ⟨0, row, row', rfl, rfl, hfault⟩
    exact hfirst.bind fun _ => (ih.mono fun e e' hfault => hfault.cons row row').bind fun _ => .ok _

end Database

namespace Catalogue

open Database

variable {bytes bytes' : List UInt8} {header header' : Row} {rows rows' : List Row}

/-- Two sheets whose rows count as the same, row by row. -/
theorem sameOutcome_ofBytes (hsheet : Sheet.rows bytes = header :: rows)
    (hsheet' : Sheet.rows bytes' = header' :: rows')
    (hheader : ∀ cell ∈ header.cells, IsText cell) (hheader' : ∀ cell ∈ header'.cells, IsText cell)
    (hrows : List.Forall₂ (fun row row' =>
      ((∀ cell ∈ row.cells, IsText (trimBytes cell)) ∧ ∀ cell ∈ row'.cells, IsText (trimBytes cell)) ∧
        SameCells (header.cells.map textOf) (rowTexts row) (header'.cells.map textOf)
          (rowTexts row')) rows rows') :
    SameOutcome (SameRowFault rows rows') (ofBytes bytes) (ofBytes bytes') := by
  rw [ofBytes, ofBytes, hsheet, hsheet', ofRows_of_names (texts_eq_ok hheader 0),
    ofRows_of_names (texts_eq_ok hheader' 0)]
  refine (sameOutcome_definitions (hrows.imp fun row row' h => ?_)).map ofList
  rw [rowUnit?_of_isText h.1.1, rowUnit?_of_isText h.1.2]
  exact h.2.sameOutcome

/-- Moving the columns of a sheet by one permutation, in the header and in every row, leaves the
outcome of loading as it is; so does a column more whose name means nothing, wherever it stands and
whatever is in it, when no row was blank without it. An error is then about the same row, the same
column and the same number as before. -/
theorem ofBytes_columns (hsheet : Sheet.rows bytes = header :: rows)
    (hsheet' : Sheet.rows bytes' = header' :: rows')
    (hheader : ∀ cell ∈ header.cells, IsText cell)
    (hrows : ∀ row ∈ rows, ∀ cell ∈ row.cells, IsText (trimBytes cell))
    (hdistinct : Distinct (header.cells.map textOf))
    (hlength : ∀ row ∈ rows, row.cells.length = header.cells.length) :
    (∀ σ : Equiv.Perm (Fin header.cells.length), Rearranged σ header.cells header'.cells →
      List.Forall₂ (fun row row' => Rearranged σ row.cells row'.cells) rows rows' →
      SameOutcome (SameRowFault rows rows') (ofBytes bytes) (ofBytes bytes')) ∧
    ∀ position name, position ≤ header.cells.length → IsText name →
      Column.ofName? (textOf name) = none → header'.cells = header.cells.insertIdx position name →
      List.Forall₂ (fun row row' => ∃ cell, IsText (trimBytes cell) ∧
        row'.cells = row.cells.insertIdx position cell) rows rows' →
      (∀ row ∈ rows, isBlankRow row = false) →
      SameOutcome (SameRowFault rows rows') (ofBytes bytes) (ofBytes bytes') := by
  constructor
  · intro σ hmoved hmoves
    refine sameOutcome_ofBytes hsheet hsheet' hheader (fun cell hcell => ?_) ?_
    · exact hheader cell (hmoved.perm.mem_iff.mp hcell)
    · refine ((List.forall₂_and_left rows rows').mpr ⟨hrows, hmoves⟩).imp fun row row' h => ?_
      obtain ⟨htexts, hmoves⟩ := h
      refine ⟨⟨htexts, fun cell hcell => htexts cell (hmoves.perm.mem_iff.mp hcell)⟩, ?_⟩
      exact sameCells_of_rearranged hdistinct (hmoved.map textOf) (hmoves.map _)
  · intro position name hposition hname hunknown hmore hmores hnonempty
    refine sameOutcome_ofBytes hsheet hsheet' hheader (fun cell hcell => ?_) ?_
    · rw [hmore] at hcell
      obtain rfl | hcell := (List.mem_insertIdx hposition).mp hcell
      · exact hname
      · exact hheader cell hcell
    · have hall : ∀ row ∈ rows, (∀ cell ∈ row.cells, IsText (trimBytes cell)) ∧
          row.cells.length = header.cells.length ∧ isBlankRow row = false :=
        fun row hrow => ⟨hrows row hrow, hlength row hrow, hnonempty row hrow⟩
      refine ((List.forall₂_and_left rows rows').mpr ⟨hall, hmores⟩).imp fun row row' h => ?_
      obtain ⟨⟨htexts, hlength, hblank⟩, cell, htext, hcells⟩ := h
      refine ⟨⟨htexts, fun c hc => ?_⟩, ?_⟩
      · rw [hcells] at hc
        obtain rfl | hc := (List.mem_insertIdx (hlength ▸ hposition)).mp hc
        · exact htext
        · exact htexts c hc
      · rw [hmore, rowTexts, rowTexts, hcells, List.map_insertIdx, List.map_insertIdx]
        exact sameCells_of_insertIdx hdistinct (by simp [hlength]) (by simpa using hposition)
          hunknown hblank

/-- The second of two rows has no symbol. In the third sheet a column of notes stands between the
other two, and a line feed in its name moves that row one line down. -/
theorem ofBytes_columns_missing_symbol :
    let rows : List Row := [⟨⟨1, 2, 9⟩, [[107, 109], [49]]⟩, ⟨⟨2, 3, 14⟩, [[], [50]]⟩]
    let moved : List Row := [⟨⟨1, 2, 9⟩, [[49], [107, 109]]⟩, ⟨⟨2, 3, 14⟩, [[50], []]⟩]
    let noted : List Row :=
      [⟨⟨1, 3, 17⟩, [[107, 109], [110], [49]]⟩, ⟨⟨2, 4, 24⟩, [[], [], [50]]⟩]
    ofBytes "Symbol,m\nkm,1\n,2\n".toUTF8.toList = .error (.missingSymbol 3) ∧
    SameOutcome (SameRowFault rows moved) (ofBytes "Symbol,m\nkm,1\n,2\n".toUTF8.toList)
      (ofBytes "m,Symbol\n1,km\n2,\n".toUTF8.toList) ∧
    ofBytes "Symbol,\"no\nte\",m\nkm,n,1\n,,2\n".toUTF8.toList = .error (.missingSymbol 4) ∧
    SameOutcome (SameRowFault rows noted) (ofBytes "Symbol,m\nkm,1\n,2\n".toUTF8.toList)
      (ofBytes "Symbol,\"no\nte\",m\nkm,n,1\n,,2\n".toUTF8.toList) := by
  have hsheet : Sheet.rows "Symbol,m\nkm,1\n,2\n".toUTF8.toList =
      [⟨⟨0, 1, 0⟩, [[83, 121, 109, 98, 111, 108], [109]]⟩, ⟨⟨1, 2, 9⟩, [[107, 109], [49]]⟩,
        ⟨⟨2, 3, 14⟩, [[], [50]]⟩] := by
    with_unfolding_all rfl
  have hmoved : Sheet.rows "m,Symbol\n1,km\n2,\n".toUTF8.toList =
      [⟨⟨0, 1, 0⟩, [[109], [83, 121, 109, 98, 111, 108]]⟩, ⟨⟨1, 2, 9⟩, [[49], [107, 109]]⟩,
        ⟨⟨2, 3, 14⟩, [[50], []]⟩] := by
    with_unfolding_all rfl
  have hnoted : Sheet.rows "Symbol,\"no\nte\",m\nkm,n,1\n,,2\n".toUTF8.toList =
      [⟨⟨0, 1, 0⟩, [[83, 121, 109, 98, 111, 108], [110, 111, 10, 116, 101], [109]]⟩,
        ⟨⟨1, 3, 17⟩, [[107, 109], [110], [49]]⟩, ⟨⟨2, 4, 24⟩, [[], [], [50]]⟩] := by
    with_unfolding_all rfl
  have herror : ofBytes "Symbol,m\nkm,1\n,2\n".toUTF8.toList = .error (.missingSymbol 3) := by
    with_unfolding_all rfl
  have herror' : ofBytes "Symbol,\"no\nte\",m\nkm,n,1\n,,2\n".toUTF8.toList =
      .error (.missingSymbol 4) := by
    with_unfolding_all rfl
  have hdistinct : Distinct ["Symbol", "m"] := by
    intro column
    cases column with
    | exponent u => cases u <;> decide
    | _ => decide
  intro rows moved noted
  refine ⟨herror, ?_, herror', ?_⟩
  · refine (ofBytes_columns hsheet hmoved (by decide) (by decide) hdistinct (by decide)).1
      (Equiv.swap 0 1) ⟨fun i => [[83, 121, 109, 98, 111, 108], [109]].get i, rfl, rfl⟩ ?_
    exact .cons ⟨fun i => [[107, 109], [49]].get i, rfl, rfl⟩
      (.cons ⟨fun i => [[], [50]].get i, rfl, rfl⟩ .nil)
  · refine (ofBytes_columns hsheet hnoted (by decide) (by decide) hdistinct (by decide)).2
      1 [110, 111, 10, 116, 101] (by decide) (by decide) (by decide) rfl ?_ (by decide)
    exact .cons ⟨[110], by decide, rfl⟩ (.cons ⟨[], by decide, rfl⟩ .nil)

end Catalogue

end UnitCalc
