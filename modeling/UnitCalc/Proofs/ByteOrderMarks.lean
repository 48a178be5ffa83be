import UnitCalc.Proofs.ColumnOrder
import UnitCalc.Proofs.Lines
import UnitCalc.Proofs.RowLines

/-!
# Proofs: byte order marks

A database can be loaded from a text, from bytes and from a file. A text and a file drop a byte
order mark before the sheet is read, and the reader of the sheet drops the one that bytes start
with. The bytes of the mark are counted only in the second case. So the ways to load agree in all
but the number of bytes in front of a row, which only the wording of a fault of the sheet shows.
-/

namespace UnitCalc

open Text

/-! ## Places without bytes -/

/-- The same row on the same line; the numbers of bytes in front can differ. -/
structure Place.SameRow (p q : Place) : Prop where
  record : p.record = q.record
  line : p.line = q.line

/-- The same cells in the same row. -/
structure Row.SameRow (r s : Row) : Prop where
  place : r.place.SameRow s.place
  cells : r.cells = s.cells

/-- The same words about the same row, except for the number of bytes in front of it. -/
inductive SheetError.SameButByte : SheetError → SheetError → Prop where
  | notText {p q : Place} (h : p.SameRow q) (cell offset : Nat) :
      SameButByte (.notText p cell offset) (.notText q cell offset)
  | shortRow {p q : Place} (h : p.SameRow q) : SameButByte (.shortRow p) (.shortRow q)
  | repeatedColumn {p q : Place} (h : p.SameRow q) (column : Column) :
      SameButByte (.repeatedColumn p column) (.repeatedColumn q column)

/-- The same error; a fault of the sheet is the same but for the number of bytes in front of the
row. -/
inductive DatabaseError.SameButByte : DatabaseError → DatabaseError → Prop where
  | sheet {e e' : SheetError} (h : e.SameButByte e') : SameButByte (.sheet e) (.sheet e')
  | missingSymbol (line : Nat) : SameButByte (.missingSymbol line) (.missingSymbol line)
  | badNumber (line : Nat) (column : Column) (source : NumberError) :
      SameButByte (.badNumber line column source) (.badNumber line column source)

namespace Sheet

/-! ## Two readers in step -/

/-- Two readers that differ at most in the number of bytes that they have counted. -/
structure Reader.InStep (r s : Reader) : Prop where
  phase : r.phase = s.phase
  rows : List.Forall₂ Row.SameRow r.rows s.rows
  place : r.place.SameRow s.place
  cells : r.cells = s.cells
  cell : r.cell = s.cell
  line : r.line = s.line

namespace Reader.InStep

variable {r s : Reader}

theorem start (skipped skipped' : Nat) : InStep (Reader.start skipped) (Reader.start skipped') where
  phase := rfl
  rows := .nil
  place := ⟨rfl, rfl⟩
  cells := rfl
  cell := rfl
  line := rfl

theorem count (h : InStep r s) (b : UInt8) : InStep (r.count b) (s.count b) :=
  { h with line := by simp only [Reader.count, h.line] }

theorem goOn (h : InStep r s) (phase : Phase) : InStep { r with phase } { s with phase } :=
  { h with phase := rfl }

theorem put (h : InStep r s) (b : UInt8) (phase : Phase) : InStep (r.put b phase) (s.put b phase) :=
  { h with phase := rfl, cell := by simp only [Reader.put, h.cell] }

theorem endCell (h : InStep r s) : InStep r.endCell s.endCell :=
  { h with
    phase := rfl
    cells := by simp only [Reader.endCell, h.cell, h.cells]
    cell := rfl }

theorem endRow (h : InStep r s) : InStep r.endRow s.endRow where
  phase := rfl
  rows := .cons ⟨h.place, by simp only [Reader.endCell, h.cell, h.cells]⟩ h.rows
  place := ⟨congrArg (· + 1) h.place.record, h.line⟩
  cells := rfl
  cell := rfl
  line := h.line

theorem stepPlain (h : InStep r s) (b : UInt8) : InStep (r.stepPlain b) (s.stepPlain b) := by
  unfold Reader.stepPlain
  split
  · exact h.endCell
  · split
    · exact h.endRow
    · exact h.put b .plain

theorem step (h : InStep r s) (b : UInt8) : InStep (r.step b) (s.step b) := by
  have hcounted := h.count b
  unfold Reader.step
  dsimp only
  rw [← hcounted.phase]
  cases (r.count b).phase with
  | betweenRows =>
    dsimp only
    split
    · exact hcounted
    · split
      · exact hcounted.goOn .quoted
      · exact hcounted.stepPlain b
  | cellStart =>
    dsimp only
    split
    · exact hcounted.goOn .quoted
    · exact hcounted.stepPlain b
  | plain => exact hcounted.stepPlain b
  | quoted =>
    dsimp only
    split
    · exact hcounted.goOn .afterQuote
    · exact hcounted.put b .quoted
  | afterQuote =>
    dsimp only
    split
    · exact hcounted.put b .quoted
    · exact hcounted.stepPlain b

theorem foldl (h : InStep r s) (bytes : List UInt8) :
    InStep (bytes.foldl Reader.step r) (bytes.foldl Reader.step s) := by
  induction bytes generalizing r s with
  | nil => exact h
  | cons b bytes ih => exact ih (h.step b)

theorem finish (h : InStep r s) : List.Forall₂ Row.SameRow r.finish s.finish := by
  unfold Reader.finish
  rw [← h.phase]
  split
  · exact List.rel_reverse h.rows
  · exact List.rel_reverse h.endRow.rows

end Reader.InStep

/-- A byte order mark in front of a sheet changes none of its rows. -/
theorem rows_byteOrderMark {bytes : List UInt8} (h : ¬ byteOrderMark <+: bytes) :
    List.Forall₂ Row.SameRow (rows bytes) (rows (byteOrderMark ++ bytes)) := by
  have hmark : byteOrderMark.isPrefixOf (byteOrderMark ++ bytes) :=
    List.isPrefixOf_iff_prefix.mpr (List.prefix_append _ _)
  rw [← List.isPrefixOf_iff_prefix] at h
  rw [rows, rows, if_neg h, if_pos hmark, List.drop_left]
  exact ((Reader.InStep.start 0 byteOrderMark.length).foldl bytes).finish

end Sheet

/-! ## Rows that differ in bytes -/

namespace Database

variable {p q : Place} {names : List String}

theorem sameOutcome_texts (h : p.SameRow q) (cells : List (List UInt8)) (index : Nat) :
    SameOutcome SheetError.SameButByte (texts p index cells) (texts q index cells) := by
  induction cells generalizing index with
  | nil => exact .ok []
  | cons cell cells ih =>
    unfold texts
    cases decodeUtf8 cell with
    | error offset => exact .error (.notText h index offset)
    | ok s => exact (ih (index + 1)).map (trimString s :: ·)

theorem sameOutcome_assign (h : p.SameRow q) (given : List (Column × String))
    (cells : List String) : SameOutcome SheetError.SameButByte (assign p given names cells)
      (assign q given names cells) := by
  induction names generalizing given cells with
  | nil => exact .ok given
  | cons name names ih =>
    unfold assign
    cases Column.ofName? name with
    | some column =>
      dsimp only
      split
      · exact .error (.repeatedColumn h column)
      · cases cells with
        | nil => exact .error (.shortRow h)
        | cons cell cells => exact ih ((column, cell) :: given) cells
    | none =>
      cases cells with
      | nil => exact .error (.shortRow h)
      | cons cell cells => exact ih given cells

theorem SameFault.sameButByte {e e' : DatabaseError} (hfault : SameFault p q e e')
    (h : p.SameRow q) : e.SameButByte e' := by
  cases hfault with
  | symbol =>
    rw [h.line]
    exact .missingSymbol q.line
  | number column source =>
    rw [h.line]
    exact .badNumber q.line column source

theorem sameOutcome_definition? (h : p.SameRow q) (cells : List String) :
    SameOutcome DatabaseError.SameButByte (definition? names p cells)
      (definition? names q cells) := by
  have hassign : SameOutcome SheetError.SameButByte (assign p [] names cells)
      (assign q [] names cells) := sameOutcome_assign h [] cells
  unfold definition?
  split
  · exact .ok none
  · generalize assign p [] names cells = outcome, assign q [] names cells = outcome' at hassign ⊢
    cases hassign with
    | ok given =>
      have hdefinition : SameOutcome (SameFault p q) (definition p.line given)
          (definition q.line given) := sameOutcome_definition fun _ => rfl
      exact (hdefinition.mono fun _ _ hfault => hfault.sameButByte h).map some
    | error he => exact .error (.sheet he)

theorem sameOutcome_rowUnit? {row row' : Row} (h : row.SameRow row') :
    SameOutcome DatabaseError.SameButByte (rowUnit? names row) (rowUnit? names row') := by
  have htexts := sameOutcome_texts h.place (row.cells.map trimBytes) 0
  unfold rowUnit?
  rw [← h.cells]
  generalize texts row.place 0 (row.cells.map trimBytes) = outcome,
    texts row'.place 0 (row.cells.map trimBytes) = outcome' at htexts ⊢
  cases htexts with
  | ok cells => exact sameOutcome_definition? h.place cells
  | error he => exact .error (.sheet he)

theorem sameOutcome_definitions_of_sameRow {rows rows' : List Row}
    (h : List.Forall₂ Row.SameRow rows rows') :
    SameOutcome DatabaseError.SameButByte (definitions names rows) (definitions names rows') := by
  induction h with
  | nil => exact .ok []
  | cons hrow _ ih =>
    rw [definitions_cons, definitions_cons]
    exact (sameOutcome_rowUnit? hrow).bind fun _ => ih.bind fun _ => .ok _

theorem sameOutcome_ofRows {rows rows' : List Row} (h : List.Forall₂ Row.SameRow rows rows') :
    SameOutcome DatabaseError.SameButByte (ofRows rows) (ofRows rows') := by
  cases h with
  | nil => exact .ok Catalogue.empty
  | @cons header header' _ _ hheader hrows =>
    have hnames := sameOutcome_texts hheader.place header.cells 0
    rw [ofRows, ofRows, ← hheader.cells]
    generalize texts header.place 0 header.cells = outcome,
      texts header'.place 0 header.cells = outcome' at hnames ⊢
    cases hnames with
    | ok names => exact (sameOutcome_definitions_of_sameRow hrows).map Catalogue.ofList
    | error he => exact .error (.sheet he)

end Database

/-! ## Texts that start with a byte order mark -/

/-- Only the byte order mark is spelt with its bytes. -/
theorem Text.eq_byteOrderMark_of_starts {c : Char} {rest : List UInt8}
    (h : Sheet.byteOrderMark <+: String.utf8EncodeChar c ++ rest) : c = '\ufeff' := by
  have hval : c.val.toNat = 0xFEFF := by
    simp only [String.utf8EncodeChar] at h
    repeat' split at h
    all_goals
      simp only [Sheet.byteOrderMark, List.cons_append, List.nil_append, List.cons_prefix_cons,
        ← UInt8.toNat_inj, UInt8.toNat_ofNat, UInt8.toNat_ofNat'] at h
      omega
  exact Char.ext (UInt32.toNat_inj.mp hval)

namespace Catalogue

open Sheet

theorem bytesOf_byteOrderMark (cs : List Char) :
    bytesOf (String.ofList ('\ufeff' :: cs)) = byteOrderMark ++ bytesOf (String.ofList cs) := by
  rw [bytesOf_ofList, bytesOf_ofList]
  rfl

/-- No mark stands in front of the bytes of a text that does not start with one. -/
theorem not_prefix_bytesOf {cs : List Char} (h : cs.head? ≠ some '\ufeff') :
    ¬ byteOrderMark <+: bytesOf (String.ofList cs) := by
  intro hprefix
  rw [bytesOf_ofList] at hprefix
  cases cs with
  | nil => exact absurd hprefix (by decide)
  | cons c cs => exact h (congrArg some (eq_byteOrderMark_of_starts hprefix))

/-- The bytes of a text are those that are read when it is loaded, or these behind a mark. -/
theorem bytesOf_content {text : String} (h : ¬ ['\ufeff', '\ufeff'] <+: text.toList) :
    bytesOf text = content text ∨
      bytesOf text = byteOrderMark ++ content text ∧ ¬ byteOrderMark <+: content text := by
  unfold content
  split
  · rename_i cs htext
    have hhead : cs.head? ≠ some '\ufeff' := by
      intro hhead
      obtain ⟨cs', rfl⟩ := List.head?_eq_some_iff.mp hhead
      exact h (htext ▸ List.prefix_append ['\ufeff', '\ufeff'] cs')
    rw [toList_toUTF8, ← bytesOf_byteOrderMark, ← htext, String.ofList_toList]
    exact .inr ⟨rfl, not_prefix_bytesOf hhead⟩
  · exact .inl (toList_toUTF8 text).symm

/-- Loading a text, its bytes and a file with these bytes gives the same catalogue or the same
error, when the text starts with one byte order mark at most. Only a fault of the sheet can differ,
in the number of bytes in front of the row that it is about. -/
theorem ofText_ofBytes_ofFile {text : String} (h : ¬ ['\ufeff', '\ufeff'] <+: text.toList)
    (path : String) :
    SameOutcome DatabaseError.SameButByte (ofText text) (ofBytes text.toUTF8.toList) ∧
      ofFile path (.ok text.toUTF8) = ofText text := by
  constructor
  · have hrows : List.Forall₂ Row.SameRow (Sheet.rows (content text))
        (Sheet.rows text.toUTF8.toList) := by
      rw [toList_toUTF8]
      rcases bytesOf_content h with hsame | ⟨hmark, hcontent⟩
      · rw [hsame]
        exact List.forall₂_same.mpr fun _ _ => ⟨⟨rfl, rfl⟩, rfl⟩
      · rw [hmark]
        exact rows_byteOrderMark hcontent
    rw [ofText_eq]
    exact Database.sameOutcome_ofRows hrows
  · unfold ofFile
    dsimp only
    rw [fromUTF8?_toUTF8]

/-- A row that is too short stands behind a header with a byte order mark. Its three bytes are
counted when they are read with the sheet. -/
theorem ofText_ofBytes_ofFile_short_row :
    let text := "\ufeffSymbol,m\nkm\n"
    ofText text = .error (.sheet (.shortRow ⟨1, 2, 9⟩)) ∧
      ofBytes text.toUTF8.toList = .error (.sheet (.shortRow ⟨1, 2, 12⟩)) ∧
      SameOutcome DatabaseError.SameButByte (ofText text) (ofBytes text.toUTF8.toList) ∧
      ofFile "units.csv" (.ok text.toUTF8) = ofText text := by
  intro text
  have hone : ¬ ['\ufeff', '\ufeff'] <+: text.toList := by decide
  have hcontent : content text = "Symbol,m\nkm\n".toUTF8.toList := by decide +kernel
  have hbytes : text.toUTF8.toList = Sheet.byteOrderMark ++ "Symbol,m\nkm\n".toUTF8.toList := by
    decide +kernel
  have hshort : ofBytes "Symbol,m\nkm\n".toUTF8.toList = .error (.sheet (.shortRow ⟨1, 2, 9⟩)) := by
    with_unfolding_all rfl
  have hshort' : ofBytes (Sheet.byteOrderMark ++ "Symbol,m\nkm\n".toUTF8.toList) =
      .error (.sheet (.shortRow ⟨1, 2, 12⟩)) := by
    with_unfolding_all rfl
  exact ⟨by rw [ofText_eq, hcontent, hshort], by rw [hbytes, hshort'],
    ofText_ofBytes_ofFile hone "units.csv"⟩

end Catalogue

end UnitCalc
