import Mathlib.Data.List.Forall2
import UnitCalc.Proofs.FiniteQuantities

/-!
# Proofs: the rows of a database

Which databases can be loaded, which units they define and what is reported otherwise is said here
in terms of the cells that stand under the name of a column. A row is either blank, or well-formed
and defines one unit, or has a first fault; the rows are taken in order, so the first row with a fault
decides the outcome of all.
-/

namespace UnitCalc

open Text

/-- The failure of a dimension is that of the first base unit whose exponent fails. -/
theorem Dimension.exists_of_ofFnExcept_error {ε : Type} {f : BaseUnit → Except ε Float} {e : ε}
    (h : ofFnExcept f = .error e) :
    ∃ front u back, BaseUnit.all = front ++ u :: back ∧ (∀ v ∈ front, ∃ x, f v = .ok x) ∧
      f u = .error e := by
  unfold ofFnExcept at h
  obtain h | ⟨s, hs, h⟩ := bind_eq_error_iff.mp h
  · exact ⟨[], .second, _, rfl, by simp, h⟩
  obtain h | ⟨m, hm, h⟩ := bind_eq_error_iff.mp h
  · exact ⟨[.second], .metre, _, rfl, by simp [hs], h⟩
  obtain h | ⟨kg, hkg, h⟩ := bind_eq_error_iff.mp h
  · exact ⟨[.second, .metre], .kilogram, _, rfl, by simp [hs, hm], h⟩
  obtain h | ⟨mol, hmol, h⟩ := bind_eq_error_iff.mp h
  · exact ⟨[.second, .metre, .kilogram], .mole, _, rfl, by simp [hs, hm, hkg], h⟩
  obtain h | ⟨c, hc, h⟩ := bind_eq_error_iff.mp h
  · exact ⟨[.second, .metre, .kilogram, .mole], .coulomb, _, rfl, by simp [hs, hm, hkg, hmol], h⟩
  obtain h | ⟨k, hk, h⟩ := bind_eq_error_iff.mp h
  · exact ⟨[.second, .metre, .kilogram, .mole, .coulomb], .kelvin, _, rfl,
      by simp [hs, hm, hkg, hmol, hc], h⟩
  obtain h | ⟨cd, hcd, h⟩ := bind_eq_error_iff.mp h
  · exact ⟨[.second, .metre, .kilogram, .mole, .coulomb, .kelvin], .candela, _, rfl,
      by simp [hs, hm, hkg, hmol, hc, hk], h⟩
  cases h

/-- Of two places in one list the one is the other, or lies in front of it. -/
theorem split_cases {α : Type} {front front' back back' : List α} {x x' : α}
    (h : front ++ x :: back = front' ++ x' :: back') :
    (front = front' ∧ x = x') ∨ (∃ between, front' = front ++ x :: between) ∨
      ∃ between, front = front' ++ x' :: between := by
  obtain ⟨between, rfl, hback⟩ | ⟨between, rfl, hback⟩ := List.append_eq_append_iff.mp h
  · cases between with
    | nil => exact .inl ⟨(List.append_nil _).symm, (List.cons.inj hback).1⟩
    | cons y between =>
      obtain ⟨rfl, -⟩ := List.cons.inj hback
      exact .inr (.inl ⟨between, rfl⟩)
  · cases between with
    | nil => exact .inl ⟨List.append_nil _, (List.cons.inj hback).1.symm⟩
    | cons y between =>
      obtain ⟨rfl, -⟩ := List.cons.inj hback
      exact .inr (.inr ⟨between, rfl⟩)

/-! ## Columns and their names -/

namespace Column

theorem ofName?_name (column : Column) : ofName? column.name = some column := by
  cases column with
  | exponent u => cases u <;> decide
  | _ => decide

theorem ofName?_eq_some_iff {name : String} {column : Column} :
    ofName? name = some column ↔ column.name = name := by
  constructor
  · intro h
    unfold ofName? at h
    simpa using List.find?_some h
  · rintro rfl
    exact ofName?_name column

theorem name_injective {a b : Column} (h : a.name = b.name) : a = b := by
  have hb := ofName?_name b
  rw [← h, ofName?_name] at hb
  exact Option.some.inj hb

/-- The columns that hold numbers, in the order in which they are read. -/
def numeric : List Column := BaseUnit.all.map exponent ++ [coefficient]

end Column

namespace Database

variable {names cells : List String} {place : Place}

/-! ## What is asked of a row, and what it defines -/

/-- The cell under the name of a column. The cells of a column that is not there are empty. -/
def cellUnder (names cells : List String) (column : Column) : String :=
  ((names.zip cells).lookup column.name).getD ""

/-- No column that has a meaning is named twice. -/
def Distinct (names : List String) : Prop := ∀ column : Column, names.count column.name ≤ 1

/-- What a cell of a numeric column stands for: an empty one stands for zero. -/
def Denotes (cell : String) (x : Float) : Prop :=
  if cell = "" then x = 0.0 else readNumber cell = .ok x

/-- The row defines a unit. -/
structure WellFormed (names cells : List String) : Prop where
  /-- No cell is missing. -/
  long : names.length ≤ cells.length
  /-- The columns can be told apart. -/
  distinct : Distinct names
  /-- There is a symbol. -/
  symbol : cellUnder names cells .symbol ≠ ""
  /-- Each number can be read. -/
  numbers : ∀ column ∈ Column.numeric, ∃ x, Denotes (cellUnder names cells column) x

/-- The unit has what stands under each name. -/
structure Defines (names cells : List String) (d : UnitDefinition) : Prop where
  /-- The primary symbol. -/
  symbol : d.symbol = cellUnder names cells .symbol
  /-- The other spelling; there is none when its cell is empty. -/
  alternate : d.alternate =
    if cellUnder names cells .alternate = "" then none else some (cellUnder names cells .alternate)
  /-- The exponent of each base unit. -/
  exponent : ∀ u, Denotes (cellUnder names cells (.exponent u)) (d.quantity.dimension.exponent u)
  /-- The coefficient. -/
  coefficient : Denotes (cellUnder names cells .coefficient) d.quantity.coefficient

/-- The first fault of a row at some place. The names of the header are walked in order, and each
has to be new before its cell is asked for. -/
inductive FirstFault (names : List String) (place : Place) (cells : List String) :
    DatabaseError → Prop where
  /-- A name is met again. -/
  | repeated {front back : List String} {column : Column}
      (hsplit : names = front ++ column.name :: back) (hlong : front.length ≤ cells.length)
      (hdistinct : Distinct front) (hmem : column.name ∈ front) :
      FirstFault names place cells (.sheet (.repeatedColumn place column))
  /-- A name has no cell. -/
  | short {front back : List String} {name : String} (hsplit : names = front ++ name :: back)
      (hend : front.length = cells.length) (hdistinct : Distinct (front ++ [name])) :
      FirstFault names place cells (.sheet (.shortRow place))
  /-- There is no symbol. -/
  | symbol (hlong : names.length ≤ cells.length) (hdistinct : Distinct names)
      (hsymbol : cellUnder names cells .symbol = "") :
      FirstFault names place cells (.missingSymbol place.line)
  /-- A number cannot be read. -/
  | number {front back : List Column} {column : Column} {source : NumberError}
      (hlong : names.length ≤ cells.length) (hdistinct : Distinct names)
      (hsymbol : cellUnder names cells .symbol ≠ "")
      (hsplit : Column.numeric = front ++ column :: back)
      (hfront : ∀ c ∈ front, ∃ x, Denotes (cellUnder names cells c) x)
      (hne : cellUnder names cells column ≠ "")
      (hbad : readNumber (cellUnder names cells column) = .error source) :
      FirstFault names place cells (.badNumber place.line column source)

theorem not_denotes_of_error {cell : String} {source : NumberError} (hne : cell ≠ "")
    (h : readNumber cell = .error source) : ¬ ∃ x, Denotes cell x := by
  rintro ⟨x, hx⟩
  rw [Denotes, if_neg hne, h] at hx
  cases hx

theorem Distinct.left {front back : List String} (h : Distinct (front ++ back)) :
    Distinct front := by
  intro column
  have hle := h column
  rw [List.count_append] at hle
  omega

theorem Distinct.not_mem {front back : List String} {column : Column}
    (h : Distinct (front ++ column.name :: back)) : column.name ∉ front := by
  intro hmem
  have hle := h column
  rw [List.count_append, List.count_cons_self] at hle
  have hpos := List.count_pos_iff.mpr hmem
  omega

theorem FirstFault.not_wellFormed {e : DatabaseError} (h : FirstFault names place cells e) :
    ¬ WellFormed names cells := by
  intro hw
  cases h with
  | repeated hsplit _ _ hmem =>
    have hdistinct := hw.distinct
    rw [hsplit] at hdistinct
    exact hdistinct.not_mem hmem
  | short hsplit hend _ =>
    have hlong := hw.long
    rw [hsplit, List.length_append, List.length_cons] at hlong
    omega
  | symbol _ _ hsymbol => exact hw.symbol hsymbol
  | number _ _ _ hsplit _ hne hbad =>
    exact not_denotes_of_error hne hbad (hw.numbers _ (by rw [hsplit]; simp))

/-! ## Walking the header -/

/-- How the names are matched with the cells: each has its cell, or there is a first fault. -/
inductive Matching (names : List String) (place : Place) (cells : List String) :
    Except SheetError (List (Column × String)) → Prop where
  /-- Every name has its cell. -/
  | complete {given : List (Column × String)} (hlong : names.length ≤ cells.length)
      (hdistinct : Distinct names)
      (hgiven : ∀ column, cellOf given column = cellUnder names cells column) :
      Matching names place cells (.ok given)
  /-- There is a fault. -/
  | fault {e : SheetError} (h : FirstFault names place cells (.sheet e)) :
      Matching names place cells (.error e)

theorem Distinct.append_singleton {front : List String} {name : String} (h : Distinct front)
    (hname : ∀ column : Column, column.name = name → name ∉ front) :
    Distinct (front ++ [name]) := by
  intro column
  rw [List.count_append, List.count_singleton]
  split
  · have heq : name = column.name := beq_iff_eq.mp ‹_›
    have hzero : front.count column.name = 0 :=
      List.count_eq_zero.mpr (heq ▸ hname column heq.symm)
    omega
  · exact h column

theorem any_given_iff {given : List (Column × String)} {column : Column} :
    (given.any fun g => g.1 = column) = true ↔ (given.lookup column).isSome = true := by
  rw [List.lookup_isSome_iff, List.any_eq_true]
  simp only [decide_eq_true_eq, beq_iff_eq, eq_comm (a := column)]

theorem isSome_lookup_zip_iff {walked done : List String} (h : walked.length = done.length)
    {name : String} : ((walked.zip done).lookup name).isSome = true ↔ name ∈ walked := by
  rw [List.lookup_isSome_iff]
  conv_rhs => rw [← List.map_fst_zip (Nat.le_of_eq h), List.mem_map]
  simp only [beq_iff_eq, eq_comm (a := name)]

theorem lookup_zip_append_singleton {walked done : List String} (h : walked.length = done.length)
    (name cell key : String) :
    ((walked ++ [name]).zip (done ++ [cell])).lookup key =
      ((walked.zip done).lookup key).or (if key = name then some cell else none) := by
  rw [List.zip_append h, List.lookup_append]
  congr 1
  rw [List.zip_cons_cons, List.zip_nil_right, List.lookup_cons]
  split <;> simp_all

/-- The columns that have their cell are those named among the names already walked, each with the
cell under its name. -/
theorem matching_assign {walked done : List String} {given : List (Column × String)}
    (hlength : walked.length = done.length) (hdistinct : Distinct walked)
    (hgiven : ∀ column, given.lookup column = (walked.zip done).lookup column.name) :
    Matching (walked ++ names) place (done ++ cells) (assign place given names cells) := by
  induction names generalizing walked done given cells with
  | nil =>
    refine .complete ?_ ?_ fun column => ?_
    · rw [List.append_nil, List.length_append]
      omega
    · rwa [List.append_nil]
    · rw [cellOf, cellUnder, hgiven, List.zip_append hlength, List.zip_nil_left, List.append_nil]
  | cons name names ih =>
    -- the walk goes on behind this name, and the cells behind the next one
    have hnext : ∀ {cell : String} {cells' : List String} {given' : List (Column × String)},
        (∀ column : Column, column.name = name → name ∉ walked) →
        (∀ column, given'.lookup column =
          ((walked.zip done).lookup column.name).or
            (if column.name = name then some cell else none)) →
        Matching (walked ++ name :: names) place (done ++ cell :: cells')
          (assign place given' names cells') := by
      intro cell cells' given' hnew hgiven'
      rw [List.append_cons walked, List.append_cons done]
      refine ih (by simp [hlength]) (hdistinct.append_singleton hnew) fun column => ?_
      rw [lookup_zip_append_singleton hlength, hgiven']
    have hshort : (∀ column : Column, column.name = name → name ∉ walked) →
        Matching (walked ++ name :: names) place (done ++ []) (.error (.shortRow place)) :=
      fun hnew => .fault (.short rfl (by simp [hlength]) (hdistinct.append_singleton hnew))
    unfold assign
    cases hcolumn : Column.ofName? name with
    | some column =>
      obtain rfl := Column.ofName?_eq_some_iff.mp hcolumn
      have hany : (given.any fun g => g.1 = column) = true ↔ column.name ∈ walked := by
        rw [any_given_iff, hgiven, isSome_lookup_zip_iff hlength]
      dsimp only
      split
      · exact .fault (.repeated rfl (by rw [List.length_append]; omega) hdistinct (hany.mp ‹_›))
      · have hnot : column.name ∉ walked := fun hmem => ‹¬ _› (hany.mpr hmem)
        cases cells with
        | nil => exact hshort fun _ _ => hnot
        | cons cell cells =>
          refine hnext (fun _ _ => hnot) fun column' => ?_
          rw [List.lookup_cons, hgiven]
          by_cases heq : column' = column
          · have hnone : (walked.zip done).lookup column.name = none := by
              rw [← Option.not_isSome_iff_eq_none, isSome_lookup_zip_iff hlength]
              exact hnot
            rw [heq, beq_self_eq_true, if_pos rfl, hnone]
            rfl
          · rw [beq_eq_false_iff_ne.mpr heq, if_neg fun h => heq (Column.name_injective h),
              Option.or_none]
    | none =>
      have hno : ∀ column : Column, column.name ≠ name := by
        intro column h
        rw [Column.ofName?_eq_some_iff.mpr h] at hcolumn
        cases hcolumn
      cases cells with
      | nil => exact hshort fun column h => absurd h (hno column)
      | cons cell cells =>
        refine hnext (fun column h => absurd h (hno column)) fun column => ?_
        rw [if_neg (hno column), Option.or_none, hgiven]

theorem matching_assign_nil (names : List String) (place : Place) (cells : List String) :
    Matching names place cells (assign place [] names cells) :=
  @matching_assign names cells place [] [] [] rfl (fun _ => Nat.zero_le _) fun _ => rfl

/-! ## One row -/

section Row

variable {line : Nat} {given : List (Column × String)} {column : Column} {cell : String}

theorem numberOf_eq_ok_iff {x : Float} (hcell : cellOf given column = cell) :
    numberOf line given column = .ok x ↔ Denotes cell x := by
  unfold numberOf Denotes
  dsimp only
  rw [hcell]
  simp only [String.isEmpty_iff]
  split
  · simp only [Except.ok.injEq, eq_comm]
  · cases readNumber cell <;> simp

theorem numberOf_eq_error_iff {e : DatabaseError} (hcell : cellOf given column = cell) :
    numberOf line given column = .error e ↔
      cell ≠ "" ∧ ∃ source, readNumber cell = .error source ∧
        e = .badNumber line column source := by
  unfold numberOf
  dsimp only
  rw [hcell]
  simp only [String.isEmpty_iff]
  split
  · simp [*]
  · cases readNumber cell <;> simp [*, eq_comm]

/-- The first number that cannot be read is the first fault of a row that has a symbol. -/
theorem firstFault_of_numberOf {front back : List Column} {e : DatabaseError}
    (hlong : names.length ≤ cells.length) (hdistinct : Distinct names)
    (hgiven : ∀ column, cellOf given column = cellUnder names cells column)
    (hsymbol : cellUnder names cells .symbol ≠ "")
    (hsplit : Column.numeric = front ++ column :: back)
    (hfront : ∀ c ∈ front, ∃ x, numberOf place.line given c = .ok x)
    (herror : numberOf place.line given column = .error e) : FirstFault names place cells e := by
  obtain ⟨hne, source, hbad, rfl⟩ := (numberOf_eq_error_iff (hgiven column)).mp herror
  refine .number hlong hdistinct hsymbol hsplit (fun c hc => ?_) hne hbad
  obtain ⟨x, hx⟩ := hfront c hc
  exact ⟨x, (numberOf_eq_ok_iff (hgiven c)).mp hx⟩

theorem definition_of_symbol (hgiven : ∀ column, cellOf given column = cellUnder names cells column)
    (hsymbol : cellUnder names cells .symbol ≠ "") :
    definition line given = (do
      let dimension ← Dimension.ofFnExcept fun u => numberOf line given (.exponent u)
      let coefficient ← numberOf line given .coefficient
      pure ⟨cellUnder names cells .symbol,
        if cellUnder names cells .alternate = "" then none
        else some (cellUnder names cells .alternate), ⟨dimension, coefficient⟩⟩) := by
  unfold definition
  simp only [hgiven, String.isEmpty_iff, if_neg hsymbol]

/-- What the cells of a complete row make: the unit that they define, or the first fault. -/
theorem definition_of_complete (place : Place) (hlong : names.length ≤ cells.length)
    (hdistinct : Distinct names)
    (hgiven : ∀ column, cellOf given column = cellUnder names cells column) :
    (∃ d, definition place.line given = .ok d ∧ WellFormed names cells ∧ Defines names cells d) ∨
      ∃ e, definition place.line given = .error e ∧ FirstFault names place cells e := by
  by_cases hsymbol : cellUnder names cells .symbol = ""
  · refine .inr ⟨.missingSymbol place.line, ?_, .symbol hlong hdistinct hsymbol⟩
    unfold definition
    dsimp only
    rw [hgiven, if_pos (String.isEmpty_iff.mpr hsymbol)]
  rw [definition_of_symbol hgiven hsymbol]
  cases hdimension : Dimension.ofFnExcept fun u => numberOf place.line given (.exponent u) with
  | error e =>
    obtain ⟨front, u, back, hall, hfront, herror⟩ :=
      Dimension.exists_of_ofFnExcept_error hdimension
    have hsplit : Column.numeric =
        front.map .exponent ++ .exponent u :: (back.map .exponent ++ [.coefficient]) := by
      rw [Column.numeric, hall, List.map_append, List.map_cons, List.append_assoc, List.cons_append]
    exact .inr ⟨e, rfl, firstFault_of_numberOf hlong hdistinct hgiven hsymbol hsplit
      (by simpa using hfront) herror⟩
  | ok dimension =>
    have hexponent := Dimension.eq_ok_of_ofFnExcept hdimension
    cases hcoefficient : numberOf place.line given .coefficient with
    | error e =>
      exact .inr ⟨e, rfl, firstFault_of_numberOf hlong hdistinct hgiven hsymbol rfl
        (by simpa using fun u _ => ⟨_, hexponent u⟩) hcoefficient⟩
    | ok coefficient =>
      have hdenotes := fun u => (numberOf_eq_ok_iff (hgiven (.exponent u))).mp (hexponent u)
      have hdenotes' := (numberOf_eq_ok_iff (hgiven .coefficient)).mp hcoefficient
      refine .inl ⟨_, rfl, ⟨hlong, hdistinct, hsymbol, fun column hcolumn => ?_⟩,
        rfl, rfl, hdenotes, hdenotes'⟩
      obtain ⟨u, -, rfl⟩ | rfl := by simpa [Column.numeric] using hcolumn
      · exact ⟨_, hdenotes u⟩
      · exact ⟨_, hdenotes'⟩

/-- A row is skipped because it is blank, defines a unit, or has a first fault. -/
inductive RowOutcome (names : List String) (place : Place) (cells : List String) :
    Except DatabaseError (Option UnitDefinition) → Prop where
  /-- All cells are empty. -/
  | blank (h : cells.all String.isEmpty = true) : RowOutcome names place cells (.ok none)
  /-- A unit is defined. -/
  | unit {d : UnitDefinition} (h : cells.all String.isEmpty = false)
      (hwell : WellFormed names cells) (hdefines : Defines names cells d) :
      RowOutcome names place cells (.ok (some d))
  /-- There is a fault. -/
  | fault {e : DatabaseError} (h : cells.all String.isEmpty = false)
      (hfault : FirstFault names place cells e) : RowOutcome names place cells (.error e)

theorem rowOutcome_definition? (names : List String) (place : Place) (cells : List String) :
    RowOutcome names place cells (definition? names place cells) := by
  unfold definition?
  cases hblank : cells.all String.isEmpty with
  | true => exact .blank hblank
  | false =>
    have hmatching := matching_assign_nil names place cells
    rw [if_neg Bool.false_ne_true]
    cases hassign : assign place [] names cells with
    | error e =>
      rw [hassign] at hmatching
      cases hmatching with
      | fault h => exact .fault hblank h
    | ok given =>
      rw [hassign] at hmatching
      cases hmatching with
      | complete hlong hdistinct hgiven =>
        dsimp only
        obtain ⟨d, hd, hwell, hdefines⟩ | ⟨e, he, hfault⟩ :=
          definition_of_complete place hlong hdistinct hgiven
        · rw [hd]
          exact .unit hblank hwell hdefines
        · rw [he]
          exact .fault hblank hfault

end Row

/-! ## There is one first fault -/

/-- The row does not end in front of a name that is met again, nor at it. -/
theorem not_mem_of_short {front front' back back' : List String} {name : String} {column : Column}
    (hsplit : names = front ++ column.name :: back) (hsplit' : names = front' ++ name :: back')
    (hle : front.length ≤ front'.length) (hdistinct : Distinct (front' ++ [name])) :
    column.name ∉ front := by
  obtain ⟨rfl, rfl⟩ | ⟨between, rfl⟩ | ⟨between, rfl⟩ := split_cases (hsplit ▸ hsplit')
  · exact hdistinct.not_mem
  · exact hdistinct.left.not_mem
  · rw [List.length_append, List.length_cons] at hle
    omega

theorem FirstFault.unique {e e' : DatabaseError} (h : FirstFault names place cells e)
    (h' : FirstFault names place cells e') : e = e' := by
  have hlt : ∀ {front back : List String} {name : String}, names = front ++ name :: back →
      front.length < names.length := by
    rintro front back name rfl
    simp
  cases h with
  | repeated hsplit hlong hdistinct hmem =>
    cases h' with
    | repeated hsplit' hlong' hdistinct' hmem' =>
      obtain ⟨-, hname⟩ | ⟨between, rfl⟩ | ⟨between, rfl⟩ := split_cases (hsplit ▸ hsplit')
      · rw [Column.name_injective hname]
      · exact absurd hmem hdistinct'.not_mem
      · exact absurd hmem' hdistinct.not_mem
    | short hsplit' hend hdistinct' =>
      exact absurd hmem (not_mem_of_short hsplit hsplit' (by omega) hdistinct')
    | symbol _ hdistinct' _ => exact absurd hmem (hsplit ▸ hdistinct').not_mem
    | number _ hdistinct' _ _ _ _ _ => exact absurd hmem (hsplit ▸ hdistinct').not_mem
  | short hsplit hend hdistinct =>
    cases h' with
    | repeated hsplit' hlong' _ hmem' =>
      exact absurd hmem' (not_mem_of_short hsplit' hsplit (by omega) hdistinct)
    | short => rfl
    | symbol hlong' _ _ => exact absurd (hlt hsplit) (by omega)
    | number hlong' _ _ _ _ _ _ => exact absurd (hlt hsplit) (by omega)
  | symbol hlong hdistinct hsymbol =>
    cases h' with
    | repeated hsplit' _ _ hmem' => exact absurd hmem' (hsplit' ▸ hdistinct).not_mem
    | short hsplit' hend _ => exact absurd (hlt hsplit') (by omega)
    | symbol => rfl
    | number _ _ hsymbol' _ _ _ _ => exact absurd hsymbol hsymbol'
  | number hlong hdistinct hsymbol hsplit hfront hne hbad =>
    cases h' with
    | repeated hsplit' _ _ hmem' => exact absurd hmem' (hsplit' ▸ hdistinct).not_mem
    | short hsplit' hend _ => exact absurd (hlt hsplit') (by omega)
    | symbol _ _ hsymbol' => exact absurd hsymbol' hsymbol
    | number _ _ _ hsplit' hfront' hne' hbad' =>
      obtain ⟨-, rfl⟩ | ⟨between, rfl⟩ | ⟨between, rfl⟩ := split_cases (hsplit ▸ hsplit')
      · rw [hbad] at hbad'
        rw [Except.error.inj hbad']
      · exact absurd (hfront' _ (by simp)) (not_denotes_of_error hne hbad)
      · exact absurd (hfront _ (by simp)) (not_denotes_of_error hne' hbad')

/-! ## All rows -/

/-- The bytes of a cell spell a text. -/
def IsText (cell : List UInt8) : Prop := (String.fromUTF8? cell.toByteArray).isSome = true

instance (cell : List UInt8) : Decidable (IsText cell) :=
  inferInstanceAs (Decidable ((String.fromUTF8? cell.toByteArray).isSome = true))

/-- The text that a cell spells, without the blanks around it. -/
def textOf (cell : List UInt8) : String :=
  trimString ((String.fromUTF8? cell.toByteArray).getD "")

/-- The cells of a row of data as texts. -/
def rowTexts (row : Row) : List String := row.cells.map fun cell => textOf (trimBytes cell)

/-- All cells of the row are empty. -/
def isBlankRow (row : Row) : Bool := (rowTexts row).all String.isEmpty

theorem texts_eq_ok {bytes : List (List UInt8)} (h : ∀ cell ∈ bytes, IsText cell) (index : Nat) :
    texts place index bytes = .ok (bytes.map textOf) := by
  induction bytes generalizing index with
  | nil => rfl
  | cons cell bytes ih =>
    obtain ⟨hcell, hbytes⟩ := List.forall_mem_cons.mp h
    obtain ⟨text, htext⟩ := Option.isSome_iff_exists.mp hcell
    have hdecode : decodeUtf8 cell = .ok text := by rw [decodeUtf8, htext]
    rw [texts, hdecode]
    dsimp only
    rw [ih hbytes, List.map_cons, textOf, htext]
    rfl

/-- What a row of data makes under a header. -/
def rowUnit? (names : List String) (row : Row) : Except DatabaseError (Option UnitDefinition) :=
  match texts row.place 0 (row.cells.map trimBytes) with
  | .error error => .error (.sheet error)
  | .ok cells => definition? names row.place cells

theorem rowUnit?_of_isText {row : Row} (h : ∀ cell ∈ row.cells, IsText (trimBytes cell)) :
    rowUnit? names row = definition? names row.place (rowTexts row) := by
  have htexts : texts row.place 0 (row.cells.map trimBytes) = .ok (rowTexts row) := by
    rw [texts_eq_ok (by simpa using h), rowTexts, List.map_map]
    rfl
  rw [rowUnit?, htexts]

theorem definitions_cons (row : Row) (rows : List Row) : definitions names (row :: rows) =
    (rowUnit? names row >>= fun unit? => definitions names rows >>= fun rest =>
      pure (unit?.toList ++ rest)) := by
  rw [definitions, rowUnit?]
  cases texts row.place 0 (row.cells.map trimBytes) <;> rfl

theorem ofRows_of_names {header : Row} (h : texts header.place 0 header.cells = .ok names)
    (rows : List Row) : ofRows (header :: rows) = (definitions names rows).map Catalogue.ofList := by
  rw [ofRows, h]

/-- What rows make: a unit for each that is not blank, in order, or the first fault of the first row
that has one. -/
inductive RowsOutcome (names : List String) :
    List Row → Except DatabaseError (List UnitDefinition) → Prop where
  /-- Each row is blank or defines its unit. -/
  | units {rows : List Row} {ds : List UnitDefinition}
      (hwell : ∀ row ∈ rows, isBlankRow row = false → WellFormed names (rowTexts row))
      (hdefines : List.Forall₂ (fun row d => Defines names (rowTexts row) d)
        (rows.filter fun row => !isBlankRow row) ds) : RowsOutcome names rows (.ok ds)
  /-- There is a fault. -/
  | fault {front back : List Row} {row : Row} {e : DatabaseError}
      (hfront : ∀ r ∈ front, isBlankRow r = false → WellFormed names (rowTexts r))
      (hrow : isBlankRow row = false) (hfault : FirstFault names row.place (rowTexts row) e) :
      RowsOutcome names (front ++ row :: back) (.error e)

theorem RowsOutcome.cons_blank {rows : List Row}
    {outcome : Except DatabaseError (List UnitDefinition)} {row : Row}
    (h : RowsOutcome names rows outcome) (hblank : isBlankRow row = true) :
    RowsOutcome names (row :: rows) outcome := by
  have hrow : isBlankRow row = false → WellFormed names (rowTexts row) := by simp [hblank]
  cases h with
  | units hwell hdefines =>
    refine .units (List.forall_mem_cons.mpr ⟨hrow, hwell⟩) ?_
    rwa [List.filter_cons_of_neg (by simp [hblank])]
  | fault hfront hne hfault =>
    rw [← List.cons_append]
    exact .fault (List.forall_mem_cons.mpr ⟨hrow, hfront⟩) hne hfault

theorem RowsOutcome.cons_unit {rows : List Row}
    {outcome : Except DatabaseError (List UnitDefinition)} {row : Row} {d : UnitDefinition}
    (h : RowsOutcome names rows outcome)
    (hblank : isBlankRow row = false) (hwell : WellFormed names (rowTexts row))
    (hdefines : Defines names (rowTexts row) d) :
    RowsOutcome names (row :: rows) (outcome.map (d :: ·)) := by
  cases h with
  | units hwells hdefiness =>
    refine .units (List.forall_mem_cons.mpr ⟨fun _ => hwell, hwells⟩) ?_
    rw [List.filter_cons_of_pos (by simp [hblank])]
    exact .cons hdefines hdefiness
  | fault hfront hne hfault =>
    rw [← List.cons_append]
    exact .fault (List.forall_mem_cons.mpr ⟨fun _ => hwell, hfront⟩) hne hfault

theorem rowsOutcome_definitions {rows : List Row}
    (h : ∀ row ∈ rows, ∀ cell ∈ row.cells, IsText (trimBytes cell)) :
    RowsOutcome names rows (definitions names rows) := by
  induction rows with
  | nil => exact .units (by simp) .nil
  | cons row rows ih =>
    obtain ⟨hrow, hrows⟩ := List.forall_mem_cons.mp h
    rw [definitions_cons, rowUnit?_of_isText hrow]
    have houtcome := rowOutcome_definition? names row.place (rowTexts row)
    generalize definition? names row.place (rowTexts row) = outcome at houtcome ⊢
    cases houtcome with
    | blank hblank =>
      have hsame : (definitions names rows >>= fun rest => pure ([] ++ rest)) =
          definitions names rows := by
        cases definitions names rows <;> rfl
      show RowsOutcome names (row :: rows)
        (definitions names rows >>= fun rest => pure ([] ++ rest))
      rw [hsame]
      exact (ih hrows).cons_blank hblank
    | @unit d hne hwell hdefines =>
      have hmore : (definitions names rows >>= fun rest => pure ([d] ++ rest)) =
          (definitions names rows).map (d :: ·) := by
        cases definitions names rows <;> rfl
      show RowsOutcome names (row :: rows)
        (definitions names rows >>= fun rest => pure ([d] ++ rest))
      rw [hmore]
      exact (ih hrows).cons_unit hne hwell hdefines
    | fault hne hfault =>
      show RowsOutcome names ([] ++ row :: rows) _
      exact .fault (by simp) hne hfault

end Database

/-- A database whose cells are texts can be loaded if and only if each row that is not blank is
well-formed. It then has one unit for each such row, in order. Otherwise the error is the first
fault of the first row that is not well-formed. -/
theorem Catalogue.ofBytes_wellFormed {bytes : List UInt8} {header : Row} {rows : List Row}
    (hsheet : Sheet.rows bytes = header :: rows)
    (hheader : ∀ cell ∈ header.cells, Database.IsText cell)
    (hrows : ∀ row ∈ rows, ∀ cell ∈ row.cells, Database.IsText (trimBytes cell)) :
    let names := header.cells.map Database.textOf
    ((∃ units, ofBytes bytes = .ok units) ↔ ∀ row ∈ rows, Database.isBlankRow row = false →
      Database.WellFormed names (Database.rowTexts row)) ∧
    (∀ units, ofBytes bytes = .ok units →
      units = ofList units.definitions ∧
      List.Forall₂ (fun row d => Database.Defines names (Database.rowTexts row) d)
        (rows.filter fun row => !Database.isBlankRow row) units.definitions) ∧
    ∀ e, ofBytes bytes = .error e ↔ ∃ front row back, rows = front ++ row :: back ∧
      (∀ r ∈ front, Database.isBlankRow r = false →
        Database.WellFormed names (Database.rowTexts r)) ∧
      Database.isBlankRow row = false ∧
      Database.FirstFault names row.place (Database.rowTexts row) e := by
  intro names
  have hload : ofBytes bytes = (Database.definitions names rows).map ofList := by
    rw [ofBytes, hsheet, Database.ofRows_of_names (Database.texts_eq_ok hheader 0)]
  rw [hload]
  have houtcome : Database.RowsOutcome names rows (Database.definitions names rows) :=
    Database.rowsOutcome_definitions hrows
  generalize Database.definitions names rows = outcome at houtcome ⊢
  cases houtcome with
  | units hwell hdefines =>
    refine ⟨⟨fun _ => hwell, fun _ => ⟨_, rfl⟩⟩, fun units hunits => ?_, fun e => ⟨?_, ?_⟩⟩
    · cases hunits
      exact ⟨rfl, hdefines⟩
    · intro h
      cases h
    · rintro ⟨front, row, back, rfl, -, hrow, hfault⟩
      exact absurd (hwell row (by simp) hrow) hfault.not_wellFormed
  | @fault front back row e hfront hrow hfault =>
    refine ⟨⟨?_, fun hwell => ?_⟩, fun units hunits => ?_, fun e' => ⟨fun h => ?_, ?_⟩⟩
    · rintro ⟨units, hunits⟩
      cases hunits
    · exact absurd (hwell row (by simp) hrow) hfault.not_wellFormed
    · cases hunits
    · cases h
      exact ⟨front, row, back, rfl, hfront, hrow, hfault⟩
    · rintro ⟨front', row', back', hsplit, hfront', hrow', hfault'⟩
      obtain ⟨-, rfl⟩ | ⟨between, rfl⟩ | ⟨between, rfl⟩ := split_cases hsplit
      · rw [hfault.unique hfault']
        rfl
      · exact absurd (hfront' row (by simp) hrow) hfault.not_wellFormed
      · exact absurd (hfront row' (by simp) hrow') hfault'.not_wellFormed

/-- A row that defines a unit, one that is blank and one with a bad number: the first two alone make
a database, and the third decides the outcome of all. -/
theorem Catalogue.ofBytes_wellFormed_three_rows :
    (∃ units, ofBytes "Symbol,m\nkm,1\n,\n".toUTF8.toList = .ok units) ∧
      ofBytes "Symbol,m\nkm,1\n,\nft,x\n".toUTF8.toList =
        .error (.badNumber 4 (.exponent .metre) (.malformed "x")) := by
  have hsheet : Sheet.rows "Symbol,m\nkm,1\n,\n".toUTF8.toList =
      [⟨⟨0, 1, 0⟩, [[83, 121, 109, 98, 111, 108], [109]]⟩, ⟨⟨1, 2, 9⟩, [[107, 109], [49]]⟩,
        ⟨⟨2, 3, 14⟩, [[], []]⟩] := by
    with_unfolding_all rfl
  have hsheet' : Sheet.rows "Symbol,m\nkm,1\n,\nft,x\n".toUTF8.toList =
      [⟨⟨0, 1, 0⟩, [[83, 121, 109, 98, 111, 108], [109]]⟩, ⟨⟨1, 2, 9⟩, [[107, 109], [49]]⟩,
        ⟨⟨2, 3, 14⟩, [[], []]⟩, ⟨⟨3, 4, 16⟩, [[102, 116], [120]]⟩] := by
    with_unfolding_all rfl
  have hdistinct : Database.Distinct ["Symbol", "m"] := by
    intro column
    cases column with
    | exponent u => cases u <;> decide
    | _ => decide
  have hwell : Database.WellFormed ["Symbol", "m"] ["km", "1"] := by
    refine ⟨by decide, hdistinct, by decide, fun column hcolumn => ?_⟩
    cases column with
    | exponent u =>
      cases u with
      | metre => exact ⟨1.0, by with_unfolding_all rfl⟩
      | _ => exact ⟨0.0, rfl⟩
    | symbol => exact absurd hcolumn (by decide)
    | alternate => exact absurd hcolumn (by decide)
    | coefficient => exact ⟨0.0, rfl⟩
  have hfront : ∀ r ∈ [(⟨⟨1, 2, 9⟩, [[107, 109], [49]]⟩ : Row), ⟨⟨2, 3, 14⟩, [[], []]⟩],
      Database.isBlankRow r = false →
        Database.WellFormed ["Symbol", "m"] (Database.rowTexts r) := by
    refine List.forall_mem_cons.mpr ⟨fun _ => hwell, List.forall_mem_singleton.mpr fun h => ?_⟩
    exact absurd h (by decide)
  have hfault : Database.FirstFault ["Symbol", "m"] ⟨3, 4, 16⟩ ["ft", "x"]
      (.badNumber 4 (.exponent .metre) (.malformed "x")) :=
    .number (by decide) hdistinct (by decide)
      (show Column.numeric = [.exponent .second] ++ .exponent .metre :: _ from rfl)
      (List.forall_mem_singleton.mpr ⟨0.0, rfl⟩) (by decide) (by with_unfolding_all rfl)
  constructor
  · exact (ofBytes_wellFormed hsheet (by decide) (by decide)).1.mpr hfront
  · exact ((ofBytes_wellFormed hsheet' (by decide) (by decide)).2.2 _).mpr
      ⟨_, ⟨⟨3, 4, 16⟩, [[102, 116], [120]]⟩, [], rfl, hfront, rfl, hfault⟩

end UnitCalc
