import UnitCalc.Catalogue.Basic

/-!
# Proofs: the first claimant of a spelling

The index of a catalogue is filled definition by definition, and a spelling that is taken stays with
the definition that has it. So what the index finds is what a search through the list in order finds:
the first definition that has the spelling, be it its primary symbol or its alternate.
-/

namespace UnitCalc.Catalogue

variable {s : String}

theorem mem_spellings_iff {d : UnitDefinition} :
    s ∈ d.spellings ↔ d.symbol = s ∨ d.alternate = some s := by
  simp [UnitDefinition.spellings, eq_comm]

/-- A spelling is claimed for a position only when it is free. -/
theorem getElem?_claim (index : Std.HashMap String Nat) (position : Nat) (spellings : List String)
    (s : String) : (claim index position spellings)[s]? =
      index[s]?.or (if s ∈ spellings then some position else none) := by
  induction spellings generalizing index with
  | nil => simp [claim]
  | cons t ts ih =>
    have hclaim : claim index position (t :: ts) = claim (index.insertIfNew t position) position ts :=
      rfl
    rw [hclaim, ih, Std.HashMap.getElem?_insertIfNew]
    by_cases hs : t = s
    · subst hs
      cases hindex : index[t]? with
      | none => simp [Std.HashMap.mem_iff_isSome_getElem?, hindex]
      | some taken => simp [Std.HashMap.mem_iff_isSome_getElem?, hindex]
    · simp [hs, Ne.symm hs]

/-- The position that a spelling is claimed for is that of the first definition which has it. -/
theorem getElem?_claimAll (position : Nat) (ds : List UnitDefinition) :
    ∀ index : Std.HashMap String Nat, (claimAll index position ds)[s]? =
      index[s]?.or ((ds.findIdx? (s ∈ ·.spellings)).map (· + position)) := by
  induction ds generalizing position with
  | nil => simp [claimAll]
  | cons d ds ih =>
    intro index
    rw [claimAll, ih, getElem?_claim, List.findIdx?_cons, Option.or_assoc]
    by_cases hs : s ∈ d.spellings
    · simp [hs]
    · simp [hs, Function.comp_def, Nat.add_assoc, Nat.add_comm 1]

theorem getElem?_index_ofList (ds : List UnitDefinition) (s : String) :
    (ofList ds).index[s]? = ds.findIdx? (s ∈ ·.spellings) := by
  simp [ofList, getElem?_claimAll]

/-- The index finds the first definition that has a spelling. -/
theorem get?_ofList (ds : List UnitDefinition) (s : String) :
    (ofList ds).get? s = ds.find? (s ∈ ·.spellings) := by
  unfold get?
  rw [getElem?_index_ofList, List.find?_eq_bind_findIdx?_getElem?]
  cases ds.findIdx? (s ∈ ·.spellings) <;> rfl

theorem lookup?_ofList (ds : List UnitDefinition) (s : String) :
    (ofList ds).lookup? s = (ds.find? (s ∈ ·.spellings)).map UnitDefinition.quantity := by
  rw [lookup?, get?_ofList]

/-- A spelling is known when a search through the list finds it. -/
theorem contains_ofList (ds : List UnitDefinition) (s : String) :
    (ofList ds).contains s = ((ofList ds).get? s).isSome := by
  rw [contains, Std.HashMap.contains_eq_isSome_getElem?, getElem?_index_ofList, get?_ofList,
    List.findIdx?_isSome, Bool.eq_iff_iff, List.any_eq_true, List.find?_isSome]

/-- The positions in the index are positions of the list. -/
theorem lt_length_of_index {ds : List UnitDefinition} {position : Nat}
    (h : (ofList ds).index[s]? = some position) : position < ds.length := by
  rw [getElem?_index_ofList] at h
  obtain ⟨hlt, -⟩ := List.findIdx?_eq_some_iff_getElem.mp h
  exact hlt

/-- Looking up in a catalogue is a scan through its definitions, which are kept as they are: what is
found is the first one with the spelling as its primary symbol or as its alternate, however often
the spelling is claimed. -/
theorem ofList_scans_in_order (ds : List UnitDefinition) :
    (ofList ds).definitions = ds ∧
    (∀ s, (ofList ds).get? s = ds.find? fun d => d.symbol = s ∨ d.alternate = some s) ∧
    (∀ s, (ofList ds).contains s = ((ofList ds).get? s).isSome) ∧
    (∀ s, (ofList ds).lookup? s =
      (ds.find? fun d => d.symbol = s ∨ d.alternate = some s).map UnitDefinition.quantity) ∧
    ∀ (s : String) (position : Nat), (ofList ds).index[s]? = some position →
      position < (ofList ds).definitions.length := by
  have hget : ∀ s, (ofList ds).get? s =
      ds.find? fun d => d.symbol = s ∨ d.alternate = some s := by
    intro s
    rw [get?_ofList]
    simp only [mem_spellings_iff]
  refine ⟨rfl, hget, contains_ofList ds, fun s => ?_, fun _ _ => lt_length_of_index⟩
  rw [lookup?, hget]

/-- A definition that has its symbol for its alternate too, behind one that claims this symbol for
its alternate, and a third whose symbol is taken. -/
theorem ofList_scans_in_order_ohm :
    let ohm : UnitDefinition := ⟨"Ω", some "ohm", .scalar 1.0⟩
    let other : UnitDefinition := ⟨"ohm", some "ohm", .scalar 2.0⟩
    let third : UnitDefinition := ⟨"Ω", some "R", .scalar 3.0⟩
    let units := ofList [ohm, other, third]
    units.get? "ohm" = some ohm ∧ units.lookup? "R" = some (.scalar 3.0) ∧
    units.contains "S" = false ∧ units.index["R"]? = some 2 ∧ 2 < units.definitions.length := by
  intro ohm other third units
  obtain ⟨-, hget, hcontains, hlookup, hindex⟩ := ofList_scans_in_order [ohm, other, third]
  have hposition : units.index["R"]? = some 2 := by
    rw [getElem?_index_ofList]
    rfl
  refine ⟨(hget "ohm").trans rfl, (hlookup "R").trans rfl, ?_, hposition, hindex "R" 2 hposition⟩
  rw [hcontains, hget]
  rfl

end UnitCalc.Catalogue
