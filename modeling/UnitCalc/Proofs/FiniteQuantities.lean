import UnitCalc.Catalogue.Database
import UnitCalc.Expression.Evaluation
import UnitCalc.Proofs.Outcomes

/-!
# Proofs: finite quantities

A quantity is finite when its coefficient and its seven exponents are. The numbers that are read and
the results of the operations on quantities are checked, so whatever they give is finite; hence so
are the units of every database that can be loaded.
-/

namespace UnitCalc

/-- The coefficient and the seven exponents are finite. -/
structure Quantity.Finite (q : Quantity) : Prop where
  /-- The coefficient is finite. -/
  coefficient : q.coefficient.isFinite = true
  /-- The exponent of each base unit is finite. -/
  exponent : ∀ u, (q.dimension.exponent u).isFinite = true

/-- All units of the catalogue stand for finite quantities. -/
def Catalogue.Finite (units : Catalogue) : Prop := ∀ d ∈ units.definitions, d.quantity.Finite

theorem isFinite_zero : (0.0 : Float).isFinite = true := by decide

theorem isFinite_one : (1.0 : Float).isFinite = true := by decide

theorem isFinite_unsignedZero {x : Float} (h : x.isFinite = true) :
    (unsignedZero x).isFinite = true := by
  unfold unsignedZero
  split
  · exact isFinite_zero
  · exact h

namespace Quantity

theorem finite_iff {q : Quantity} : q.Finite ↔ q.isFinite = true := by
  simp only [isFinite, Dimension.isFinite, Bool.and_eq_true, List.all_eq_true]
  constructor
  · intro h
    exact ⟨h.coefficient, fun u _ => h.exponent u⟩
  · rintro ⟨hc, he⟩
    exact ⟨hc, fun u => he u (BaseUnit.mem_all u)⟩

theorem finite_scalar {x : Float} (h : x.isFinite = true) : (scalar x).Finite where
  coefficient := h
  exponent u := by
    rw [scalar, Dimension.dimensionless, Dimension.exponent_ofFn]
    exact isFinite_zero

/-- What all operations have in common: they give their result only when it is finite. -/
theorem finite_of_checked {q result : Quantity} {error : ConversionError}
    (h : (if q.isFinite then Except.ok q else .error error) = .ok result) : result.Finite := by
  split at h
  · cases h
    exact finite_iff.mpr (by assumption)
  · cases h

theorem finite_of_multiply {a b q : Quantity} (h : a.multiply b = .ok q) : q.Finite := by
  unfold multiply at h
  exact finite_of_checked h

theorem finite_of_divide {a b q : Quantity} (h : a.divide b = .ok q) : q.Finite := by
  unfold divide at h
  split at h
  · cases h
  · exact finite_of_checked h

theorem finite_of_power {a b q : Quantity} (h : a.power b = .ok q) : q.Finite := by
  unfold power at h
  split at h
  · cases h
  · exact finite_of_checked h

/-! A product and a power that are finite are given. -/

variable {a b : Quantity}

theorem multiply_of_finite
    (h : (⟨a.dimension.multiply b.dimension, a.coefficient * b.coefficient⟩ : Quantity).Finite) :
    a.multiply b = .ok ⟨a.dimension.multiply b.dimension, a.coefficient * b.coefficient⟩ :=
  if_pos (finite_iff.mp h)

theorem power_of_finite (hb : b.isDimensionless = true)
    (h : (⟨a.dimension.power b.coefficient, raise a.coefficient b.coefficient⟩ : Quantity).Finite) :
    a.power b = .ok ⟨a.dimension.power b.coefficient, raise a.coefficient b.coefficient⟩ := by
  unfold power
  rw [hb]
  exact if_pos (finite_iff.mp h)

end Quantity

/-- Whatever an operator gives is finite. Nothing is asked of what it is applied to. -/
theorem Operator.finite_of_apply {op : Operator} {a b q : Quantity} (h : op.apply a b = .ok q) :
    q.Finite := by
  cases op with
  | multiply => exact Quantity.finite_of_multiply h
  | divide => exact Quantity.finite_of_divide h
  | power => exact Quantity.finite_of_power h

theorem isFinite_of_readNumber {text : String} {x : Float} (h : readNumber text = .ok x) :
    x.isFinite = true := by
  unfold readNumber at h
  dsimp only at h
  split at h
  · cases h
  · split at h
    · cases h
      assumption
    · cases h

/-! ## Tokens -/

theorem Catalogue.Finite.lookup? {units : Catalogue} (h : units.Finite) {spelling : String}
    {q : Quantity} (hq : units.lookup? spelling = some q) : q.Finite := by
  obtain ⟨d, hd, rfl⟩ := Option.map_eq_some_iff.mp hq
  unfold Catalogue.get? at hd
  split at hd
  · exact h d (List.mem_of_getElem? hd)
  · cases hd

theorem Token.finite_of_eval {lookup : String → Option Quantity}
    (h : ∀ {spelling q}, lookup spelling = some q → q.Finite) {t : Token} {q : Quantity}
    (hq : t.eval lookup = .ok q) : q.Finite := by
  unfold Token.eval at hq
  split at hq
  · split at hq
    · rename_i hx
      cases hq
      exact Quantity.finite_scalar (isFinite_of_readNumber hx)
    · cases hq
  · split at hq
    · rename_i hlookup
      cases hq
      exact h hlookup
    · cases hq
  · cases hq

/-! ## Databases -/

namespace Database

theorem isFinite_of_numberOf {line : Nat} {given : List (Column × String)} {column : Column}
    {x : Float} (h : numberOf line given column = .ok x) : x.isFinite = true := by
  unfold numberOf at h
  dsimp only at h
  split at h
  · cases h
    exact isFinite_zero
  · split at h
    · rename_i hread
      cases h
      exact isFinite_of_readNumber hread
    · cases h

end Database

theorem Dimension.eq_ok_of_ofFnExcept {ε : Type} {f : BaseUnit → Except ε Float} {d : Dimension}
    (h : ofFnExcept f = .ok d) (u : BaseUnit) : f u = .ok (d.exponent u) := by
  unfold ofFnExcept at h
  simp only [bind_eq_ok_iff] at h
  obtain ⟨s, hs, m, hm, kg, hkg, mol, hmol, c, hc, k, hk, cd, hcd, hd⟩ := h
  cases hd
  cases u <;> assumption

namespace Database

variable {line : Nat} {place : Place} {given : List (Column × String)} {header : List String}

theorem finite_of_definition {d : UnitDefinition} (h : definition line given = .ok d) :
    d.quantity.Finite := by
  unfold definition at h
  dsimp only at h
  split at h
  · cases h
  · obtain ⟨dimension, hdimension, h⟩ := bind_eq_ok_iff.mp h
    obtain ⟨coefficient, hcoefficient, h⟩ := bind_eq_ok_iff.mp h
    cases h
    exact ⟨isFinite_of_numberOf hcoefficient,
      fun u => isFinite_of_numberOf (Dimension.eq_ok_of_ofFnExcept hdimension u)⟩

theorem finite_of_definition? {cells : List String} {d : UnitDefinition}
    (h : definition? header place cells = .ok (some d)) : d.quantity.Finite := by
  unfold definition? at h
  split at h
  · cases h
  · split at h
    · cases h
    · obtain ⟨d', hd, heq⟩ := map_eq_ok_iff.mp h
      cases heq
      exact finite_of_definition hd

theorem finite_of_definitions : ∀ {rows : List Row} {ds : List UnitDefinition},
    definitions header rows = .ok ds → ∀ d ∈ ds, d.quantity.Finite
  | [], ds, h => by
    cases h
    simp
  | row :: rows, ds, h => by
    unfold definitions at h
    split at h
    · cases h
    · obtain ⟨unit?, hunit, h⟩ := bind_eq_ok_iff.mp h
      obtain ⟨rest, hrest, h⟩ := bind_eq_ok_iff.mp h
      cases h
      intro d hd
      rcases List.mem_append.mp hd with hd | hd
      · obtain rfl := Option.mem_toList.mp hd
        exact finite_of_definition? hunit
      · exact finite_of_definitions hrest d hd

theorem finite_of_ofRows {rows : List Row} {units : Catalogue} (h : ofRows rows = .ok units) :
    units.Finite := by
  unfold ofRows at h
  split at h
  · cases h
    intro d hd
    cases hd
  · split at h
    · cases h
    · obtain ⟨ds, hds, rfl⟩ := map_eq_ok_iff.mp h
      exact finite_of_definitions hds

end Database

namespace Catalogue

theorem finite_of_ofBytes {bytes : List UInt8} {units : Catalogue} (h : ofBytes bytes = .ok units) :
    units.Finite := Database.finite_of_ofRows h

theorem finite_of_ofText {text : String} {units : Catalogue} (h : ofText text = .ok units) :
    units.Finite := by
  unfold ofText at h
  split at h
  · exact finite_of_ofBytes h
  · exact finite_of_ofBytes h

theorem finite_of_ofFile {path : String} {content : Except String ByteArray} {units : Catalogue}
    (h : ofFile path content = .ok units) : units.Finite := by
  unfold ofFile at h
  split at h
  · cases h
  · split at h
    · cases h
    · exact finite_of_ofText h

end Catalogue

end UnitCalc
