import UnitCalc.Decimal.Layout

/-!
# Proofs: the characters of numbers

Whatever its layout, a finite number is written with digits, a point, the letter of the exponent and
signs; a plus is written only where the layout wants one. The words for other values are not used.
-/

namespace UnitCalc

namespace Decimal

/-- A character that numbers of every layout can have: a digit, the point, the letter of the
exponent or the minus. -/
def isNumeral (c : Char) : Bool := c.isDigit || c == '.' || c == 'e' || c == '-'

theorem isNumeral_toDigits (n : Nat) : ∀ c ∈ Nat.toDigits 10 n, isNumeral c = true := by
  intro c hc
  have hdigit : c.isDigit = true := Nat.isDigit_of_mem_toDigits (by decide) (by decide) hc
  simp [isNumeral, hdigit]

theorem isNumeral_zeros (n : Nat) : ∀ c ∈ List.replicate n '0', isNumeral c = true := by
  intro c hc
  obtain rfl := List.eq_of_mem_replicate hc
  decide

theorem isNumeral_positionalText (wholeFraction : Bool) (d : Decimal) :
    ∀ c ∈ d.positionalText wholeFraction, isNumeral c = true := by
  unfold positionalText
  split
  · refine List.forall_mem_append.mpr ⟨List.forall_mem_append.mpr
      ⟨isNumeral_toDigits _, isNumeral_zeros _⟩, ?_⟩
    split
    · simp [isNumeral]
    · simp
  · have padded : ∀ n, ∀ c ∈ List.replicate n '0' ++ d.digits, isNumeral c = true := fun n =>
      List.forall_mem_append.mpr ⟨isNumeral_zeros n, isNumeral_toDigits _⟩
    refine List.forall_mem_append.mpr ⟨fun c hc => padded _ c (List.mem_of_mem_take hc), ?_⟩
    exact List.forall_mem_cons.mpr ⟨by decide, fun c hc => padded _ c (List.mem_of_mem_drop hc)⟩

theorem isNumeral_scientificText (plus : List Char) (d : Decimal) :
    ∀ c ∈ d.scientificText plus, isNumeral c = true ∨ c ∈ plus := by
  have digits : ∀ c ∈ d.digits, isNumeral c = true ∨ c ∈ plus := fun c hc =>
    .inl (isNumeral_toDigits _ c hc)
  unfold scientificText
  refine List.forall_mem_append.mpr ⟨List.forall_mem_append.mpr
    ⟨List.forall_mem_append.mpr ⟨fun c hc => digits c (List.mem_of_mem_take hc), ?_⟩, ?_⟩, ?_⟩
  · split
    · simp
    · exact List.forall_mem_cons.mpr
        ⟨.inl (by decide), fun c hc => digits c (List.mem_of_mem_drop hc)⟩
  · refine List.forall_mem_cons.mpr ⟨.inl (by decide), ?_⟩
    split
    · simp [isNumeral]
    · exact fun c hc => .inr hc
  · exact fun c hc => .inl (isNumeral_toDigits _ c hc)

theorem isNumeral_text (l : Layout) (d : Decimal) :
    ∀ c ∈ d.text l, isNumeral c = true ∨ c ∈ l.plus := by
  unfold text
  split
  · exact fun c hc => .inl (isNumeral_positionalText _ d c hc)
  · exact isNumeral_scientificText _ d

end Decimal

open Float.Model in
/-- The bits of a finite float stand for a finite number. -/
theorem FloatValue.exists_ofFloat {x : Float} (h : x.isFinite = true) :
    ∃ negative magnitude, FloatValue.ofFloat x = .finite negative magnitude := by
  have hexponent : x.toBits.toNat / Nat.pow 2 52 % Nat.pow 2 11 ≠ Nat.pow 2 11 - 1 := by
    intro heq
    have hones : @UnpackedFloat.unpackExponent Format.binary64 x.toBits.toBitVec = -1#_ := by
      apply BitVec.eq_of_toNat_eq
      simp only [UnpackedFloat.unpackExponent, BitVec.toNat_cast, BitVec.extractLsb_toNat]
      rw [Nat.shiftRight_eq_div_pow]
      exact heq
    have hnot : x.isFinite = false := by
      show (UnpackedFloat.unpack Format.binary64 x.toBits.toBitVec).isFinite = false
      unfold UnpackedFloat.unpack
      dsimp only
      rw [if_pos hones]
      split <;> rfl
    rw [hnot] at h
    cases h
  unfold ofFloat ofBits
  dsimp only
  rw [if_neg hexponent]
  split
  · exact ⟨_, _, rfl⟩
  · exact ⟨_, _, rfl⟩

theorem Layout.isNumeral_floatText (l : Layout) {x : Float} (h : x.isFinite = true) :
    ∀ c ∈ (l.floatText x).toList, Decimal.isNumeral c = true ∨ c ∈ l.plus := by
  obtain ⟨negative, magnitude, hx⟩ := FloatValue.exists_ofFloat h
  unfold floatText
  rw [hx]
  dsimp only
  rw [String.toList_ofList]
  refine List.forall_mem_append.mpr ⟨?_, Decimal.isNumeral_text l _⟩
  split
  · simp [Decimal.isNumeral]
  · simp

end UnitCalc
