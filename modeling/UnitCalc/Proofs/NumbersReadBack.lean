import UnitCalc.Number
import UnitCalc.Proofs.LongestToken
import UnitCalc.Proofs.NumberTexts
import UnitCalc.Proofs.ShortestDigits

/-!
# Proofs: numbers read back

The text of a finite float is read as this float, in every layout. A layout only arranges the digits
of the shortest decimal, so the decimal that is read is the same number, and this number rounds to
the float.
-/

namespace UnitCalc

open Text

/-! ## Digits -/

theorem splitWhile_append_of {p : Char → Bool} {xs ys : List Char} (hxs : ∀ c ∈ xs, p c = true)
    (hys : ∀ c ∈ ys.head?, p c = false) : splitWhile p (xs ++ ys) = (xs, ys) := by
  have hnone : ys.takeWhile p = [] ∧ ys.dropWhile p = ys := by
    cases ys with
    | nil => exact ⟨rfl, rfl⟩
    | cons c ys =>
      have hc : p c = false := hys c rfl
      exact ⟨List.takeWhile_cons_of_neg (by simp [hc]), List.dropWhile_cons_of_neg (by simp [hc])⟩
  rw [splitWhile, List.takeWhile_append_of_pos hxs, List.dropWhile_append_of_pos hxs, hnone.1,
    hnone.2, List.append_nil]

theorem digitsValue_eq (cs : List Char) : digitsValue cs = Nat.ofDigitChars 10 cs 0 :=
  Nat.ofDigitChars_eq_foldl.symm

theorem digitsValue_append (xs ys : List Char) :
    digitsValue (xs ++ ys) = digitsValue xs * 10 ^ ys.length + digitsValue ys := by
  rw [digitsValue_eq, digitsValue_eq, digitsValue_eq, Nat.ofDigitChars_append,
    Nat.ofDigitChars_eq_ofDigitChars_zero, mul_comm]

theorem digitsValue_zeros (n : ℕ) : digitsValue (List.replicate n '0') = 0 := by
  rw [digitsValue_eq, Nat.ofDigitChars_replicate_zero, mul_zero]

theorem digitsValue_toDigits (n : ℕ) : digitsValue (Nat.toDigits 10 n) = n := by
  rw [digitsValue_eq, Nat.ofDigitChars_ten_toDigits]

theorem isDigit_toDigits (n : ℕ) : ∀ c ∈ Nat.toDigits 10 n, c.isDigit = true := fun _ hc =>
  Nat.isDigit_of_mem_toDigits (by decide) (by decide) hc

theorem isDigit_zeros (n : ℕ) : ∀ c ∈ List.replicate n '0', c.isDigit = true := by
  intro c hc
  obtain rfl := List.eq_of_mem_replicate hc
  decide

/-! ## Reading integers and decimals -/

/-- A text of digits, with at least one. -/
def Digits (cs : List Char) : Prop := cs ≠ [] ∧ ∀ c ∈ cs, c.isDigit = true

theorem digits_toDigits (n : ℕ) : Digits (Nat.toDigits 10 n) :=
  ⟨Nat.toDigits_ne_nil, isDigit_toDigits n⟩

theorem not_sign_of_isDigit {c : Char} (h : c.isDigit = true) : ¬ (c = '+' ∨ c = '-') := by
  rintro (rfl | rfl) <;> exact absurd h (by decide)

theorem splitSign_of_digit {c : Char} {cs : List Char} (h : c.isDigit = true) :
    splitSign (c :: cs) = ([], c :: cs) := by
  rw [splitSign, if_neg (not_sign_of_isDigit h)]

theorem readInteger?_of_digits {cs : List Char} (h : Digits cs) :
    readInteger? cs = some (digitsValue cs) := by
  obtain ⟨hne, hdigits⟩ := h
  obtain ⟨c, cs, rfl⟩ := List.exists_cons_of_ne_nil hne
  have hall : (c :: cs).all Char.isDigit = true := List.all_eq_true.mpr hdigits
  unfold readInteger?
  rw [splitSign_of_digit (hdigits c List.mem_cons_self)]
  simp [hall]

theorem readInteger?_of_sign {cs : List Char} {sign : Char} (hsign : sign = '+' ∨ sign = '-')
    (h : Digits cs) : readInteger? (sign :: cs) =
      some (if sign = '-' then -(digitsValue cs : ℤ) else digitsValue cs) := by
  obtain ⟨hne, hdigits⟩ := h
  have hall : cs.all Char.isDigit = true := List.all_eq_true.mpr hdigits
  unfold readInteger?
  rw [splitSign, if_pos hsign]
  rcases hsign with rfl | rfl <;> simp [hall, hne]

/-- The text starts with a digit and is read as a decimal with this value. -/
def Spells (cs : List Char) (x : ℚ) : Prop :=
  (∃ c ∈ cs.head?, c.isDigit = true) ∧ ∃ d, Decimal.read? cs = some d ∧ d.value = x

namespace Decimal

theorem value_ofDigits (whole fraction : List Char) (n : ℤ) :
    (ofDigits whole fraction n).value =
      digitsValue (whole ++ fraction) * 10 ^ (n - (fraction.length : ℤ)) := rfl

theorem exists_head_digit {cs rest : List Char} (h : Digits cs) :
    ∃ c ∈ (cs ++ rest).head?, c.isDigit = true := by
  obtain ⟨hne, hdigits⟩ := h
  obtain ⟨c, cs, rfl⟩ := List.exists_cons_of_ne_nil hne
  exact ⟨c, rfl, hdigits c List.mem_cons_self⟩

theorem spells_whole {whole rest : List Char} {n : ℤ} (hwhole : Digits whole)
    (hrest : ∀ c ∈ rest.head?, c.isDigit = false ∧ c ≠ '.') (hn : readExponent? rest = some n) :
    Spells (whole ++ rest) (digitsValue whole * 10 ^ n) := by
  refine ⟨exists_head_digit hwhole, ofDigits whole [] n, ?_, by simp [value_ofDigits]⟩
  have hsplit := splitWhile_append_of hwhole.2 fun c hc => (hrest c hc).1
  have hne : whole.isEmpty = false := by simpa using hwhole.1
  unfold read?
  rw [hsplit]
  cases rest with
  | nil => simp [hne, hn]
  | cons c rest =>
    have hc : c ≠ '.' := (hrest c rfl).2
    simp [hne, hn, hc]

theorem spells_fraction {whole fraction rest : List Char} {n : ℤ} (hwhole : Digits whole)
    (hfraction : ∀ c ∈ fraction, c.isDigit = true) (hrest : ∀ c ∈ rest.head?, c.isDigit = false)
    (hn : readExponent? rest = some n) :
    Spells (whole ++ '.' :: (fraction ++ rest))
      (digitsValue (whole ++ fraction) * 10 ^ (n - (fraction.length : ℤ))) := by
  refine ⟨exists_head_digit hwhole, ofDigits whole fraction n, ?_, value_ofDigits _ _ _⟩
  have hsplit : splitWhile Char.isDigit (whole ++ '.' :: (fraction ++ rest)) =
      (whole, '.' :: (fraction ++ rest)) := splitWhile_append_of hwhole.2 (by simp)
  have hbehind := splitWhile_append_of hfraction hrest
  have hne : whole.isEmpty = false := by simpa using hwhole.1
  unfold read?
  rw [hsplit]
  simp [hbehind, hne, hn]

/-! ## The two ways of writing a decimal -/

theorem digits_digits (d : Decimal) : Digits d.digits := digits_toDigits d.coefficient

theorem digitsValue_digits (d : Decimal) : digitsValue d.digits = d.coefficient :=
  digitsValue_toDigits d.coefficient

/-- The digits of a whole number, with all zeros in front of the point. -/
theorem spells_positionalText_of_nonneg (wholeFraction : Bool) {d : Decimal} (h : 0 ≤ d.exponent) :
    Spells (d.positionalText wholeFraction) d.value := by
  obtain ⟨e, he⟩ : ∃ e : ℕ, d.exponent = e := ⟨d.exponent.toNat, by omega⟩
  unfold positionalText
  rw [if_pos h, he, Int.toNat_natCast]
  have hwhole : Digits (d.digits ++ List.replicate e '0') :=
    ⟨List.append_ne_nil_of_left_ne_nil d.digits_digits.1 _,
      List.forall_mem_append.mpr ⟨d.digits_digits.2, isDigit_zeros e⟩⟩
  have hvalue : digitsValue (d.digits ++ List.replicate e '0') = d.coefficient * 10 ^ e := by
    rw [digitsValue_append, digitsValue_digits, digitsValue_zeros, List.length_replicate, add_zero]
  have hnumber : d.value = (d.coefficient * 10 ^ e : ℕ) := by
    rw [value, he, zpow_natCast]
    push_cast
    rfl
  rw [hnumber]
  cases wholeFraction with
  | false =>
    have hspells := @spells_whole _ [] 0 hwhole (by simp) rfl
    rwa [hvalue, zpow_zero, mul_one] at hspells
  | true =>
    have hspells := @spells_fraction _ ['0'] [] 0 hwhole (by simp) (by simp) rfl
    have hzero : digitsValue ['0'] = 0 := rfl
    have hshift : ((d.coefficient * 10 ^ e * 10 ^ ['0'].length + 0 : ℕ) : ℚ) *
        10 ^ ((0 : ℤ) - ['0'].length) = (d.coefficient * 10 ^ e : ℕ) := by
      rw [List.length_singleton]
      push_cast
      rw [add_zero, mul_assoc, show (10 : ℚ) * 10 ^ (-1 : ℤ) = 1 by norm_num, mul_one]
    rwa [digitsValue_append, hvalue, hzero, hshift] at hspells

/-- The point among the digits, or in front of them behind a zero. -/
theorem spells_positionalText_of_neg (wholeFraction : Bool) {d : Decimal} (h : d.exponent < 0) :
    Spells (d.positionalText wholeFraction) d.value := by
  obtain ⟨k, hk⟩ : ∃ k : ℕ, d.exponent = -k := ⟨(-d.exponent).toNat, by omega⟩
  unfold positionalText
  rw [if_neg (by omega), show d.exponent.natAbs = k by omega]
  dsimp only
  generalize hpadded : List.replicate (k + 1 - d.digits.length) '0' ++ d.digits = padded
  have hall : ∀ c ∈ padded, c.isDigit = true := by
    rw [← hpadded]
    exact List.forall_mem_append.mpr ⟨isDigit_zeros _, d.digits_digits.2⟩
  have hlength : k + 1 ≤ padded.length := by
    rw [← hpadded, List.length_append, List.length_replicate]
    omega
  have hvalue : digitsValue padded = d.coefficient := by
    rw [← hpadded, digitsValue_append, digitsValue_zeros, digitsValue_digits, zero_mul, zero_add]
  have hwhole : Digits (padded.take (padded.length - k)) := by
    refine ⟨?_, fun c hc => hall c (List.mem_of_mem_take hc)⟩
    rw [Ne, List.take_eq_nil_iff, not_or]
    exact ⟨by omega, List.ne_nil_of_length_pos (by omega)⟩
  have hspells := @spells_fraction _ (padded.drop (padded.length - k)) [] 0 hwhole
    (fun c hc => hall c (List.mem_of_mem_drop hc)) (by simp) rfl
  have hexponent : (0 : ℤ) - (padded.length - (padded.length - k) : ℕ) = d.exponent := by omega
  rwa [List.take_append_drop, List.append_nil, hvalue, List.length_drop, hexponent] at hspells

theorem spells_positionalText (wholeFraction : Bool) (d : Decimal) :
    Spells (d.positionalText wholeFraction) d.value := by
  by_cases h : 0 ≤ d.exponent
  · exact spells_positionalText_of_nonneg wholeFraction h
  · exact spells_positionalText_of_neg wholeFraction (by omega)

/-- An exponent is read with or without a plus. -/
theorem readExponent?_of_sign {plus : List Char} (hplus : plus = [] ∨ plus = ['+']) (e : ℤ) :
    readExponent? ('e' :: ((if e < 0 then ['-'] else plus) ++ Nat.toDigits 10 e.natAbs)) =
      some e := by
  have hdigits := digits_toDigits e.natAbs
  show readInteger? _ = some e
  split
  · rename_i hneg
    rw [List.singleton_append, readInteger?_of_sign (.inr rfl) hdigits, if_pos rfl,
      digitsValue_toDigits]
    exact congrArg some (by omega)
  · rename_i hnonneg
    obtain rfl | rfl := hplus
    · rw [List.nil_append, readInteger?_of_digits hdigits, digitsValue_toDigits]
      exact congrArg some (by omega)
    · rw [List.singleton_append, readInteger?_of_sign (.inl rfl) hdigits, if_neg (by decide),
        digitsValue_toDigits]
      exact congrArg some (by omega)

theorem spells_scientificText {plus : List Char} (hplus : plus = [] ∨ plus = ['+']) (d : Decimal) :
    Spells (d.scientificText plus) d.value := by
  have hexponent := readExponent?_of_sign hplus d.leadingExponent
  have hvalue := d.digitsValue_digits
  unfold scientificText value
  unfold leadingExponent at hexponent ⊢
  obtain ⟨hne, hdigits⟩ := d.digits_digits
  generalize d.digits = digits at hexponent hvalue hne hdigits
  obtain ⟨c, cs, rfl⟩ := List.exists_cons_of_ne_nil hne
  obtain ⟨hc, hcs⟩ := List.forall_mem_cons.mp hdigits
  have hwhole : Digits [c] := ⟨List.cons_ne_nil _ _, by simpa using hc⟩
  dsimp only [List.take_succ_cons, List.take_zero, List.drop_succ_cons, List.drop_zero]
  rw [List.append_assoc _ ('e' :: _), List.cons_append]
  cases cs with
  | nil =>
    have h := spells_whole hwhole (by simp) hexponent
    rw [hvalue] at h
    simpa using h
  | cons c' cs =>
    have h := spells_fraction hwhole hcs (by simp) hexponent
    have hexponent' : d.exponent + ((c :: c' :: cs).length : ℤ) - 1 - ((c' :: cs).length : ℤ) =
        d.exponent := by
      push_cast [List.length_cons]
      ring
    have hdigits' : digitsValue ([c] ++ c' :: cs) = d.coefficient := hvalue
    rw [hexponent', hdigits'] at h
    simpa using h

/-- A layout spells each decimal. -/
theorem spells_text {l : Layout} (hplus : l.plus = [] ∨ l.plus = ['+']) (d : Decimal) :
    Spells (d.text l) d.value := by
  unfold text
  split
  · exact d.spells_positionalText _
  · exact d.spells_scientificText hplus

end Decimal

/-! ## Literals -/

theorem toLower_of_isDigit {c : Char} (h : c.isDigit = true) : c.toLower = c := by
  rw [Char.isDigit_iff_toNat] at h
  unfold Char.toLower
  rw [dif_neg]
  rintro ⟨hge, -⟩
  have hletter : 'A'.toNat ≤ c.toNat := UInt32.le_iff_toNat_le.mp hge
  have hlt : '9'.toNat < 'A'.toNat := by decide
  omega

theorem readWord?_of_digit {c : Char} {cs : List Char} (h : c.isDigit = true) :
    readWord? (c :: cs) = none := by
  have hne : ∀ c' word, c'.isDigit = false → (c :: cs).map Char.toLower ≠ c' :: word := by
    rintro c' word hc' heq
    obtain ⟨rfl, -⟩ := List.cons.inj heq
    rw [toLower_of_isDigit h, h] at hc'
    cases hc'
  unfold readWord?
  dsimp only
  rw [if_neg, if_neg]
  · exact hne 'n' _ (by decide)
  · rintro (heq | heq)
    · exact hne 'i' _ (by decide) heq
    · exact hne 'i' _ (by decide) heq

/-- A sign and a number that starts with a digit are a literal. -/
theorem readFloat?_of_spells {cs : List Char} {x : ℚ} (negative : Bool) (h : Spells cs x) :
    ∃ d : Decimal, d.value = x ∧ readFloat? ((if negative then ['-'] else []) ++ cs) =
      some (if negative then -d.toFloat else d.toFloat) := by
  obtain ⟨⟨c, hc, hdigit⟩, d, hread, hvalue⟩ := h
  obtain ⟨cs, rfl⟩ : ∃ rest, cs = c :: rest := List.head?_eq_some_iff.mp hc
  refine ⟨d, hvalue, ?_⟩
  unfold readFloat?
  cases negative with
  | false =>
    rw [if_neg Bool.false_ne_true, if_neg Bool.false_ne_true, List.nil_append,
      splitSign_of_digit hdigit]
    simp [readWord?_of_digit hdigit, hread]
  | true =>
    rw [if_pos rfl, if_pos rfl, List.singleton_append, splitSign, if_pos (.inr rfl)]
    simp [readWord?_of_digit hdigit, hread]

/-! ## Floats -/

theorem Decimal.toFloat_of_value_eq_zero {d : Decimal} (h : d.value = 0) : d.toFloat = 0.0 := by
  rw [← value_normalize] at h
  have hzero : d.normalize.coefficient = 0 := by
    have hpow : (10 : ℚ) ^ d.normalize.exponent ≠ 0 := by positivity
    exact_mod_cast (mul_eq_zero.mp h).resolve_right hpow
  unfold toFloat
  dsimp only
  rw [if_pos hzero]

open Float.Model Float.Model.UnpackedFloat in
/-- Negating a float changes its sign. -/
theorem Stands.neg {x : Float} {m : ℕ} {q : ℤ} (h : Stands x .positive m q) :
    Stands (-x) .negative m q := by
  have hc := h.canonical
  obtain ⟨hm, hx⟩ := h
  show Stands (.ofModel (pack (UnpackedFloat.neg x.toModel.unpack))) _ _ _
  rw [hx]
  exact stands_of_canonical hc

/-- A decimal that rounds to the magnitude of a float is read as this float, sign included. -/
theorem signed_toFloat {x : Float} {negative : Bool} {v : Binary} {d : Decimal} {tie : Tie}
    (hx : FloatValue.ofFloat x = .finite negative v) (hd : d.value = (v.shortest tie).value) :
    (if negative then -d.toFloat else d.toFloat) = x := by
  have hunpack := unpack_eq_unpacked x
  rw [hx, FloatValue.unpacked] at hunpack
  split at hunpack
  · rename_i hzero
    have hvalue : d.value = 0 := by
      rw [hd, Binary.shortest, if_pos hzero]
      exact zero_mul _
    rw [Decimal.toFloat_of_value_eq_zero hvalue]
    refine eq_of_unpack_eq (Eq.trans ?_ hunpack.symm)
    cases negative <;> rfl
  · rename_i hne
    obtain ⟨hc, hnarrow⟩ := FloatValue.canonical_of_ofFloat hx hne
    have hround := hd ▸ Binary.roundsTo_shortest ⟨hc, hnarrow⟩ tie
    have hstands := Decimal.stands_toFloat hc hround
    refine Stands.unique ?_ ⟨hc.pos, hunpack⟩
    cases negative with
    | false => exact hstands
    | true => exact hstands.neg

theorem readFloat?_floatText {l : Layout} (hplus : l.plus = [] ∨ l.plus = ['+']) {x : Float}
    (h : x.isFinite = true) : readFloat? (l.floatText x).toList = some x := by
  obtain ⟨negative, v, hx⟩ := FloatValue.exists_ofFloat h
  obtain ⟨d, hvalue, hread⟩ :=
    readFloat?_of_spells negative (Decimal.spells_text hplus (v.shortest l.tie))
  unfold Layout.floatText
  rw [hx]
  dsimp only
  rw [String.toList_ofList, hread, signed_toFloat hx hvalue]

/-! ## Words of numbers -/

open Token in
theorem Decimal.mem_exponentWords_of_readExponent? {cs : List Char} {n : ℤ}
    (h : readExponent? cs = some n) : cs ∈ 1 + exponentWords := by
  cases cs with
  | nil => exact .inl rfl
  | cons c cs =>
    right
    simp only [readExponent?, Option.ite_none_right_eq_some] at h
    obtain ⟨hletter, h⟩ := h
    unfold readInteger? at h
    dsimp only at h
    split at h
    · cases h
    · rename_i hdigits
      rw [Bool.or_eq_true, not_or, Bool.not_eq_true', Bool.not_eq_false] at hdigits
      obtain ⟨hne, hall⟩ := hdigits
      refine mem_exponentWords.mpr ⟨c, hletter, (splitSign cs).1, splitSign_mem cs,
        (splitSign cs).2, ?_, ?_, by rw [splitSign_append]⟩
      · simpa using hne
      · exact fun d hd => isDecimalDigit_of_isDigit (List.all_eq_true.mp hall d hd)

open Token in
/-- Every number that can be read is a word of numbers. -/
theorem Decimal.mem_words_of_read? {cs : List Char} {d : Decimal} (h : read? cs = some d) :
    ∃ mantissa ∈ mantissaWords, ∃ exponent ∈ 1 + exponentWords, cs = mantissa ++ exponent := by
  have hdigits : ∀ cs, ∀ c ∈ (splitWhile Char.isDigit cs).1, isDecimalDigit c = true :=
    fun cs c hc => isDecimalDigit_of_isDigit (List.mem_takeWhile_imp hc)
  have hwhole := splitWhile_append Char.isDigit cs
  have hwholeDigits := hdigits cs
  unfold read? at h
  dsimp only at h
  generalize (splitWhile Char.isDigit cs).1 = whole at h hwhole hwholeDigits
  generalize (splitWhile Char.isDigit cs).2 = rest at h hwhole
  split at h
  · rename_i behind
    have hfraction := splitWhile_append Char.isDigit behind
    have hfractionDigits := hdigits behind
    generalize (splitWhile Char.isDigit behind).1 = fraction at h hfraction hfractionDigits
    generalize (splitWhile Char.isDigit behind).2 = rest at h hfraction
    rw [Option.ite_none_left_eq_some] at h
    obtain ⟨hne, h⟩ := h
    obtain ⟨n, hn, -⟩ := Option.map_eq_some_iff.mp h
    refine ⟨whole ++ '.' :: fraction, ?_, rest, mem_exponentWords_of_readExponent? hn, ?_⟩
    · refine mem_mantissaWords.mpr ⟨whole, hwholeDigits, .inr ⟨fraction, hfractionDigits, ?_, rfl⟩⟩
      rw [Bool.and_eq_true, not_and_or] at hne
      simpa using hne
    · rw [← hwhole, ← hfraction, List.append_assoc, List.cons_append]
  · rw [Option.ite_none_left_eq_some] at h
    obtain ⟨hne, h⟩ := h
    obtain ⟨n, hn, -⟩ := Option.map_eq_some_iff.mp h
    refine ⟨whole, ?_, rest, mem_exponentWords_of_readExponent? hn, hwhole.symm⟩
    exact mem_mantissaWords.mpr ⟨whole, hwholeDigits, .inl ⟨by simpa using hne, rfl⟩⟩

theorem Layout.floatText_mem_numberWords {l : Layout} (hplus : l.plus = [] ∨ l.plus = ['+'])
    {x : Float} (h : x.isFinite = true) : (l.floatText x).toList ∈ Token.numberWords := by
  obtain ⟨negative, v, hx⟩ := FloatValue.exists_ofFloat h
  obtain ⟨-, d, hread, -⟩ := Decimal.spells_text hplus (v.shortest l.tie)
  obtain ⟨mantissa, hmantissa, exponent, hexponent, htext⟩ := Decimal.mem_words_of_read? hread
  unfold Layout.floatText
  rw [hx]
  dsimp only
  rw [String.toList_ofList, htext, ← List.append_assoc]
  refine Token.mem_numberWords.mpr ⟨_, ?_, mantissa, hmantissa, exponent, hexponent, rfl⟩
  rw [Token.mem_optional_signWords]
  cases negative with
  | false => exact .inl rfl
  | true => exact .inr ⟨'-', .inr rfl, rfl⟩

/-! ## Numbers -/

theorem Text.trim_of_forall {cs : List Char} (h : ∀ c ∈ cs, isBlank c = false) : trim cs = cs := by
  have hdrop : ∀ cs : List Char, (∀ c ∈ cs, isBlank c = false) → dropBlanks cs = cs := by
    intro cs h
    cases cs with
    | nil => rfl
    | cons c cs =>
      have hc := h c List.mem_cons_self
      exact List.dropWhile_cons_of_neg (by simp [hc])
  unfold trim
  rw [hdrop cs h, hdrop cs.reverse fun c hc => h c (List.mem_reverse.mp hc), List.reverse_reverse]

/-- The text of a finite float is read as this float. -/
theorem readNumber_floatText {l : Layout} (hplus : l.plus = [] ∨ l.plus = ['+']) {x : Float}
    (h : x.isFinite = true) : readNumber (l.floatText x) = .ok x := by
  have hword : (Token.number (l.floatText x)).WellFormed := l.floatText_mem_numberWords hplus h
  have htrim : trim (l.floatText x).toList = (l.floatText x).toList :=
    trim_of_forall fun c hc => Token.not_isBlank_of_occurs (Token.occurs_of_mem_text hword c hc)
  unfold readNumber
  dsimp only
  rw [htrim, readFloat?_floatText hplus h]
  exact if_pos h

end UnitCalc
