import Mathlib.Computability.Language
import Mathlib.Data.List.TakeWhile
import UnitCalc.Expression.Token

/-!
# Proofs: the languages of tokens

What a number and a unit look like is stated here as regular languages, without regard to how a text
is scanned. `Token.splitNumber?` and `Token.splitUnit?` take the longest words of these languages.
-/

open Computability

namespace UnitCalc

open Text

namespace Token

/-! ## Words -/

/-- The words of one character that satisfies `p`. -/
def oneOf (p : Char → Bool) : Language Char := {w | ∃ c, p c = true ∧ w = [c]}

/-- The words of one or more characters that all satisfy `p`. -/
def runOf (p : Char → Bool) : Language Char := oneOf p * (oneOf p)∗

/-- A plus or a minus. -/
def signWords : Language Char := oneOf fun c => c == '+' || c == '-'

/-- A decimal point. -/
def pointWords : Language Char := oneOf (· == '.')

/-- Digits with an optional fraction, which may be empty, or a point and digits. -/
def mantissaWords : Language Char :=
  runOf isDecimalDigit * (1 + pointWords * (oneOf isDecimalDigit)∗) +
    pointWords * runOf isDecimalDigit

/-- The letter `e` of either case, an optional sign and digits. -/
def exponentWords : Language Char :=
  oneOf (fun c => c == 'e' || c == 'E') * (1 + signWords) * runOf isDecimalDigit

/-- Numbers: an optional sign, a mantissa and an optional exponent. -/
def numberWords : Language Char := (1 + signWords) * mantissaWords * (1 + exponentWords)

/-- Units: an optional degree sign and letters. -/
def unitWords : Language Char := (1 + oneOf (·.toNat == 0xB0)) * runOf isUnitLetter

/-! ## Membership -/

theorem mem_oneOf {p : Char → Bool} {w : List Char} : w ∈ oneOf p ↔ ∃ c, p c = true ∧ w = [c] :=
  Iff.rfl

theorem mem_kstar_oneOf {p : Char → Bool} {w : List Char} :
    w ∈ (oneOf p)∗ ↔ ∀ c ∈ w, p c = true := by
  rw [Language.mem_kstar]
  constructor
  · rintro ⟨words, rfl, h⟩ c hc
    obtain ⟨w, hw, hcw⟩ := List.mem_flatten.mp hc
    obtain ⟨d, hd, rfl⟩ := h w hw
    rw [List.mem_singleton.mp hcw]
    exact hd
  · intro h
    refine ⟨w.map fun c => [c], (List.flatMap_singleton' w).symm, ?_⟩
    intro v hv
    obtain ⟨c, hc, rfl⟩ := List.mem_map.mp hv
    exact ⟨c, h c hc, rfl⟩

theorem mem_runOf {p : Char → Bool} {w : List Char} :
    w ∈ runOf p ↔ w ≠ [] ∧ ∀ c ∈ w, p c = true := by
  simp only [runOf, Language.mem_mul, mem_kstar_oneOf, mem_oneOf]
  constructor
  · rintro ⟨_, ⟨c, hc, rfl⟩, v, hv, rfl⟩
    exact ⟨by simp, by simpa [hc] using hv⟩
  · rintro ⟨hne, h⟩
    cases w with
    | nil => exact absurd rfl hne
    | cons c v =>
      exact ⟨[c], ⟨c, h c (by simp), rfl⟩, v, fun d hd => h d (by simp [hd]), rfl⟩

theorem mem_mantissaWords {v : List Char} :
    v ∈ mantissaWords ↔ ∃ whole, (∀ c ∈ whole, isDecimalDigit c = true) ∧
      (whole ≠ [] ∧ v = whole ∨ ∃ fraction, (∀ c ∈ fraction, isDecimalDigit c = true) ∧
        (whole ≠ [] ∨ fraction ≠ []) ∧ v = whole ++ '.' :: fraction) := by
  simp only [mantissaWords, pointWords, Language.mem_add, Language.mem_mul, Language.mem_one,
    mem_runOf, mem_kstar_oneOf, mem_oneOf, beq_iff_eq]
  constructor
  · rintro (⟨whole, ⟨hne, hw⟩, _, (rfl | ⟨_, ⟨_, rfl, rfl⟩, f, hf, rfl⟩), rfl⟩ |
      ⟨_, ⟨_, rfl, rfl⟩, f, ⟨hne, hf⟩, rfl⟩)
    · exact ⟨whole, hw, Or.inl ⟨hne, List.append_nil _⟩⟩
    · exact ⟨whole, hw, Or.inr ⟨f, hf, Or.inl hne, rfl⟩⟩
    · exact ⟨[], by simp, Or.inr ⟨f, hf, Or.inr hne, rfl⟩⟩
  · rintro ⟨whole, hw, (⟨hne, rfl⟩ | ⟨f, hf, hne, rfl⟩)⟩
    · exact Or.inl ⟨v, ⟨hne, hw⟩, [], Or.inl rfl, List.append_nil _⟩
    · cases whole with
      | nil => exact Or.inr ⟨['.'], ⟨'.', rfl, rfl⟩, f, ⟨hne.resolve_left (by simp), hf⟩, rfl⟩
      | cons c whole =>
        exact Or.inl ⟨c :: whole, ⟨by simp, hw⟩, '.' :: f,
          Or.inr ⟨['.'], ⟨'.', rfl, rfl⟩, f, hf, rfl⟩, rfl⟩

theorem mem_optional_signWords {v : List Char} :
    v ∈ 1 + signWords ↔ v = [] ∨ ∃ c, (c = '+' ∨ c = '-') ∧ v = [c] := by
  simp only [signWords, Language.mem_add, Language.mem_one, mem_oneOf, Bool.or_eq_true, beq_iff_eq]

theorem mem_exponentWords {v : List Char} :
    v ∈ exponentWords ↔ ∃ c, (c = 'e' ∨ c = 'E') ∧ ∃ sign ∈ 1 + signWords, ∃ digits, digits ≠ [] ∧
      (∀ d ∈ digits, isDecimalDigit d = true) ∧ v = c :: (sign ++ digits) := by
  simp only [exponentWords, Language.mem_mul, mem_runOf, mem_oneOf, Bool.or_eq_true, beq_iff_eq]
  constructor
  · rintro ⟨_, ⟨_, ⟨c, hc, rfl⟩, sign, hs, rfl⟩, digits, ⟨hne, hd⟩, rfl⟩
    exact ⟨c, hc, sign, hs, digits, hne, hd, by simp⟩
  · rintro ⟨c, hc, sign, hs, digits, hne, hd, rfl⟩
    exact ⟨c :: sign, ⟨[c], ⟨c, hc, rfl⟩, sign, hs, rfl⟩, digits, ⟨hne, hd⟩, by simp⟩

theorem mem_numberWords {v : List Char} :
    v ∈ numberWords ↔ ∃ sign ∈ 1 + signWords, ∃ mantissa ∈ mantissaWords,
      ∃ exponent ∈ 1 + exponentWords, v = sign ++ mantissa ++ exponent := by
  simp only [numberWords, Language.mem_mul]
  constructor
  · rintro ⟨_, ⟨sign, hs, mantissa, hm, rfl⟩, exponent, he, rfl⟩
    exact ⟨sign, hs, mantissa, hm, exponent, he, rfl⟩
  · rintro ⟨sign, hs, mantissa, hm, exponent, he, rfl⟩
    exact ⟨sign ++ mantissa, ⟨sign, hs, mantissa, hm, rfl⟩, exponent, he, rfl⟩

theorem mem_unitWords {v : List Char} :
    v ∈ unitWords ↔ ∃ degree, (degree = [] ∨ ∃ c, c.toNat = 0xB0 ∧ degree = [c]) ∧
      ∃ letters, letters ≠ [] ∧ (∀ c ∈ letters, isUnitLetter c = true) ∧
        v = degree ++ letters := by
  simp only [unitWords, Language.mem_mul, Language.mem_add, Language.mem_one, mem_runOf, mem_oneOf,
    beq_iff_eq]
  constructor
  · rintro ⟨degree, hd, letters, ⟨hne, hl⟩, rfl⟩
    exact ⟨degree, hd, letters, hne, hl, rfl⟩
  · rintro ⟨degree, hd, letters, hne, hl, rfl⟩
    exact ⟨degree, hd, letters, ⟨hne, hl⟩, rfl⟩

/-! ## The longest word -/

/-- A scanner takes the longest word of a language at the start of a text, and fails only when the
text starts with none. -/
structure Takes (scan : List Char → Option (List Char × List Char)) (L : Language Char) : Prop where
  /-- What is taken is a word at the start of the text. -/
  sound : ∀ {cs w rest}, scan cs = some (w, rest) → w ∈ L ∧ w ++ rest = cs
  /-- No longer word is missed. -/
  longest : ∀ {cs v}, v ∈ L → v <+: cs → ∃ w rest, scan cs = some (w, rest) ∧ v.length ≤ w.length

/-- A start of a text whose characters all satisfy `p` is no longer than the longest such start. -/
theorem length_le_takeWhile {p : Char → Bool} {w cs : List Char} (h : w <+: cs)
    (all : ∀ c ∈ w, p c = true) : w.length ≤ (cs.takeWhile p).length := by
  obtain ⟨rest, rfl⟩ := h
  rw [List.takeWhile_append_of_pos all, List.length_append]
  omega

theorem isDecimalDigit_splitDigits (cs : List Char) :
    ∀ c ∈ (splitDigits cs).1, isDecimalDigit c = true :=
  fun _ hc => List.mem_takeWhile_imp hc

theorem length_le_splitDigits {w cs : List Char} (h : w <+: cs)
    (all : ∀ c ∈ w, isDecimalDigit c = true) : w.length ≤ (splitDigits cs).1.length :=
  length_le_takeWhile h all

theorem splitDigits_append_cons {w cs : List Char} {c : Char}
    (all : ∀ d ∈ w, isDecimalDigit d = true) (hc : isDecimalDigit c = false) :
    splitDigits (w ++ c :: cs) = (w, c :: cs) := by
  rw [splitDigits, splitWhile, List.takeWhile_append_of_pos all, List.dropWhile_append_of_pos all,
    List.takeWhile_cons_of_neg (by simp [hc]), List.dropWhile_cons_of_neg (by simp [hc]),
    List.append_nil]

theorem splitMantissa?_mem {cs w rest : List Char} (h : splitMantissa? cs = some (w, rest)) :
    w ∈ mantissaWords := by
  have whole := isDecimalDigit_splitDigits cs
  rw [mem_mantissaWords]
  simp only [splitMantissa?] at h
  split at h
  · rename_i c behind heq
    split at h
    · simp only [Option.ite_none_left_eq_some, Option.some.injEq, Prod.mk.injEq] at h
      obtain ⟨nonempty, rfl, rfl⟩ := h
      refine ⟨_, whole, Or.inr ⟨_, isDecimalDigit_splitDigits behind, ?_, rfl⟩⟩
      simpa [imp_iff_not_or] using nonempty
    · simp only [Option.ite_none_left_eq_some, Option.some.injEq, Prod.mk.injEq] at h
      obtain ⟨nonempty, rfl, rfl⟩ := h
      exact ⟨_, whole, Or.inl ⟨by simpa using nonempty, rfl⟩⟩
  · simp only [Option.ite_none_left_eq_some, Option.some.injEq, Prod.mk.injEq] at h
    obtain ⟨nonempty, rfl, rfl⟩ := h
    exact ⟨_, whole, Or.inl ⟨by simpa using nonempty, rfl⟩⟩

/-- Whatever follows the digits at the start of a text, a mantissa takes at least these digits. -/
theorem splitMantissa?_of_digits (cs : List Char) (h : (splitDigits cs).1 ≠ []) :
    ∃ w rest, splitMantissa? cs = some (w, rest) ∧ (splitDigits cs).1.length ≤ w.length := by
  simp only [splitMantissa?]
  split
  · split
    · exact ⟨_, _, if_neg (by simp [h]), by simp⟩
    · exact ⟨_, _, if_neg (by simpa using h), Nat.le_refl _⟩
  · exact ⟨_, _, if_neg (by simpa using h), Nat.le_refl _⟩

theorem splitMantissa?_takes : Takes splitMantissa? mantissaWords where
  sound h := ⟨splitMantissa?_mem h, (splitMantissa?_append h).1⟩
  longest {cs v} hv hvs := by
    obtain ⟨d, hd, (⟨hne, rfl⟩ | ⟨f, hf, hne, rfl⟩)⟩ := mem_mantissaWords.mp hv
    · have hle := length_le_splitDigits hvs hd
      have hpos := List.length_pos_iff.mpr hne
      obtain ⟨w, rest, hw, hlen⟩ :=
        splitMantissa?_of_digits cs (List.length_pos_iff.mp (by omega))
      exact ⟨w, rest, hw, by omega⟩
    · obtain ⟨t, rfl⟩ := hvs
      have hle := length_le_splitDigits (List.prefix_append f t) hf
      have nonempty : ¬ (d.isEmpty && (splitDigits (f ++ t)).1.isEmpty) = true := by
        rw [Bool.and_eq_true, List.isEmpty_iff, List.isEmpty_iff]
        rintro ⟨rfl, hfraction⟩
        rw [hfraction, List.length_nil, Nat.le_zero, List.length_eq_zero_iff] at hle
        exact hne.elim (· rfl) (· hle)
      refine ⟨d ++ '.' :: (splitDigits (f ++ t)).1, (splitDigits (f ++ t)).2, ?_,
        by simpa using hle⟩
      rw [List.append_assoc, List.cons_append, splitMantissa?,
        splitDigits_append_cons hd (by decide)]
      dsimp only
      rw [if_pos rfl, if_neg nonempty]

/-! ## Signs and exponents -/

theorem splitSign_mem (cs : List Char) : (splitSign cs).1 ∈ 1 + signWords := by
  rw [mem_optional_signWords]
  cases cs with
  | nil => exact Or.inl rfl
  | cons c cs =>
    simp only [splitSign]
    split
    · rename_i h
      exact Or.inr ⟨c, h, rfl⟩
    · exact Or.inl rfl

/-- An optional sign is split off unless another sign follows. -/
theorem splitSign_append_of_mem {sign cs : List Char} (hs : sign ∈ 1 + signWords)
    (h : ∀ c ∈ cs.head?, ¬ (c = '+' ∨ c = '-')) : splitSign (sign ++ cs) = (sign, cs) := by
  rcases mem_optional_signWords.mp hs with rfl | ⟨c, hc, rfl⟩
  · cases cs with
    | nil => rfl
    | cons c cs => exact if_neg (h c rfl)
  · exact if_pos hc

theorem splitExponent_mem (cs : List Char) : (splitExponent cs).1 ∈ 1 + exponentWords := by
  rw [Language.mem_add, Language.mem_one]
  cases cs with
  | nil => exact Or.inl rfl
  | cons c cs =>
    simp only [splitExponent]
    split
    · rename_i hc
      split
      · exact Or.inl rfl
      · rename_i nonempty
        exact Or.inr (mem_exponentWords.mpr ⟨c, hc, _, splitSign_mem cs, _, by simpa using nonempty,
          isDecimalDigit_splitDigits _, rfl⟩)
    · exact Or.inl rfl

theorem not_sign_of_isDecimalDigit {c : Char} (h : isDecimalDigit c = true) :
    ¬ (c = '+' ∨ c = '-') := by
  rintro (rfl | rfl) <;> exact absurd h (by decide)

theorem forall_head?_append {P : Char → Prop} {w rest : List Char} (hne : w ≠ [])
    (h : ∀ c ∈ w, P c) : ∀ c ∈ (w ++ rest).head?, P c := by
  obtain ⟨c, v, rfl⟩ := List.exists_cons_of_ne_nil hne
  rintro _ ⟨⟩
  exact h c List.mem_cons_self

theorem length_le_splitExponent {v cs : List Char} (hv : v ∈ exponentWords) (hvs : v <+: cs) :
    v.length ≤ (splitExponent cs).1.length := by
  obtain ⟨c, hc, sign, hs, digits, hne, hd, rfl⟩ := mem_exponentWords.mp hv
  obtain ⟨t, rfl⟩ := hvs
  have hle := length_le_splitDigits (List.prefix_append digits t) hd
  have hhead : ∀ d ∈ (digits ++ t).head?, ¬ (d = '+' ∨ d = '-') :=
    forall_head?_append hne fun d hmem => not_sign_of_isDecimalDigit (hd d hmem)
  have hpos := List.length_pos_iff.mpr hne
  have nonempty : ¬ (splitDigits (digits ++ t)).1.isEmpty = true := by
    rw [List.isEmpty_iff, ← List.length_eq_zero_iff]
    omega
  rw [List.cons_append, List.append_assoc, splitExponent, if_pos hc,
    splitSign_append_of_mem hs hhead]
  dsimp only
  rw [if_neg nonempty]
  simp only [List.length_cons, List.length_append]
  omega

/-! ## Numbers and units -/

theorem eq_of_mem_mantissaWords {w : List Char} (h : w ∈ mantissaWords) :
    w ≠ [] ∧ ∀ c ∈ w, isDecimalDigit c = true ∨ c = '.' := by
  obtain ⟨d, hd, (⟨hne, rfl⟩ | ⟨f, hf, -, rfl⟩)⟩ := mem_mantissaWords.mp h
  · exact ⟨hne, fun c hc => Or.inl (hd c hc)⟩
  · refine ⟨by simp, fun c hc => ?_⟩
    rcases List.mem_append.mp hc with hc | hc
    · exact Or.inl (hd c hc)
    · rcases List.mem_cons.mp hc with rfl | hc
      · exact Or.inr rfl
      · exact Or.inl (hf c hc)

/-- A mantissa does not start with a sign. -/
theorem not_sign_of_mem_mantissaWords {m rest : List Char} (hm : m ∈ mantissaWords) :
    ∀ c ∈ (m ++ rest).head?, ¬ (c = '+' ∨ c = '-') := by
  obtain ⟨hne, hall⟩ := eq_of_mem_mantissaWords hm
  refine forall_head?_append hne fun c hc => ?_
  rcases hall c hc with hd | rfl
  · exact not_sign_of_isDecimalDigit hd
  · decide

/-- No mantissa reaches into the exponent behind it. -/
theorem eq_of_mantissa_of_exponent {m w x cs : List Char} (hw : w ∈ mantissaWords)
    (hx : x ∈ exponentWords) (h : w <+: m ++ x ++ cs) (hle : m.length ≤ w.length) : w = m := by
  obtain ⟨e, he, sign, -, digits, -, -, rfl⟩ := mem_exponentWords.mp hx
  obtain ⟨u, rfl⟩ : m <+: w :=
    List.prefix_of_prefix_length_le ⟨e :: (sign ++ digits) ++ cs, by simp⟩ h hle
  cases u with
  | nil => exact List.append_nil m
  | cons c u =>
    rw [List.append_assoc, List.prefix_append_right_inj, List.cons_append,
      List.cons_prefix_cons] at h
    obtain ⟨rfl, -⟩ := h
    have hc := (eq_of_mem_mantissaWords hw).2 c (by simp)
    rcases he with rfl | rfl <;> exact absurd hc (by decide)

theorem splitNumber?_mem {cs w rest : List Char} (h : splitNumber? cs = some (w, rest)) :
    w ∈ numberWords := by
  simp only [splitNumber?] at h
  split at h
  · cases h
  · rename_i mantissa behind heq
    simp only [Option.some.injEq, Prod.mk.injEq] at h
    obtain ⟨rfl, rfl⟩ := h
    exact mem_numberWords.mpr
      ⟨_, splitSign_mem cs, _, splitMantissa?_mem heq, _, splitExponent_mem behind, rfl⟩

theorem splitNumber?_takes : Takes splitNumber? numberWords where
  sound h := ⟨splitNumber?_mem h, (splitNumber?_append h).1⟩
  longest {cs v} hv hvs := by
    obtain ⟨sign, hs, m, hm, x, hx, rfl⟩ := mem_numberWords.mp hv
    obtain ⟨t, rfl⟩ := hvs
    have hhead : ∀ c ∈ (m ++ x ++ t).head?, ¬ (c = '+' ∨ c = '-') := by
      rw [List.append_assoc]
      exact not_sign_of_mem_mantissaWords hm
    obtain ⟨w, behind, hw, hle⟩ :=
      splitMantissa?_takes.longest hm (List.append_assoc m x t ▸ List.prefix_append m (x ++ t))
    obtain ⟨hwm, hcut⟩ := splitMantissa?_takes.sound hw
    refine ⟨sign ++ w ++ (splitExponent behind).1, (splitExponent behind).2, ?_, ?_⟩
    · rw [List.append_assoc, List.append_assoc, ← List.append_assoc m, splitNumber?,
        splitSign_append_of_mem hs hhead]
      dsimp only
      rw [hw]
    · rw [Language.mem_add, Language.mem_one] at hx
      simp only [List.length_append]
      rcases hx with rfl | hx
      · rw [List.length_nil]
        omega
      · -- the mantissa taken is the one of the word, so the exponent of the word stands behind it
        obtain rfl := eq_of_mantissa_of_exponent hwm hx ⟨behind, hcut⟩ hle
        rw [List.append_assoc, List.append_cancel_left_eq] at hcut
        have := length_le_splitExponent hx ⟨t, hcut.symm⟩
        omega

theorem splitUnit?_takes : Takes splitUnit? unitWords where
  sound {cs w rest} h := by
    refine ⟨?_, (splitUnit?_append h).1⟩
    simp only [splitUnit?, Option.ite_none_left_eq_some, Option.some.injEq, Prod.mk.injEq] at h
    obtain ⟨nonempty, rfl, rfl⟩ := h
    refine mem_unitWords.mpr ⟨_, ?_, _, List.isEmpty_iff.not.mp nonempty,
      fun c hc => List.mem_takeWhile_imp hc, rfl⟩
    cases cs with
    | nil => exact Or.inl rfl
    | cons c cs =>
      simp only [splitDegree]
      split
      · rename_i hc
        exact Or.inr ⟨c, hc, rfl⟩
      · exact Or.inl rfl
  longest {cs v} hv hvs := by
    obtain ⟨degree, hd, letters, hne, hl, rfl⟩ := mem_unitWords.mp hv
    obtain ⟨t, rfl⟩ := hvs
    have hle := length_le_takeWhile (List.prefix_append letters t) hl
    have hdegree : splitDegree (degree ++ letters ++ t) = (degree, letters ++ t) := by
      rcases hd with rfl | ⟨c, hc, rfl⟩
      · cases letters with
        | nil => exact absurd rfl hne
        | cons c letters =>
          refine if_neg fun hc => ?_
          obtain rfl : c = Char.ofNat 0xB0 := by rw [← hc, Char.ofNat_toNat]
          exact absurd (hl (Char.ofNat 0xB0) (by simp)) (by decide)
      · exact if_pos hc
    have hpos := List.length_pos_iff.mpr hne
    have nonempty : ¬ (splitWhile isUnitLetter (letters ++ t)).1.isEmpty = true := by
      rw [List.isEmpty_iff, ← List.length_eq_zero_iff, splitWhile]
      dsimp only
      omega
    refine ⟨degree ++ (splitWhile isUnitLetter (letters ++ t)).1,
      (splitWhile isUnitLetter (letters ++ t)).2, ?_, by simpa [splitWhile] using hle⟩
    rw [splitUnit?, hdegree]
    dsimp only
    rw [if_neg nonempty]

end Token

end UnitCalc
