import UnitCalc.Proofs.LongestToken

/-!
# Proofs: patterns

A pattern is a regular expression over classes of characters. It says two things: which words belong
to it, and in which order the starts of a text are tried as such words. A repetition prefers more
characters to fewer, an option something to nothing, a choice its first alternative to its second,
and in a sequence the first part chooses before the second. What is preferred to everything else
need not be the longest; for the patterns of numbers and units it is, since `Token.splitNumber?` and
`Token.splitUnit?` take what is preferred.
-/

open Computability

namespace UnitCalc

open Text

/-- A regular expression over classes of characters. -/
inductive Pattern where
  /-- One character that satisfies `p`. -/
  | one (p : Char → Bool)
  /-- Characters that satisfy `p`, as many as possible. -/
  | many (p : Char → Bool)
  /-- A word of `a` and behind it a word of `b`. -/
  | seq (a b : Pattern)
  /-- A word of `a`, or else of `b`. -/
  | either (a b : Pattern)
  /-- A word of `a`, or else nothing. -/
  | optional (a : Pattern)

namespace Pattern

variable {p : Char → Bool} {a b : Pattern} {cs : List Char}

/-- The words of a pattern, whatever it prefers. -/
def words : Pattern → Language Char
  | one p => Token.oneOf p
  | many p => (Token.oneOf p)∗
  | seq a b => a.words * b.words
  | either a b => a.words + b.words
  | optional a => 1 + a.words

/-- A split of the text behind `v`, as a split of the whole text. -/
def behind (v : List Char) (split : List Char × List Char) : List Char × List Char :=
  (v ++ split.1, split.2)

/-- The splits of a text into characters that satisfy `p` and a rest, the longest start first. -/
def runs (p : Char → Bool) : List Char → List (List Char × List Char)
  | [] => [([], [])]
  | c :: cs => if p c then (runs p cs).map (behind [c]) ++ [([], c :: cs)] else [([], c :: cs)]

/-- The splits of a text into a word of a pattern and a rest, in the order of preference. -/
def splits : Pattern → List Char → List (List Char × List Char)
  | one _, [] => []
  | one p, c :: cs => if p c then [([c], cs)] else []
  | many p, cs => runs p cs
  | seq a b, cs => (a.splits cs).flatMap fun split => (b.splits split.2).map (behind split.1)
  | either a b, cs => a.splits cs ++ b.splits cs
  | optional a, cs => a.splits cs ++ [([], cs)]

/-- The split that is preferred to all others. -/
def first? (a : Pattern) (cs : List Char) : Option (List Char × List Char) := (a.splits cs).head?

/-! ## Every word is tried -/

theorem mem_runs {w rest : List Char} :
    (w, rest) ∈ runs p cs ↔ (∀ c ∈ w, p c = true) ∧ w ++ rest = cs := by
  induction cs generalizing w with
  | nil => simp +contextual [runs, and_comm]
  | cons c cs ih =>
    have hempty : (w, rest) = ([], c :: cs) ↔ w = [] ∧ rest = c :: cs := Prod.mk_inj
    rw [runs]
    split
    · rename_i hc
      rw [List.mem_append, List.mem_map, List.mem_singleton, hempty]
      constructor
      · rintro (⟨⟨v, r⟩, hv, heq⟩ | ⟨rfl, rfl⟩)
        · obtain ⟨rfl, rfl⟩ := Prod.mk_inj.mp heq
          obtain ⟨hall, rfl⟩ := ih.mp hv
          exact ⟨by simpa [hc] using hall, rfl⟩
        · exact ⟨by simp, rfl⟩
      · rintro ⟨hall, happ⟩
        cases w with
        | nil => exact .inr ⟨rfl, happ⟩
        | cons d v =>
          obtain ⟨rfl, rfl⟩ := List.cons.inj happ
          exact .inl ⟨(v, rest), ih.mpr ⟨fun e he => hall e (by simp [he]), rfl⟩, rfl⟩
    · rename_i hc
      rw [List.mem_singleton, hempty]
      constructor
      · rintro ⟨rfl, rfl⟩
        exact ⟨by simp, rfl⟩
      · rintro ⟨hall, happ⟩
        cases w with
        | nil => exact ⟨rfl, happ⟩
        | cons d v =>
          obtain ⟨rfl, -⟩ := List.cons.inj happ
          exact absurd (hall d (by simp)) hc

/-- A pattern tries exactly its words at the start of a text. -/
theorem mem_splits {w rest : List Char} :
    (w, rest) ∈ a.splits cs ↔ w ∈ a.words ∧ w ++ rest = cs := by
  induction a generalizing w rest cs with
  | one p =>
    cases cs with
    | nil =>
      simp only [splits, words, List.not_mem_nil, false_iff]
      rintro ⟨⟨c, -, rfl⟩, happ⟩
      cases happ
    | cons c cs =>
      rw [splits, words, Token.mem_oneOf]
      split
      · rename_i hc
        rw [List.mem_singleton, Prod.mk_inj]
        constructor
        · rintro ⟨rfl, rfl⟩
          exact ⟨⟨c, hc, rfl⟩, rfl⟩
        · rintro ⟨⟨d, -, rfl⟩, happ⟩
          obtain ⟨rfl, rfl⟩ := List.cons.inj happ
          exact ⟨rfl, rfl⟩
      · rename_i hc
        simp only [List.not_mem_nil, false_iff]
        rintro ⟨⟨d, hd, rfl⟩, happ⟩
        obtain ⟨rfl, -⟩ := List.cons.inj happ
        exact hc hd
  | many p => rw [splits, mem_runs, words, Token.mem_kstar_oneOf]
  | seq a b iha ihb =>
    rw [splits, words, List.mem_flatMap, Language.mem_mul]
    constructor
    · rintro ⟨⟨v, tail⟩, hv, hsplit⟩
      obtain ⟨⟨u, r⟩, hu, heq⟩ := List.mem_map.mp hsplit
      obtain ⟨rfl, rfl⟩ := Prod.mk_inj.mp heq
      obtain ⟨hvword, rfl⟩ := iha.mp hv
      obtain ⟨huword, rfl⟩ := ihb.mp hu
      exact ⟨⟨v, hvword, u, huword, rfl⟩, List.append_assoc v u r⟩
    · rintro ⟨⟨v, hv, u, hu, rfl⟩, rfl⟩
      refine ⟨(v, u ++ rest), iha.mpr ⟨hv, (List.append_assoc v u rest).symm⟩, ?_⟩
      exact List.mem_map.mpr ⟨(u, rest), ihb.mpr ⟨hu, rfl⟩, rfl⟩
  | either a b iha ihb =>
    rw [splits, words, List.mem_append, iha, ihb, Language.mem_add, or_and_right]
  | optional a iha =>
    rw [splits, words, List.mem_append, iha, List.mem_singleton, Prod.mk_inj, Language.mem_add,
      Language.mem_one, or_and_right, or_comm]
    refine or_congr_left ⟨?_, ?_⟩
    · rintro ⟨rfl, rfl⟩
      exact ⟨rfl, rfl⟩
    · rintro ⟨rfl, rfl⟩
      exact ⟨rfl, rfl⟩

/-- A pattern is tried in vain where no word of it starts. -/
theorem splits_cons_eq_nil {c : Char} (h : Token.StartsWith a.words p) (hc : p c = false) :
    a.splits (c :: cs) = [] := by
  rw [List.eq_nil_iff_forall_not_mem]
  rintro ⟨w, rest⟩ hmem
  obtain ⟨hw, happ⟩ := mem_splits.mp hmem
  obtain ⟨d, v, rfl, hd⟩ := h w hw
  obtain ⟨rfl, -⟩ := List.cons.inj happ
  rw [hc] at hd
  cases hd

/-! ## What is preferred -/

theorem first?_many : (many p).first? cs = some (splitWhile p cs) := by
  induction cs with
  | nil => rfl
  | cons c cs ih =>
    change (runs p (c :: cs)).head? = _
    have ih : (runs p cs).head? = some (splitWhile p cs) := ih
    rw [runs]
    split
    · rename_i hc
      rw [List.head?_append, List.head?_map, ih]
      simp only [splitWhile, List.takeWhile_cons_of_pos hc, List.dropWhile_cons_of_pos hc]
      rfl
    · rename_i hc
      simp only [splitWhile, List.takeWhile_cons_of_neg hc, List.dropWhile_cons_of_neg hc]
      rfl

theorem first?_either : (either a b).first? cs = (a.first? cs).or (b.first? cs) :=
  List.head?_append

/-- A choice does not go on to a longer word of its second alternative. -/
example : (either (one (· == 'a')) (many Char.isAlpha)).first? ['a', 'b'] = some (['a'], ['b']) :=
  rfl

theorem first?_optional : (optional a).first? cs = some ((a.first? cs).getD ([], cs)) := by
  change (a.splits cs ++ [([], cs)]).head? = _
  rw [List.head?_append]
  change (a.first? cs).or (some ([], cs)) = _
  cases a.first? cs <;> rfl

theorem splits_optional_ne_nil : (optional a).splits cs ≠ [] := by
  simp [splits]

/-- The first part of a sequence keeps to what it prefers, unless only some other choice of it lets
the second part match. -/
theorem first?_seq
    (h : ∀ split ∈ a.first? cs, b.splits split.2 = [] →
      ∀ other ∈ a.splits cs, b.splits other.2 = []) :
    (seq a b).first? cs =
      (a.first? cs).bind fun split => (b.first? split.2).map (behind split.1) := by
  unfold first? at h ⊢
  rw [splits]
  cases hsplits : a.splits cs with
  | nil => rfl
  | cons split others =>
    rw [hsplits] at h
    rw [List.flatMap_cons, List.head?_append, List.head?_map, List.head?_cons, Option.bind_some]
    cases hb : b.splits split.2 with
    | cons _ _ => rfl
    | nil =>
      have hvain : others.flatMap (fun other => (b.splits other.2).map (behind other.1)) = [] := by
        refine List.flatMap_eq_nil_iff.mpr fun other hother => ?_
        rw [h split rfl hb other (List.mem_cons_of_mem split hother), List.map_nil]
      rw [hvain]
      rfl

theorem first?_one_cons {c : Char} :
    (one p).first? (c :: cs) = if p c then some ([c], cs) else none := by
  rw [first?, splits]
  split <;> rfl

theorem first?_optional_one_cons {c : Char} :
    (optional (one p)).first? (c :: cs) = some (if p c then ([c], cs) else ([], c :: cs)) := by
  rw [first?_optional, first?_one_cons]
  split <;> rfl

/-- A lone character leaves no choice. -/
theorem first?_seq_one :
    (seq (one p) b).first? cs =
      ((one p).first? cs).bind fun split => (b.first? split.2).map (behind split.1) := by
  refine first?_seq fun split hsplit hb other hother => ?_
  cases cs with
  | nil => cases hother
  | cons c cs =>
    rw [splits] at hother
    split at hother
    · rename_i hc
      obtain rfl := List.mem_singleton.mp hother
      rw [first?_one_cons, if_pos hc] at hsplit
      obtain rfl := Option.mem_some.mp hsplit
      exact hb
    · cases hother

/-- A character in front that may be left out is not left out, when nothing behind it can start with
such a character. -/
theorem first?_mark (h : ∀ c cs, p c = true → b.splits (c :: cs) = []) :
    (seq (optional (one p)) b).first? cs =
      ((optional (one p)).first? cs).bind fun split => (b.first? split.2).map (behind split.1) := by
  refine first?_seq fun split hsplit hb other hother => ?_
  cases cs with
  | nil =>
    obtain rfl := Option.mem_some.mp hsplit
    obtain rfl := List.mem_singleton.mp hother
    exact hb
  | cons c cs =>
    rw [first?_optional_one_cons] at hsplit
    rw [splits, splits] at hother
    obtain rfl := Option.mem_some.mp hsplit
    by_cases hc : p c = true
    · rw [if_pos hc] at hb hother
      rcases List.mem_cons.mp hother with rfl | hother
      · exact hb
      · obtain rfl := List.mem_singleton.mp hother
        exact h c cs hc
    · rw [if_neg hc] at hb hother
      obtain rfl := List.mem_singleton.mp hother
      exact hb

/-- One or more characters that satisfy `p`. -/
def run (p : Char → Bool) : Pattern := seq (one p) (many p)

theorem first?_run :
    (run p).first? cs =
      if (splitWhile p cs).1.isEmpty then none else some (splitWhile p cs) := by
  rw [run, first?_seq_one]
  cases cs with
  | nil => rfl
  | cons c cs =>
    rw [first?_one_cons]
    by_cases hc : p c = true
    · rw [if_pos hc, Option.bind_some, first?_many]
      simp only [splitWhile, List.takeWhile_cons_of_pos hc, List.dropWhile_cons_of_pos hc]
      rfl
    · simp only [splitWhile, List.takeWhile_cons_of_neg hc, if_neg hc]
      rfl

/-! ## The patterns of tokens -/

/-- An optional plus or minus. -/
def sign : Pattern := optional (one fun c => c == '+' || c == '-')

/-- Digits with an optional point, behind which digits can follow, or a point and digits. -/
def mantissa : Pattern :=
  either (seq (run isDecimalDigit) (optional (seq (one (· == '.')) (many isDecimalDigit))))
    (seq (one (· == '.')) (run isDecimalDigit))

/-- The letter `e` of either case, an optional sign and digits. -/
def exponent : Pattern :=
  seq (one fun c => c == 'e' || c == 'E') (seq sign (run isDecimalDigit))

/-- Numbers: an optional sign, a mantissa and an optional exponent. -/
def number : Pattern := seq sign (seq mantissa (optional exponent))

/-- Units: an optional degree sign and letters. -/
def unit : Pattern := seq (optional (one (·.toNat == 0xB0))) (run Token.isUnitLetter)

/-- The symbols of operators. -/
def symbol : Pattern := one fun c => c == '*' || c == '/' || c == '^'

theorem words_mantissa : mantissa.words = Token.mantissaWords := rfl

theorem words_exponent : exponent.words = Token.exponentWords := (mul_assoc _ _ _).symm

theorem words_number : number.words = Token.numberWords :=
  calc number.words
      = (1 + Token.signWords) * (mantissa.words * (1 + exponent.words)) := rfl
    _ = Token.numberWords := by
      rw [words_mantissa, words_exponent, ← mul_assoc]
      rfl

theorem words_unit : unit.words = Token.unitWords := rfl

theorem first?_digits :
    (run isDecimalDigit).first? cs =
      if (Token.splitDigits cs).1.isEmpty then none else some (Token.splitDigits cs) :=
  first?_run

/-- Digits behind a point, and the point, are taken where a point stands. -/
theorem first?_fraction :
    (optional (seq (one (· == '.')) (many isDecimalDigit))).first? cs =
      some (match cs with
        | c :: tail =>
          if c = '.' then ('.' :: (Token.splitDigits tail).1, (Token.splitDigits tail).2)
          else ([], c :: tail)
        | [] => ([], [])) := by
  rw [first?_optional, first?_seq_one]
  cases cs with
  | nil => rfl
  | cons c tail =>
    rw [first?_one_cons]
    simp only [beq_iff_eq]
    split
    · rename_i hc
      rw [hc, Option.bind_some, first?_many]
      rfl
    · rfl

/-- Digits are taken as the part in front of the point before a mantissa without that part is
tried. -/
theorem first?_mantissa : mantissa.first? cs = Token.splitMantissa? cs := by
  have happ := Token.splitDigits_append cs
  rw [mantissa, first?_either, first?_seq fun _ _ hb => absurd hb splits_optional_ne_nil,
    first?_digits, first?_seq_one, Token.splitMantissa?]
  generalize Token.splitDigits cs = split at happ ⊢
  obtain ⟨whole, rest⟩ := split
  dsimp only at happ ⊢
  cases whole with
  | nil =>
    obtain rfl : rest = cs := happ
    cases rest with
    | nil => rfl
    | cons c tail =>
      rw [first?_one_cons]
      simp only [beq_iff_eq]
      by_cases hc : c = '.'
      · subst hc
        rw [if_pos rfl, if_pos rfl, Option.bind_some, first?_digits]
        generalize Token.splitDigits tail = split
        obtain ⟨fraction, rest⟩ := split
        cases fraction <;> rfl
      · rw [if_neg hc, if_neg hc]
        rfl
  | cons d whole =>
    rw [if_neg (by simp), Option.bind_some, first?_fraction]
    cases rest with
    | nil => simp [behind]
    | cons c tail =>
      by_cases hc : c = '.'
      · simp [behind, hc]
      · simp [behind, hc]

theorem not_digit_of_sign {c : Char} (h : (c == '+' || c == '-') = true) :
    (isDecimalDigit c || c == '.') = false := by
  rw [Bool.or_eq_true, beq_iff_eq, beq_iff_eq] at h
  rcases h with rfl | rfl <;> decide

/-- A sign is taken when what follows starts with a digit or a point. -/
theorem first?_seq_sign (h : Token.StartsWith b.words fun c => isDecimalDigit c || c == '.') :
    (seq sign b).first? cs = (b.first? (splitSign cs).2).map (behind (splitSign cs).1) := by
  have hsign : sign.first? cs = some (splitSign cs) := by
    cases cs with
    | nil => rfl
    | cons c cs =>
      rw [sign, first?_optional_one_cons, splitSign]
      simp only [Bool.or_eq_true, beq_iff_eq]
  rw [sign] at hsign ⊢
  rw [first?_mark fun c cs hc => splits_cons_eq_nil h (not_digit_of_sign hc), hsign,
    Option.bind_some]

/-- An exponent is taken whole, or nothing of it. -/
theorem first?_exponent : (optional exponent).first? cs = some (Token.splitExponent cs) := by
  have hstart : Token.StartsWith (run isDecimalDigit).words
      fun c => isDecimalDigit c || c == '.' := by
    intro w hw
    obtain ⟨c, v, rfl, hc⟩ := Token.startsWith_runOf isDecimalDigit w hw
    exact ⟨c, v, rfl, by simp [hc]⟩
  rw [first?_optional, exponent, first?_seq_one]
  cases cs with
  | nil => rfl
  | cons c cs =>
    simp only [first?_one_cons, Token.splitExponent, Bool.or_eq_true, beq_iff_eq]
    by_cases hc : c = 'e' ∨ c = 'E'
    · rw [if_pos hc, if_pos hc, Option.bind_some, first?_seq_sign hstart, first?_digits]
      split <;> rfl
    · rw [if_neg hc, if_neg hc]
      rfl

/-- The number that is preferred is the one that is taken. -/
theorem first?_number : number.first? cs = Token.splitNumber? cs := by
  have hstart : Token.StartsWith (seq mantissa (optional exponent)).words
      fun c => isDecimalDigit c || c == '.' := Token.startsWith_mantissaWords.mul
  rw [number, first?_seq_sign hstart, first?_seq fun _ _ hb => absurd hb splits_optional_ne_nil,
    first?_mantissa, Token.splitNumber?]
  generalize splitSign cs = start
  obtain ⟨sign, tail⟩ := start
  dsimp only
  cases Token.splitMantissa? tail with
  | none => rfl
  | some split => simp [first?_exponent, behind]

/-- The unit that is preferred is the one that is taken. -/
theorem first?_unit : unit.first? cs = Token.splitUnit? cs := by
  have hdegree : (optional (one (·.toNat == 0xB0))).first? cs = some (Token.splitDegree cs) := by
    cases cs with
    | nil => rfl
    | cons c cs =>
      rw [first?_optional_one_cons, Token.splitDegree]
      simp only [beq_iff_eq]
  have hvain : ∀ c cs, (c.toNat == 0xB0) = true →
      (run Token.isUnitLetter).splits (c :: cs) = [] := by
    intro c cs hc
    obtain rfl : c = Char.ofNat 0xB0 := by rw [← beq_iff_eq.mp hc, Char.ofNat_toNat]
    exact splits_cons_eq_nil (Token.startsWith_runOf Token.isUnitLetter) (by decide)
  rw [unit, first?_mark hvain, hdegree, Option.bind_some, first?_run, Token.splitUnit?]
  generalize Token.splitDegree cs = start
  obtain ⟨degree, tail⟩ := start
  dsimp only
  generalize splitWhile Token.isUnitLetter tail = split
  obtain ⟨letters, rest⟩ := split
  cases letters <;> rfl

end Pattern

end UnitCalc
