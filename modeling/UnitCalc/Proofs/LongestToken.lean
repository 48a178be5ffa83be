import UnitCalc.Proofs.TokenLanguage

/-!
# Proofs: the longest token

`Token.scan?` takes the longest token at the start of a text, whatever its kind. Hence a text behind
a token changes nothing about it, as long as it starts with a character that no token goes on with.
-/

open Computability

namespace UnitCalc

open Text

namespace Token

/-- Whether the text of a token is a word of its kind. The text of an operator always is. -/
def WellFormed : Token → Prop
  | number text => text.toList ∈ numberWords
  | unit text => text.toList ∈ unitWords
  | operator _ => True

/-- A token is the longest one at the start of a text. -/
structure IsLongest (t : Token) (cs : List Char) : Prop where
  /-- The token is a word of its kind. -/
  wellFormed : t.WellFormed
  /-- The text starts with it. -/
  starts : t.text.toList <+: cs
  /-- The text starts with no longer token. -/
  longest : ∀ u : Token, u.WellFormed → u.text.toList <+: cs →
    u.text.toList.length ≤ t.text.toList.length

/-! ## The three kinds start differently -/

/-- A character that a number can start with. -/
def startsNumber (c : Char) : Bool := isDecimalDigit c || c == '.' || c == '+' || c == '-'

/-- A character that a unit can start with. -/
def startsUnit (c : Char) : Bool := c.toNat == 0xB0 || isUnitLetter c

/-- Every word of `L` has a first character, and this satisfies `p`. -/
def StartsWith (L : Language Char) (p : Char → Bool) : Prop :=
  ∀ w ∈ L, ∃ c v, w = c :: v ∧ p c = true

/-- Nothing is taken where no word can start. -/
theorem Takes.eq_none {scan : List Char → Option (List Char × List Char)} {L : Language Char}
    {p : Char → Bool} (h : Takes scan L) (hL : StartsWith L p) {c : Char} {cs : List Char}
    (hc : p c = false) : scan (c :: cs) = none := by
  rw [← Option.not_isSome_iff_eq_none]
  intro hsome
  obtain ⟨⟨w, rest⟩, heq⟩ := Option.isSome_iff_exists.mp hsome
  obtain ⟨hw, happ⟩ := h.sound heq
  obtain ⟨d, v, rfl, hd⟩ := hL w hw
  obtain ⟨rfl, -⟩ := List.cons.inj happ
  rw [hc] at hd
  cases hd

theorem StartsWith.mul {L M : Language Char} {p : Char → Bool} (h : StartsWith L p) :
    StartsWith (L * M) p := by
  rintro _ ⟨v, hv, u, -, rfl⟩
  obtain ⟨c, w, rfl, hc⟩ := h v hv
  exact ⟨c, w ++ u, rfl, hc⟩

theorem startsWith_runOf (p : Char → Bool) : StartsWith (runOf p) p := by
  intro w hw
  obtain ⟨hne, hall⟩ := mem_runOf.mp hw
  obtain ⟨c, v, rfl⟩ := List.exists_cons_of_ne_nil hne
  exact ⟨c, v, rfl, hall c List.mem_cons_self⟩

theorem startsWith_mantissaWords :
    StartsWith mantissaWords fun c => isDecimalDigit c || c == '.' := by
  intro w hw
  obtain ⟨hne, hall⟩ := eq_of_mem_mantissaWords hw
  obtain ⟨c, v, rfl⟩ := List.exists_cons_of_ne_nil hne
  exact ⟨c, v, rfl, by simpa using hall c List.mem_cons_self⟩

theorem startsWith_numberWords : StartsWith numberWords startsNumber := by
  intro w hw
  obtain ⟨sign, hs, m, hm, x, -, rfl⟩ := mem_numberWords.mp hw
  rcases mem_optional_signWords.mp hs with rfl | ⟨d, hd, rfl⟩
  · obtain ⟨d, v, rfl, hd⟩ := startsWith_mantissaWords m hm
    exact ⟨d, v ++ x, rfl, by simp [startsNumber, hd]⟩
  · refine ⟨d, m ++ x, rfl, ?_⟩
    rcases hd with rfl | rfl
    · decide
    · decide

theorem startsWith_unitWords : StartsWith unitWords startsUnit := by
  intro w hw
  obtain ⟨degree, hd, letters, hne, hl, rfl⟩ := mem_unitWords.mp hw
  rcases hd with rfl | ⟨d, hd, rfl⟩
  · cases letters with
    | nil => exact absurd rfl hne
    | cons d letters => exact ⟨d, letters, rfl, by simp [startsUnit, hl d (by simp)]⟩
  · exact ⟨d, letters, rfl, by simp [startsUnit, hd]⟩

theorem toNat_of_isUnitLetter {c : Char} (h : isUnitLetter c = true) :
    (0x41 ≤ c.toNat ∧ c.toNat ≤ 0x7A) ∨ c.toNat = 0xB5 ∨ c.toNat = 0x3BC ∨ c.toNat = 0x3A9 := by
  simp only [isUnitLetter, Bool.or_eq_true, beq_iff_eq] at h
  rcases h with ((h | h) | h) | h
  · change (c.isUpper || c.isLower) = true at h
    rw [Bool.or_eq_true] at h
    rcases h with h | h
    · have hbounds : 'A'.val ≤ c.val ∧ c.val ≤ 'Z'.val := of_decide_eq_true h
      have lower : 0x41 ≤ c.toNat := hbounds.1
      have upper : c.toNat ≤ 0x5A := hbounds.2
      omega
    · change (decide ('a'.val ≤ c.val) && decide (c.val ≤ 'z'.val)) = true at h
      rw [Bool.and_eq_true, decide_eq_true_eq, decide_eq_true_eq] at h
      have lower : 0x61 ≤ c.toNat := h.1
      have upper : c.toNat ≤ 0x7A := h.2
      omega
  all_goals omega

/-- A digit is one of ASCII or lies in a row behind the letters of units, and no row touches the
blanks. -/
theorem toNat_of_isDecimalDigit {c : Char} (h : isDecimalDigit c = true) :
    (0x30 ≤ c.toNat ∧ c.toNat < 0x3A) ∨ (0x660 ≤ c.toNat ∧ c.toNat ≠ 0x1680 ∧
      (c.toNat < 0x2000 ∨ 0x205F < c.toNat) ∧ c.toNat ≠ 0x3000) := by
  simp only [isDecimalDigit, List.any_eq_true, Bool.and_eq_true, decide_eq_true_eq] at h
  obtain ⟨first, hmem, hle, hlt⟩ := h
  have rows : ∀ first ∈ digitZeros, first = 0x30 ∨ (0x660 ≤ first ∧
      (first + 10 ≤ 0x1680 ∨ 0x1680 < first) ∧ (first + 10 ≤ 0x2000 ∨ 0x205F < first) ∧
      (first + 10 ≤ 0x3000 ∨ 0x3000 < first)) := by decide
  rcases rows first hmem with rfl | hrow <;> omega

theorem isDecimalDigit_of_isUnitLetter {c : Char} (h : isUnitLetter c = true) :
    isDecimalDigit c = false := by
  rw [← Bool.not_eq_true]
  intro hd
  have letter := toNat_of_isUnitLetter h
  have digit := toNat_of_isDecimalDigit hd
  omega

theorem not_startsNumber_of_startsUnit {c : Char} (h : startsUnit c = true) :
    startsNumber c = false := by
  simp only [startsUnit, Bool.or_eq_true, beq_iff_eq] at h
  rcases h with h | h
  · obtain rfl : c = Char.ofNat 0xB0 := by rw [← h, Char.ofNat_toNat]
    decide
  · rw [startsNumber, isDecimalDigit_of_isUnitLetter h, Bool.false_or]
    simp only [Bool.or_eq_false_iff, beq_eq_false_iff_ne, ne_eq]
    refine ⟨⟨?_, ?_⟩, ?_⟩ <;> rintro rfl <;> exact absurd h (by decide)

theorem not_starts_symbol (op : Operator) :
    startsNumber op.symbol = false ∧ startsUnit op.symbol = false := by
  cases op <;> decide

/-! ## Tokens -/

theorem splitNumber?_eq_none {c : Char} {cs : List Char} (h : startsNumber c = false) :
    splitNumber? (c :: cs) = none := splitNumber?_takes.eq_none startsWith_numberWords h

theorem splitUnit?_eq_none {c : Char} {cs : List Char} (h : startsUnit c = false) :
    splitUnit? (c :: cs) = none := splitUnit?_takes.eq_none startsWith_unitWords h

theorem wellFormed_of_scan? {cs rest : List Char} {t : Token} (h : scan? cs = some (t, rest)) :
    t.WellFormed := by
  simp only [scan?] at h
  split at h
  · rename_i w behind heq
    obtain ⟨rfl, rfl⟩ := Prod.mk.inj (Option.some.inj h)
    simpa [WellFormed] using (splitNumber?_takes.sound heq).1
  · split at h
    · rename_i w behind heq
      obtain ⟨rfl, rfl⟩ := Prod.mk.inj (Option.some.inj h)
      simpa [WellFormed] using (splitUnit?_takes.sound heq).1
    · split at h
      · obtain ⟨op, -, heq⟩ := Option.map_eq_some_iff.mp h
        obtain ⟨rfl, rfl⟩ := Prod.mk.inj heq
        trivial
      · cases h

theorem scan?_symbol (op : Operator) (rest : List Char) :
    scan? (op.symbol :: rest) = some (operator op, rest) := by
  obtain ⟨hnumber, hunit⟩ := not_starts_symbol op
  rw [scan?, splitNumber?_eq_none hnumber, splitUnit?_eq_none hunit]
  simp

/-- Where a token stands, one of its kind is taken that is at least as long. -/
theorem exists_scan? {t : Token} {cs : List Char} (h : t.WellFormed)
    (starts : t.text.toList <+: cs) :
    ∃ u rest, scan? cs = some (u, rest) ∧ t.text.toList.length ≤ u.text.toList.length ∧
      (u.text = t.text → u = t) := by
  cases t with
  | number s =>
    obtain ⟨w, rest, hw, hle⟩ := splitNumber?_takes.longest h starts
    exact ⟨number (String.ofList w), rest, by simp only [scan?, hw], by simpa [text] using hle,
      fun h => congrArg number h⟩
  | unit s =>
    obtain ⟨w, rest, hw, hle⟩ := splitUnit?_takes.longest h starts
    obtain ⟨c, v, hs, hc⟩ := startsWith_unitWords _ h
    obtain ⟨behind, hbehind⟩ := starts
    change s.toList ++ behind = cs at hbehind
    rw [hs, List.cons_append] at hbehind
    subst hbehind
    have hnumber : splitNumber? (c :: (v ++ behind)) = none :=
      splitNumber?_eq_none (not_startsNumber_of_startsUnit hc)
    exact ⟨unit (String.ofList w), rest, by simp only [scan?, hnumber, hw],
      by simpa [text] using hle, fun h => congrArg unit h⟩
  | operator op =>
    obtain ⟨rest, rfl⟩ := starts
    refine ⟨operator op, rest, ?_, Nat.le_refl _, fun _ => rfl⟩
    have hcons : (operator op).text.toList ++ rest = op.symbol :: rest := by simp [text]
    rw [hcons, scan?_symbol]

theorem isLongest_of_scan? {cs rest : List Char} {t : Token} (h : scan? cs = some (t, rest)) :
    t.IsLongest cs where
  wellFormed := wellFormed_of_scan? h
  starts := ⟨rest, (text_append_of_scan? h).1⟩
  longest u hu hus := by
    obtain ⟨v, rest', hv, hle, -⟩ := exists_scan? hu hus
    rw [h] at hv
    obtain ⟨rfl, -⟩ := Prod.mk.inj (Option.some.inj hv)
    exact hle

/-- The token taken from a text is the longest one that the text starts with. -/
theorem scan?_eq_some_iff {cs rest : List Char} {t : Token} :
    scan? cs = some (t, rest) ↔ t.IsLongest cs ∧ t.text.toList ++ rest = cs := by
  constructor
  · intro h
    exact ⟨isLongest_of_scan? h, (text_append_of_scan? h).1⟩
  · rintro ⟨h, happ⟩
    obtain ⟨u, rest', hu, hle, heq⟩ := exists_scan? h.wellFormed h.starts
    have hu' := isLongest_of_scan? hu
    have htext : u.text.toList = t.text.toList :=
      (List.prefix_of_prefix_length_le hu'.starts h.starts
        (h.longest u hu'.wellFormed hu'.starts)).eq_of_length_le hle
    obtain rfl := heq (String.toList_inj.mp htext)
    obtain rfl := List.append_cancel_left ((text_append_of_scan? hu).1.trans happ.symm)
    exact hu

/-! ## What follows a token -/

/-- A character that can stand in a token behind its first character. -/
def goesOn (c : Char) : Bool := startsNumber c || isUnitLetter c

/-- A character that can stand in a token. -/
def occurs (c : Char) : Bool :=
  startsNumber c || startsUnit c || (Operator.ofSymbol? c).isSome

theorem occurs_of_goesOn {c : Char} (h : goesOn c = true) : occurs c = true := by
  simp only [goesOn, Bool.or_eq_true] at h
  rcases h with h | h
  · simp [occurs, h]
  · simp [occurs, startsUnit, h]

/-- No blank stands in a token. -/
theorem not_occurs_of_isBlank {c : Char} (h : isBlank c = true) : occurs c = false := by
  have other : ∀ d : Char, isBlank d = false → c ≠ d := by
    rintro d hd rfl
    rw [hd] at h
    cases h
  have hsymbol : Operator.ofSymbol? c = none := by
    rw [← Option.not_isSome_iff_eq_none]
    intro hsome
    obtain ⟨op, hop⟩ := Option.isSome_iff_exists.mp hsome
    exact other op.symbol (by cases op <;> decide) (Operator.symbol_of_ofSymbol? hop).symm
  simp only [isBlank, Bool.or_eq_true, Bool.and_eq_true, decide_eq_true_eq, beq_iff_eq] at h
  have hdigit : isDecimalDigit c = false := by
    rw [← Bool.not_eq_true]
    intro hd
    have digit := toNat_of_isDecimalDigit hd
    omega
  have hletter : isUnitLetter c = false := by
    rw [← Bool.not_eq_true]
    intro hl
    have letter := toNat_of_isUnitLetter hl
    omega
  have hdegree : c.toNat ≠ 0xB0 := by omega
  simp [occurs, startsNumber, startsUnit, hsymbol, hdigit, hletter, hdegree,
    other '.' (by decide), other '+' (by decide), other '-' (by decide)]

theorem not_isBlank_of_occurs {c : Char} (h : occurs c = true) : isBlank c = false := by
  rw [← Bool.not_eq_true]
  intro hb
  rw [not_occurs_of_isBlank hb] at h
  cases h

theorem goesOn_symbol (op : Operator) : goesOn op.symbol = false := by
  cases op <;> decide

theorem goesOn_of_isDecimalDigit {c : Char} (h : isDecimalDigit c = true) : goesOn c = true := by
  simp [goesOn, startsNumber, h]

theorem goesOn_of_mem_optional_signWords {w : List Char} (h : w ∈ 1 + signWords) :
    ∀ c ∈ w, goesOn c = true := by
  rcases mem_optional_signWords.mp h with rfl | ⟨c, hc, rfl⟩
  · simp
  · intro d hd
    obtain rfl := List.mem_singleton.mp hd
    rcases hc with rfl | rfl
    · decide
    · decide

theorem goesOn_of_mem_numberWords {w : List Char} (h : w ∈ numberWords) :
    ∀ c ∈ w, goesOn c = true := by
  obtain ⟨sign, hs, m, hm, x, hx, rfl⟩ := mem_numberWords.mp h
  have mantissa : ∀ c ∈ m, goesOn c = true := by
    intro c hc
    rcases (eq_of_mem_mantissaWords hm).2 c hc with hd | rfl
    · exact goesOn_of_isDecimalDigit hd
    · decide
  have exponent : ∀ c ∈ x, goesOn c = true := by
    rw [Language.mem_add, Language.mem_one] at hx
    rcases hx with rfl | hx
    · simp
    · obtain ⟨e, he, sign, hs, digits, -, hd, rfl⟩ := mem_exponentWords.mp hx
      intro c hc
      rcases List.mem_cons.mp hc with rfl | hc
      · rcases he with rfl | rfl <;> decide
      · rcases List.mem_append.mp hc with hc | hc
        · exact goesOn_of_mem_optional_signWords hs c hc
        · exact goesOn_of_isDecimalDigit (hd c hc)
  intro c hc
  rcases List.mem_append.mp hc with hc | hc
  · rcases List.mem_append.mp hc with hc | hc
    · exact goesOn_of_mem_optional_signWords hs c hc
    · exact mantissa c hc
  · exact exponent c hc

theorem goesOn_of_mem_unitWords {c : Char} {w : List Char} (h : c :: w ∈ unitWords) :
    ∀ d ∈ w, goesOn d = true := by
  obtain ⟨degree, hd, letters, -, hl, heq⟩ := mem_unitWords.mp h
  have letter : ∀ d ∈ letters, goesOn d = true := fun d hd => by simp [goesOn, hl d hd]
  intro d hdw
  rcases hd with rfl | ⟨c', -, rfl⟩
  · rw [List.nil_append] at heq
    exact letter d (heq ▸ List.mem_cons_of_mem c hdw)
  · obtain ⟨-, rfl⟩ := List.cons.inj heq
    exact letter d hdw

/-- The characters of a token. -/
theorem text_of_wellFormed {t : Token} (h : t.WellFormed) :
    ∃ c w, t.text.toList = c :: w ∧ occurs c = true ∧ ∀ d ∈ w, goesOn d = true := by
  cases t with
  | number s =>
    obtain ⟨c, w, hs, hc⟩ := startsWith_numberWords _ h
    have hmem : c :: w ∈ numberWords := hs ▸ h
    exact ⟨c, w, hs, by simp [occurs, hc],
      fun d hd => goesOn_of_mem_numberWords hmem d (List.mem_cons_of_mem c hd)⟩
  | unit s =>
    obtain ⟨c, w, hs, hc⟩ := startsWith_unitWords _ h
    have hmem : c :: w ∈ unitWords := hs ▸ h
    exact ⟨c, w, hs, by simp [occurs, hc], goesOn_of_mem_unitWords hmem⟩
  | operator op => exact ⟨op.symbol, [], by simp [text], by simp [occurs], by simp⟩

theorem occurs_of_mem_text {t : Token} (h : t.WellFormed) :
    ∀ c ∈ t.text.toList, occurs c = true := by
  obtain ⟨c, w, htext, hc, hw⟩ := text_of_wellFormed h
  rw [htext]
  intro d hd
  rcases List.mem_cons.mp hd with rfl | hd
  · exact hc
  · exact occurs_of_goesOn (hw d hd)

/-- A token that starts a text of two parts starts the first part alone, unless it goes on into the
second. -/
theorem prefix_of_prefix_append {t : Token} (h : t.WellFormed) {cs tail : List Char} (hne : cs ≠ [])
    (stop : ∀ c ∈ tail.head?, goesOn c = false) (starts : t.text.toList <+: cs ++ tail) :
    t.text.toList <+: cs := by
  rcases List.prefix_or_prefix_of_prefix starts (List.prefix_append cs tail) with hle | ⟨w, hw⟩
  · exact hle
  · cases w with
    | nil =>
      rw [List.append_nil] at hw
      exact hw ▸ List.prefix_rfl
    | cons c w =>
      exfalso
      rw [← hw, List.prefix_append_right_inj] at starts
      obtain ⟨rest, rfl⟩ := starts
      have hc : goesOn c = false := stop c rfl
      obtain ⟨d, v, hv, -, hgo⟩ := text_of_wellFormed h
      obtain ⟨d', front, rfl⟩ := List.exists_cons_of_ne_nil hne
      rw [hv] at hw
      obtain ⟨-, rfl⟩ := List.cons.inj hw
      rw [hgo c (by simp)] at hc
      cases hc

/-- A text has no end in the middle of a token unless the token goes on there. -/
theorem IsLongest.append {t : Token} {cs tail : List Char} (h : t.IsLongest cs)
    (stop : ∀ c ∈ tail.head?, goesOn c = false) : t.IsLongest (cs ++ tail) where
  wellFormed := h.wellFormed
  starts := h.starts.trans (List.prefix_append cs tail)
  longest u hu hus := by
    obtain ⟨c, w, htext, -⟩ := text_of_wellFormed h.wellFormed
    have hne : cs ≠ [] := h.starts.ne_nil (by simp [htext])
    exact h.longest u hu (prefix_of_prefix_append hu hne stop hus)

/-- The same token is taken when a text that it does not go on in follows. -/
theorem scan?_append {cs rest tail : List Char} {t : Token} (h : scan? cs = some (t, rest))
    (stop : ∀ c ∈ tail.head?, goesOn c = false) :
    scan? (cs ++ tail) = some (t, rest ++ tail) := by
  obtain ⟨hlongest, rfl⟩ := scan?_eq_some_iff.mp h
  rw [scan?_eq_some_iff]
  exact ⟨hlongest.append stop, by rw [List.append_assoc]⟩

/-- What is the longest token in front of a longer text is so in front of a shorter one too. -/
theorem IsLongest.of_append {t : Token} {cs tail : List Char} (h : t.IsLongest (cs ++ tail))
    (starts : t.text.toList <+: cs) : t.IsLongest cs where
  wellFormed := h.wellFormed
  starts := starts
  longest u hu hus := h.longest u hu (hus.trans (List.prefix_append cs tail))

end Token

end UnitCalc
