import UnitCalc.Proofs.NumbersReadBack
import UnitCalc.Proofs.ResolvedTokens

/-!
# Proofs: the numbers of an expression

What a number is in an expression and what can be read as a literal are said by two grammars. Both
want an optional sign, digits with an optional point and an optional exponent, but an expression
takes the decimal digits of all scripts and a literal those of ASCII only. This is the whole
difference: a number of an expression is read, or is too large, unless it has a digit of another
script.
-/

open Computability

namespace UnitCalc

open Text

/-- Whether a character belongs to ASCII. -/
def Text.isAscii (c : Char) : Bool := c.toNat < 0x80

theorem isAscii_of_isDigit {c : Char} (h : c.isDigit = true) : isAscii c = true := by
  rw [Char.isDigit_iff_toNat] at h
  have hle : c.toNat ≤ 0x39 := h.2
  rw [isAscii, decide_eq_true_eq]
  omega

/-- The decimal digits in ASCII are the ten digits. -/
theorem isDigit_of_isDecimalDigit {c : Char} (h : isDecimalDigit c = true)
    (hascii : isAscii c = true) : c.isDigit = true := by
  rw [isAscii, decide_eq_true_eq] at hascii
  rw [Char.isDigit_iff_toNat]
  have hrow := Token.toNat_of_isDecimalDigit h
  have hzero : '0'.toNat = 0x30 := rfl
  have hnine : '9'.toNat = 0x39 := rfl
  omega

/-- Only letters of ASCII have a small letter of their own. -/
theorem isAscii_of_toLower {c : Char} (h : isAscii c.toLower = true) : isAscii c = true := by
  unfold Char.toLower at h
  split at h
  · rename_i hupper
    have hle : c.toNat ≤ 'Z'.toNat := UInt32.le_iff_toNat_le.mp hupper.2
    have hz : 'Z'.toNat = 0x5A := rfl
    rw [isAscii, decide_eq_true_eq]
    omega
  · exact h

/-! ## Words of ASCII are read -/

open Token

theorem exists_readInteger? {sign digits : List Char} (hsign : sign ∈ 1 + signWords)
    (hdigits : Digits digits) : ∃ n, readInteger? (sign ++ digits) = some n := by
  obtain rfl | ⟨c, hc, rfl⟩ := mem_optional_signWords.mp hsign
  · exact ⟨_, readInteger?_of_digits hdigits⟩
  · exact ⟨_, readInteger?_of_sign hc hdigits⟩

theorem exists_readExponent? {x : List Char} (hx : x ∈ 1 + exponentWords)
    (hascii : ∀ c ∈ x, isAscii c = true) : ∃ n, Decimal.readExponent? x = some n := by
  rw [Language.mem_add, Language.mem_one] at hx
  obtain rfl | hx := hx
  · exact ⟨0, rfl⟩
  · obtain ⟨e, he, sign, hsign, digits, hne, hd, rfl⟩ := mem_exponentWords.mp hx
    have hdigits : Digits digits :=
      ⟨hne, fun c hc => isDigit_of_isDecimalDigit (hd c hc) (hascii c (by simp [hc]))⟩
    rw [Decimal.readExponent?, if_pos he]
    exact exists_readInteger? hsign hdigits

/-- What can follow a mantissa does not go on with it. -/
theorem not_isDigit_of_head? {x : List Char} (hx : x ∈ 1 + exponentWords) :
    ∀ c ∈ x.head?, c.isDigit = false ∧ c ≠ '.' := by
  rw [Language.mem_add, Language.mem_one] at hx
  obtain rfl | hx := hx
  · simp
  · obtain ⟨e, he, sign, -, digits, -, -, rfl⟩ := mem_exponentWords.mp hx
    rintro c ⟨⟩
    rcases he with rfl | rfl <;> decide

theorem Decimal.exists_read? {m x : List Char} (hm : m ∈ mantissaWords)
    (hascii : ∀ c ∈ m, isAscii c = true) (hx : x ∈ 1 + exponentWords) {n : ℤ}
    (hn : readExponent? x = some n) : ∃ d, read? (m ++ x) = some d := by
  have hhead := not_isDigit_of_head? hx
  obtain ⟨whole, hw, ⟨hne, rfl⟩ | ⟨fraction, hf, hne, rfl⟩⟩ := mem_mantissaWords.mp hm
  · have hwhole : Digits m :=
      ⟨hne, fun c hc => isDigit_of_isDecimalDigit (hw c hc) (hascii c hc)⟩
    obtain ⟨-, d, hd, -⟩ := spells_whole hwhole hhead hn
    exact ⟨d, hd⟩
  · have hwhole : ∀ c ∈ whole, c.isDigit = true := fun c hc =>
      isDigit_of_isDecimalDigit (hw c hc) (hascii c (by simp [hc]))
    have hfraction : ∀ c ∈ fraction, c.isDigit = true := fun c hc =>
      isDigit_of_isDecimalDigit (hf c hc) (hascii c (by simp [hc]))
    have hsplit : splitWhile Char.isDigit (whole ++ '.' :: fraction ++ x) =
        (whole, '.' :: (fraction ++ x)) := by
      rw [List.append_assoc]
      exact splitWhile_append_of hwhole (by simp)
    have hbehind := splitWhile_append_of hfraction fun c hc => (hhead c hc).1
    have hsome : (whole.isEmpty && fraction.isEmpty) = false := by
      simpa [imp_iff_not_or] using hne
    refine ⟨ofDigits whole fraction n, ?_⟩
    unfold read?
    rw [hsplit]
    simp only [hbehind, hsome, hn, Bool.false_eq_true, if_false, Option.map_some]

theorem exists_readFloat? {w : List Char} (hw : w ∈ numberWords)
    (hascii : ∀ c ∈ w, isAscii c = true) : ∃ y, readFloat? w = some y := by
  obtain ⟨sign, hsign, m, hm, x, hx, rfl⟩ := mem_numberWords.mp hw
  simp only [List.forall_mem_append] at hascii
  obtain ⟨n, hn⟩ := exists_readExponent? hx hascii.2
  obtain ⟨d, hd⟩ := Decimal.exists_read? hm hascii.1.2 hx hn
  unfold readFloat?
  rw [List.append_assoc, splitSign_append_of_mem hsign (not_sign_of_mem_mantissaWords hm)]
  dsimp only
  rw [hd]
  cases readWord? (m ++ x) <;> exact ⟨_, rfl⟩

/-! ## Only words of ASCII are read -/

theorem isAscii_splitSign (cs : List Char) : ∀ c ∈ (splitSign cs).1, isAscii c = true := by
  obtain h | ⟨c, hc, h⟩ := mem_optional_signWords.mp (splitSign_mem cs)
  · simp [h]
  · rw [h, List.forall_mem_singleton]
    rcases hc with rfl | rfl <;> decide

theorem isAscii_of_readInteger? {cs : List Char} {n : ℤ} (h : readInteger? cs = some n) :
    ∀ c ∈ cs, isAscii c = true := by
  rw [← splitSign_append cs]
  refine List.forall_mem_append.mpr ⟨isAscii_splitSign cs, fun c hc => ?_⟩
  unfold readInteger? at h
  dsimp only at h
  split at h
  · cases h
  · rename_i hdigits
    have hall : (splitSign cs).2.all Char.isDigit = true := by
      simp only [Bool.or_eq_true, not_or, Bool.not_eq_true', Bool.not_eq_false] at hdigits
      exact hdigits.2
    exact isAscii_of_isDigit (List.all_eq_true.mp hall c hc)

theorem Decimal.isAscii_of_readExponent? {cs : List Char} {n : ℤ}
    (h : readExponent? cs = some n) : ∀ c ∈ cs, isAscii c = true := by
  cases cs with
  | nil => exact List.forall_mem_nil _
  | cons c cs =>
    rw [readExponent?, Option.ite_none_right_eq_some] at h
    refine List.forall_mem_cons.mpr ⟨?_, isAscii_of_readInteger? h.2⟩
    rcases h.1 with rfl | rfl <;> decide

theorem isAscii_splitWhile (cs : List Char) :
    ∀ c ∈ (splitWhile Char.isDigit cs).1, isAscii c = true :=
  fun _ hc => isAscii_of_isDigit (List.mem_takeWhile_imp hc)

theorem Decimal.isAscii_of_read? {cs : List Char} {d : Decimal} (h : read? cs = some d) :
    ∀ c ∈ cs, isAscii c = true := by
  rw [← splitWhile_append Char.isDigit cs]
  refine List.forall_mem_append.mpr ⟨isAscii_splitWhile cs, ?_⟩
  unfold read? at h
  dsimp only at h
  split at h
  · rename_i behind hbehind
    rw [hbehind, ← splitWhile_append Char.isDigit behind]
    obtain ⟨-, h⟩ := Option.ite_none_left_eq_some.mp h
    obtain ⟨n, hn, -⟩ := Option.map_eq_some_iff.mp h
    exact List.forall_mem_cons.mpr ⟨by decide, List.forall_mem_append.mpr
      ⟨isAscii_splitWhile behind, isAscii_of_readExponent? hn⟩⟩
  · obtain ⟨-, h⟩ := Option.ite_none_left_eq_some.mp h
    obtain ⟨n, hn, -⟩ := Option.map_eq_some_iff.mp h
    exact isAscii_of_readExponent? hn

theorem isAscii_of_readWord? {cs : List Char} {y : Float} (h : readWord? cs = some y) :
    ∀ c ∈ cs, isAscii c = true := by
  have hlower : ∀ c ∈ cs.map Char.toLower, isAscii c = true := by
    unfold readWord? at h
    dsimp only at h
    split at h
    · rename_i hword
      rcases hword with hword | hword <;> rw [hword] <;> simp [isAscii]
    · split at h
      · rename_i hword
        rw [hword]
        simp [isAscii]
      · cases h
  exact fun c hc => isAscii_of_toLower (hlower _ (List.mem_map_of_mem hc))

theorem isAscii_of_readFloat? {cs : List Char} {y : Float} (h : readFloat? cs = some y) :
    ∀ c ∈ cs, isAscii c = true := by
  rw [← splitSign_append cs]
  refine List.forall_mem_append.mpr ⟨isAscii_splitSign cs, ?_⟩
  unfold readFloat? at h
  dsimp only at h
  obtain ⟨magnitude, hmagnitude, -⟩ := Option.map_eq_some_iff.mp h
  cases hword : readWord? (splitSign cs).2 with
  | some y => exact isAscii_of_readWord? hword
  | none =>
    rw [hword] at hmagnitude
    obtain ⟨d, hd, -⟩ := Option.map_eq_some_iff.mp hmagnitude
    exact Decimal.isAscii_of_read? hd

/-- A number of an expression is a literal if and only if it belongs to ASCII. -/
theorem isSome_readFloat?_iff {w : List Char} (hw : w ∈ numberWords) :
    (readFloat? w).isSome = true ↔ ∀ c ∈ w, isAscii c = true := by
  rw [Option.isSome_iff_exists]
  constructor
  · rintro ⟨y, hy⟩
    exact isAscii_of_readFloat? hy
  · exact exists_readFloat? hw

/-! ## Numbers in a tree -/

/-- Besides digits a number has signs, points and letters of ASCII. -/
theorem isDecimalDigit_of_mem_numberWords {w : List Char} (hw : w ∈ numberWords) :
    ∀ c ∈ w, isAscii c = false → isDecimalDigit c = true := by
  obtain ⟨sign, hsign, m, hm, x, hx, rfl⟩ := mem_numberWords.mp hw
  have hsigns : ∀ {v : List Char}, v ∈ 1 + signWords → ∀ c ∈ v, isAscii c = false →
      isDecimalDigit c = true := by
    intro v hv c hc h
    obtain rfl | ⟨d, hd, rfl⟩ := mem_optional_signWords.mp hv
    · cases hc
    · obtain rfl := List.mem_singleton.mp hc
      rcases hd with rfl | rfl <;> cases h
  refine List.forall_mem_append.mpr ⟨List.forall_mem_append.mpr ⟨hsigns hsign, ?_⟩, ?_⟩
  · intro c hc h
    obtain hd | rfl := (eq_of_mem_mantissaWords hm).2 c hc
    · exact hd
    · cases h
  · rw [Language.mem_add, Language.mem_one] at hx
    obtain rfl | hx := hx
    · exact List.forall_mem_nil _
    · obtain ⟨e, he, sign', hsign', digits, -, hd, rfl⟩ := mem_exponentWords.mp hx
      refine List.forall_mem_cons.mpr ⟨fun h => ?_, List.forall_mem_append.mpr
        ⟨hsigns hsign', fun c hc _ => hd c hc⟩⟩
      rcases he with rfl | rfl <;> cases h

/-- A number of an expression has no blanks to take off. -/
theorem readNumber_of_wellFormed {text : String} (h : (Token.number text).WellFormed) :
    readNumber text =
      match readFloat? text.toList with
      | none => .error (.malformed text)
      | some x => if x.isFinite then .ok x else .error (.overflow text) := by
  have htrim : trim text.toList = text.toList :=
    trim_of_forall fun c hc => not_isBlank_of_occurs (occurs_of_mem_text h c hc)
  calc readNumber text
      = match readFloat? (trim text.toList) with
        | none => .error (.malformed (String.ofList (trim text.toList)))
        | some x =>
          if x.isFinite then .ok x
          else .error (.overflow (String.ofList (trim text.toList))) := rfl
    _ = _ := by rw [htrim, String.ofList_toList]

namespace Node

/-- The tokens of what is read are words of their kinds. -/
theorem Reads.tokens_wellFormed {cs : List Char} {ns : List Node} (h : Reads cs ns) :
    ∀ t ∈ tokensOfAll ns, t.WellFormed := by
  induction h with
  | nil => exact List.forall_mem_nil _
  | blank _ _ ih => exact ih
  | token ht _ ih => exact List.forall_mem_cons.mpr ⟨wellFormed_of_scan? ht, ih⟩
  | bracket b _ _ _ ihi ih => exact List.forall_mem_append.mpr ⟨ihi, ih⟩

theorem tokens_wellFormed_of_parse {limit : Nat} {expression : String} {n : Node}
    (h : parse limit expression = .ok n) : ∀ t ∈ n.tokens, t.WellFormed := by
  unfold parse at h
  split at h
  · rename_i children hchildren
    cases h
    exact (reads_of_sequence hchildren).tokens_wellFormed
  · cases h

/-- A number at any depth of an expression that belongs to ASCII is read, or is too large for a
float. A number is no literal if and only if one of its digits does not belong to ASCII. -/
theorem readNumber_of_parse {limit : Nat} {expression text : String} {n : Node}
    (h : parse limit expression = .ok n) (htext : .number text ∈ n.tokens) :
    ((∀ c ∈ text.toList, isAscii c = true) →
      (∃ x, readNumber text = .ok x ∧ x.isFinite = true) ∨
        readNumber text = .error (.overflow text)) ∧
    ((∃ shown, readNumber text = .error (.malformed shown)) ↔
      ∃ c ∈ text.toList, isDecimalDigit c = true ∧ isAscii c = false) := by
  have hwell : (Token.number text).WellFormed := tokens_wellFormed_of_parse h _ htext
  have hword : text.toList ∈ numberWords := hwell
  have hliteral := isSome_readFloat?_iff hword
  rw [readNumber_of_wellFormed hwell]
  cases hread : readFloat? text.toList with
  | some x =>
    rw [hread] at hliteral
    have hascii : ∀ c ∈ text.toList, isAscii c = true := hliteral.mp rfl
    dsimp only
    refine ⟨fun _ => ?_, ?_, ?_⟩
    · split
      · rename_i hfinite
        exact .inl ⟨x, rfl, hfinite⟩
      · exact .inr rfl
    · rintro ⟨shown, hshown⟩
      split at hshown <;> cases hshown
    · rintro ⟨c, hc, -, hforeign⟩
      rw [hascii c hc] at hforeign
      cases hforeign
  | none =>
    rw [hread] at hliteral
    have hforeign : ¬ ∀ c ∈ text.toList, isAscii c = true := fun hall => by
      cases hliteral.mpr hall
    refine ⟨fun hascii => absurd hascii hforeign, fun _ => ?_, fun _ => ⟨text, rfl⟩⟩
    push Not at hforeign
    obtain ⟨c, hc, hnot⟩ := hforeign
    rw [ne_eq, Bool.not_eq_true] at hnot
    exact ⟨c, hc, isDecimalDigit_of_mem_numberWords hword c hc hnot, hnot⟩

/-- A number of ASCII, and in brackets one with a digit of another script. -/
theorem readNumber_of_parse_foreign_digit :
    let tree := group [token (.number ".5e400"), group [token (.number "2٣")]]
    parse 1 ".5e400[2٣]" = .ok tree ∧ .number ".5e400" ∈ tree.tokens ∧
      .number "2٣" ∈ tree.tokens ∧
      ((∃ x, readNumber ".5e400" = .ok x ∧ x.isFinite = true) ∨
        readNumber ".5e400" = .error (.overflow ".5e400")) ∧
      ∃ shown, readNumber "2٣" = .error (.malformed shown) := by
  intro tree
  have hparse : parse 1 ".5e400[2٣]" = .ok tree := by
    with_unfolding_all rfl
  have hlarge : .number ".5e400" ∈ tree.tokens := by simp [tree, tokens, tokensOfAll]
  have hforeign : .number "2٣" ∈ tree.tokens := by simp [tree, tokens, tokensOfAll]
  exact ⟨hparse, hlarge, hforeign, (readNumber_of_parse hparse hlarge).1 (by simp [isAscii]),
    (readNumber_of_parse hparse hforeign).2.mpr ⟨'٣', by simp, by decide, by decide⟩⟩

end Node

end UnitCalc
