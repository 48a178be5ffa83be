import UnitCalc.Json.Quoted

/-!
# Proofs: texts between quotes

A text that is written between quotes has no control character in it, ends where its closing quote
stands and is read back as it was, whatever characters it has.
-/

namespace UnitCalc.Json

/-! ## One character -/

theorem hexValue?_hexDigit : ∀ n < 16, hexValue? (hexDigit n) = some n := by decide

/-- The two digits that follow two zeros spell the number of a control character. -/
theorem hexUnit?_of_lt {n : Nat} (h : n < 0x20) :
    hexUnit? '0' '0' (hexDigit (n / 16)) (hexDigit (n % 16)) = some n := by
  have hzero : hexValue? '0' = some 0 := by decide
  have hupper := hexValue?_hexDigit (n / 16) (by omega)
  have hlower := hexValue?_hexDigit (n % 16) (by omega)
  simp only [hexUnit?, hzero, hupper, hlower, bind, Option.bind, pure, Option.some.injEq]
  omega

/-- The ways in which a character is written: as a letter behind a backslash, as a number, or as it
is. -/
theorem escapeChar_cases (c : Char) :
    (∃ letter, escapeChar c = ['\\', letter] ∧ letter ≠ 'u' ∧ shortEscape? letter = some c ∧
      0x20 ≤ letter.toNat) ∨
    (escapeChar c = ['\\', 'u', '0', '0', hexDigit (c.toNat / 16), hexDigit (c.toNat % 16)] ∧
      c.toNat < 0x20) ∨
    (escapeChar c = [c] ∧ c ≠ '"' ∧ c ≠ '\\' ∧ 0x20 ≤ c.toNat) := by
  unfold escapeChar
  split
  · subst_vars
    exact .inl ⟨'"', rfl, by decide⟩
  split
  · subst_vars
    exact .inl ⟨'\\', rfl, by decide⟩
  split
  · subst_vars
    exact .inl ⟨'n', rfl, by decide⟩
  split
  · subst_vars
    exact .inl ⟨'t', rfl, by decide⟩
  split
  · subst_vars
    exact .inl ⟨'r', rfl, by decide⟩
  split
  · subst_vars
    exact .inl ⟨'b', rfl, by decide⟩
  split
  · subst_vars
    exact .inl ⟨'f', rfl, by decide⟩
  split
  · rename_i hcontrol
    exact .inr (.inl ⟨rfl, hcontrol⟩)
  · rename_i hquote hbackslash _ _ _ _ _ hplain
    exact .inr (.inr ⟨rfl, hquote, hbackslash, by omega⟩)

theorem unescape?_escapeChar_append (c : Char) (cs : List Char) :
    unescape? (escapeChar c ++ cs) = (unescape? cs).map (c :: ·) := by
  rcases escapeChar_cases c with ⟨letter, hc, hu, hletter, -⟩ | ⟨hc, hcontrol⟩ | ⟨hc, -, hback, -⟩
  · rw [hc]
    simp only [List.cons_append, List.nil_append]
    rw [unescape?.eq_def]
    simp [hu, hletter]
  · have hleading : isLeading c.toNat = false := by simp [isLeading]; omega
    have htrailing : isTrailing c.toNat = false := by simp [isTrailing]; omega
    rw [hc]
    simp only [List.cons_append, List.nil_append]
    rw [unescape?.eq_def]
    simp [hexUnit?_of_lt hcontrol, hleading, htrailing, Char.ofNat_toNat]
  · rw [hc, List.singleton_append, unescape?.eq_def]
    simp [hback]

theorem splitBody?_escapeChar_append (c : Char) (cs : List Char) :
    splitBody? (escapeChar c ++ cs) =
      (splitBody? cs).map fun (body, rest) => (escapeChar c ++ body, rest) := by
  rcases escapeChar_cases c with
    ⟨letter, hc, hu, hletter, -⟩ | ⟨hc, hcontrol⟩ | ⟨hc, hquote, hback, hplain⟩
  · rw [hc]
    simp only [List.cons_append, List.nil_append]
    rw [splitBody?.eq_def]
    simp [hu, hletter]
  · rw [hc]
    simp only [List.cons_append, List.nil_append]
    rw [splitBody?.eq_def]
    simp [hexUnit?_of_lt hcontrol]
  · rw [hc, List.singleton_append, splitBody?.eq_def]
    simp [hquote, hback, Nat.not_lt.mpr hplain]

/-! ## Texts -/

theorem unescape?_escape (cs : List Char) : unescape? (escape cs) = some cs := by
  induction cs with
  | nil => rfl
  | cons c cs ih =>
    have hcons : escape (c :: cs) = escapeChar c ++ escape cs := List.flatMap_cons
    rw [hcons, unescape?_escapeChar_append, ih]
    rfl

/-- No quote inside the writing of a text is taken for the closing one. -/
theorem splitBody?_escape (cs rest : List Char) :
    splitBody? (escape cs ++ '"' :: rest) = some (escape cs, rest) := by
  induction cs with
  | nil =>
    show splitBody? ('"' :: rest) = some ([], rest)
    rw [splitBody?.eq_def]
    rfl
  | cons c cs ih =>
    have hcons : escape (c :: cs) = escapeChar c ++ escape cs := List.flatMap_cons
    rw [hcons, List.append_assoc, splitBody?_escapeChar_append, ih]
    rfl

/-- A text without control characters. -/
def Printable (cs : List Char) : Prop := ∀ c ∈ cs, 0x20 ≤ c.toNat

theorem printable_nil : Printable [] := List.forall_mem_nil _

theorem Printable.cons {c : Char} {cs : List Char} (hc : 0x20 ≤ c.toNat) (h : Printable cs) :
    Printable (c :: cs) := List.forall_mem_cons.mpr ⟨hc, h⟩

theorem Printable.append {cs ds : List Char} (hc : Printable cs) (hd : Printable ds) :
    Printable (cs ++ ds) := List.forall_mem_append.mpr ⟨hc, hd⟩

theorem toNat_hexDigit_ge : ∀ n < 16, 0x20 ≤ (hexDigit n).toNat := by decide

theorem printable_escapeChar (c : Char) : Printable (escapeChar c) := by
  rcases escapeChar_cases c with ⟨letter, hc, -, -, hletter⟩ | ⟨hc, hcontrol⟩ | ⟨hc, -, -, hplain⟩
  · rw [hc]
    exact .cons (by decide) (.cons hletter printable_nil)
  · have hupper := toNat_hexDigit_ge (c.toNat / 16) (by omega)
    have hlower := toNat_hexDigit_ge (c.toNat % 16) (by omega)
    have hdigits := Printable.cons hupper (.cons hlower printable_nil)
    rw [hc]
    exact .cons (by decide) (.cons (by decide) (.cons (by decide) (.cons (by decide) hdigits)))
  · rw [hc]
    exact .cons hplain printable_nil

theorem printable_escape (cs : List Char) : Printable (escape cs) := by
  intro c hc
  obtain ⟨d, -, hc⟩ := List.mem_flatMap.mp hc
  exact printable_escapeChar d c hc

end UnitCalc.Json
