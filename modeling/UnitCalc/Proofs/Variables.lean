import Mathlib.Data.List.DropRight
import UnitCalc.Proofs.CommandRuns
import UnitCalc.Proofs.NumbersReadBack

/-!
# Proofs: the values of variables

A variable sets what its value denotes, without the blanks around it; when nothing else is in it,
the default stays. Which values denote a nesting limit or a format is said here without regard to
how they are read, and the settings are exactly what the three variables set. Where two variables
have values that denote nothing, the error is about the nesting limit.
-/

namespace UnitCalc

open Text

/-! ## Blanks around a text -/

theorem Text.trim_eq_rdropWhile (cs : List Char) :
    trim cs = (dropBlanks cs).rdropWhile isBlank := rfl

/-- Once the blanks around a text are taken off, none are left. -/
theorem Text.trim_trim (cs : List Char) : trim (trim cs) = trim cs := by
  have hfront : dropBlanks (trim cs) = trim cs := by
    have hprefix : trim cs <+: dropBlanks cs := List.rdropWhile_prefix isBlank _
    have hnone : dropBlanks (dropBlanks cs) = dropBlanks cs := List.dropWhile_idempotent isBlank cs
    cases htrim : trim cs with
    | nil => rfl
    | cons c ds =>
      rw [htrim] at hprefix
      obtain ⟨back, hback⟩ := hprefix
      have hc : ¬ isBlank c = true := by
        rw [← hback, dropBlanks, List.dropWhile_eq_self_iff] at hnone
        exact hnone (by simp)
      exact List.dropWhile_cons_of_neg hc
  rw [trim_eq_rdropWhile (trim cs), hfront, trim_eq_rdropWhile, List.rdropWhile_idempotent]

theorem trimString_trimString (s : String) : trimString (trimString s) = trimString s := by
  rw [trimString, trimString, String.toList_ofList, trim_trim]

/-! ## Letters of either case -/

theorem toNat_toLower_of_capital {c : Char} (h : 'A'.toNat ≤ c.toNat ∧ c.toNat ≤ 'Z'.toNat) :
    c.toLower.toNat = c.toNat + 32 := by
  have hcapital : c.val ≥ 'A'.val ∧ c.val ≤ 'Z'.val :=
    ⟨UInt32.le_iff_toNat_le.mpr h.1, UInt32.le_iff_toNat_le.mpr h.2⟩
  have hz : 'Z'.toNat = 90 := rfl
  unfold Char.toLower
  rw [dif_pos hcapital]
  show (c.val + 32).toNat = c.toNat + 32
  rw [UInt32.toNat_add]
  exact Nat.mod_eq_of_lt (show c.toNat + 32 < 2 ^ 32 by omega)

theorem toLower_of_not_capital {c : Char} (h : ¬ ('A'.toNat ≤ c.toNat ∧ c.toNat ≤ 'Z'.toNat)) :
    c.toLower = c := by
  unfold Char.toLower
  rw [dif_neg]
  exact fun hcapital =>
    h ⟨UInt32.le_iff_toNat_le.mp hcapital.1, UInt32.le_iff_toNat_le.mp hcapital.2⟩

theorem toNat_toUpper_of_small {d : Char} (h : 'a'.toNat ≤ d.toNat ∧ d.toNat ≤ 'z'.toNat) :
    d.toUpper.toNat + 32 = d.toNat := by
  have hsmall : 'a'.val ≤ d.val ∧ d.val ≤ 'z'.val :=
    ⟨UInt32.le_iff_toNat_le.mpr h.1, UInt32.le_iff_toNat_le.mpr h.2⟩
  have ha : 'a'.toNat = 97 := rfl
  have hz : 'z'.toNat = 122 := rfl
  unfold Char.toUpper
  rw [dif_pos hsmall]
  -- adding this number takes off 32, since the sum wraps around
  show (d.val + 4294967264).toNat + 32 = d.toNat
  rw [UInt32.toNat_add]
  show (d.toNat + 4294967264) % 2 ^ 32 + 32 = d.toNat
  omega

/-- A character becomes some small letter if it is this letter or its capital. -/
theorem toLower_eq_iff {c d : Char} (hd : d.isLower = true) :
    c.toLower = d ↔ c = d ∨ c = d.toUpper := by
  rw [Char.isLower, Bool.and_eq_true, decide_eq_true_eq, decide_eq_true_eq] at hd
  have hsmall : 'a'.toNat ≤ d.toNat ∧ d.toNat ≤ 'z'.toNat :=
    ⟨UInt32.le_iff_toNat_le.mp hd.1, UInt32.le_iff_toNat_le.mp hd.2⟩
  have hupper := toNat_toUpper_of_small hsmall
  have hA : 'A'.toNat = 65 := rfl
  have hZ : 'Z'.toNat = 90 := rfl
  have ha : 'a'.toNat = 97 := rfl
  have hz : 'z'.toNat = 122 := rfl
  by_cases hcapital : 'A'.toNat ≤ c.toNat ∧ c.toNat ≤ 'Z'.toNat
  · have hlower := toNat_toLower_of_capital hcapital
    rw [← Char.toNat_inj, ← Char.toNat_inj, ← Char.toNat_inj]
    omega
  · rw [toLower_of_not_capital hcapital, ← Char.toNat_inj, ← Char.toNat_inj]
    omega

namespace Settings

variable {lookup : String → Option String} {name value : String}

/-! ## What values denote -/

/-- What is in a variable without the blanks around it, if there is anything. -/
def Holds (lookup : String → Option String) (name value : String) : Prop :=
  ∃ s, lookup name = some s ∧ trimString s = value ∧ value ≠ ""

/-- Digits with an optional plus in front denote a nesting limit when their number is in the
range. -/
structure DenotesLimit (value : String) (n : ℕ) : Prop where
  digits : ∃ digits, (value.toList = digits ∨ value.toList = '+' :: digits) ∧ Digits digits ∧
    Nat.ofDigitChars 10 digits 0 = n
  range : 1 ≤ n ∧ n ≤ 512

/-- The letters of a format's name, each small or capital. -/
def NamesFormat (value : String) (format : Format) : Prop :=
  List.Forall₂ (fun c d => c = d ∨ c = d.toUpper) value.toList format.name.toList

/-- What a variable sets: without the blanks around it, a value that is not empty sets what it
denotes, and otherwise the default stays. -/
inductive Sets {α : Type} (lookup : String → Option String) (name : String) (default : α)
    (Denotes : String → α → Prop) : α → Prop where
  /-- The variable is missing, or there are only blanks in it. -/
  | unset (h : ∀ s, lookup name = some s → trimString s = "") :
      Sets lookup name default Denotes default
  /-- The variable has a value. -/
  | value {value : String} {a : α} (h : Holds lookup name value) (hdenotes : Denotes value a) :
      Sets lookup name default Denotes a

theorem value?_eq_some_iff : value? lookup name = some value ↔ Holds lookup name value := by
  rw [value?, Option.filter_eq_some_iff, Option.map_eq_some_iff, Holds]
  simp only [Bool.not_eq_true', String.isEmpty_eq_false_iff]
  constructor
  · rintro ⟨⟨s, hs, rfl⟩, hne⟩
    exact ⟨s, hs, rfl, hne⟩
  · rintro ⟨s, hs, rfl, hne⟩
    exact ⟨⟨s, hs, rfl⟩, hne⟩

theorem value?_eq_none_iff :
    value? lookup name = none ↔ ∀ s, lookup name = some s → trimString s = "" := by
  rw [Option.eq_none_iff_forall_not_mem]
  constructor
  · intro h s hs
    by_contra hne
    exact h _ (value?_eq_some_iff.mpr ⟨s, hs, rfl, hne⟩)
  · intro h value hvalue
    obtain ⟨s, hs, rfl, hne⟩ := value?_eq_some_iff.mp hvalue
    exact hne (h s hs)

/-! ## Nesting limits -/

theorem readNatural?_of_digits {digits : List Char} (h : Digits digits) :
    readNatural? digits = some (digitsValue digits) := by
  obtain ⟨hne, hdigits⟩ := h
  obtain ⟨c, cs, rfl⟩ := List.exists_cons_of_ne_nil hne
  have hplus : c ≠ '+' := fun hc => not_sign_of_isDigit (hdigits c List.mem_cons_self) (.inl hc)
  have hall : (c :: cs).all Char.isDigit = true := List.all_eq_true.mpr hdigits
  unfold readNatural?
  simp [hplus, hall]

theorem readNatural?_of_plus {digits : List Char} (h : Digits digits) :
    readNatural? ('+' :: digits) = some (digitsValue digits) := by
  obtain ⟨hne, hdigits⟩ := h
  have hall : digits.all Char.isDigit = true := List.all_eq_true.mpr hdigits
  unfold readNatural?
  simp [hne, hall]

theorem readNatural?_eq_some_iff {cs : List Char} {n : ℕ} :
    readNatural? cs = some n ↔ ∃ digits, (cs = digits ∨ cs = '+' :: digits) ∧ Digits digits ∧
      Nat.ofDigitChars 10 digits 0 = n := by
  constructor
  · have hdigits : ∀ {digits : List Char},
        (if digits.isEmpty || !digits.all Char.isDigit then none else some (digitsValue digits)) =
          some n → Digits digits ∧ Nat.ofDigitChars 10 digits 0 = n := by
      intro digits h
      obtain ⟨hno, hn⟩ := Option.ite_none_left_eq_some.mp h
      simp only [Bool.or_eq_true, not_or, Bool.not_eq_true', Bool.not_eq_false,
        List.isEmpty_iff] at hno
      rw [← digitsValue_eq]
      exact ⟨⟨hno.1, List.all_eq_true.mp hno.2⟩, Option.some.inj hn⟩
    intro h
    unfold readNatural? at h
    dsimp only at h
    split at h
    · exact ⟨_, .inr rfl, hdigits h⟩
    · exact ⟨_, .inl rfl, hdigits h⟩
  · rintro ⟨digits, rfl | rfl, hdigits, rfl⟩
    · rw [readNatural?_of_digits hdigits, digitsValue_eq]
    · rw [readNatural?_of_plus hdigits, digitsValue_eq]

theorem readLimit_eq_ok_iff {n : ℕ} : readLimit value = .ok n ↔ DenotesLimit value n := by
  unfold readLimit
  constructor
  · intro h
    split at h
    · rename_i m hm
      split at h
      · rename_i hrange
        cases h
        exact ⟨readNatural?_eq_some_iff.mp hm, hrange⟩
      · cases h
    · cases h
  · rintro ⟨hdigits, hrange⟩
    rw [readNatural?_eq_some_iff.mpr hdigits]
    exact if_pos hrange

theorem error_of_readLimit {e : SettingsError} (h : readLimit value = .error e) :
    e = .badLimit value := by
  unfold readLimit at h
  split at h
  · split at h
    · cases h
    · cases h
      rfl
  · cases h
    rfl

/-! ## Formats -/

theorem map_toLower_eq_iff {cs ds : List Char} (h : ∀ d ∈ ds, d.isLower = true) :
    cs.map Char.toLower = ds ↔ List.Forall₂ (fun c d => c = d ∨ c = d.toUpper) cs ds := by
  induction ds generalizing cs with
  | nil => simp
  | cons d ds ih =>
    obtain ⟨hd, hds⟩ := List.forall_mem_cons.mp h
    cases cs with
    | nil => simp
    | cons c cs =>
      rw [List.map_cons, List.cons.injEq, List.forall₂_cons, toLower_eq_iff hd, ih hds]

theorem isLower_name (format : Format) : ∀ d ∈ format.name.toList, d.isLower = true := by
  cases format <;> simp [Format.name]

/-- The wording of a value that names no format. -/
def unknownFormat (value : String) : String :=
  "unknown output format '" ++ String.ofList (value.toList.map Char.toLower) ++
    "', expected text or json"

theorem ofName_of_trimmed (htrim : trimString value = value) :
    Format.ofName value =
      if value.toList.map Char.toLower = Format.text.name.toList then .ok .text
      else if value.toList.map Char.toLower = Format.json.name.toList then .ok .json
      else .error (unknownFormat value) := by
  have hlist : trim value.toList = value.toList := by
    have htext := congrArg String.toList htrim
    rwa [trimString, String.toList_ofList] at htext
  unfold Format.ofName
  simp only [hlist, ← String.toList_inj, String.toList_ofList]
  rfl

theorem readFormat_eq_ok_iff {format : Format} (htrim : trimString value = value) :
    readFormat value = .ok format ↔ NamesFormat value format := by
  rw [NamesFormat, ← map_toLower_eq_iff (isLower_name format), readFormat, ofName_of_trimmed htrim]
  have hne : Format.text.name.toList ≠ Format.json.name.toList := by simp [Format.name]
  by_cases htext : value.toList.map Char.toLower = Format.text.name.toList
  · cases format <;> simp [htext, hne]
  · by_cases hjson : value.toList.map Char.toLower = Format.json.name.toList
    · cases format <;> simp [hjson, hne.symm]
    · cases format <;> simp [htext, hjson]

theorem error_of_readFormat {e : SettingsError} (htrim : trimString value = value)
    (h : readFormat value = .error e) : e = .badFormat (unknownFormat value) := by
  rw [readFormat, ofName_of_trimmed htrim] at h
  split at h
  · cases h
  · rename_i message hmessage
    split at hmessage
    · cases hmessage
    · split at hmessage
      · cases hmessage
      · cases hmessage
        cases h
        rfl

/-! ## The settings -/

theorem Holds.trimmed (h : Holds lookup name value) : trimString value = value := by
  obtain ⟨s, -, rfl, -⟩ := h
  exact trimString_trimString s

section OneVariable

variable {α : Type} {default a : α} {read : String → Except SettingsError α}
  {Denotes : String → α → Prop}

theorem elim_value?_eq_ok_iff
    (hread : ∀ {value a}, trimString value = value → (read value = .ok a ↔ Denotes value a)) :
    (value? lookup name).elim (.ok default) read = .ok a ↔ Sets lookup name default Denotes a := by
  constructor
  · intro h
    cases hvalue : value? lookup name with
    | none =>
      rw [hvalue] at h
      cases h
      exact .unset (value?_eq_none_iff.mp hvalue)
    | some value =>
      rw [hvalue] at h
      have hholds := value?_eq_some_iff.mp hvalue
      exact .value hholds ((hread hholds.trimmed).mp h)
  · rintro (hunset | ⟨hholds, hdenotes⟩)
    · rw [value?_eq_none_iff.mpr hunset]
      rfl
    · rw [value?_eq_some_iff.mpr hholds]
      exact (hread hholds.trimmed).mpr hdenotes

theorem elim_value?_eq_error_iff {e : SettingsError} {fault : String → SettingsError}
    (hread : ∀ {value a}, trimString value = value → (read value = .ok a ↔ Denotes value a))
    (hfault : ∀ {value e}, trimString value = value → read value = .error e → e = fault value) :
    (value? lookup name).elim (.ok default) read = .error e ↔
      ∃ value, Holds lookup name value ∧ (∀ a, ¬ Denotes value a) ∧ e = fault value := by
  constructor
  · intro h
    cases hvalue : value? lookup name with
    | none =>
      rw [hvalue] at h
      cases h
    | some value =>
      rw [hvalue] at h
      have hholds := value?_eq_some_iff.mp hvalue
      have herror : read value = .error e := h
      refine ⟨value, hholds, fun a ha => ?_, hfault hholds.trimmed herror⟩
      cases herror.symm.trans ((hread hholds.trimmed).mpr ha)
  · rintro ⟨value, hholds, hnone, rfl⟩
    rw [value?_eq_some_iff.mpr hholds]
    cases hvalue : read value with
    | ok a => exact absurd ((hread hholds.trimmed).mp hvalue) (hnone a)
    | error e =>
      rw [← hfault hholds.trimmed hvalue]
      exact hvalue

end OneVariable

theorem limit_eq_ok_iff {n : ℕ} :
    (value? lookup limitVariable).elim (.ok defaultNestingLimit) readLimit = .ok n ↔
      Sets lookup limitVariable 64 DenotesLimit n :=
  elim_value?_eq_ok_iff fun _ => readLimit_eq_ok_iff

theorem format_eq_ok_iff {format : Format} :
    (value? lookup formatVariable).elim (.ok default) readFormat = .ok format ↔
      Sets lookup formatVariable .text NamesFormat format :=
  elim_value?_eq_ok_iff readFormat_eq_ok_iff

theorem sets_database : Sets lookup databaseVariable none (fun value path => path = some value)
    (value? lookup databaseVariable) := by
  cases hvalue : value? lookup databaseVariable with
  | none => exact .unset (value?_eq_none_iff.mp hvalue)
  | some value => exact .value (value?_eq_some_iff.mp hvalue) rfl

/-- The variables make settings exactly when the nesting limit and the format are denoted or left at
their defaults; each setting is then what its own variable sets, and a converter takes the limit
unchanged. Otherwise the error carries the value that denotes no limit, or else the one that names
no format. -/
theorem ofLookup_exact (lookup : String → Option String) :
    ((∃ settings, ofLookup lookup = .ok settings) ↔
      (∃ n, Sets lookup limitVariable 64 DenotesLimit n) ∧
        ∃ format, Sets lookup formatVariable .text NamesFormat format) ∧
    (∀ settings, ofLookup lookup = .ok settings →
      Sets lookup databaseVariable none (fun value path => path = some value) settings.database ∧
      Sets lookup limitVariable 64 DenotesLimit settings.limit ∧
      Sets lookup formatVariable .text NamesFormat settings.format ∧
      ∀ converter : Converter, (converter.withLimit settings.limit).limit = settings.limit) ∧
    ∀ e, ofLookup lookup = .error e ↔
      (∃ value, Holds lookup limitVariable value ∧ (∀ n, ¬ DenotesLimit value n) ∧
        e = .badLimit value) ∨
      (∃ n, Sets lookup limitVariable 64 DenotesLimit n) ∧
        ∃ value, Holds lookup formatVariable value ∧ (∀ format, ¬ NamesFormat value format) ∧
          e = .badFormat (unknownFormat value) := by
  refine ⟨⟨?_, ?_⟩, ?_, ?_⟩
  · rintro ⟨settings, h⟩
    obtain ⟨hlimit, hformat, -⟩ := of_ofLookup h
    exact ⟨⟨_, limit_eq_ok_iff.mp hlimit⟩, _, format_eq_ok_iff.mp hformat⟩
  · rintro ⟨⟨limit, hlimit⟩, format, hformat⟩
    refine ⟨⟨value? lookup databaseVariable, limit, format⟩, ?_⟩
    rw [ofLookup_eq, limit_eq_ok_iff.mpr hlimit, format_eq_ok_iff.mpr hformat]
    rfl
  · intro settings h
    obtain ⟨hlimit, hformat, hdatabase⟩ := of_ofLookup h
    refine ⟨?_, limit_eq_ok_iff.mp hlimit, format_eq_ok_iff.mp hformat,
      fun _ => Nat.min_eq_left (limit_le h)⟩
    rw [hdatabase]
    exact sets_database
  · intro e
    rw [ofLookup_eq, bind_eq_error_iff]
    refine or_congr
      (elim_value?_eq_error_iff (fun _ => readLimit_eq_ok_iff) fun _ => error_of_readLimit)
      ((exists_congr fun limit => ?_).trans exists_and_right)
    refine and_congr limit_eq_ok_iff (bind_eq_error_iff.trans ?_)
    rw [elim_value?_eq_error_iff readFormat_eq_ok_iff error_of_readFormat]
    exact or_iff_left fun ⟨_, _, h⟩ => by cases h

theorem ofLookup_exact_leading_zeros :
    let lookup (limit format name : String) : Option String :=
      if name = limitVariable then some limit
      else if name = formatVariable then some format
      else some "\t"
    (ofLookup (lookup " +00512\n" " Json") = .ok ⟨none, 512, .json⟩ ∧
      Sets (lookup " +00512\n" " Json") databaseVariable none
        (fun value path => path = some value) none ∧
      Sets (lookup " +00512\n" " Json") limitVariable 64 DenotesLimit 512 ∧
      Sets (lookup " +00512\n" " Json") formatVariable .text NamesFormat .json ∧
      ∀ converter : Converter, (converter.withLimit 512).limit = 512) ∧
    ofLookup (lookup " 513 " "yaml") = .error (.badLimit "513") ∧
    ofLookup (lookup "" " yAml") =
      .error (.badFormat "unknown output format 'yaml', expected text or json") := by
  intro lookup
  have hsettings : ofLookup (lookup " +00512\n" " Json") = .ok ⟨none, 512, .json⟩ := by
    with_unfolding_all rfl
  have hlimit : Holds (lookup " 513 " "yaml") limitVariable "513" :=
    ⟨" 513 ", by with_unfolding_all rfl, by with_unfolding_all rfl, by decide⟩
  have hformat : Holds (lookup "" " yAml") formatVariable "yAml" :=
    ⟨" yAml", by with_unfolding_all rfl, by with_unfolding_all rfl, by decide⟩
  have hnolimit : ∀ n, ¬ DenotesLimit "513" n := by
    rintro n ⟨⟨digits, hdigits | hplus, -, rfl⟩, -, hle⟩
    · rw [← hdigits] at hle
      exact absurd hle (by decide)
    · exact absurd (List.cons.inj hplus).1 (by decide)
  have hnoformat : ∀ format, ¬ NamesFormat "yAml" format := by
    intro format h
    cases format <;> simp [NamesFormat, Format.name] at h
  refine ⟨⟨hsettings, ?_⟩, ?_, ?_⟩
  · exact (ofLookup_exact _).2.1 _ hsettings
  · exact ((ofLookup_exact _).2.2 _).mpr (.inl ⟨"513", hlimit, hnolimit, rfl⟩)
  · refine ((ofLookup_exact _).2.2 _).mpr (.inr ⟨⟨64, .unset ?_⟩, "yAml", hformat, hnoformat, ?_⟩)
    · intro s hs
      cases hs
      with_unfolding_all rfl
    · with_unfolding_all rfl

end Settings

end UnitCalc
