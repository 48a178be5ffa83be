import UnitCalc.Proofs.Patterns
import UnitCalc.Proofs.WrittenForms

/-!
# Proofs: maximal munch

Each kind of token has a pattern. What a text starts with belongs to one kind at most, since the
words of the kinds differ in their first characters; so the patterns can be tried in any order. The
token taken is the longest word of its kind, and a blank or a bracket behind it is as good as the
end of the text.
-/

namespace UnitCalc

open Text

namespace Token

/-- The kinds of tokens. -/
inductive Kind where
  /-- Numbers. -/
  | number
  /-- Units. -/
  | unit
  /-- Operators. -/
  | operator
  deriving Repr, DecidableEq

/-- The kind of a token. -/
def kind : Token → Kind
  | number _ => .number
  | unit _ => .unit
  | operator _ => .operator

namespace Kind

/-- The pattern of a kind. -/
def pattern : Kind → Pattern
  | number => .number
  | unit => .unit
  | operator => .symbol

/-- The language of a kind. -/
def words (k : Kind) : Language Char := k.pattern.words

/-- The token of a kind that is written as `w`. -/
def token? : Kind → List Char → Option Token
  | number, w => some (.number (String.ofList w))
  | unit, w => some (.unit (String.ofList w))
  | operator, w => w.head?.bind fun c => (Operator.ofSymbol? c).map .operator

/-- The token of a kind at the start of a text, and the rest: what the kind's pattern prefers. -/
def first? (k : Kind) (cs : List Char) : Option (Token × List Char) :=
  (k.pattern.first? cs).bind fun split => (k.token? split.1).map (·, split.2)

/-- The kind of the tokens that start with a character. -/
def ofFirst? (c : Char) : Option Kind :=
  if startsNumber c then some number
  else if startsUnit c then some unit
  else if (Operator.ofSymbol? c).isSome then some operator
  else none

end Kind

/-- The token at the start of a text, and the number of bytes in front of the rest. -/
def scanBytes? (text : String) : Option (Token × Nat) :=
  (scan? text.toList).map fun (t, rest) =>
    (t, text.utf8ByteSize - (String.ofList rest).utf8ByteSize)

/-- The longest word of a language that a text starts with. -/
structure LongestStart (L : Language Char) (cs w : List Char) : Prop where
  /-- It is a word of the language. -/
  mem : w ∈ L
  /-- The text starts with it. -/
  starts : w <+: cs
  /-- The text starts with no longer word of the language. -/
  longest : ∀ v ∈ L, v <+: cs → v.length ≤ w.length

/-- A character that parts what stands on its two sides: a blank or a bracket. -/
def separates (c : Char) : Bool :=
  isBlank c || (Bracket.ofOpener? c).isSome || (Bracket.ofCloser? c).isSome

variable {k : Kind} {t : Token} {w cs : List Char}

/-! ## The kind of a word -/

theorem mem_words_operator : w ∈ Kind.operator.words ↔ ∃ op : Operator, w = [op.symbol] := by
  constructor
  · rintro ⟨c, hc, rfl⟩
    simp only [Bool.or_eq_true, beq_iff_eq] at hc
    rcases hc with (rfl | rfl) | rfl
    · exact ⟨.multiply, rfl⟩
    · exact ⟨.divide, rfl⟩
    · exact ⟨.power, rfl⟩
  · rintro ⟨op, rfl⟩
    exact ⟨op.symbol, by cases op <;> rfl, rfl⟩

theorem wellFormed_iff_mem_words : t.WellFormed ↔ t.text.toList ∈ t.kind.words := by
  cases t with
  | number s =>
    change s.toList ∈ numberWords ↔ s.toList ∈ Pattern.number.words
    rw [Pattern.words_number]
  | unit s => rfl
  | operator op => exact ⟨fun _ => mem_words_operator.mpr ⟨op, by simp [text]⟩, fun _ => trivial⟩

/-- Every word of a kind is the text of a token of the kind. -/
theorem exists_token (h : w ∈ k.words) : ∃ t : Token, t.kind = k ∧ t.text.toList = w := by
  cases k with
  | number => exact ⟨number (String.ofList w), rfl, String.toList_ofList⟩
  | unit => exact ⟨unit (String.ofList w), rfl, String.toList_ofList⟩
  | operator =>
    obtain ⟨op, rfl⟩ := mem_words_operator.mp h
    exact ⟨operator op, rfl, by simp [text]⟩

theorem exists_first (h : w ∈ k.words) : ∃ c v, w = c :: v ∧ Kind.ofFirst? c = some k := by
  cases k with
  | number =>
    rw [Kind.words, Kind.pattern, Pattern.words_number] at h
    obtain ⟨c, v, rfl, hc⟩ := startsWith_numberWords w h
    exact ⟨c, v, rfl, by simp [Kind.ofFirst?, hc]⟩
  | unit =>
    rw [Kind.words, Kind.pattern, Pattern.words_unit] at h
    obtain ⟨c, v, rfl, hc⟩ := startsWith_unitWords w h
    exact ⟨c, v, rfl, by simp [Kind.ofFirst?, hc, not_startsNumber_of_startsUnit hc]⟩
  | operator =>
    obtain ⟨op, rfl⟩ := mem_words_operator.mp h
    exact ⟨op.symbol, [], rfl, by simp [Kind.ofFirst?, not_starts_symbol op]⟩

/-- Words that one text starts with are of one kind. -/
theorem kind_unique {k' : Kind} {w' : List Char} (h : w ∈ k.words) (h' : w' ∈ k'.words)
    (starts : w <+: cs) (starts' : w' <+: cs) : k = k' := by
  obtain ⟨c, v, rfl, hc⟩ := exists_first h
  obtain ⟨c', v', rfl, hc'⟩ := exists_first h'
  obtain ⟨rest, rfl⟩ := starts
  obtain ⟨rest', happ⟩ := starts'
  obtain ⟨rfl, -⟩ := List.cons.inj happ
  exact Option.some.inj (hc.symm.trans hc')

/-! ## The order of trial -/

theorem Kind.exists_word_of_first? {found : Token × List Char} (h : k.first? cs = some found) :
    ∃ w ∈ k.words, w <+: cs := by
  obtain ⟨⟨w, rest⟩, hsplit, -⟩ := Option.bind_eq_some_iff.mp h
  obtain ⟨hw, happ⟩ := Pattern.mem_splits.mp (List.mem_of_mem_head? hsplit)
  exact ⟨w, hw, rest, happ⟩

theorem Kind.first?_operator {c : Char} :
    Kind.operator.first? (c :: cs) = (Operator.ofSymbol? c).map fun op => (.operator op, cs) := by
  have hnone : (c == '*' || c == '/' || c == '^') = false → Operator.ofSymbol? c = none := by
    simp +contextual [Operator.ofSymbol?]
  rw [Kind.first?, Kind.pattern, Pattern.symbol, Pattern.first?_one_cons]
  split
  · simp [Kind.token?, Function.comp_def]
  · rename_i hc
    rw [hnone (by simpa using hc)]
    rfl

/-- A token is looked for by trying the patterns of numbers, of units and of operators. -/
theorem scan?_eq_findSome? (cs : List Char) :
    scan? cs = [Kind.number, .unit, .operator].findSome? (·.first? cs) := by
  have hnumber : Kind.number.first? cs =
      (splitNumber? cs).map fun split => (.number (String.ofList split.1), split.2) := by
    rw [Kind.first?, Kind.pattern, Pattern.first?_number]
    cases splitNumber? cs <;> rfl
  have hunit : Kind.unit.first? cs =
      (splitUnit? cs).map fun split => (.unit (String.ofList split.1), split.2) := by
    rw [Kind.first?, Kind.pattern, Pattern.first?_unit]
    cases splitUnit? cs <;> rfl
  unfold scan?
  rw [List.findSome?_cons, hnumber, List.findSome?_cons, hunit]
  cases splitNumber? cs with
  | some split => rfl
  | none =>
    cases splitUnit? cs with
    | some split => rfl
    | none =>
      cases cs with
      | nil => rfl
      | cons c rest =>
        dsimp only [Option.map_none]
        rw [List.findSome?_cons, Kind.first?_operator]
        cases Operator.ofSymbol? c <;> rfl

/-- The patterns can be tried in any order. -/
theorem findSome?_first? {order : List Kind} (h : ∀ k, k ∈ order) :
    order.findSome? (·.first? cs) = scan? cs := by
  have hscan := scan?_eq_findSome? cs
  cases hfound : scan? cs with
  | none =>
    rw [hfound, eq_comm, List.findSome?_eq_none_iff] at hscan
    refine List.findSome?_eq_none_iff.mpr fun k _ => hscan k ?_
    cases k <;> simp
  | some found =>
    obtain ⟨k, -, hk⟩ := List.exists_of_findSome?_eq_some (hscan.symm.trans hfound)
    have hsome : (order.findSome? (·.first? cs)).isSome = true :=
      List.findSome?_isSome_iff.mpr ⟨k, h k, by rw [hk]; rfl⟩
    obtain ⟨found', hfound'⟩ := Option.isSome_iff_exists.mp hsome
    obtain ⟨k', -, hk'⟩ := List.exists_of_findSome?_eq_some hfound'
    obtain ⟨w, hw, starts⟩ := Kind.exists_word_of_first? hk
    obtain ⟨w', hw', starts'⟩ := Kind.exists_word_of_first? hk'
    obtain rfl := kind_unique hw hw' starts starts'
    rw [hfound', ← hk', hk]

/-! ## The longest word -/

/-- A token is taken if and only if it is the longest word of its kind. -/
theorem exists_scan?_iff :
    (∃ rest, scan? cs = some (t, rest)) ↔ LongestStart t.kind.words cs t.text.toList := by
  constructor
  · rintro ⟨rest, h⟩
    have hlongest := isLongest_of_scan? h
    refine ⟨wellFormed_iff_mem_words.mp hlongest.wellFormed, hlongest.starts, fun v hv starts => ?_⟩
    obtain ⟨u, hkind, rfl⟩ := exists_token hv
    exact hlongest.longest u (wellFormed_iff_mem_words.mpr (hkind ▸ hv)) starts
  · rintro ⟨hmem, starts, hlongest⟩
    obtain ⟨u, rest, hu, hle, heq⟩ := exists_scan? (wellFormed_iff_mem_words.mpr hmem) starts
    have htaken := isLongest_of_scan? hu
    have hmem' := wellFormed_iff_mem_words.mp htaken.wellFormed
    have hkind : u.kind = t.kind := kind_unique hmem' hmem htaken.starts starts
    have hge := hlongest u.text.toList (hkind ▸ hmem') htaken.starts
    have htext : t.text.toList = u.text.toList :=
      (List.prefix_of_prefix_length_le starts htaken.starts hle).eq_of_length_le hge
    obtain rfl := heq (String.toList_inj.mp htext.symm)
    exact ⟨rest, hu⟩

theorem exists_scan?_of_mem (h : w ∈ k.words) (starts : w <+: cs) :
    ∃ t rest, scan? cs = some (t, rest) := by
  obtain ⟨u, rfl, rfl⟩ := exists_token h
  obtain ⟨t, rest, ht, -⟩ := exists_scan? (wellFormed_iff_mem_words.mpr h) starts
  exact ⟨t, rest, ht⟩

/-! ## Bytes -/

variable {source : String} {n : Nat}

theorem text_append_ofList {rest : List Char} (h : scan? source.toList = some (t, rest)) :
    t.text ++ String.ofList rest = source := by
  rw [← String.toList_inj, String.toList_append, String.toList_ofList]
  exact (text_append_of_scan? h).1

theorem scanBytes?_eq_some_iff :
    scanBytes? source = some (t, n) ↔
      (∃ rest, scan? source.toList = some (t, rest)) ∧ n = t.text.utf8ByteSize := by
  have hsize : ∀ {rest}, scan? source.toList = some (t, rest) →
      source.utf8ByteSize - (String.ofList rest).utf8ByteSize = t.text.utf8ByteSize := by
    intro rest h
    rw [← text_append_ofList h, String.utf8ByteSize_append, Nat.add_sub_cancel]
  rw [scanBytes?, Option.map_eq_some_iff]
  constructor
  · rintro ⟨⟨u, rest⟩, h, heq⟩
    obtain ⟨rfl, rfl⟩ := Prod.mk_inj.mp heq
    exact ⟨⟨rest, h⟩, hsize h⟩
  · rintro ⟨⟨rest, h⟩, rfl⟩
    exact ⟨(t, rest), h, congrArg (t, ·) (hsize h)⟩

theorem utf8ByteSize_le_of_scan? {rest : List Char} (h : scan? source.toList = some (t, rest)) :
    1 ≤ t.text.utf8ByteSize ∧ t.text.utf8ByteSize ≤ source.utf8ByteSize := by
  constructor
  · rw [Nat.one_le_iff_ne_zero, ne_eq, String.utf8ByteSize_eq_zero_iff]
    intro hempty
    exact (text_append_of_scan? h).2 (by rw [hempty, String.toList_empty])
  · rw [← text_append_ofList h, String.utf8ByteSize_append]
    exact Nat.le_add_right _ _

/-! ## What follows -/

theorem not_goesOn_of_separates {c : Char} (h : separates c = true) : goesOn c = false := by
  rw [← Bool.not_eq_true]
  intro hgo
  have hblank := not_isBlank_of_occurs (occurs_of_goesOn hgo)
  obtain ⟨hopener, hcloser⟩ := Bracket.not_bracket (p := goesOn)
    (by rintro (_ | _ | _) <;> decide) hgo
  rw [separates, hblank, hopener, hcloser] at h
  cases h

/-- Of a text behind a token, only its first character counts. -/
theorem scanBytes?_text_append (h : t.WellFormed) (behind : String)
    (stop : ∀ c ∈ behind.toList.head?, goesOn c = false) :
    scanBytes? (t.text ++ behind) = some (t, t.text.utf8ByteSize) := by
  refine scanBytes?_eq_some_iff.mpr ⟨⟨behind.toList, ?_⟩, rfl⟩
  rw [String.toList_append]
  exact scan?_text_append h stop

/-- Tokens are as long as possible, and unambiguous. A token is taken exactly where a word of some
kind starts that is not empty. All words that a text starts with are of one kind, so the kinds can
be tried in any order. The token is the longest word of its kind and takes the bytes of this word,
at least one and no more than the text has. From its own text alone, and from its text with a blank
or a bracket behind it and whatever comes next, the same token is taken. -/
theorem scanBytes?_maximal (source : String) :
    ((∃ t n, scanBytes? source = some (t, n)) ↔
      ∃ k : Kind, ∃ w ∈ k.words, w ≠ [] ∧ w <+: source.toList) ∧
    (∀ k k' : Kind, ∀ w ∈ k.words, ∀ w' ∈ k'.words, w <+: source.toList → w' <+: source.toList →
      k = k') ∧
    (∀ order : List Kind, (∀ k, k ∈ order) →
      order.findSome? (·.first? source.toList) = scan? source.toList) ∧
    (∀ t n, scanBytes? source = some (t, n) ↔
      LongestStart t.kind.words source.toList t.text.toList ∧ n = t.text.utf8ByteSize) ∧
    ∀ t n, scanBytes? source = some (t, n) → 1 ≤ n ∧ n ≤ source.utf8ByteSize ∧
      scanBytes? t.text = some (t, n) ∧
      ∀ c behind, separates c = true →
        scanBytes? (t.text ++ (String.singleton c ++ behind)) = some (t, n) := by
  refine ⟨⟨?_, ?_⟩, fun k k' w hw w' hw' => kind_unique hw hw', fun order => findSome?_first?,
    fun t n => ?_, fun t n h => ?_⟩
  · rintro ⟨t, n, h⟩
    obtain ⟨⟨rest, hscan⟩, -⟩ := scanBytes?_eq_some_iff.mp h
    have hlongest := exists_scan?_iff.mp ⟨rest, hscan⟩
    exact ⟨t.kind, _, hlongest.mem, (text_append_of_scan? hscan).2, hlongest.starts⟩
  · rintro ⟨k, w, hw, -, starts⟩
    obtain ⟨t, rest, hscan⟩ := exists_scan?_of_mem hw starts
    exact ⟨t, _, scanBytes?_eq_some_iff.mpr ⟨⟨rest, hscan⟩, rfl⟩⟩
  · rw [scanBytes?_eq_some_iff, exists_scan?_iff]
  · obtain ⟨⟨rest, hscan⟩, rfl⟩ := scanBytes?_eq_some_iff.mp h
    have hwell := wellFormed_of_scan? hscan
    obtain ⟨hpos, hle⟩ := utf8ByteSize_le_of_scan? hscan
    refine ⟨hpos, hle, ?_, fun c behind hc => ?_⟩
    · simpa using scanBytes?_text_append hwell "" (by simp)
    · refine scanBytes?_text_append hwell _ ?_
      simpa using not_goesOn_of_separates hc

/-- A number with digits of another script and an exponent, behind which another one could start. -/
theorem scanBytes?_maximal_foreign_digits :
    scanBytes? "-٣.e+٤eV" = some (number "-٣.e+٤", 8) ∧
      (LongestStart Kind.number.words "-٣.e+٤eV".toList "-٣.e+٤".toList ∧
        8 = "-٣.e+٤".utf8ByteSize) ∧
      [Kind.operator, .unit, .number].findSome? (·.first? "-٣.e+٤eV".toList) =
        scan? "-٣.e+٤eV".toList ∧
      scanBytes? "-٣.e+٤" = some (number "-٣.e+٤", 8) ∧ separates '[' = true ∧
      scanBytes? ("-٣.e+٤" ++ (String.singleton '[' ++ "°C")) = some (number "-٣.e+٤", 8) := by
  have hscan : scan? "-٣.e+٤eV".toList = some (number "-٣.e+٤", ['e', 'V']) := by
    with_unfolding_all rfl
  have hbytes : 8 = (number "-٣.e+٤").text.utf8ByteSize := by decide
  have htaken := scanBytes?_eq_some_iff.mpr ⟨⟨_, hscan⟩, hbytes⟩
  obtain ⟨-, -, horder, hlongest, hstable⟩ := scanBytes?_maximal "-٣.e+٤eV"
  obtain ⟨-, -, halone, hbehind⟩ := hstable _ _ htaken
  have hbracket : separates '[' = true := by decide
  exact ⟨htaken, (hlongest _ _).mp htaken, horder _ (by rintro (_ | _ | _) <;> simp), halone,
    hbracket, hbehind '[' "°C" hbracket⟩

end Token

end UnitCalc
