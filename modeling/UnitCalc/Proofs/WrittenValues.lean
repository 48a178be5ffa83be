import UnitCalc.Json.Decoding
import UnitCalc.Proofs.QuotedTexts

/-!
# Proofs: written values are read back

A value of texts, arrays and objects is read back from its written form, whatever stands behind it.
The reader hands on what is left together with a bound on its length; `Parsed.Gives` is what it
gives without that bound.
-/

namespace UnitCalc.Json

/-- What is given for the start of a text, and what is left of the text. -/
def Parsed.Gives {α : Type} {cs : List Char} (p : Parsed α cs) (a : α) (rest : List Char) : Prop :=
  ∃ shorter, p = some (a, ⟨rest, shorter⟩)

variable {cs body named held more rest : List Char} {j : Json} {js : List Json}
  {ms : List (List Char × Json)}

/-! ## One step of reading

Each lemma says what is read once the next character that is not blank is known.
-/

theorem skipSpace_cons {c : Char} (h : isSpace c = false) : skipSpace (c :: cs) = c :: cs := by
  rw [skipSpace, List.dropWhile_cons_of_neg (by simp [h])]

theorem gives_string (h : splitBody? cs = some (body, rest)) :
    (value? ('"' :: cs)).Gives (string body) rest := by
  have hskip : skipSpace ('"' :: cs) = '"' :: cs := skipSpace_cons rfl
  have hleaf : leaf? ('"' :: cs) = some (string body, rest) := by
    rw [leaf?, h]
    rfl
  rw [value?.eq_def]
  split
  · cases hskip.symm.trans ‹_›
  · cases hskip.symm.trans ‹_›
  · split
    · rename_i found
      rw [hskip, hleaf] at found
      cases found
    · rename_i found
      rw [hskip, hleaf] at found
      cases found
      exact ⟨_, rfl⟩

theorem gives_array_nil : (value? ('[' :: ']' :: rest)).Gives (array []) rest := by
  have hskip : skipSpace ('[' :: ']' :: rest) = '[' :: ']' :: rest := skipSpace_cons rfl
  have hend : skipSpace (']' :: rest) = ']' :: rest := skipSpace_cons rfl
  rw [value?.eq_def]
  split
  · rename_i starts
    cases hskip.symm.trans starts
    dsimp only
    split
    · rename_i first
      cases hend.symm.trans first
      exact ⟨_, rfl⟩
    · rename_i first
      exact absurd hend (first _)
  · cases hskip.symm.trans ‹_›
  · rename_i harray _
    exact absurd hskip (harray _)

theorem gives_array (hend : ∀ ds, skipSpace cs ≠ ']' :: ds) (h : (items? cs).Gives js rest) :
    (value? ('[' :: cs)).Gives (array js) rest := by
  obtain ⟨shorter, h⟩ := h
  have hskip : skipSpace ('[' :: cs) = '[' :: cs := skipSpace_cons rfl
  rw [value?.eq_def]
  split
  · rename_i starts
    cases hskip.symm.trans starts
    dsimp only
    split
    · exact absurd ‹_› (hend _)
    · rw [h]
      exact ⟨_, rfl⟩
  · cases hskip.symm.trans ‹_›
  · rename_i harray _
    exact absurd hskip (harray _)

/-- Behind an item either the array ends or further items are read. -/
theorem gives_items {behind : List Char} (h : (value? cs).Gives j behind)
    (hnext : behind = ']' :: rest ∧ js = [] ∨
      ∃ more, behind = ',' :: more ∧ (items? more).Gives js rest) :
    (items? cs).Gives (j :: js) rest := by
  obtain ⟨shorter, h⟩ := h
  rw [items?.eq_def, h]
  dsimp only
  rcases hnext with ⟨rfl, rfl⟩ | ⟨more, rfl, _, hmore⟩
  · have hend : skipSpace (']' :: rest) = ']' :: rest := skipSpace_cons rfl
    split
    · rename_i next
      cases hend.symm.trans next
      exact ⟨_, rfl⟩
    · cases hend.symm.trans ‹_›
    · rename_i hnext _
      exact absurd hend (hnext _)
  · have hcomma : skipSpace (',' :: more) = ',' :: more := skipSpace_cons rfl
    split
    · cases hcomma.symm.trans ‹_›
    · rename_i next
      cases hcomma.symm.trans next
      rw [hmore]
      exact ⟨_, rfl⟩
    · rename_i hnext
      exact absurd hcomma (hnext _)

theorem gives_object_nil : (value? ('\x7b' :: '\x7d' :: rest)).Gives (object []) rest := by
  have hskip : skipSpace ('\x7b' :: '\x7d' :: rest) = '\x7b' :: '\x7d' :: rest := skipSpace_cons rfl
  have hend : skipSpace ('\x7d' :: rest) = '\x7d' :: rest := skipSpace_cons rfl
  rw [value?.eq_def]
  split
  · cases hskip.symm.trans ‹_›
  · rename_i starts
    cases hskip.symm.trans starts
    dsimp only
    split
    · rename_i first
      cases hend.symm.trans first
      exact ⟨_, rfl⟩
    · rename_i first
      exact absurd hend (first _)
  · rename_i hobject
    exact absurd hskip (hobject _)

theorem gives_object (hend : ∀ ds, skipSpace cs ≠ '\x7d' :: ds) (h : (members? cs).Gives ms rest) :
    (value? ('\x7b' :: cs)).Gives (object ms) rest := by
  obtain ⟨shorter, h⟩ := h
  have hskip : skipSpace ('\x7b' :: cs) = '\x7b' :: cs := skipSpace_cons rfl
  rw [value?.eq_def]
  split
  · cases hskip.symm.trans ‹_›
  · rename_i starts
    cases hskip.symm.trans starts
    dsimp only
    split
    · exact absurd ‹_› (hend _)
    · rw [h]
      exact ⟨_, rfl⟩
  · rename_i hobject
    exact absurd hskip (hobject _)

/-- Behind a member either the object ends or further members are read. -/
theorem gives_members {key behind : List Char} (hkey : splitBody? named = some (key, ':' :: held))
    (h : (value? held).Gives j behind)
    (hnext : behind = '\x7d' :: rest ∧ ms = [] ∨
      ∃ more, behind = ',' :: more ∧ (members? more).Gives ms rest) :
    (members? ('"' :: named)).Gives ((key, j) :: ms) rest := by
  obtain ⟨shorter, h⟩ := h
  have hquote : skipSpace ('"' :: named) = '"' :: named := skipSpace_cons rfl
  have hcolon : skipSpace (':' :: held) = ':' :: held := skipSpace_cons rfl
  rw [members?.eq_def]
  split
  case h_2 first => exact absurd hquote (first _)
  rename_i first
  cases hquote.symm.trans first
  split
  case h_1 found => cases hkey.symm.trans found
  rename_i found
  cases hkey.symm.trans found
  dsimp only
  split
  case h_2 colon => exact absurd hcolon (colon _)
  rename_i colon
  cases hcolon.symm.trans colon
  rw [h]
  dsimp only
  rcases hnext with ⟨rfl, rfl⟩ | ⟨more, rfl, _, hmore⟩
  · have hend : skipSpace ('\x7d' :: rest) = '\x7d' :: rest := skipSpace_cons rfl
    split
    · rename_i next
      cases hend.symm.trans next
      exact ⟨_, rfl⟩
    · cases hend.symm.trans ‹_›
    · rename_i hnext _
      exact absurd hend (hnext _)
  · have hcomma : skipSpace (',' :: more) = ',' :: more := skipSpace_cons rfl
    split
    · cases hcomma.symm.trans ‹_›
    · rename_i next
      cases hcomma.symm.trans next
      rw [hmore]
      exact ⟨_, rfl⟩
    · rename_i hnext
      exact absurd hcomma (hnext _)

/-! ## Written values -/

/-- A value of texts, arrays and objects, with texts for keys. -/
inductive Spelled : Json → Prop where
  /-- A text. -/
  | string (cs : List Char) : Spelled (string (escape cs))
  /-- An array. -/
  | array {items : List Json} (h : ∀ j ∈ items, Spelled j) : Spelled (array items)
  /-- An object. -/
  | object {members : List (List Char × Json)} (hkeys : ∀ m ∈ members, ∃ cs, m.1 = escape cs)
      (h : ∀ m ∈ members, Spelled m.2) : Spelled (object members)

/-- The value is read back from its written form, with any text behind it. -/
def ReadBack (j : Json) : Prop := ∀ rest, (value? (write j rest)).Gives j rest

/-- No written value starts like the end of an array. -/
theorem Spelled.skipSpace_write_ne (h : j.Spelled) (rest ds : List Char) :
    skipSpace (write j rest) ≠ ']' :: ds := by
  have hskip : ∃ c, (∀ more, skipSpace (c :: more) = c :: more) ∧ c ≠ ']' ∧
      ∃ more, write j rest = c :: more := by
    cases h with
    | string cs => exact ⟨'"', fun more => skipSpace_cons rfl, by decide, _, rfl⟩
    | @array items _ =>
      refine ⟨'[', fun more => skipSpace_cons rfl, by decide, ?_⟩
      cases items <;> exact ⟨_, rfl⟩
    | @object members _ _ =>
      refine ⟨'\x7b', fun more => skipSpace_cons rfl, by decide, ?_⟩
      cases members <;> exact ⟨_, rfl⟩
  obtain ⟨c, hc, hne, more, hwrite⟩ := hskip
  rw [hwrite, hc]
  rintro ⟨⟩
  exact hne rfl

theorem gives_writeItems (hj : j.ReadBack) (hjs : ∀ k ∈ js, ReadBack k) (rest : List Char) :
    (items? (write j (writeItems js rest))).Gives (j :: js) rest := by
  induction js generalizing j with
  | nil => exact gives_items (hj _) (.inl ⟨rfl, rfl⟩)
  | cons k ks ih =>
    obtain ⟨hk, hks⟩ := List.forall_mem_cons.mp hjs
    exact gives_items (hj _) (.inr ⟨_, rfl, ih hk hks⟩)

theorem gives_writeMembers {key : List Char} (hkey : ∃ cs, key = escape cs) (hj : j.ReadBack)
    (hkeys : ∀ m ∈ ms, ∃ cs, m.1 = escape cs) (hms : ∀ m ∈ ms, ReadBack m.2) (rest : List Char) :
    (members? (quoted key (':' :: write j (writeMembers ms rest)))).Gives ((key, j) :: ms)
      rest := by
  induction ms generalizing key j with
  | nil =>
    obtain ⟨cs, rfl⟩ := hkey
    exact gives_members (splitBody?_escape cs _) (hj _) (.inl ⟨rfl, rfl⟩)
  | cons m ms ih =>
    obtain ⟨cs, rfl⟩ := hkey
    obtain ⟨hm, hkeys⟩ := List.forall_mem_cons.mp hkeys
    obtain ⟨hvalue, hms⟩ := List.forall_mem_cons.mp hms
    exact gives_members (splitBody?_escape cs _) (hj _) (.inr ⟨_, rfl, ih hm hvalue hkeys hms⟩)

theorem Spelled.readBack (h : j.Spelled) : j.ReadBack := by
  induction h with
  | string cs =>
    intro rest
    exact gives_string (splitBody?_escape cs rest)
  | @array items hitems ih =>
    intro rest
    cases items with
    | nil => exact gives_array_nil
    | cons j js =>
      obtain ⟨hj, -⟩ := List.forall_mem_cons.mp hitems
      obtain ⟨ihj, ihjs⟩ := List.forall_mem_cons.mp ih
      exact gives_array (hj.skipSpace_write_ne _) (gives_writeItems ihj ihjs rest)
  | @object members hkeys _ ih =>
    intro rest
    cases members with
    | nil => exact gives_object_nil
    | cons m ms =>
      obtain ⟨hkey, hkeys⟩ := List.forall_mem_cons.mp hkeys
      obtain ⟨ihm, ihms⟩ := List.forall_mem_cons.mp ih
      refine gives_object (fun ds hds => ?_) (gives_writeMembers hkey ihm hkeys ihms rest)
      have hquote : skipSpace (quoted m.1 (':' :: write m.2 (writeMembers ms rest))) = _ :=
        skipSpace_cons (c := '"') rfl
      cases hquote.symm.trans hds

theorem Spelled.read?_text (h : j.Spelled) : read? j.text = some j := by
  obtain ⟨shorter, hread⟩ := h.readBack []
  rw [read?, text, hread]
  rfl

/-- Two values do not have one written form. -/
theorem Spelled.eq_of_text_eq {k : Json} (hj : j.Spelled) (hk : k.Spelled) (h : j.text = k.text) :
    j = k := by
  have hread : some j = some k := by rw [← hj.read?_text, h, hk.read?_text]
  exact Option.some.inj hread

/-- A whole text that is a written value is decoded as this value. -/
theorem Spelled.decodeText_text {α : Type} (decode : Decoder α) (h : j.Spelled) :
    decodeText decode (String.ofList j.text) = decode levelLimit j := by
  rw [decodeText, String.toList_ofList, h.read?_text]
  rfl

/-! ## Written values are one line -/

theorem printable_quoted {key : List Char} (hkey : ∃ cs, key = escape cs) (h : Printable rest) :
    Printable (quoted key rest) := by
  obtain ⟨cs, rfl⟩ := hkey
  exact .cons (by decide) ((printable_escape cs).append (.cons (by decide) h))

theorem printable_writeItems (hwrite : ∀ j ∈ js, ∀ rest, Printable rest → Printable (write j rest))
    (h : Printable rest) : Printable (writeItems js rest) := by
  induction js with
  | nil => exact .cons (by decide) h
  | cons j js ih =>
    obtain ⟨hj, hjs⟩ := List.forall_mem_cons.mp hwrite
    exact .cons (by decide) (hj _ (ih hjs))

theorem printable_writeMembers (hkeys : ∀ m ∈ ms, ∃ cs, m.1 = escape cs)
    (hwrite : ∀ m ∈ ms, ∀ rest, Printable rest → Printable (write m.2 rest)) (h : Printable rest) :
    Printable (writeMembers ms rest) := by
  induction ms with
  | nil => exact .cons (by decide) h
  | cons m ms ih =>
    obtain ⟨hkey, hkeys⟩ := List.forall_mem_cons.mp hkeys
    obtain ⟨hm, hms⟩ := List.forall_mem_cons.mp hwrite
    have hbehind := hm _ (ih hkeys hms)
    exact .cons (by decide) (printable_quoted hkey (.cons (by decide) hbehind))

theorem Spelled.printable_write (h : j.Spelled) :
    ∀ rest, Printable rest → Printable (write j rest) := by
  induction h with
  | string cs => exact fun rest hrest => printable_quoted ⟨cs, rfl⟩ hrest
  | @array items _ ih =>
    intro rest hrest
    cases items with
    | nil => exact .cons (by decide) (.cons (by decide) hrest)
    | cons j js =>
      obtain ⟨hj, hjs⟩ := List.forall_mem_cons.mp ih
      exact .cons (by decide) (hj _ (printable_writeItems hjs hrest))
  | @object members hkeys _ ih =>
    intro rest hrest
    cases members with
    | nil => exact .cons (by decide) (.cons (by decide) hrest)
    | cons m ms =>
      obtain ⟨hkey, hkeys⟩ := List.forall_mem_cons.mp hkeys
      obtain ⟨hm, hms⟩ := List.forall_mem_cons.mp ih
      have hbehind := hm _ (printable_writeMembers hkeys hms hrest)
      exact .cons (by decide) (printable_quoted hkey (.cons (by decide) hbehind))

theorem Spelled.printable_text (h : j.Spelled) : Printable j.text :=
  h.printable_write [] printable_nil

/-! ## Texts and records -/

theorem spelled_ofText (s : String) : (ofText s).Spelled := .string s.toList

theorem spelled_ofMembers {members : List (String × Json)} (h : ∀ m ∈ members, m.2.Spelled) :
    (ofMembers members).Spelled :=
  .object (List.forall_mem_map.mpr fun m _ => ⟨m.1.toList, rfl⟩) (List.forall_mem_map.mpr h)

theorem text?_ofText (levels : Nat) (s : String) : text? levels (ofText s) = some s := by
  rw [ofText, text?, unescape?_escape, Option.map_some, String.ofList_toList]

/-- A choice that is only a name. -/
theorem choice?_ofText {α : Type} (ofName : String → Option α) (levels : Nat) (s : String) :
    choice? ofName levels (ofText s) = ofName s := by
  simp only [choice?, ofText, unescape?_escape, bind, Option.bind, String.ofList_toList]

/-- What stands under the one name of a choice. -/
theorem tagged?_ofMembers (levels : Nat) (name : String) (j : Json) :
    tagged? (levels + 1) (ofMembers [(name, j)]) = some (levels, name, j) := by
  simp only [tagged?, ofMembers, List.map_cons, List.map_nil, enter?, unescape?_escape, bind,
    Option.bind, pure, String.ofList_toList]

theorem named?_ofMembers (members : List (String × Json)) :
    named? (members.map fun (name, j) => (escape name.toList, j)) = some members := by
  induction members with
  | nil => rfl
  | cons m ms ih =>
    rw [List.map_cons, named?, unescape?_escape, ih]
    simp only [bind, Option.bind, pure, String.ofList_toList]

end UnitCalc.Json
