import UnitCalc.Session

/-!
# Proofs: the lines of a text

A session cuts its input into lines as bytes. For bytes that spell a text these are the bytes of the
text's own lines, since the byte of a line feed is part of no other character.
-/

namespace UnitCalc

/-! ## Cutting behind an element -/

namespace Session

variable {α : Type} {p : α → Bool} {xs : List α} {pieces : List (List α)}

/-- The pieces of a list that is cut behind each element for which `p` holds. Only the last piece can
lack such an element at its end. -/
inductive Cut (p : α → Bool) : List α → List (List α) → Prop where
  /-- Nothing is left. -/
  | nil : Cut p [] []
  /-- What is left is the last piece. -/
  | last {xs : List α} (hne : xs ≠ []) (h : ∀ x ∈ xs, p x = false) : Cut p xs [xs]
  /-- A piece ends. -/
  | piece {front xs : List α} {x : α} {pieces : List (List α)} (hfront : ∀ y ∈ front, p y = false)
      (hx : p x = true) (h : Cut p xs pieces) : Cut p (front ++ x :: xs) ((front ++ [x]) :: pieces)

/-- Cuts a list behind each element for which `p` holds. -/
def cutBehind (p : α → Bool) : List α → List (List α)
  | [] => []
  | x :: xs =>
    if p x then [x] :: cutBehind p xs
    else
      match cutBehind p xs with
      | [] => [[x]]
      | piece :: rest => (x :: piece) :: rest

theorem cutBehind_cons_of_pos {x : α} (hx : p x = true) :
    cutBehind p (x :: xs) = [x] :: cutBehind p xs := if_pos hx

theorem cutBehind_cons_of_neg {x : α} (hx : p x = false) :
    cutBehind p (x :: xs) =
      match cutBehind p xs with
      | [] => [[x]]
      | piece :: rest => (x :: piece) :: rest := by
  rw [cutBehind, hx]
  rfl

theorem cutBehind_of_forall (hne : xs ≠ []) (h : ∀ x ∈ xs, p x = false) : cutBehind p xs = [xs] := by
  induction xs with
  | nil => exact absurd rfl hne
  | cons x xs ih =>
    obtain ⟨hx, hxs⟩ := List.forall_mem_cons.mp h
    rw [cutBehind_cons_of_neg hx]
    by_cases hnil : xs = []
    · rw [hnil]
      rfl
    · rw [ih hnil hxs]

theorem cutBehind_append_cons {front : List α} {x : α} (hfront : ∀ y ∈ front, p y = false)
    (hx : p x = true) : cutBehind p (front ++ x :: xs) = (front ++ [x]) :: cutBehind p xs := by
  induction front with
  | nil => exact cutBehind_cons_of_pos hx
  | cons y front ih =>
    obtain ⟨hy, hfront⟩ := List.forall_mem_cons.mp hfront
    rw [List.cons_append, cutBehind_cons_of_neg hy, ih hfront]
    rfl

theorem Cut.eq_cutBehind (h : Cut p xs pieces) : pieces = cutBehind p xs := by
  induction h with
  | nil => rfl
  | last hne h => exact (cutBehind_of_forall hne h).symm
  | piece hfront hx _ ih => rw [cutBehind_append_cons hfront hx, ← ih]

theorem cut_cutBehind (p : α → Bool) (xs : List α) : Cut p xs (cutBehind p xs) := by
  induction xs with
  | nil => exact .nil
  | cons x xs ih =>
    cases hx : p x with
    | true =>
      rw [cutBehind_cons_of_pos hx]
      show Cut p ([] ++ x :: xs) (([] ++ [x]) :: cutBehind p xs)
      exact .piece (by simp) hx ih
    | false =>
      rw [cutBehind_cons_of_neg hx]
      generalize cutBehind p xs = pieces at ih
      cases ih with
      | nil => exact .last (by simp) (by simpa using hx)
      | last hne h => exact .last (by simp) (List.forall_mem_cons.mpr ⟨hx, h⟩)
      | piece hfront hx' h => exact .piece (List.forall_mem_cons.mpr ⟨hx, hfront⟩) hx' h

theorem lines_eq_cutBehind (input : List UInt8) : lines input = cutBehind (· == 0x0A) input := by
  induction input with
  | nil => rfl
  | cons b bs ih =>
    rw [lines, cutBehind, ih]
    generalize cutBehind (· == 0x0A) bs = pieces
    cases pieces <;> rfl

end Session

/-! ## Characters as bytes -/

namespace Text

theorem lineFeed_mem_utf8EncodeChar_iff {c : Char} :
    0x0A ∈ String.utf8EncodeChar c ↔ c = '\n' := by
  constructor
  · intro h
    have hval : c.val.toNat = 10 := by
      -- one byte is the character itself, and one of several is 0x80 or more
      simp only [String.utf8EncodeChar] at h
      repeat' split at h
      all_goals
        simp only [List.mem_cons, List.not_mem_nil, or_false, ← UInt8.toNat_inj,
          UInt8.toNat_ofNat, UInt8.toNat_ofNat'] at h
        omega
    exact Char.ext (UInt32.toNat_inj.mp hval)
  · rintro rfl
    decide

/-- The bytes that spell a text. -/
def bytesOf (text : String) : List UInt8 := text.toUTF8.data.toList

theorem bytesOf_ofList (cs : List Char) :
    bytesOf (String.ofList cs) = cs.flatMap String.utf8EncodeChar := by
  rw [bytesOf, String.toUTF8_eq_toByteArray, String.toByteArray_ofList]
  exact List.toList_data_toByteArray

theorem toList_loop (bytes : ByteArray) (i : Nat) (front : List UInt8) :
    ByteArray.toList.loop bytes i front = front.reverse ++ bytes.data.toList.drop i := by
  fun_induction ByteArray.toList.loop bytes i front with
  | case1 i front h ih =>
    have hlength : i < bytes.data.toList.length := h
    have hget : bytes.get! i = bytes.data.toList[i] := by
      rw [Array.getElem_toList]
      exact getElem!_pos bytes.data i h
    rw [ih, List.drop_eq_getElem_cons hlength, hget, List.reverse_cons, List.append_assoc]
    rfl
  | case2 i front h =>
    have hlength : bytes.data.toList.length ≤ i := Nat.not_lt.mp h
    rw [List.drop_eq_nil_of_le hlength, List.append_nil]

theorem toList_toUTF8 (text : String) : text.toUTF8.toList = bytesOf text := by
  rw [ByteArray.toList, toList_loop]
  rfl

theorem fromUTF8?_toUTF8 (text : String) : String.fromUTF8? text.toUTF8 = some text := by
  unfold String.fromUTF8?
  rw [String.toUTF8_eq_toByteArray, dif_pos text.isValidUTF8]
  rfl

theorem fromUTF8?_bytesOf (text : String) :
    String.fromUTF8? (bytesOf text).toByteArray = some text := by
  have hbytes : (bytesOf text).toByteArray = text.toUTF8 := by
    apply ByteArray.ext
    rw [List.data_toByteArray]
    exact Array.toArray_toList
  rw [hbytes, fromUTF8?_toUTF8]

end Text

/-! ## The lines of a text -/

namespace Session

open Text

/-- The lines of a text, each with the line feed at its end; the last one can lack it. -/
def textLines (text : String) : List String :=
  (cutBehind (· == '\n') text.toList).map String.ofList

theorem Cut.utf8 {cs : List Char} {pieces : List (List Char)} (h : Cut (· == '\n') cs pieces) :
    Cut (· == 0x0A) (cs.flatMap String.utf8EncodeChar)
      (pieces.map fun piece => piece.flatMap String.utf8EncodeChar) := by
  have hbyte : ∀ {cs : List Char}, (∀ c ∈ cs, (c == '\n') = false) →
      ∀ b ∈ cs.flatMap String.utf8EncodeChar, (b == 0x0A) = false := by
    intro cs hcs b hb
    obtain ⟨c, hc, hb⟩ := List.mem_flatMap.mp hb
    have hne : c ≠ '\n' := by simpa using hcs c hc
    rw [beq_eq_false_iff_ne]
    rintro rfl
    exact hne (lineFeed_mem_utf8EncodeChar_iff.mp hb)
  induction h with
  | nil => exact .nil
  | @last cs hne h =>
    refine .last ?_ (hbyte h)
    obtain ⟨c, cs, rfl⟩ := List.exists_cons_of_ne_nil hne
    simp [String.utf8EncodeChar_ne_nil]
  | @piece front cs c pieces hfront hc _ ih =>
    obtain rfl : c = '\n' := by simpa using hc
    have hfeed : String.utf8EncodeChar '\n' = [0x0A] := rfl
    simp only [List.map_cons, List.flatMap_append, List.flatMap_cons, List.flatMap_nil, hfeed,
      List.append_nil, List.singleton_append]
    exact .piece (hbyte hfront) rfl ih

/-- The lines of the bytes of a text are the bytes of its lines. -/
theorem lines_bytesOf (text : String) : lines (bytesOf text) = (textLines text).map bytesOf := by
  have hcut := (cut_cutBehind (· == '\n') text.toList).utf8
  have htext : bytesOf text = text.toList.flatMap String.utf8EncodeChar := by
    rw [← bytesOf_ofList, String.ofList_toList]
  rw [lines_eq_cutBehind, htext, ← hcut.eq_cutBehind, textLines, List.map_map]
  exact List.map_congr_left fun cs _ => (bytesOf_ofList cs).symm

end Session

end UnitCalc
