import UnitCalc.Proofs.Lines

/-!
# Proofs: transcripts of sessions

A transcript is put together line by line: what a line adds is a function of this line, whatever the
lines around it are and however they are answered. The line that ends a session, for the letter or
for being unreadable, is the last one that is looked at.
-/

namespace UnitCalc.Session

open Text

/-- The line ends a session: it is only the letter, small or capital, and blanks. -/
def quits (line : String) : Bool := trimString line == "q" || trimString line == "Q"

/-- What a line that does not end the session adds to the transcript: the prompt in front of it and,
unless it is blank, the answer to it and an empty line. -/
def turn (converter : Converter) (format : Format) (line : String) : String :=
  if (trimString line).isEmpty then prompt
  else prompt ++ (answer converter format (trimString line) ++ "\n")

theorem Transcript.after_after (t : Transcript) (a b : String) :
    (t.after b).after a = t.after (a ++ b) := by
  simp only [after, String.append_assoc]

theorem Transcript.after_empty (t : Transcript) : t.after "" = t := by
  simp only [after, String.empty_append]

variable {converter : Converter} {format : Format} {line : String}

/-! ## One line -/

theorem run_quits (h : quits line = true) (rest : List (List UInt8)) :
    run converter format (bytesOf line :: rest) = ⟨prompt, .quit⟩ := by
  have hreply : reply converter format line = .quit := by
    unfold reply
    refine if_pos ?_
    simpa [quits] using h
  rw [run, fromUTF8?_bytesOf]
  dsimp only
  rw [hreply]

theorem run_turn (h : quits line = false) (rest : List (List UInt8)) :
    run converter format (bytesOf line :: rest) =
      (run converter format rest).after (turn converter format line) := by
  have hquit : ¬ (trimString line = "q" ∨ trimString line = "Q") := by simpa [quits] using h
  rw [run, fromUTF8?_bytesOf]
  dsimp only
  by_cases hblank : (trimString line).isEmpty = true
  · have hreply : reply converter format line = .silence := by
      unfold reply
      dsimp only
      rw [if_neg hquit, if_pos hblank]
    rw [hreply, turn, if_pos hblank]
  · have hreply : reply converter format line =
        .answer (answer converter format (trimString line) ++ "\n") := by
      unfold reply
      dsimp only
      rw [if_neg hquit, if_neg hblank]
    rw [hreply, turn, if_neg hblank]

theorem run_unreadable {bad : List UInt8} (h : String.fromUTF8? bad.toByteArray = none)
    (rest : List (List UInt8)) :
    run converter format (bad :: rest) = ⟨prompt, .unreadable⟩ := by
  rw [run, h]

/-! ## Many lines -/

/-- Lines that do not end the session add their turns in order. -/
theorem run_turns {front : List String} (h : ∀ l ∈ front, quits l = false)
    (rest : List (List UInt8)) :
    run converter format (front.map bytesOf ++ rest) =
      (run converter format rest).after (String.join (front.map (turn converter format))) := by
  induction front with
  | nil => exact (Transcript.after_empty _).symm
  | cons line front ih =>
    obtain ⟨hline, hfront⟩ := List.forall_mem_cons.mp h
    rw [List.map_cons, List.cons_append, run_turn hline, ih hfront, Transcript.after_after,
      List.map_cons, String.join_cons]

/-- The transcript of lines that are all readable. -/
theorem run_readable (ls : List String) :
    run converter format (ls.map bytesOf) =
      (if ls.any quits then ⟨prompt, .quit⟩ else ⟨prompt ++ "\n", .endOfInput⟩ : Transcript).after
        (String.join ((ls.takeWhile fun l => !quits l).map (turn converter format))) := by
  have hasked : ∀ l ∈ ls.takeWhile fun l => !quits l, quits l = false := by
    intro l hl
    simpa using List.all_eq_true.mp List.all_takeWhile l hl
  have hsplit : ls = (ls.takeWhile fun l => !quits l) ++ ls.dropWhile fun l => !quits l :=
    List.takeWhile_append_dropWhile.symm
  have hrun : ls.map bytesOf = (ls.takeWhile fun l => !quits l).map bytesOf ++
      (ls.dropWhile fun l => !quits l).map bytesOf := by
    rw [← List.map_append, ← hsplit]
  -- what is left is the line that ends the session with all that follows it, or nothing
  rw [hrun, run_turns hasked]
  cases hdrop : ls.dropWhile fun l => !quits l with
  | nil =>
    have hnone : ls.any quits = false := by
      rw [hdrop, List.append_nil] at hsplit
      rw [hsplit]
      simpa using hasked
    rw [hnone]
    rfl
  | cons line rest =>
    have hline : quits line = true := by
      have hhead := List.head_dropWhile_not (fun l => !quits l) (by rw [hdrop]; simp)
      simpa [hdrop] using hhead
    have hsome : ls.any quits = true := by
      rw [hsplit, hdrop]
      simp [hline]
    rw [hsome, List.map_cons, run_quits hline]
    rfl

/-- The transcript of a text is made of the turns of its lines up to the one that ends the session,
and tells whether there was one. Of any other bytes, too, only the lines up to the first that ends
the session matter, be it for the letter or because it is unreadable. -/
theorem transcript_line_by_line (converter : Converter) (format : Format) :
    (∀ text : String, transcript converter format (bytesOf text) =
      (if (textLines text).any quits then ⟨prompt, .quit⟩
        else ⟨prompt ++ "\n", .endOfInput⟩ : Transcript).after
          (String.join (((textLines text).takeWhile fun line => !quits line).map
            (turn converter format)))) ∧
    ∀ (input : List UInt8) (front : List String) (last : List UInt8) (rest : List (List UInt8)),
      lines input = front.map bytesOf ++ last :: rest → (∀ line ∈ front, quits line = false) →
      (∀ line, last = bytesOf line → quits line = true →
        transcript converter format input =
          ⟨String.join (front.map (turn converter format)) ++ prompt, .quit⟩) ∧
      (String.fromUTF8? last.toByteArray = none →
        transcript converter format input =
          ⟨String.join (front.map (turn converter format)) ++ prompt, .unreadable⟩) := by
  refine ⟨fun text => ?_, fun input front last rest hlines hfront => ⟨?_, ?_⟩⟩
  · rw [transcript, lines_bytesOf, run_readable]
  · rintro line rfl hline
    rw [transcript, hlines, run_turns hfront, run_quits hline]
    rfl
  · intro hlast
    rw [transcript, hlines, run_turns hfront, run_unreadable hlast]
    rfl

/-- A blank line and a failing one, and behind them a line that ends the session, for the letter with
a byte behind it that is never read, or for being this byte. -/
theorem transcript_line_by_line_two_turns :
    let converter : Converter := ⟨Catalogue.ofList [], 1⟩
    let turns := prompt ++ prompt ++ "Error: SyntaxError: unclosed bracket at 0 near: (\n\n"
    transcript converter .text (bytesOf " \n(\n q\n" ++ [0xFF]) = ⟨turns ++ prompt, .quit⟩ ∧
      transcript converter .text (bytesOf " \n(\n" ++ [0xFF]) = ⟨turns ++ prompt, .unreadable⟩ := by
  intro converter turns
  have hparse : Node.parse 1 "(" = .error (.unclosedBracket 0 "(") := by cbv
  have hconvert : converter.convert "(" = .error (.badSyntax (.unclosedBracket 0 "(")) := by
    unfold Converter.convert convertUnder parseGrouped
    rw [hparse]
    rfl
  have hfailing : turn converter .text "(\n" =
      prompt ++ "Error: SyntaxError: unclosed bracket at 0 near: (\n\n" := by
    have htrim : trimString "(\n" = "(" := by cbv
    rw [turn, answer, htrim, hconvert]
    rfl
  have hturns : String.join ([" \n", "(\n"].map (turn converter .text)) = turns := by
    rw [List.map_cons, List.map_cons, hfailing]
    rfl
  have hasked : ∀ line ∈ [" \n", "(\n"], quits line = false := by decide
  rw [← hturns]
  constructor
  · exact ((transcript_line_by_line converter .text).2 _ _ (bytesOf " q\n") [[0xFF]] rfl hasked).1 _ rfl
      (by decide)
  · exact ((transcript_line_by_line converter .text).2 _ _ [0xFF] [] rfl hasked).2 (by decide)

end UnitCalc.Session
