import UnitCalc.Command
import UnitCalc.Proofs.Outcomes
import UnitCalc.Proofs.Transcripts

/-!
# Proofs: runs of the command

What decides a run is looked at in one order: a wish for help, the settings, the database, and only
then whether there is an expression. The input matters to a session alone, and of the settings the
nesting limit comes through unchanged.
-/

namespace UnitCalc

open Text

/-! ## Settings -/

theorem Settings.limit_of_readLimit {value : String} {n : Nat} (h : readLimit value = .ok n) :
    n ≤ greatestNestingLimit := by
  unfold readLimit at h
  split at h
  · split at h
    · cases h
      exact (‹_ ∧ _›).2
    · cases h
  · cases h

theorem Settings.ofLookup_eq {lookup : String → Option String} : ofLookup lookup =
    (value? lookup limitVariable).elim (.ok defaultNestingLimit) readLimit >>= fun limit =>
      (value? lookup formatVariable).elim (.ok default) readFormat >>= fun format =>
        .ok ⟨value? lookup databaseVariable, limit, format⟩ := by
  unfold ofLookup
  cases value? lookup limitVariable <;> cases value? lookup formatVariable <;> rfl

/-- What settings are made of: the value of each variable, or else its default. -/
theorem Settings.of_ofLookup {lookup : String → Option String} {settings : Settings}
    (h : ofLookup lookup = .ok settings) :
    ((value? lookup limitVariable).elim (.ok defaultNestingLimit) readLimit = .ok settings.limit) ∧
      (value? lookup formatVariable).elim (.ok default) readFormat = .ok settings.format ∧
      settings.database = value? lookup databaseVariable := by
  rw [ofLookup_eq] at h
  obtain ⟨limit, hlimit, h⟩ := bind_eq_ok_iff.mp h
  obtain ⟨format, hformat, h⟩ := bind_eq_ok_iff.mp h
  cases h
  exact ⟨hlimit, hformat, rfl⟩

/-- A converter takes the nesting limit of settings as it is. -/
theorem Settings.limit_le {lookup : String → Option String} {settings : Settings}
    (h : ofLookup lookup = .ok settings) : settings.limit ≤ greatestNestingLimit := by
  obtain ⟨hlimit, -⟩ := of_ofLookup h
  cases hvalue : value? lookup limitVariable with
  | none =>
    rw [hvalue] at hlimit
    rw [← Except.ok.inj hlimit]
    decide
  | some value =>
    rw [hvalue] at hlimit
    exact limit_of_readLimit hlimit

/-! ## Sessions that meet an unreadable line -/

namespace Session

variable {converter : Converter} {format : Format}

/-- Among the lines is one that is not UTF-8, and none in front of it ends a session. -/
def MeetsUnreadable (input : List UInt8) : Prop :=
  ∃ (front : List String) (bad : List UInt8) (rest : List (List UInt8)),
    lines input = front.map bytesOf ++ bad :: rest ∧ (∀ line ∈ front, quits line = false) ∧
      String.fromUTF8? bad.toByteArray = none

/-- Bytes spell a text or are not UTF-8. -/
theorem exists_bytesOf_or_unreadable (line : List UInt8) :
    (∃ text, line = bytesOf text) ∨ String.fromUTF8? line.toByteArray = none := by
  cases h : String.fromUTF8? line.toByteArray with
  | none => exact .inr rfl
  | some text =>
    refine .inl ⟨text, ?_⟩
    unfold String.fromUTF8? at h
    split at h
    · cases h
      show line = line.toByteArray.data.toList
      rw [List.data_toByteArray]
    · cases h

/-- Of any lines, some in front are answered, and the next one ends the session if there is one. -/
theorem exists_answered (ls : List (List UInt8)) :
    ∃ front : List String, (∀ line ∈ front, quits line = false) ∧
      (ls = front.map bytesOf ∨
        (∃ line rest, quits line = true ∧ ls = front.map bytesOf ++ bytesOf line :: rest) ∨
        ∃ bad rest, String.fromUTF8? bad.toByteArray = none ∧
          ls = front.map bytesOf ++ bad :: rest) := by
  induction ls with
  | nil => exact ⟨[], by simp, .inl rfl⟩
  | cons line rest ih =>
    obtain ⟨text, rfl⟩ | hbad := exists_bytesOf_or_unreadable line
    · cases hquits : quits text with
      | true => exact ⟨[], by simp, .inr (.inl ⟨text, rest, hquits, rfl⟩)⟩
      | false =>
        obtain ⟨front, hfront, hrest⟩ := ih
        refine ⟨text :: front, List.forall_mem_cons.mpr ⟨hquits, hfront⟩, ?_⟩
        obtain rfl | ⟨line, rest, hline, rfl⟩ | ⟨bad, rest, hbad, rfl⟩ := hrest
        · exact .inl rfl
        · exact .inr (.inl ⟨line, rest, hline, rfl⟩)
        · exact .inr (.inr ⟨bad, rest, hbad, rfl⟩)
    · exact ⟨[], by simp, .inr (.inr ⟨line, rest, hbad, rfl⟩)⟩

theorem ending_eq_unreadable_iff (input : List UInt8) :
    (transcript converter format input).ending = .unreadable ↔ MeetsUnreadable input := by
  constructor
  · intro hending
    obtain ⟨front, hfront, hlines⟩ := exists_answered (lines input)
    rw [transcript] at hending
    obtain hlines | ⟨line, rest, hline, hlines⟩ | ⟨bad, rest, hbad, hlines⟩ := hlines
    · rw [hlines, ← List.append_nil (front.map bytesOf), run_turns hfront] at hending
      cases hending
    · rw [hlines, run_turns hfront, run_quits hline] at hending
      cases hending
    · exact ⟨front, bad, rest, hlines, hfront, hbad⟩
  · rintro ⟨front, bad, rest, hlines, hfront, hbad⟩
    rw [transcript, hlines, run_turns hfront, run_unreadable hbad]
    rfl

end Session

/-! ## Runs -/

namespace Command

variable {arguments : List String} {lookup : String → Option String}
  {readFile : String → Except String ByteArray} {settings : Settings} {units : Catalogue}

theorem wantsHelp_iff : wantsHelp arguments = true ↔ "-h" ∈ arguments ∨ "--help" ∈ arguments := by
  simp only [wantsHelp, List.any_eq_true, Bool.or_eq_true, beq_iff_eq]
  constructor
  · rintro ⟨_, hmem, rfl | rfl⟩
    · exact .inl hmem
    · exact .inr hmem
  · rintro (hmem | hmem)
    · exact ⟨_, hmem, .inl rfl⟩
    · exact ⟨_, hmem, .inr rfl⟩

/-- One variable decides which catalogue is used: that of the file it names, or the built-in one
when it names none. -/
theorem catalogue_of_ofLookup (h : Settings.ofLookup lookup = .ok settings) :
    (Settings.value? lookup databaseVariable = none →
      catalogue settings readFile = Catalogue.builtin) ∧
    ∀ path, Settings.value? lookup databaseVariable = some path →
      catalogue settings readFile = Catalogue.ofFile path (readFile path) := by
  obtain ⟨-, -, hdatabase⟩ := Settings.of_ofLookup h
  exact ⟨fun hnone => catalogue_of_database_eq_none (hdatabase.trans hnone),
    fun path hsome => catalogue_of_database_eq_some (hdatabase.trans hsome)⟩

theorem start_of_settings_error {error : SettingsError}
    (h : Settings.ofLookup lookup = .error error) :
    start lookup readFile = .error (.settings error) := by
  rw [start, h]

theorem start_of_database_error {error : DatabaseError}
    (hs : Settings.ofLookup lookup = .ok settings) (hu : catalogue settings readFile = .error error) :
    start lookup readFile = .error (.database error) := by
  rw [start, hs]
  dsimp only
  rw [hu]

theorem start_of_ok (hs : Settings.ofLookup lookup = .ok settings)
    (hu : catalogue settings readFile = .ok units) :
    start lookup readFile = .ok (⟨units, settings.limit⟩, settings.format) := by
  rw [start, hs]
  dsimp only
  rw [hu]
  dsimp only [Converter.withLimit]
  rw [Nat.min_eq_left (Settings.limit_le hs)]

/-- The outcome of a session tells whether an unreadable line was met. -/
theorem sessionOutcome_transcript (converter : Converter) (format : Format) (input : List UInt8) :
    (Session.MeetsUnreadable input ∧
      sessionOutcome (Session.transcript converter format input) =
        ⟨1, (Session.transcript converter format input).output,
          "Error: stream did not contain valid UTF-8\n"⟩) ∨
    (¬ Session.MeetsUnreadable input ∧
      sessionOutcome (Session.transcript converter format input) =
        ⟨0, (Session.transcript converter format input).output, ""⟩) := by
  rw [← @Session.ending_eq_unreadable_iff converter format]
  unfold sessionOutcome
  cases (Session.transcript converter format input).ending with
  | quit => exact .inr ⟨by simp, rfl⟩
  | endOfInput => exact .inr ⟨by simp, rfl⟩
  | unreadable => exact .inl ⟨rfl, rfl⟩

/-- The status and both streams of every run: help before all else, then the settings, the database,
and last a session or one expression, according to whether there are arguments. -/
theorem run_classified (arguments : List String) (lookup : String → Option String)
    (readFile : String → Except String ByteArray) (input : List UInt8) :
    ("-h" ∈ arguments ∨ "--help" ∈ arguments →
      run arguments lookup readFile input = ⟨0, usage ++ "\n", ""⟩) ∧
    ("-h" ∉ arguments → "--help" ∉ arguments →
      (∀ error, Settings.ofLookup lookup = .error error →
        run arguments lookup readFile input = ⟨2, "", "Error: " ++ error.message ++ "\n"⟩) ∧
      ∀ settings, Settings.ofLookup lookup = .ok settings →
        (∀ error, catalogue settings readFile = .error error →
          run arguments lookup readFile input = ⟨2, "", "Error: " ++ error.message ++ "\n"⟩) ∧
        ∀ units, catalogue settings readFile = .ok units →
          let converter : Converter := ⟨units, settings.limit⟩
          (arguments = [] →
            let text := (Session.transcript converter settings.format input).output
            (Session.MeetsUnreadable input ∧ run arguments lookup readFile input =
              ⟨1, text, "Error: stream did not contain valid UTF-8\n"⟩) ∨
            (¬ Session.MeetsUnreadable input ∧
              run arguments lookup readFile input = ⟨0, text, ""⟩)) ∧
          (arguments ≠ [] →
            let result := converter.convert (" ".intercalate arguments)
            let text := settings.format.renderOutcome result ++ "\n"
            ((∃ q, result = .ok q) ∧ run arguments lookup readFile input = ⟨0, text, ""⟩) ∨
            ((∃ error, result = .error error) ∧
              run arguments lookup readFile input = ⟨1, text, ""⟩))) := by
  refine ⟨fun hhelp => ?_, fun hshort hlong => ⟨fun error hsettings => ?_, fun settings hsettings =>
    ⟨fun error hunits => ?_, fun units hunits => ⟨fun hnone => ?_, fun hsome => ?_⟩⟩⟩⟩
  case _ => rw [run, if_pos (wantsHelp_iff.mpr hhelp), helpOutcome]
  all_goals
    have hstart : ¬ wantsHelp arguments = true :=
      fun h => (wantsHelp_iff.mp h).elim hshort hlong
    rw [run, if_neg hstart]
  · rw [start_of_settings_error hsettings]
    rfl
  · rw [start_of_database_error hsettings hunits]
    rfl
  · rw [start_of_ok hsettings hunits, hnone]
    exact sessionOutcome_transcript _ _ input
  · rw [start_of_ok hsettings hunits]
    dsimp only
    rw [if_neg (by simpa using hsome), expressionOutcome]
    cases hresult : Converter.convert ⟨units, settings.limit⟩ (" ".intercalate arguments) with
    | ok q => exact .inl ⟨⟨q, rfl⟩, by rw [Session.answer, hresult]⟩
    | error error => exact .inr ⟨⟨error, rfl⟩, by rw [Session.answer, hresult]⟩

/-- Under a database without units: a session with a byte that is no text behind a blank line, one
expression, a limit that is too great, and a wish for help that comes before the fault of the
limit. -/
theorem run_classified_four_runs :
    let lookup (limit : String) (name : String) : Option String :=
      if name = databaseVariable then some "units.csv"
      else if name = limitVariable then some limit
      else none
    let readFile (_ : String) : Except String ByteArray := .ok "Symbol".toUTF8
    run [] (lookup "1") readFile [0x0A, 0xFF] =
        ⟨1, "Enter expression: Enter expression: ", "Error: stream did not contain valid UTF-8\n"⟩ ∧
      run ["(", "m"] (lookup "1") readFile [] =
        ⟨1, "Error: SyntaxError: unclosed bracket at 0 near: ( m\n", ""⟩ ∧
      run ["(", "m"] (lookup "513") readFile [] =
        ⟨2, "", "Error: BASIS_MAX_DEPTH must be an integer from 1 to 512, got '513'\n"⟩ ∧
      run ["(", "-h"] (lookup "513") readFile [] = ⟨0, usage ++ "\n", ""⟩ := by
  intro lookup readFile
  have hsettings : Settings.ofLookup (lookup "1") = .ok ⟨some "units.csv", 1, .text⟩ := by
    with_unfolding_all rfl
  have hunits : catalogue ⟨some "units.csv", 1, .text⟩ readFile = .ok Catalogue.empty :=
    (catalogue_of_database_eq_some rfl).trans (by with_unfolding_all rfl)
  have hparse : Node.parse 1 "( m" = .error (.unclosedBracket 0 "( m") := by
    with_unfolding_all rfl
  have hconvert : Converter.convert ⟨Catalogue.empty, 1⟩ "( m" =
      .error (.badSyntax (.unclosedBracket 0 "( m")) := by
    unfold Converter.convert convertUnder parseGrouped
    rw [hparse]
    rfl
  have hbad : Session.MeetsUnreadable [0x0A, 0xFF] :=
    ⟨["\n"], [0xFF], [], rfl, by decide, by decide⟩
  have hlimit : Settings.ofLookup (lookup "513") = .error (.badLimit "513") := by
    with_unfolding_all rfl
  refine ⟨?_, ?_, ?_, ?_⟩
  · obtain ⟨-, hrun⟩ | ⟨hread, -⟩ := (((((run_classified [] (lookup "1") readFile [0x0A, 0xFF]).2
      (by decide) (by decide)).2 _ hsettings).2 _ hunits).1 rfl)
    · rw [hrun]
      with_unfolding_all rfl
    · exact absurd hbad hread
  · obtain ⟨⟨q, hq⟩, -⟩ | ⟨-, hrun⟩ := (((((run_classified ["(", "m"] (lookup "1") readFile []).2
      (by decide) (by decide)).2 _ hsettings).2 _ hunits).2 (by decide))
    · exact absurd (hconvert.symm.trans hq) (by simp)
    · rw [hrun]
      have hjoin : " ".intercalate ["(", "m"] = "( m" := by decide
      rw [hjoin, hconvert]
      rfl
  · exact ((run_classified ["(", "m"] (lookup "513") readFile []).2 (by decide) (by decide)).1 _
      hlimit
  · exact (run_classified ["(", "-h"] (lookup "513") readFile []).1 (.inl (by decide))

end Command

end UnitCalc
