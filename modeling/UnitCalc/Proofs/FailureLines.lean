import UnitCalc.Command
import UnitCalc.Proofs.Lines
import UnitCalc.Proofs.WrittenValues

/-!
# Proofs: a failure as one line of JSON

A failure is written as JSON on one line, whatever characters the texts in it have, and the report
is read back from this line as it was. A report without a suggestion is written without that member,
and is read back without one.
-/

namespace UnitCalc

open Json Session

/-! ## Reports are read back -/

theorem FailureKind.ofName?_name (kind : FailureKind) : ofName? kind.name = some kind := by
  cases kind <;> decide

theorem spelled_optionalMember (name : String) (value : Option String) :
    ∀ m ∈ optionalMember name value, m.2.Spelled := by
  cases value with
  | none => exact List.forall_mem_nil _
  | some s => exact List.forall_mem_cons.mpr ⟨spelled_ofText s, List.forall_mem_nil _⟩

theorem FailureReport.spelled_toJson (report : FailureReport) : report.toJson.Spelled := by
  refine spelled_ofMembers (List.forall_mem_append.mpr ⟨?_, spelled_optionalMember _ _⟩)
  simp only [List.forall_mem_cons]
  exact ⟨spelled_ofText _, spelled_ofText _, spelled_ofText _, List.forall_mem_nil _⟩

/-- What a report has for its four parts, of which the last can be absent. -/
theorem FailureReport.parts?_toJson (levels : Nat) (report : FailureReport) :
    parts? ["kind", "code", "message", "suggestion"] (levels + 1) report.toJson =
      some (levels, [some (ofText report.kind.name), some (ofText report.code),
        some (ofText report.message), report.suggestion.map ofText]) := by
  simp only [parts?, toJson, ofMembers, enter?, named?_ofMembers, bind, Option.bind]
  cases report.suggestion <;> rfl

theorem FailureReport.decode_toJson (levels : Nat) (report : FailureReport) :
    FailureReport.decode (levels + 1) report.toJson = some report := by
  obtain ⟨kind, code, message, suggestion⟩ := report
  have hsuggestion : optional? text? levels (suggestion.map ofText) = some suggestion := by
    cases suggestion with
    | none => rfl
    | some s =>
      show (text? levels (ofText s)).map some = some (some s)
      rw [text?_ofText]
      rfl
  simp only [FailureReport.decode, parts?_toJson, required?, bind, Option.bind, pure,
    choice?_ofText, FailureKind.ofName?_name, text?_ofText, hsuggestion]

/-! ## Lines -/

theorem textLines_append_lineFeed {line : String} (h : Printable line.toList) :
    textLines (line ++ "\n") = [line ++ "\n"] := by
  have hfeed : ∀ c ∈ line.toList, (c == '\n') = false := by
    intro c hc
    rw [beq_eq_false_iff_ne]
    rintro rfl
    exact absurd (h _ hc) (by decide)
  have hline : (line ++ "\n").toList = line.toList ++ '\n' :: [] := String.toList_append
  rw [textLines, hline, cutBehind_append_cons hfeed rfl, ← hline]
  simp only [cutBehind, List.map_cons, List.map_nil, String.ofList_toList]

theorem Format.printable_renderError (error : ConversionError) :
    Printable (Format.json.renderError error).toList := by
  have hjson : (Format.json.renderError error).toList = error.report.toJson.text :=
    String.toList_ofList
  rw [hjson]
  exact error.report.spelled_toJson.printable_text

/-- A failure as JSON has no control character in it, and its report is read back from it, with a
suggestion exactly if there was one. So every expression that has no value is answered by one line
in this format, whatever was entered. -/
theorem failure_on_one_line :
    (∀ error : ConversionError,
      (∀ c ∈ (Format.json.renderError error).toList, 0x20 ≤ c.toNat) ∧
      decodeText FailureReport.decode (Format.json.renderError error) = some error.report) ∧
    ∀ (converter : Converter) (expression : String) (error : ConversionError),
      converter.convert expression = .error error →
        Session.answer converter .json expression = Format.json.renderError error ++ "\n" ∧
        textLines (Session.answer converter .json expression) =
          [Format.json.renderError error ++ "\n"] ∧
        (Command.expressionOutcome converter .json expression).output =
          Session.answer converter .json expression := by
  refine ⟨fun error => ⟨Format.printable_renderError error, ?_⟩, ?_⟩
  · have hspelled := error.report.spelled_toJson
    rw [Format.renderError, hspelled.decodeText_text]
    exact error.report.decode_toJson _
  · intro converter expression error herror
    have hanswer : Session.answer converter .json expression =
        Format.json.renderError error ++ "\n" := by
      rw [Session.answer, herror]
      rfl
    refine ⟨hanswer, ?_, rfl⟩
    rw [hanswer]
    exact textLines_append_lineFeed (Format.printable_renderError error)

/-- A quote, a backslash, a line feed and a control character are entered, and shown in the
message. -/
theorem failure_on_one_line_control_characters :
    let converter : Converter := { units := .empty }
    let error : ConversionError := .badSyntax (.noToken 2 "\"\\\n\u0001")
    let line := "\x7b\"kind\":\"syntax\",\"code\":\"PARSE_ERROR\",\"message\":" ++
      "\"SyntaxError: cannot parse starting at 2 near: \\\"\\\\\\n\\u0001\"\x7d"
    converter.convert "3 \"\\\n\u0001" = .error error ∧
    decodeText FailureReport.decode line = some error.report ∧
    Session.answer converter .json "3 \"\\\n\u0001" = line ++ "\n" ∧
    textLines (Session.answer converter .json "3 \"\\\n\u0001") = [line ++ "\n"] := by
  intro converter error line
  have hparse : Node.parse 64 "3 \"\\\n\u0001" = .error (.noToken 2 "\"\\\n\u0001") := by
    with_unfolding_all rfl
  have hgrouped : parseGrouped 64 "3 \"\\\n\u0001" = .error (.noToken 2 "\"\\\n\u0001") := by
    unfold parseGrouped
    rw [hparse]
    rfl
  have hconvert : converter.convert "3 \"\\\n\u0001" = .error error := by
    show convertUnder 64 .empty "3 \"\\\n\u0001" = _
    unfold convertUnder
    rw [hgrouped]
  have hline : Format.json.renderError error = line := by decide +kernel
  obtain ⟨failures, answers⟩ := failure_on_one_line
  obtain ⟨hanswer, hlines, -⟩ := answers converter _ error hconvert
  rw [← hline]
  exact ⟨hconvert, (failures error).2, hanswer, hlines⟩

end UnitCalc
