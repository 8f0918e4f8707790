import Predictive.Command.Response
import Predictive.Proofs.Items

/-!
What the command line prints for the lines of its input. A transcript (`Command.Transcript`) tells for each line in
turn how it was answered: reported as unreadable, printed with its outcome, or left because its translation did not
end in time, which ends the command. Printing outcomes and printing every step are two runs over the same lines. Both
follow the same transcript, and what they print holds the outcome as the export in one call gives it.
-/
namespace Predictive

/-! ### Traces end as runs without one do -/

namespace Translator

variable {translator : Translator} {tokens : List String}

theorem trace_eq_error {fault : Error} (failed : translator.translate tokens = .error fault) :
    translator.trace tokens = .error fault := by
  rw [← map_outcome_trace] at failed
  cases traced : translator.trace tokens with
  | error other => rw [traced] at failed; cases failed; rfl
  | ok trace => rw [traced] at failed; cases failed

theorem exists_trace {outcome : Outcome} (translated : translator.translate tokens = .ok outcome) :
    ∃ trace, translator.trace tokens = .ok trace ∧ trace.outcome = outcome := by
  rw [← map_outcome_trace] at translated
  cases traced : translator.trace tokens with
  | error fault => rw [traced] at translated; cases translated
  | ok trace => rw [traced] at translated; cases translated; exact ⟨trace, rfl, rfl⟩

end Translator

namespace Command

/-! ### Responses behind one another -/

namespace Response

@[simp] theorem nothing_andThen {response : Response} : ({} : Response).andThen response = response := by
  simp [andThen]

@[simp] theorem andThen_nothing {response : Response} : response.andThen {} = response := by
  unfold andThen
  split
  · next succeeded => cases response; simp_all
  · rfl

@[simp] theorem inTurn_nil {α : Type} {respond : α → Response} : inTurn respond [] = {} := rfl

end Response

/-! ### The request -/

/-- The words that are options wherever they stand behind the outputs. A file with such a name can be given by a longer
    path. -/
def optionWords : List String := ["-h", "--help", "-l", "-j"]

theorem Request.ofArgs?_json {word path : String} {output : Output} (named : Output.ofArg? word = some output)
    (isFile : path ∉ optionWords) :
    Request.ofArgs? [word, "-j", path] = some { outputs := [output], format := .json, grammarFile := some path } := by
  have fileLeft : takeFormat? .json [path] = some (.json, [path]) := by
    unfold takeFormat?
    split <;> simp_all [optionWords]
  have outputsTaken : takeOutputs [word, "-j", path] = ([output], ["-j", path]) := by
    simp only [takeOutputs, named]
    rfl
  have formatTaken : takeFormat? .plain ["-j", path] = some (.json, [path]) := fileLeft
  simp only [ofArgs?, outputsTaken, formatTaken]

variable {text path word : String} {g : Grammar} {translator : Translator}
  {readFile : String → Except ReadFault (List UInt8)}

/-- The response to one output in JSON, by the grammar of a file. -/
theorem respond_json (written : Grammar.ofText text = .ok g) (made : Translator.ofGrammar g = .ok translator)
    {output : Output} (named : Output.ofArg? word = some output) (isFile : path ∉ optionWords)
    (holds : (readFile path).bind decode = .ok text) (input : List UInt8) :
    respond [word, "-j", path] readFile input = outputResponse translator .json (decodeLines input) output := by
  obtain ⟨tabled, _, same⟩ := Export.tableOf_of_translator written made
  simp only [respond, Request.ofArgs?_json named isFile, Option.map_some, holds, Request.respond, requestedTable,
    tabled, Except.mapError, withLines, Response.inTurn_cons, Response.inTurn_nil, Response.andThen_nothing, ← same]

/-! ### One line -/

/-- What an expression stands for to a translator. -/
def readLine (translator : Translator) (line : String) : Except Error (List String) :=
  (Lexer.ofGrammar translator.table.grammar).read line

variable {line : String} {steps : Bool} {tokens : List String} {fault : Error}

theorem lineResponse_unreadable {format : Report.Format} (unread : readLine translator line = .error fault) :
    lineResponse translator format steps (.ok line) = .errorLine fault.message := by
  have tokenized := Lexer.tokenize_eq_error unread
  simp only [lineResponse, expressionResponse, tokenized]

theorem lineResponse_read (read : readLine translator line = .ok tokens) :
    lineResponse translator .json steps (.ok line) =
      match runReport translator .json steps tokens with
      | .error fault => .failure fault.message
      | .ok report => .line (report ++ "\n") := by
  obtain ⟨tokenization, tokenized, rfl⟩ := Lexer.exists_tokenize read
  cases reported : runReport translator .json steps
    ((Lexer.ofGrammar translator.table.grammar).normalize tokenization.tokens) <;>
    simp only [lineResponse, expressionResponse, tokenized, reported, reduceCtorEq, if_false, Response.nothing_andThen]

theorem runReport_error {format : Report.Format} (failed : translator.translate tokens = .error fault) :
    runReport translator format steps tokens = .error fault := by
  cases steps with
  | false => simp [runReport, failed, Except.map]
  | true => simp [runReport, Translator.trace_eq_error failed, Except.map]

/-! ### All lines -/

/-- How the lines of the input were answered one after another, with what was printed of them and the exit code.
    What is printed of the outcome of a line is left open. -/
inductive Transcript (translator : Translator) (prints : String → String → Prop) :
    List String → Response → Prop where
  | done : Transcript translator prints [] {}
  /-- The line is reported and skipped. -/
  | unreadable {line : String} {rest : List String} {fault : Error} {response : Response} :
      readLine translator line = .error fault → Transcript translator prints rest response →
      Transcript translator prints (line :: rest)
        { response with stderr := fault.message ++ "\n" ++ response.stderr }
  /-- The step ceiling ends the command, and the lines behind are not looked at. -/
  | runaway {line : String} {rest tokens : List String} :
      readLine translator line = .ok tokens →
      translator.translate tokens = .error (.runaway (translator.limit tokens)) →
      Transcript translator prints (line :: rest)
        { stderr := "error: " ++ (Error.runaway (translator.limit tokens)).message ++ "\n", code := 1 }
  | answered {line report : String} {rest tokens : List String} {outcome : Outcome} {response : Response} :
      readLine translator line = .ok tokens → translator.translate tokens = .ok outcome → prints line report →
      Transcript translator prints rest response →
      Transcript translator prints (line :: rest)
        { response with stdout := report ++ "\n\n" ++ response.stdout }

namespace Transcript

variable {prints others : String → String → Prop} {lines : List String} {response other : Response}

/-- What is printed of outcomes decides neither what is reported as an error nor the exit code. -/
theorem alike (one : Transcript translator prints lines response) (two : Transcript translator others lines other) :
    response.stderr = other.stderr ∧ response.code = other.code := by
  induction one generalizing other with
  | done =>
    cases two
    exact ⟨rfl, rfl⟩
  | @unreadable line rest fault response unread _ ih =>
    cases two with
    | unreadable unreadToo behind =>
      cases unread.symm.trans unreadToo
      obtain ⟨errors, codes⟩ := ih behind
      exact ⟨congrArg (fault.message ++ "\n" ++ ·) errors, codes⟩
    | runaway read => cases unread.symm.trans read
    | answered read => cases unread.symm.trans read
  | runaway read failed =>
    cases two with
    | unreadable unread => cases read.symm.trans unread
    | runaway readToo _ =>
      cases read.symm.trans readToo
      exact ⟨rfl, rfl⟩
    | answered readToo translated =>
      cases read.symm.trans readToo
      cases failed.symm.trans translated
  | answered read translated _ _ ih =>
    cases two with
    | unreadable unread => cases read.symm.trans unread
    | runaway readToo failed =>
      cases read.symm.trans readToo
      cases failed.symm.trans translated
    | answered _ _ _ behind =>
      obtain ⟨errors, codes⟩ := ih behind
      exact ⟨errors, codes⟩

/-- Answering the lines in turn leaves a transcript, where a report is printed for every line with an outcome. -/
theorem of_inTurn
    (reports : ∀ line tokens outcome, readLine translator line = .ok tokens →
      translator.translate tokens = .ok outcome →
      ∃ report, runReport translator .json steps tokens = .ok report ∧ prints line report) :
    Transcript translator prints lines (.inTurn (lineResponse translator .json steps) (lines.map .ok)) := by
  induction lines with
  | nil => exact .done
  | cons line rest ih =>
    rw [List.map_cons, Response.inTurn_cons]
    cases read : readLine translator line with
    | error fault =>
      rw [lineResponse_unreadable read]
      simpa [Response.andThen, Response.errorLine] using Transcript.unreadable read ih
    | ok tokens =>
      rw [lineResponse_read read]
      cases run : translator.translate tokens with
      | error fault =>
        obtain rfl := Translator.runaway_of_translate run
        rw [runReport_error run]
        exact .runaway read run
      | ok outcome =>
        obtain ⟨report, reported, printed⟩ := reports line tokens outcome read run
        rw [reported]
        simpa [Response.andThen, Response.line, String.append_assoc] using Transcript.answered read run printed ih

end Transcript

/-! ### Outcomes and traces -/

theorem outcome_report (written : Grammar.ofText text = .ok g) (made : Translator.ofGrammar g = .ok translator)
    {outcome : Outcome} (read : readLine translator line = .ok tokens)
    (translated : translator.translate tokens = .ok outcome) :
    (Report.Outcome.json outcome).render = Export.outcome text line := by
  obtain ⟨_, rfl, _⟩ := Export.tableOf_of_translator written made
  rw [Export.outcome, Export.outcomeOf_eq written made read, translated]
  rfl

/-- The report is an object in which the steps of a run stand before its outcome, and this is what the export in one
    call returns for the line. -/
def ReportsOutcome (text line report : String) : Prop :=
  ∃ steps outcome : Text.Json, report = (Text.Json.object [("steps", steps), ("outcome", outcome)]).render ∧
    outcome.render = Export.outcome text line

section
variable {input : List UInt8} {lines : List String} (written : Grammar.ofText text = .ok g)
  (made : Translator.ofGrammar g = .ok translator) (isFile : path ∉ optionWords)
  (holds : (readFile path).bind decode = .ok text) (decoded : decodeLines input = lines.map .ok)
include written made isFile holds decoded

theorem transcript_outcomes : Transcript translator (fun line report => report = Export.outcome text line) lines
    (respond ["parse", "-j", path] readFile input) := by
  rw [respond_json written made rfl isFile holds, decoded]
  refine .of_inTurn fun line tokens outcome read translated => ?_
  refine ⟨(Report.Outcome.json outcome).render, ?_, outcome_report written made read translated⟩
  simp [runReport, translated, Except.map, Report.Outcome.render]

theorem transcript_traces :
    Transcript translator (ReportsOutcome text) lines (respond ["trace", "-j", path] readFile input) := by
  rw [respond_json written made rfl isFile holds, decoded]
  refine .of_inTurn fun line tokens outcome read translated => ?_
  obtain ⟨trace, traced, rfl⟩ := Translator.exists_trace translated
  refine ⟨(Report.Trace.json trace).render, by simp [runReport, traced, Except.map, Report.Trace.render], ?_⟩
  exact ⟨_, _, rfl, outcome_report written made read translated⟩

/-- For each line of the input in turn, the command line prints what the export in one call returns, or reports that
    the line cannot be read, or ends because its translation passes the step ceiling. With the steps printed as well,
    the outcome is a field of what is printed, and all else is alike. -/
theorem commandLine_outcomes :
    Transcript translator (fun line report => report = Export.outcome text line) lines
      (respond ["parse", "-j", path] readFile input) ∧
    Transcript translator (ReportsOutcome text) lines (respond ["trace", "-j", path] readFile input) ∧
    (respond ["trace", "-j", path] readFile input).stderr = (respond ["parse", "-j", path] readFile input).stderr ∧
    (respond ["trace", "-j", path] readFile input).code = (respond ["parse", "-j", path] readFile input).code := by
  have parsed := transcript_outcomes written made isFile holds decoded
  have traced := transcript_traces written made isFile holds decoded
  exact ⟨parsed, traced, traced.alike parsed⟩

end

/-- A grammar whose start symbol comes back behind one that vanishes, so that no run ends at the end of the input. -/
def idling : Grammar where
  start := "S"
  terminals := ["x"]
  nonTerminals := ["S", "A"]
  productions := [
    { id := 1, left := "S", right := [.nonTerminal "A", .nonTerminal "S"] },
    { id := 2, left := "S", right := [.terminal "x"] },
    { id := 3, left := "A", right := [.epsilon] }]

/-- The table of the grammar. -/
def idlingTable : Table where
  grammar := idling
  first := (FirstSets.searchAll idling {} idling.nonTerminals).toOption.getD {}
  first_eq := rfl

/-- The grammar as the contents of every file. -/
def idlingFile (_ : String) : Except ReadFault (List UInt8) := .ok "S -> A S | x\nA -> e".toUTF8.toList

/-- Four lines: one that is accepted, one that is no expression, an empty one, and one behind it. -/
def fourLines : List UInt8 := "x\n?\n\nx\n".toUTF8.toList

/-- The line behind the empty one is not looked at, because the run for the empty one passes the step ceiling. -/
theorem commandLine_outcomes_idling :
    Grammar.ofText "S -> A S | x\nA -> e" = .ok idling ∧
    Translator.ofGrammar idling = .ok { table := idlingTable } ∧
    "g" ∉ optionWords ∧ (idlingFile "g").bind decode = .ok "S -> A S | x\nA -> e" ∧
    decodeLines fourLines = ["x", "?", "", "x"].map .ok ∧
    Transcript { table := idlingTable } (fun line report => report = Export.outcome "S -> A S | x\nA -> e" line)
      ["x", "?", "", "x"] (respond ["parse", "-j", "g"] idlingFile fourLines) ∧
    (respond ["trace", "-j", "g"] idlingFile fourLines).code = 1 ∧
    respond ["parse", "-j", "g"] idlingFile fourLines = {
      stdout := "\x7b\"status\":\"accepted\",\"rules\":[2]\x7d\n\n"
      stderr := "unrecognized character '?' at position 0\n" ++
        "error: grammar cycle: parse did not terminate within 1024 steps\n"
      code := 1 } := by
  have written : Grammar.ofText "S -> A S | x\nA -> e" = .ok idling := rfl
  have made : Translator.ofGrammar idling = .ok { table := idlingTable } := rfl
  have isFile : "g" ∉ optionWords := by decide
  have holds : (idlingFile "g").bind decode = .ok "S -> A S | x\nA -> e" := by decide +kernel
  have decoded : decodeLines fourLines = ["x", "?", "", "x"].map .ok := by decide +kernel
  have response : respond ["parse", "-j", "g"] idlingFile fourLines = {
      stdout := "\x7b\"status\":\"accepted\",\"rules\":[2]\x7d\n\n"
      stderr := "unrecognized character '?' at position 0\n" ++
        "error: grammar cycle: parse did not terminate within 1024 steps\n"
      code := 1 } := by decide +kernel
  obtain ⟨parsed, _, _, codes⟩ := commandLine_outcomes written made isFile holds decoded
  exact ⟨written, made, isFile, holds, decoded, parsed, by rw [codes, response], response⟩

end Command

end Predictive
