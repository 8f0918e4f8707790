import Predictive.Proofs.JsonText
import Predictive.Proofs.RejectionLookahead
import Predictive.Proofs.ViablePrefix
import Predictive.Report.Outcome

/-!
The JSON form of an outcome tells the outcome. It shows symbols by their names and drops the token of an unknown one,
so it does not tell any two rejections apart, but it does tell those that one translator reports. On top of the stack
is a declared symbol or the end marker, and no two of these have one name (`Grammar.WellFormed.eq_of_name`). A
lookahead that is only spelled like the empty word is no terminal, which the reason shows
(`Plain.rejection_eq_of_shown`).
-/
namespace Predictive

/-! ### Symbols by name -/

namespace Grammar.WellFormed

variable {g : Grammar}

theorem not_reserved_name (wellFormed : g.WellFormed) {symbol : Symbol} (declared : g.Declared symbol) :
    ¬ Reserved symbol.name := by
  cases symbol with
  | terminal name => exact wellFormed.names_free name (List.mem_append_left _ declared)
  | nonTerminal name => exact wellFormed.names_free name (List.mem_append_right _ declared)
  | epsilon => exact absurd declared id
  | endMarker => exact absurd declared id

/-- No two symbols that are declared or the end marker have one name. -/
theorem eq_of_name (wellFormed : g.WellFormed) {one other : Symbol}
    (known : one = .endMarker ∨ g.Declared one) (knownOther : other = .endMarker ∨ g.Declared other)
    (same : one.name = other.name) : one = other := by
  rcases known with rfl | declared
  · rcases knownOther with rfl | declaredOther
    · rfl
    · exact absurd (.inr same.symm) (wellFormed.not_reserved_name declaredOther)
  · rcases knownOther with rfl | declaredOther
    · exact absurd (.inr same) (wellFormed.not_reserved_name declared)
    · have found := wellFormed.symbol?_name declared
      rw [same, wellFormed.symbol?_name declaredOther] at found
      exact (Option.some.inj found).symm

end Grammar.WellFormed

/-! ### Rejections that are shown alike -/

namespace Report.Outcome

/-- Two rejections are shown by the same words. -/
structure ShownAlike (one other : Rejection) : Prop where
  stackTop : one.stackTop.name = other.stackTop.name
  lookahead : one.lookahead.name = other.lookahead.name
  reason : reasonWord one.reason = reasonWord other.reason

theorem numbers_injective : Function.Injective Text.Json.numbers := by
  intro one other same
  have items : one.map Text.Json.number = other.map Text.Json.number := Text.Json.list.inj same
  exact List.map_injective_iff.mpr (fun _ _ => Text.Json.number.inj) items

/-- Outcomes with the same JSON are equal, or they are rejections that are shown alike. -/
theorem eq_or_shownAlike {one other : Predictive.Outcome} (same : render .json one = render .json other) :
    one = other ∨ ∃ rejection rejectionOther, one = .rejected rejection ∧ other = .rejected rejectionOther ∧
      ShownAlike rejection rejectionOther := by
  have alike : json one = json other := Text.Json.render_injective same
  cases one with
  | accepted rules =>
    cases other with
    | accepted rulesOther =>
      have sameRules : Text.Json.numbers rules = Text.Json.numbers rulesOther := by simpa [json] using alike
      exact .inl (congrArg _ (numbers_injective sameRules))
    | rejected rejectionOther => simp [json] at alike
  | rejected rejection =>
    cases other with
    | accepted rulesOther => simp [json] at alike
    | rejected rejectionOther =>
      obtain ⟨stackTop, lookahead, reason⟩ : rejection.stackTop.name = rejectionOther.stackTop.name ∧
          rejection.lookahead.name = rejectionOther.lookahead.name ∧
          reasonWord rejection.reason = reasonWord rejectionOther.reason := by simpa [json] using alike
      exact .inr ⟨rejection, rejectionOther, rfl, rfl, stackTop, lookahead, reason⟩

end Report.Outcome

section
variable {table : Table}

/-- A lookahead that is spelled like the empty word is no terminal. -/
theorem Plain.reasonWord_rejection_epsilon (wellFormed : table.grammar.WellFormed) {top : Symbol}
    {rest : List String} :
    Report.Outcome.reasonWord (rejection table top ("ε" :: rest)).reason = "unknown_token" := by
  have unknown : "ε" ∉ table.grammar.terminals := fun declared =>
    wellFormed.names_free "ε" (List.mem_append_left _ declared) (.inl (.inr rfl))
  simp [rejection, unknown, Report.Outcome.reasonWord]

/-- Rejections under symbols that are declared or the end marker are equal if they are shown alike. -/
theorem Plain.rejection_eq_of_shown (wellFormed : table.grammar.WellFormed) {top other : Symbol}
    {tokens others : List String} (known : top = .endMarker ∨ table.grammar.Declared top)
    (knownOther : other = .endMarker ∨ table.grammar.Declared other)
    (alike : Report.Outcome.ShownAlike (rejection table top tokens) (rejection table other others)) :
    rejection table top tokens = rejection table other others := by
  obtain ⟨stackTop, lookahead, reason⟩ := alike
  rw [stackTop_rejection, stackTop_rejection] at stackTop
  obtain rfl := wellFormed.eq_of_name known knownOther stackTop
  cases tokens with
  | nil =>
    cases others with
    | nil => rfl
    | cons token rest =>
      obtain rfl : "ε" = token := lookahead
      rw [reasonWord_rejection_epsilon wellFormed] at reason
      simp [rejection, Report.Outcome.reasonWord] at reason
  | cons token rest =>
    cases others with
    | nil =>
      obtain rfl : token = "ε" := lookahead
      rw [reasonWord_rejection_epsilon wellFormed] at reason
      simp [rejection, Report.Outcome.reasonWord] at reason
    | cons tokenOther restOther =>
      obtain rfl : token = tokenOther := lookahead
      rfl

/-- A translator rejects under a symbol that is declared or the end marker. -/
theorem Translator.exists_rejection {allowance : Nat} {tokens : List String}
    (wellFormed : table.grammar.WellFormed) {rejection : Rejection}
    (rejected : ({ table, allowance } : Translator).translate tokens = .ok (.rejected rejection)) :
    ∃ top left, (top = .endMarker ∨ table.grammar.Declared top) ∧ rejection = Plain.rejection table top left := by
  obtain ⟨_, last, plain, _, _, _, shows, halted, _⟩ := exists_shows wellFormed rejected
  obtain ⟨top, onTop, notEpsilon, same⟩ := Plain.step_eq_rejected shows.stack_ne_nil halted
  have inside : top ∈ last.stack := shows.stack_eq ▸ List.mem_of_mem_head? onTop
  exact ⟨top, plain.tokens, (shows.declared_of_mem top inside).resolve_left notEpsilon, same⟩

end

/-! ### Outcomes of a translator -/

section
variable {g : Grammar}

/-- Two lists of tokens whose outcomes a translator writes as the same JSON have the same outcome, with the kinds of
    the symbols it shows and the token it does not know, however the tokens are spelled. -/
theorem outcome_eq_of_json (built : g.Built) {allowance : Nat} {translator : Translator}
    (made : Translator.ofGrammar g allowance = .ok translator) {tokens others : List String} {one other : Outcome}
    (translated : translator.translate tokens = .ok one) (translatedOther : translator.translate others = .ok other)
    (same : Report.Outcome.render .json one = Report.Outcome.render .json other) : one = other := by
  obtain ⟨table, madeTable, rfl⟩ := Translator.ofGrammar_eq_ok made
  obtain rfl := Table.ofGrammar_eq_ok madeTable
  have wellFormed := built.wellFormed
  rcases Report.Outcome.eq_or_shownAlike same with equal | ⟨rejection, rejectionOther, rfl, rfl, alike⟩
  · exact equal
  · obtain ⟨top, left, known, rfl⟩ := Translator.exists_rejection wellFormed translated
    obtain ⟨topOther, leftOther, knownOther, rfl⟩ := Translator.exists_rejection wellFormed translatedOther
    exact congrArg _ (Plain.rejection_eq_of_shown wellFormed known knownOther alike)

/-- The rejection of a token that is spelled like the empty word. -/
def spelledEpsilon : Rejection where
  stackTop := .nonTerminal "E"
  lookahead := .terminal "ε"
  reason := .unknownToken "ε"

theorem outcome_eq_of_json_spelledEpsilon :
    Grammar.expression.Built ∧ Translator.ofGrammar .expression = .ok { table := expressionTable } ∧
    ({ table := expressionTable } : Translator).translate ["ε"] = .ok (.rejected spelledEpsilon) ∧
    ({ table := expressionTable } : Translator).translate ["ε", "a"] = .ok (.rejected spelledEpsilon) ∧
    ({ table := expressionTable } : Translator).translate ["ε"] =
      ({ table := expressionTable } : Translator).translate ["ε", "a"] := by
  have made : Translator.ofGrammar .expression = .ok { table := expressionTable } := rfl
  have rejected : ({ table := expressionTable } : Translator).translate ["ε"] = .ok (.rejected spelledEpsilon) := rfl
  have rejectedOther : ({ table := expressionTable } : Translator).translate ["ε", "a"] =
      .ok (.rejected spelledEpsilon) := rfl
  refine ⟨expression_built, made, rejected, rejectedOther, ?_⟩
  rw [rejected, rejectedOther, outcome_eq_of_json expression_built made rejected rejectedOther rfl]

/-- Without a translator, JSON does not tell a terminal from a non-terminal. -/
example : Report.Outcome.render .json (.rejected { spelledEpsilon with stackTop := .terminal "E" }) =
    Report.Outcome.render .json (.rejected spelledEpsilon) := rfl

end

end Predictive
