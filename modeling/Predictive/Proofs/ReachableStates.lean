import Predictive.Proofs.Lockstep

/-!
What holds in every state of a run that begins with tokens. The end marker stays at the bottom of the
stack, the input never runs empty, and the empty word stands at most in front of the input and on top of
the stack; in front of a token it stands only if the top vanishes for it (`State.Coherent`). A run
therefore never gets stuck for want of input or of expectation, and accepts only at the very end of its
input (`reaches_coherent`).
-/
namespace Predictive

/-- What every state of a run keeps. -/
structure State.Coherent (table : Table) (state : State) : Prop where
  /-- The end marker is at the bottom of the stack and nowhere else. -/
  endMarker_bottom : ∃ above, state.stack = above ++ [.endMarker] ∧ .endMarker ∉ above
  input_ne_nil : state.input ≠ []
  /-- The empty word is nowhere in the input but in front. -/
  epsilon_front : .epsilon ∉ state.input.tail
  /-- The empty word is nowhere on the stack but on top. -/
  epsilon_top : .epsilon ∉ state.stack.tail
  /-- With the empty word on top of the stack, the empty word is in front of the input. -/
  epsilon_meets : state.stack.head? = some .epsilon → state.input.head? = some .epsilon
  /-- The empty word is in front of a token only under a top that is the empty word or has it in its
      FIRST set. -/
  epsilon_hides : ∀ symbol rest, state.input = .epsilon :: symbol :: rest →
    state.stack.head? = some .epsilon ∨
      ∃ name, state.stack.head? = some (.nonTerminal name) ∧ table.first.Contains name .epsilon

theorem not_epsilon_mem_terminalForm {tokens : List String} : Symbol.epsilon ∉ terminalForm tokens := by
  simp [terminalForm]

namespace Grammar.Stacked

variable {g : Grammar} {stack : List Symbol}

theorem exists_above (stacked : g.Stacked stack) :
    ∃ above, stack = above ++ [.endMarker] ∧ .endMarker ∉ above := by
  induction stacked with
  | bottom => exact ⟨[], rfl, by simp⟩
  | @terminal name below _ _ ih =>
    obtain ⟨above, rfl, clean⟩ := ih
    exact ⟨.terminal name :: above, rfl, by simpa using clean⟩
  | @nonTerminal name below _ _ ih =>
    obtain ⟨above, rfl, clean⟩ := ih
    exact ⟨.nonTerminal name :: above, rfl, by simpa using clean⟩

theorem not_epsilon_mem (stacked : g.Stacked stack) : Symbol.epsilon ∉ stack := by
  induction stacked with
  | bottom => simp
  | terminal _ _ ih => simpa using ih
  | nonTerminal _ _ ih => simpa using ih

theorem eq_bottom (stacked : g.Stacked stack) (onTop : stack.head? = some .endMarker) : stack = [.endMarker] := by
  cases stacked with
  | bottom => rfl
  | terminal _ _ => simp at onTop
  | nonTerminal _ _ => simp at onTop

end Grammar.Stacked

section
variable {g : Grammar} {table : Table} {state : State}

theorem Shows.coherent {plain : Plain} (shows : Shows table state plain) : state.Coherent table := by
  cases shows with
  | reading stacked =>
    exact {
      endMarker_bottom := stacked.exists_above
      input_ne_nil := by simp
      epsilon_front := not_epsilon_mem_terminalForm
      epsilon_top := fun inside => stacked.not_epsilon_mem (List.mem_of_mem_tail inside)
      epsilon_meets := fun onTop => absurd (List.mem_of_mem_head? onTop) stacked.not_epsilon_mem
      epsilon_hides := fun symbol rest front => by simp at front }
  | @meeting tokens stack history stacked =>
    obtain ⟨above, split, clean⟩ := stacked.exists_above
    exact {
      endMarker_bottom := ⟨.epsilon :: above, by simp [split], by simpa using clean⟩
      input_ne_nil := by simp
      epsilon_front := not_epsilon_mem_terminalForm
      epsilon_top := stacked.not_epsilon_mem
      epsilon_meets := fun _ => rfl
      epsilon_hides := fun symbol rest _ => .inl rfl }
  | @standingIn tokens stack history stacked hides =>
    exact {
      endMarker_bottom := stacked.exists_above
      input_ne_nil := by simp
      epsilon_front := not_epsilon_mem_terminalForm
      epsilon_top := fun inside => stacked.not_epsilon_mem (List.mem_of_mem_tail inside)
      epsilon_meets := fun _ => rfl
      epsilon_hides := fun symbol rest front => by
        cases tokens with
        | nil => simp [terminalForm] at front
        | cons token others =>
          obtain ⟨name, below, onTop, vanishes, _⟩ := hides token rfl
          exact .inr ⟨name, by simp [onTop], vanishes⟩ }

/-- A state that shows a configuration without tokens under the end marker has nothing else left. -/
theorem Shows.eq_of_finished {plain : Plain} (shows : Shows table state plain) (noTokens : plain.tokens = [])
    (onTop : plain.stack.head? = some .endMarker) : state.stack = [.endMarker] ∧ state.input = [.epsilon] := by
  cases shows with
  | reading _ => simp at noTokens
  | meeting _ => simp at onTop
  | standingIn stacked _ => exact ⟨stacked.eq_bottom onTop, by simp_all [terminalForm]⟩

/-- Every state that a run on tokens comes to is coherent. From there the next step never reports that
    nothing is left, never rejects with the empty word expected, and accepts only if nothing is left but the
    end marker and the empty word that stands in for the end of the tokens. -/
theorem reaches_coherent (built : g.Built) (made : Table.ofGrammar g = .ok table) {tokens : List String}
    (reached : (State.initial g.startSymbol (terminalForm tokens)).Reaches table state) :
    state.Coherent table ∧
      (∀ rejection, state.step table = .halted (.rejected rejection) →
        rejection.reason ≠ .exhausted ∧ rejection.stackTop ≠ .epsilon) ∧
      ∀ rules, state.step table = .halted (.accepted rules) →
        state.stack = [.endMarker] ∧ state.input = [.epsilon] := by
  have wellFormed := built.wellFormed_of_ofGrammar made
  obtain ⟨count, after⟩ := reached
  obtain ⟨plain, _, shows⟩ := (Shows.of_ofGrammar made tokens).of_after? wellFormed after
  refine ⟨shows.coherent, fun rejection rejects => ?_, fun rules accepts => ?_⟩
  · obtain ⟨top, _, notEpsilon, rfl⟩ :=
      Plain.step_eq_rejected shows.stack_ne_nil (shows.step_eq_halted wellFormed rejects)
    exact ⟨Plain.reason_rejection, by rwa [Plain.stackTop_rejection]⟩
  · obtain ⟨noTokens, onTop, _⟩ := Plain.step_eq_accepted (shows.step_eq_halted wellFormed accepts)
    exact shows.eq_of_finished noTokens onTop

/-- Behind the operand of `(a)`, the empty word stands in front of the closing parenthesis. -/
def behindOperand : State where
  input := [.epsilon, .terminal ")"]
  stack := [.epsilon, .nonTerminal "E'", .terminal ")", .nonTerminal "T'", .nonTerminal "E'", .endMarker]
  history := [8, 10, 5, 1, 9, 5, 1]

theorem reaches_coherent_behindOperand :
    Grammar.expression.Built ∧ Table.ofGrammar .expression = .ok expressionTable ∧
    (State.initial Grammar.expression.startSymbol (terminalForm ["(", "a", ")"])).Reaches expressionTable
      behindOperand ∧
    behindOperand.Coherent expressionTable ∧
      (∀ rejection, behindOperand.step expressionTable = .halted (.rejected rejection) →
        rejection.reason ≠ .exhausted ∧ rejection.stackTop ≠ .epsilon) ∧
      ∀ rules, behindOperand.step expressionTable = .halted (.accepted rules) →
        behindOperand.stack = [.endMarker] ∧ behindOperand.input = [.epsilon] :=
  have reached : (State.initial Grammar.expression.startSymbol (terminalForm ["(", "a", ")"])).Reaches
      expressionTable behindOperand := ⟨9, rfl⟩
  ⟨expression_built, ofGrammar_expression, reached, reaches_coherent expression_built ofGrammar_expression reached⟩

end

end Predictive
