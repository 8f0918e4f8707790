import Predictive.Proofs.Lockstep
import Predictive.Proofs.Spelling

/-!
What a run has matched. A step that moves on reads the token on top of the stack, if one is there, and leaves
all other tokens where they are (`State.eraseEpsilon_input_of_step`); only declared terminals are matched. The
tokens of a run therefore consist of those it has matched and those left in its input, whatever the empty words
that stand in between (`State.eraseEpsilon_input_of_after?`). A run that halts does so in its last state, which
has matched everything that the run matches (`State.exists_last`).
-/
namespace Predictive

namespace State

/-- The token on top of the stack, if a terminal is there. -/
def expectedToken? (state : State) : Option String :=
  match state.stack with
  | .terminal name :: _ => some name
  | _ => none

/-- The tokens that a run matches within so many steps: those that are on top of the stack when a step moves
    on. -/
def matched (table : Table) : (steps : Nat) → State → List String
  | 0, _ => []
  | steps + 1, state => match state.step table with
    | .moved next => state.expectedToken?.toList ++ matched table steps next
    | .halted _ => []

variable {table : Table} {state next : State}

theorem eraseEpsilon_input_refill : eraseEpsilon state.refill.input = eraseEpsilon state.input := by
  unfold refill
  split
  · next finished => rw [finished.1]; rfl
  · rfl

theorem eraseEpsilon_input_of_step (moved : state.step table = .moved next) :
    eraseEpsilon state.input = terminalForm state.expectedToken?.toList ++ eraseEpsilon next.input := by
  cases moves_of_step moved with
  | @consume top rest below history inColumns =>
    rw [eraseEpsilon_input_refill]
    rcases Table.mem_lookaheads.mp inColumns with terminal | rfl
    · obtain ⟨name, _, rfl⟩ := List.mem_map.mp terminal
      rw [eraseEpsilon_cons (by simp)]
      rfl
    · rw [eraseEpsilon_epsilon_cons]
      rfl
  | expand _ => rfl
  | retry _ _ =>
    rw [eraseEpsilon_epsilon_cons]
    rfl

theorem expectedToken?_declared_of_step (moved : state.step table = .moved next) :
    ∀ token ∈ state.expectedToken?, token ∈ table.grammar.terminals := by
  cases moves_of_step moved with
  | @consume top rest below history inColumns =>
    rcases Table.mem_lookaheads.mp inColumns with terminal | rfl
    · obtain ⟨name, declared, rfl⟩ := List.mem_map.mp terminal
      simpa [expectedToken?] using declared
    · simp [expectedToken?]
  | expand _ => simp [expectedToken?]
  | retry _ _ => simp [expectedToken?]

theorem eraseEpsilon_input_of_after? {count : Nat} {later : State} (reached : state.after? table count = some later) :
    eraseEpsilon state.input = terminalForm (state.matched table count) ++ eraseEpsilon later.input := by
  induction count generalizing state with
  | zero =>
    cases reached
    rfl
  | succ count ih =>
    unfold after? at reached
    unfold matched
    cases taken : state.step table with
    | moved next =>
      rw [taken] at reached
      rw [eraseEpsilon_input_of_step taken, ih reached]
      simp [terminalForm]
    | halted outcome => simp [taken] at reached

theorem matched_declared {steps : Nat} : ∀ token ∈ state.matched table steps, token ∈ table.grammar.terminals := by
  induction steps generalizing state with
  | zero => simp [matched]
  | succ steps ih =>
    unfold matched
    cases taken : state.step table with
    | moved next =>
      intro token member
      rcases List.mem_append.mp member with here | later
      · exact expectedToken?_declared_of_step taken token (by simpa using here)
      · exact ih token later
    | halted outcome => simp

/-- After any number of steps a run is in a last state, either because it halts there or because it has taken
    no more steps. -/
theorem exists_last (table : Table) (steps : Nat) (state : State) : ∃ count last,
    state.after? table count = some last ∧ state.matched table steps = state.matched table count ∧
      ∀ outcome, state.run? table steps = some outcome → count < steps ∧ last.step table = .halted outcome := by
  induction steps generalizing state with
  | zero => exact ⟨0, state, rfl, rfl, fun outcome ends => by cases ends⟩
  | succ steps ih =>
    cases taken : state.step table with
    | moved next =>
      obtain ⟨count, last, reached, same, halts⟩ := ih next
      refine ⟨count + 1, last, by simpa [after?, taken] using reached, by simp [matched, taken, same], ?_⟩
      intro outcome ends
      obtain ⟨within, halted⟩ := halts outcome (by simpa [run?, taken] using ends)
      exact ⟨by omega, halted⟩
    | halted outcome =>
      refine ⟨0, state, rfl, by simp [matched, taken], ?_⟩
      intro other ends
      exact ⟨by omega, by simpa [run?, taken] using ends⟩

end State

/-- The tokens are those matched in a run followed by those that the plain machine has left. -/
theorem Shows.tokens_eq {table : Table} {state later : State} {plain laterPlain : Plain}
    (shows : Shows table state plain) {count : Nat} (reached : state.after? table count = some later)
    (showsLater : Shows table later laterPlain) :
    plain.tokens = state.matched table count ++ laterPlain.tokens := by
  have split := State.eraseEpsilon_input_of_after? reached
  rw [shows.eraseEpsilon_input, showsLater.eraseEpsilon_input, ← terminalForm_append] at split
  exact List.map_injective_iff.mpr (fun _ _ => Symbol.terminal.inj) split

end Predictive
