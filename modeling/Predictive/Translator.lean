import Predictive.Machine

/-!
A translator runs the stack machine from the start symbol on a list of tokens and reports how the run
ended, either alone or with every state on the way. A run may go on for ever where a non-terminal comes
back to itself behind symbols that can be empty, so the number of steps is limited by an allowance for
each token and for the end of the input. A run that passes the limit is an error.
-/
namespace Predictive

namespace State

/-- The outcome of a run, if it ends within so many steps. -/
def run? (table : Table) : (steps : Nat) → State → Option Outcome
  | 0, _ => none
  | steps + 1, state => match state.step table with
    | .moved next => run? table steps next
    | .halted outcome => some outcome

end State

/-- All states of a run, the initial one first, and how the run ended. -/
structure Trace where
  states : List State
  outcome : Outcome
deriving DecidableEq, Repr

namespace State

/-- A run with its states, if it ends within so many steps. The states before the given one come in
    reverse order. -/
def trace? (table : Table) : (steps : Nat) → (before : List State) → State → Option Trace
  | 0, _, _ => none
  | steps + 1, before, state => match state.step table with
    | .moved next => trace? table steps (state :: before) next
    | .halted outcome => some { states := (state :: before).reverse, outcome }

/-- A trace exists when a run ends, and ends with the same outcome. -/
theorem map_outcome_trace? {table : Table} {steps : Nat} {before : List State} {state : State} :
    (trace? table steps before state).map Trace.outcome = run? table steps state := by
  induction steps generalizing before state with
  | zero => rfl
  | succ steps ih =>
    unfold trace? run?
    cases state.step table with
    | moved next => exact ih
    | halted outcome => rfl

end State

/-- A predictive table and the steps that it may take for each token. -/
structure Translator where
  table : Table
  allowance : Nat := 1024

/-- The largest number of steps that a translator counts: the largest word of 64 bits. -/
def maxSteps : Nat := UInt64.size - 1

/-- The steps that a list of so many tokens may take: the allowance for every token and for the end of
    the input, up to the largest number counted. -/
def stepLimit (allowance tokens : Nat) : Nat := min (allowance * (tokens + 1)) maxSteps

namespace Translator

/-- The translator of a grammar, if the grammar has a table. -/
def ofGrammar (g : Grammar) (allowance : Nat := 1024) : Except Error Translator :=
  (Table.ofGrammar g).map ({ table := ·, allowance })

/-- The machine's state before the first token. Tokens are terminals, whatever they look like. -/
def initial (translator : Translator) (tokens : List String) : State :=
  .initial translator.table.grammar.startSymbol (tokens.map .terminal)

/-- The steps that a list of tokens may take. -/
def limit (translator : Translator) (tokens : List String) : Nat :=
  stepLimit translator.allowance tokens.length

/-- Translates tokens to the rules of their leftmost derivation, or says where this fails. -/
def translate (translator : Translator) (tokens : List String) : Except Error Outcome :=
  match (translator.initial tokens).run? translator.table (translator.limit tokens) with
  | some outcome => .ok outcome
  | none => .error (.runaway (translator.limit tokens))

/-- Translates tokens and keeps all states of the machine. -/
def trace (translator : Translator) (tokens : List String) : Except Error Trace :=
  match (translator.initial tokens).trace? translator.table (translator.limit tokens) [] with
  | some trace => .ok trace
  | none => .error (.runaway (translator.limit tokens))

/-- A trace ends as translating without one does, also in an error. -/
theorem map_outcome_trace {translator : Translator} {tokens : List String} :
    (translator.trace tokens).map Trace.outcome = translator.translate tokens := by
  unfold trace translate
  rw [← State.map_outcome_trace?]
  cases (translator.initial tokens).trace? translator.table (translator.limit tokens) [] <;> rfl

end Translator

end Predictive
