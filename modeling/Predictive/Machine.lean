import Predictive.Table

/-!
The stack machine of a predictive table. A state holds the symbols still to be read, the symbols still
expected, and the rules applied so far. One step looks up the expected and the read symbol: equal ones
are consumed, a non-terminal is expanded by a rule, and the machine halts where the table accepts or
has no way on. The empty word stands in for input in two places: after the last token, and in front of
a token that the non-terminal on top cannot begin with although it has a rule for the empty word.
-/
namespace Predictive

/-- A configuration of the machine between two steps. -/
structure State where
  /-- What is still to be read, the lookahead first. -/
  input : List Symbol
  /-- What is still expected, the top first. -/
  stack : List Symbol
  /-- The numbers of the rules applied, the latest first. -/
  history : List Nat := []
deriving DecidableEq, Repr

namespace State

/-- The numbers of the rules applied, in the order of application. -/
def rules (state : State) : List Nat := state.history.reverse

/-- The state with the empty word as its input, if symbols are expected and nothing is left to read. -/
def refill (state : State) : State :=
  if state.input = [] ∧ state.stack ≠ [] then { state with input := [.epsilon] } else state

@[simp] theorem history_refill {state : State} : state.refill.history = state.history := by
  unfold refill; split <;> rfl

/-- The state before the first step. -/
def initial (start : Symbol) (input : List Symbol) : State := refill { input, stack := [start, .endMarker] }

end State

/-- Why the machine stopped without accepting. -/
inductive Reason where
  /-- No rule leads from the top of the stack to the lookahead. -/
  | noAction
  /-- The lookahead is no terminal of the grammar. -/
  | unknownToken (token : String)
  /-- Nothing is left to read or to expect. Runs from an initial state do not come here. -/
  | exhausted
deriving DecidableEq, Repr

/-- Where and why the machine stopped without accepting. -/
structure Rejection where
  stackTop : Symbol
  lookahead : Symbol
  reason : Reason
deriving DecidableEq, Repr

/-- The wording of a rejection. -/
def Rejection.message (rejection : Rejection) : String :=
  match rejection.reason with
  | .noAction =>
    "no rule translates `" ++ rejection.stackTop.name ++ "` to `" ++ rejection.lookahead.name ++ "`"
  | .unknownToken token => "`" ++ token ++ "` is not a terminal of the grammar"
  | .exhausted => "parser state exhausted"

/-- How a run ended: with the rules of a derivation, or with a rejection. -/
inductive Outcome where
  | accepted (rules : List Nat)
  | rejected (rejection : Rejection)
deriving DecidableEq, Repr

/-- The rules of an accepted run. -/
def Outcome.rules? : Outcome → Option (List Nat)
  | accepted rules => some rules
  | rejected _ => none

/-- What one step leads to. -/
inductive Step where
  | moved (next : State)
  | halted (outcome : Outcome)
deriving DecidableEq, Repr

namespace Table

/-- The table has no way on for a stack top and a lookahead. -/
def Refuses (table : Table) (top lookahead : Symbol) : Prop :=
  table.action? top lookahead = none ∨ table.action? top lookahead = some .reject

instance (table : Table) (top lookahead : Symbol) : Decidable (table.Refuses top lookahead) :=
  inferInstanceAs (Decidable (_ ∨ _))

/-- The column that decides a step: the lookahead, or the empty word for a non-terminal on top that has
    a way on only there. -/
def column (table : Table) (top lookahead : Symbol) : Symbol :=
  if table.Refuses top lookahead ∧ top.nonTerminal?.isSome ∧ ¬ table.Refuses top .epsilon then .epsilon
  else lookahead

/-- Why the table has no way on for a lookahead. -/
def reasonFor (table : Table) (lookahead : Symbol) : Reason :=
  if lookahead ∈ table.lookaheads then .noAction else .unknownToken lookahead.name

end Table

namespace State

/-- One step of the machine. -/
def step (table : Table) (state : State) : Step :=
  match state.stack, state.input with
  | top :: below, lookahead :: rest =>
    let column := table.column top lookahead
    let input := if column = lookahead then lookahead :: rest else column :: lookahead :: rest
    match table.action? top column with
    | some .consume => .moved (refill { state with input := input.tail, stack := below })
    | some (.apply production) =>
      .moved { input, stack := production.right ++ below, history := production.id :: state.history }
    | some .accept => .halted (.accepted state.rules)
    | _ => .halted (.rejected { stackTop := top, lookahead, reason := table.reasonFor lookahead })
  | stack, input => .halted (.rejected {
      stackTop := stack.headD .endMarker
      lookahead := input.headD .epsilon
      reason := .exhausted })

/-- The state after so many steps, as long as the machine does not halt before. -/
def after? (table : Table) : Nat → State → Option State
  | 0, state => some state
  | count + 1, state => match state.step table with
    | .moved next => after? table count next
    | .halted _ => none

/-- The machine comes to the second state from the first. -/
def Reaches (table : Table) (state later : State) : Prop := ∃ count, state.after? table count = some later

theorem Reaches.refl {table : Table} {state : State} : state.Reaches table state := ⟨0, rfl⟩

theorem Reaches.of_step {table : Table} {state next later : State} (moved : state.step table = .moved next)
    (reaches : next.Reaches table later) : state.Reaches table later := by
  obtain ⟨count, after⟩ := reaches
  exact ⟨count + 1, by simp [after?, moved, after]⟩

end State

end Predictive
