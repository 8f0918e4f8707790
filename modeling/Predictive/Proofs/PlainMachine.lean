import Predictive.Proofs.Alternatives
import Predictive.Translator

/-!
A predictive machine whose input is nothing but tokens. It expands a non-terminal by its first alternative
for the next token if the FIRST set of the non-terminal holds this token, and else by its first alternative
for the empty word. The empty word on its stack is dropped, and the end marker accepts when no token is
left. Its halting steps can be read off the outcome (`Plain.step_eq_rejected`, `Plain.step_eq_accepted`).
-/
namespace Predictive

/-- A configuration of the plain machine between two steps. -/
structure Plain where
  /-- The tokens that are still to be read. -/
  tokens : List String
  /-- What is still expected, the top first. -/
  stack : List Symbol
  /-- The numbers of the rules applied, the latest first. -/
  history : List Nat := []
deriving DecidableEq, Repr

namespace Plain

/-- What one step of the plain machine leads to. -/
inductive Step where
  | moved (next : Plain)
  | halted (outcome : Outcome)
deriving DecidableEq, Repr

/-- The numbers of the rules applied, in the order of application. -/
def rules (plain : Plain) : List Nat := plain.history.reverse

/-- The configuration before the first step. -/
def initial (start : Symbol) (tokens : List String) : Plain := { tokens, stack := [start, .endMarker] }

/-- The production by which a non-terminal is expanded in front of the given tokens. -/
def choice? (table : Table) (name : String) : List String → Option Production
  | [] => table.alternative? name .epsilon
  | token :: _ =>
    if table.first.Contains name (.terminal token) then table.alternative? name (.terminal token)
    else table.alternative? name .epsilon

/-- The rejection of the given tokens under a symbol. It shows the next token, or the empty word if none
    is left. -/
def rejection (table : Table) (top : Symbol) : List String → Rejection
  | [] => { stackTop := top, lookahead := .epsilon, reason := .noAction }
  | token :: _ =>
    { stackTop := top, lookahead := .terminal token,
      reason := if token ∈ table.grammar.terminals then .noAction else .unknownToken token }

/-- One step of the plain machine. -/
def step (table : Table) (plain : Plain) : Step :=
  match plain.stack with
  | [] => .halted (.rejected { rejection table .endMarker plain.tokens with reason := .exhausted })
  | .terminal name :: below => match plain.tokens with
    | token :: rest =>
      if token = name then .moved { plain with tokens := rest, stack := below }
      else .halted (.rejected (rejection table (.terminal name) plain.tokens))
    | [] => .halted (.rejected (rejection table (.terminal name) plain.tokens))
  | .epsilon :: below => .moved { plain with stack := below }
  | .endMarker :: _ =>
    if plain.tokens = [] then .halted (.accepted plain.rules)
    else .halted (.rejected (rejection table .endMarker plain.tokens))
  | .nonTerminal name :: below => match choice? table name plain.tokens with
    | some production =>
      .moved { plain with stack := production.right ++ below, history := production.id :: plain.history }
    | none => .halted (.rejected (rejection table (.nonTerminal name) plain.tokens))

/-- The configuration after so many steps, as long as the machine does not halt before. -/
def after? (table : Table) : Nat → Plain → Option Plain
  | 0, plain => some plain
  | count + 1, plain => match plain.step table with
    | .moved next => after? table count next
    | .halted _ => none

/-- The outcome of a run, if it ends within so many steps. -/
def run? (table : Table) : (steps : Nat) → Plain → Option Outcome
  | 0, _ => none
  | steps + 1, plain => match plain.step table with
    | .moved next => run? table steps next
    | .halted outcome => some outcome

variable {table : Table}

/-- The moves of the plain machine that do not halt. -/
inductive Moves (table : Table) : Plain → Plain → Prop where
  | terminal {name : String} {rest : List String} {below : List Symbol} {history : List Nat} :
    Moves table { tokens := name :: rest, stack := .terminal name :: below, history }
      { tokens := rest, stack := below, history }
  | epsilon {tokens : List String} {below : List Symbol} {history : List Nat} :
    Moves table { tokens, stack := .epsilon :: below, history } { tokens, stack := below, history }
  | expand {name : String} {tokens : List String} {below : List Symbol} {history : List Nat}
    {production : Production} : choice? table name tokens = some production →
    Moves table { tokens, stack := .nonTerminal name :: below, history }
      { tokens, stack := production.right ++ below, history := production.id :: history }

/-- In front of a token that a non-terminal does not begin with, it is expanded for the empty word. -/
theorem choice?_of_not_contains {name : String} {tokens : List String}
    (excluded : ∀ token ∈ tokens.head?, ¬ table.first.Contains name (.terminal token)) :
    choice? table name tokens = table.alternative? name .epsilon := by
  cases tokens with
  | nil => rfl
  | cons token rest => simp [choice?, excluded token (by simp)]

theorem step_eq_moved {plain next : Plain} : plain.step table = .moved next ↔ Moves table plain next := by
  constructor
  · intro moved
    obtain ⟨tokens, stack, history⟩ := plain
    cases stack with
    | nil => simp [step] at moved
    | cons top below =>
      cases top with
      | terminal name =>
        cases tokens with
        | nil => simp [step] at moved
        | cons token rest =>
          by_cases same : token = name
          · subst same
            simp only [step, if_true, Step.moved.injEq] at moved
            exact moved ▸ .terminal
          · simp [step, same] at moved
      | epsilon =>
        simp only [step, Step.moved.injEq] at moved
        exact moved ▸ .epsilon
      | endMarker => by_cases done : tokens = [] <;> simp [step, done] at moved
      | nonTerminal name =>
        cases choice : choice? table name tokens with
        | none => simp [step, choice] at moved
        | some production =>
          simp only [step, choice, Step.moved.injEq] at moved
          exact moved ▸ .expand choice
  · intro moves
    cases moves with
    | terminal => simp [step]
    | epsilon => rfl
    | expand choice => simp [step, choice]

/-- The plain machine rejects the remaining tokens under the top of its stack, which is not the empty
    word. -/
theorem step_eq_rejected {plain : Plain} (expects : plain.stack ≠ []) {rejection : Rejection}
    (rejects : plain.step table = .halted (.rejected rejection)) :
    ∃ top, plain.stack.head? = some top ∧ top ≠ .epsilon ∧ rejection = Plain.rejection table top plain.tokens := by
  obtain ⟨tokens, stack, history⟩ := plain
  cases stack with
  | nil => exact absurd rfl expects
  | cons top below =>
    refine ⟨top, rfl, ?_⟩
    cases top with
    | epsilon => simp [step] at rejects
    | endMarker =>
      by_cases done : tokens = []
      · simp [step, done] at rejects
      · exact ⟨by simp, by simpa [step, done, eq_comm] using rejects⟩
    | terminal name =>
      refine ⟨by simp, ?_⟩
      cases tokens with
      | nil => simpa [step, eq_comm] using rejects
      | cons token rest =>
        by_cases same : token = name
        · simp [step, same] at rejects
        · simpa [step, same, eq_comm] using rejects
    | nonTerminal name =>
      cases choice : choice? table name tokens with
      | some production => simp [step, choice] at rejects
      | none => exact ⟨by simp, by simpa [step, choice, eq_comm] using rejects⟩

/-- The plain machine accepts only without tokens and with the end marker on top, and reports its rules. -/
theorem step_eq_accepted {plain : Plain} {rules : List Nat}
    (accepts : plain.step table = .halted (.accepted rules)) :
    plain.tokens = [] ∧ plain.stack.head? = some .endMarker ∧ rules = plain.rules := by
  obtain ⟨tokens, stack, history⟩ := plain
  cases stack with
  | nil => simp [step] at accepts
  | cons top below =>
    cases top with
    | epsilon => simp [step] at accepts
    | endMarker =>
      by_cases done : tokens = []
      · exact ⟨done, rfl, by simpa [step, done, eq_comm, Plain.rules] using accepts⟩
      · simp [step, done] at accepts
    | terminal name =>
      cases tokens with
      | nil => simp [step] at accepts
      | cons token rest => by_cases same : token = name <;> simp [step, same] at accepts
    | nonTerminal name => cases choice : choice? table name tokens <;> simp [step, choice] at accepts

/-- A run that ends has come to a configuration whose next step halts. -/
theorem exists_halted {plain : Plain} {steps : Nat} {outcome : Outcome}
    (ends : plain.run? table steps = some outcome) :
    ∃ count last, plain.after? table count = some last ∧ last.step table = .halted outcome := by
  induction steps generalizing plain with
  | zero => contradiction
  | succ steps ih =>
    unfold run? at ends
    cases taken : plain.step table with
    | moved next =>
      obtain ⟨count, last, reached, halts⟩ := ih (by simpa [taken] using ends)
      exact ⟨count + 1, last, by simpa [after?, taken] using reached, halts⟩
    | halted other =>
      obtain rfl : other = outcome := by simpa [taken] using ends
      exact ⟨0, plain, rfl, taken⟩

theorem run?_of_after? {plain last : Plain} {count : Nat} {outcome : Outcome}
    (reached : plain.after? table count = some last) (halts : last.step table = .halted outcome) :
    plain.run? table (count + 1) = some outcome := by
  induction count generalizing plain with
  | zero =>
    cases reached
    simp [run?, halts]
  | succ count ih =>
    unfold after? at reached
    unfold run?
    cases taken : plain.step table with
    | moved next => exact ih (by simpa [taken] using reached)
    | halted other => simp [taken] at reached

@[simp] theorem stackTop_rejection {top : Symbol} {tokens : List String} :
    (rejection table top tokens).stackTop = top := by
  cases tokens <;> rfl

theorem reason_rejection {top : Symbol} {tokens : List String} :
    (rejection table top tokens).reason ≠ .exhausted := by
  cases tokens with
  | nil => simp [rejection]
  | cons token rest => by_cases known : token ∈ table.grammar.terminals <;> simp [rejection, known]

theorem reason_rejection_eq_unknownToken {top : Symbol} {tokens : List String} {token : String} :
    (rejection table top tokens).reason = .unknownToken token ↔
      token ∈ tokens.head? ∧ token ∉ table.grammar.terminals := by
  cases tokens with
  | nil => simp [rejection]
  | cons next rest =>
    by_cases known : next ∈ table.grammar.terminals
    · simp only [rejection, known, if_true, List.head?_cons, Option.mem_some_iff, reduceCtorEq, false_iff]
      rintro ⟨rfl, unknown⟩
      exact unknown known
    · simp only [rejection, known, if_false, List.head?_cons, Option.mem_some_iff, Reason.unknownToken.injEq]
      exact ⟨fun same => ⟨same, same ▸ known⟩, fun both => both.1⟩

theorem lookahead_rejection_of_head? {top : Symbol} {tokens : List String} {token : String}
    (next : token ∈ tokens.head?) : (rejection table top tokens).lookahead = .terminal token := by
  obtain ⟨rest, rfl⟩ := List.head?_eq_some_iff.mp next
  rfl

theorem lookahead_rejection {top : Symbol} {tokens : List String} :
    (rejection table top tokens).lookahead = .epsilon ↔ tokens = [] := by
  cases tokens <;> simp [rejection]

end Plain

end Predictive
