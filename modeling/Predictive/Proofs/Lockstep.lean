import Predictive.Grammar.Derivation
import Predictive.Grammar.Samples
import Predictive.Proofs.Declarations
import Predictive.Proofs.MachineSteps
import Predictive.Proofs.PlainMachine

/-!
The stack machine and the plain machine run in lockstep. The stack machine puts the empty word into its
input and then does not see the token behind it; it nevertheless decides as the plain machine does, which
sees every token. For where a token is hidden, the non-terminal on top does not have it in its FIRST set
(`Table.Hides`): the FIRST set of a head lies inside the one of the non-terminal above it, so this stays so
while heads are expanded (`Shows.of_opens_epsilon`). Corresponding configurations take corresponding steps
(`Shows.step`), and so do runs of any length (`Shows.lockstep`, `stackMachine_lockstep`).
-/
namespace Predictive

/-- Declared symbols above the end marker. -/
inductive Grammar.Stacked (g : Grammar) : List Symbol → Prop where
  | bottom : Stacked g [.endMarker]
  | terminal {name : String} {below : List Symbol} :
    name ∈ g.terminals → Stacked g below → Stacked g (.terminal name :: below)
  | nonTerminal {name : String} {below : List Symbol} :
    name ∈ g.nonTerminals → Stacked g below → Stacked g (.nonTerminal name :: below)

theorem Grammar.Stacked.append {g : Grammar} {form below : List Symbol} (declared : ∀ symbol ∈ form, g.Declared symbol)
    (stacked : g.Stacked below) : g.Stacked (form ++ below) := by
  induction form with
  | nil => exact stacked
  | cons symbol rest ih =>
    have onTop := ih fun other member => declared other (List.mem_cons_of_mem symbol member)
    have known := declared symbol (by simp)
    cases symbol with
    | terminal name => exact .terminal known onTop
    | nonTerminal name => exact .nonTerminal known onTop
    | epsilon => exact absurd known id
    | endMarker => exact absurd known id

/-- The non-terminal on top will vanish without a look at the token. -/
def Table.Hides (table : Table) (token : String) (stack : List Symbol) : Prop :=
  ∃ name below, stack = .nonTerminal name :: below ∧ table.first.Contains name .epsilon ∧
    ¬ table.first.Contains name (.terminal token)

/-- The state of the stack machine shows the configuration of the plain machine: stack and rules agree,
    and the input is the remaining tokens, with or without the empty word in front. -/
inductive Shows (table : Table) : State → Plain → Prop where
  /-- The next token is in front. -/
  | reading {token : String} {rest : List String} {stack : List Symbol} {history : List Nat} :
    table.grammar.Stacked stack →
      Shows table { input := .terminal token :: terminalForm rest, stack, history }
        { tokens := token :: rest, stack, history }
  /-- The empty word is in front and on top of the stack. -/
  | meeting {tokens : List String} {stack : List Symbol} {history : List Nat} :
    table.grammar.Stacked stack →
      Shows table { input := .epsilon :: terminalForm tokens, stack := .epsilon :: stack, history }
        { tokens, stack := .epsilon :: stack, history }
  /-- The empty word is in front, either of nothing or of a token that the top does not begin with. -/
  | standingIn {tokens : List String} {stack : List Symbol} {history : List Nat} :
    table.grammar.Stacked stack → (∀ token ∈ tokens.head?, table.Hides token stack) →
      Shows table { input := .epsilon :: terminalForm tokens, stack, history } { tokens, stack, history }

/-- The steps of both machines lead to corresponding configurations, or to the same outcome. -/
inductive Follows (table : Table) : Step → Plain.Step → Prop where
  | moved {next : State} {plain : Plain} : Shows table next plain → Follows table (.moved next) (.moved plain)
  | halted {outcome : Outcome} : Follows table (.halted outcome) (.halted outcome)

section
variable {table : Table}

theorem Table.reasonFor_terminal {token : String} : table.reasonFor (.terminal token) =
    if token ∈ table.grammar.terminals then .noAction else .unknownToken token := by
  simp [Table.reasonFor, Symbol.name]

theorem Table.reasonFor_epsilon : table.reasonFor .epsilon = .noAction := by
  simp [Table.reasonFor]

/-- What is left of the input behind a symbol shows the remaining tokens. -/
theorem Shows.of_refill {tokens : List String} {stack : List Symbol} {history : List Nat}
    (stacked : table.grammar.Stacked stack) :
    Shows table (State.refill { input := terminalForm tokens, stack, history }) { tokens, stack, history } := by
  cases tokens with
  | nil =>
    have expects : stack ≠ [] := by cases stacked <;> simp
    have refilled : State.refill { input := [], stack, history } = { input := [.epsilon], stack, history } := by
      simp [State.refill, expects]
    have shows : Shows table { input := .epsilon :: terminalForm [], stack, history } { tokens := [], stack, history } :=
      .standingIn stacked (by simp)
    simpa [terminalForm, refilled] using shows
  | cons token rest => exact .reading stacked

theorem Shows.initial {start : String} (declared : start ∈ table.grammar.nonTerminals) (tokens : List String) :
    Shows table (State.initial (.nonTerminal start) (terminalForm tokens)) (Plain.initial (.nonTerminal start) tokens) :=
  .of_refill (.nonTerminal declared .bottom)

section
variable (wellFormed : table.grammar.WellFormed) {name : String} {production : Production}
  (listed : production ∈ table.grammar.productionsOf name) {below : List Symbol} {history : List Nat}
include wellFormed listed

/-- An alternative for the next token leaves this token in front. -/
theorem Shows.of_opens_token (stacked : table.grammar.Stacked below) {token : String} {rest : List String}
    (opens : table.first.Opens production (.terminal token)) :
    Shows table { input := .terminal token :: terminalForm rest, stack := production.right ++ below, history }
      { tokens := token :: rest, stack := production.right ++ below, history } := by
  rcases wellFormed.right_proper production (Grammar.mem_productionsOf.mp listed).1 with alone | ⟨_, declared⟩
  · have isHead : production.head? = some .epsilon := by simp [Production.head?, alone]
    rw [FirstSets.opens_iff_of_head? isHead] at opens
    cases opens
  · exact .reading (.append declared stacked)

/-- An alternative for the empty word leaves the empty word in front, and hides a token that its
    non-terminal does not begin with. -/
theorem Shows.of_opens_epsilon (stacked : table.grammar.Stacked below) {tokens : List String}
    (opens : table.first.Opens production .epsilon)
    (excluded : ∀ token ∈ tokens.head?, ¬ table.first.Contains name (.terminal token)) :
    Shows table { input := .epsilon :: terminalForm tokens, stack := production.right ++ below, history }
      { tokens, stack := production.right ++ below, history } := by
  have member := (Grammar.mem_productionsOf.mp listed).1
  rcases wellFormed.right_proper production member with alone | ⟨_, declared⟩
  · rw [alone]
    exact .meeting stacked
  · refine .standingIn (.append declared stacked) fun token next => ?_
    obtain ⟨head, behind, isHead, split⟩ := wellFormed.exists_head member
    have known := declared head (by simp [split])
    rw [FirstSets.opens_iff_of_head? isHead] at opens
    cases head with
    | nonTerminal inner =>
      refine ⟨inner, behind ++ below, by simp [split], opens, fun contained => excluded token next ?_⟩
      -- What the head begins with, the non-terminal above it begins with.
      exact (Table.contains_iff wellFormed).mpr
        ⟨production, listed, (FirstSets.opens_iff_of_head? isHead).mpr contained⟩
    | terminal other => cases opens
    | epsilon => exact absurd known id
    | endMarker => exact absurd known id

end

theorem Table.eq_nil_of_hides {tokens : List String} {stack : List Symbol}
    (hides : ∀ token ∈ tokens.head?, table.Hides token stack)
    (other : ∀ name below, stack ≠ .nonTerminal name :: below) : tokens = [] := by
  cases tokens with
  | nil => rfl
  | cons token rest =>
    obtain ⟨name, below, onTop, _⟩ := hides token (by simp)
    exact absurd onTop (other name below)

section
variable (wellFormed : table.grammar.WellFormed) {stack : List Symbol} {history : List Nat}
  (stacked : table.grammar.Stacked stack)
include wellFormed stacked

/-- The steps with the next token in front. -/
theorem Shows.step_reading {token : String} {rest : List String} :
    Follows table (State.step table { input := .terminal token :: terminalForm rest, stack, history })
      (Plain.step table { tokens := token :: rest, stack, history }) := by
  cases stacked with
  | bottom =>
    rw [State.step_endMarker, if_neg (by simp), Table.reasonFor_terminal]
    exact .halted
  | @terminal name below declared stacked =>
    rw [State.step_terminal declared]
    by_cases same : token = name
    · subst same
      simp only [Plain.step, if_true]
      exact .moved (.of_refill stacked)
    · rw [if_neg (by simpa using same), Table.reasonFor_terminal]
      simp only [Plain.step, if_neg same]
      exact .halted
  | @nonTerminal name below declared stacked =>
    cases found : table.alternative? name (.terminal token) with
    | some production =>
      obtain ⟨listed, opens⟩ := Table.alternative?_eq_some found
      have contained : table.first.Contains name (.terminal token) :=
        (Table.contains_iff wellFormed).mpr ⟨production, listed, opens⟩
      have choice : Plain.choice? table name (token :: rest) = some production := by
        simp [Plain.choice?, contained, found]
      rw [State.step_expand wellFormed declared found]
      simp only [Plain.step, choice]
      exact .moved (.of_opens_token wellFormed listed stacked opens)
    | none =>
      have excluded : ¬ table.first.Contains name (.terminal token) :=
        (Table.alternative?_eq_none wellFormed).mp found
      have choice : Plain.choice? table name (token :: rest) = table.alternative? name .epsilon :=
        Plain.choice?_of_not_contains (by simpa using excluded)
      cases vanishing : table.alternative? name .epsilon with
      | some production =>
        obtain ⟨listed, opens⟩ := Table.alternative?_eq_some vanishing
        rw [State.step_retry wellFormed declared found vanishing]
        simp only [Plain.step, choice, vanishing]
        have hidden : ∀ other ∈ (token :: rest).head?, ¬ table.first.Contains name (.terminal other) := by
          simpa using excluded
        exact .moved (.of_opens_epsilon wellFormed listed stacked opens hidden)
      | none =>
        rw [State.step_stuck wellFormed declared found vanishing, Table.reasonFor_terminal]
        simp only [Plain.step, choice, vanishing]
        exact .halted

/-- The steps with the empty word in front and not on top. -/
theorem Shows.step_standingIn {tokens : List String} (hides : ∀ token ∈ tokens.head?, table.Hides token stack) :
    Follows table (State.step table { input := .epsilon :: terminalForm tokens, stack, history })
      (Plain.step table { tokens, stack, history }) := by
  cases stacked with
  | bottom =>
    obtain rfl := Table.eq_nil_of_hides hides (by simp)
    rw [State.step_endMarker]
    exact .halted
  | @terminal name below declared stacked =>
    obtain rfl := Table.eq_nil_of_hides hides (by simp)
    rw [State.step_terminal declared, if_neg (by simp), Table.reasonFor_epsilon]
    exact .halted
  | @nonTerminal name below declared stacked =>
    -- The plain machine sees the token, but the hidden token is none that the non-terminal begins with.
    have seen : ∀ token ∈ tokens.head?, table.first.Contains name .epsilon ∧
        ¬ table.first.Contains name (.terminal token) := by
      intro token next
      obtain ⟨_, _, onTop, vanishes, excluded⟩ := hides token next
      cases onTop
      exact ⟨vanishes, excluded⟩
    have choice : Plain.choice? table name tokens = table.alternative? name .epsilon :=
      Plain.choice?_of_not_contains fun token next => (seen token next).2
    cases found : table.alternative? name .epsilon with
    | some production =>
      obtain ⟨listed, opens⟩ := Table.alternative?_eq_some found
      rw [State.step_expand wellFormed declared found]
      simp only [Plain.step, choice, found]
      exact .moved (.of_opens_epsilon wellFormed listed stacked opens fun token next => (seen token next).2)
    | none =>
      have neverVanishes : ¬ table.first.Contains name .epsilon := (Table.alternative?_eq_none wellFormed).mp found
      obtain rfl : tokens = [] := by
        cases tokens with
        | nil => rfl
        | cons token rest => exact absurd (seen token (by simp)).1 neverVanishes
      rw [State.step_stuck wellFormed declared found found, Table.reasonFor_epsilon]
      simp only [Plain.step, choice, found]
      exact .halted

end

/-- Both machines take corresponding steps. -/
theorem Shows.step (wellFormed : table.grammar.WellFormed) {state : State} {plain : Plain}
    (shows : Shows table state plain) : Follows table (state.step table) (plain.step table) := by
  cases shows with
  | reading stacked => exact Shows.step_reading wellFormed stacked
  | meeting stacked =>
    rw [State.step_epsilon]
    exact .moved (.of_refill stacked)
  | standingIn stacked hides => exact Shows.step_standingIn wellFormed stacked hides

/-- Corresponding configurations stay so for any number of steps, and their runs end together. -/
theorem Shows.lockstep (wellFormed : table.grammar.WellFormed) {state : State} {plain : Plain}
    (shows : Shows table state plain) (count : Nat) :
    Option.Rel (Shows table) (state.after? table count) (plain.after? table count) ∧
      state.run? table count = plain.run? table count := by
  induction count generalizing state plain with
  | zero => exact ⟨.some shows, rfl⟩
  | succ count ih =>
    have follows := shows.step wellFormed
    unfold State.after? Plain.after? State.run? Plain.run?
    generalize state.step table = next at follows
    generalize plain.step table = plainNext at follows
    cases follows with
    | moved still => exact ih still
    | halted => exact ⟨.none, rfl⟩

theorem Shows.eraseEpsilon_input {state : State} {plain : Plain} (shows : Shows table state plain) :
    eraseEpsilon state.input = terminalForm plain.tokens := by
  have tokensStay : ∀ tokens : List String, eraseEpsilon (terminalForm tokens) = terminalForm tokens := by
    intro tokens
    simp [eraseEpsilon, terminalForm]
  cases shows with
  | @reading token rest _ _ _ => simpa [terminalForm] using tokensStay (token :: rest)
  | @meeting tokens _ _ _ => simpa [eraseEpsilon] using tokensStay tokens
  | @standingIn tokens _ _ _ _ => simpa [eraseEpsilon] using tokensStay tokens

theorem Shows.stack_eq {state : State} {plain : Plain} (shows : Shows table state plain) :
    state.stack = plain.stack := by
  cases shows <;> rfl

theorem Shows.rules_eq {state : State} {plain : Plain} (shows : Shows table state plain) :
    state.rules = plain.rules := by
  cases shows <;> rfl

theorem Shows.step_eq_halted (wellFormed : table.grammar.WellFormed) {state : State} {plain : Plain}
    (shows : Shows table state plain) {outcome : Outcome} (halts : state.step table = .halted outcome) :
    plain.step table = .halted outcome := by
  have follows := shows.step wellFormed
  rw [halts] at follows
  generalize plain.step table = next at follows ⊢
  cases follows
  rfl

theorem Shows.of_after? (wellFormed : table.grammar.WellFormed) {state later : State} {plain : Plain}
    (shows : Shows table state plain) {count : Nat} (reached : state.after? table count = some later) :
    ∃ laterPlain, plain.after? table count = some laterPlain ∧ Shows table later laterPlain := by
  have related := (shows.lockstep wellFormed count).1
  rw [reached] at related
  generalize found : plain.after? table count = result at related
  cases related with
  | some still => exact ⟨_, rfl, still⟩

theorem Shows.stack_ne_nil {state : State} {plain : Plain} (shows : Shows table state plain) : plain.stack ≠ [] := by
  cases shows with
  | meeting _ => simp
  | reading stacked => cases stacked <;> simp
  | standingIn stacked _ => cases stacked <;> simp

end

/-! ### Grammars with a table -/

/-- The table of the grammar of expressions. -/
def expressionTable : Table where
  grammar := .expression
  first := (FirstSets.searchAll .expression {} Grammar.expression.nonTerminals).toOption.getD {}
  first_eq := rfl

theorem ofGrammar_expression : Table.ofGrammar .expression = .ok expressionTable := rfl

theorem expression_built : Grammar.expression.Built := .written Grammar.ofText_expressionText

section
variable {g : Grammar} {table : Table}

theorem Shows.of_ofGrammar (made : Table.ofGrammar g = .ok table) (tokens : List String) :
    Shows table (State.initial g.startSymbol (terminalForm tokens)) (Plain.initial g.startSymbol tokens) := by
  obtain rfl := Table.ofGrammar_eq_ok made
  exact .initial table.grammar_usable.1 tokens

theorem Grammar.Built.wellFormed_of_ofGrammar (built : g.Built) (made : Table.ofGrammar g = .ok table) :
    table.grammar.WellFormed := Table.ofGrammar_eq_ok made ▸ built.wellFormed

/-- The stack machine and the plain machine run in lockstep. After every number of steps they have the same
    stack and the same rules, and the input without the empty words is the list of remaining tokens; both
    halt at the same step, with the same rules or the same rejection, in which the empty word stands exactly
    if no token remains. -/
theorem stackMachine_lockstep (built : g.Built) (made : Table.ofGrammar g = .ok table) (tokens : List String)
    (count : Nat) :
    Option.Rel
      (fun state plain => state.stack = plain.stack ∧ state.rules = plain.rules ∧
        eraseEpsilon state.input = terminalForm plain.tokens ∧
        ∀ rejection, state.step table = .halted (.rejected rejection) →
          plain.step table = .halted (.rejected rejection) ∧ (rejection.lookahead = .epsilon ↔ plain.tokens = []))
      ((State.initial g.startSymbol (terminalForm tokens)).after? table count)
      ((Plain.initial g.startSymbol tokens).after? table count) ∧
    (State.initial g.startSymbol (terminalForm tokens)).run? table count =
      (Plain.initial g.startSymbol tokens).run? table count := by
  have wellFormed := built.wellFormed_of_ofGrammar made
  obtain ⟨related, outcome⟩ := (Shows.of_ofGrammar made tokens).lockstep wellFormed count
  refine ⟨?_, outcome⟩
  generalize State.after? table count _ = reached at related ⊢
  generalize Plain.after? table count _ = reachedPlain at related ⊢
  cases related with
  | none => exact .none
  | some shows =>
    refine .some ⟨shows.stack_eq, shows.rules_eq, shows.eraseEpsilon_input, fun rejection rejects => ?_⟩
    have rejectsPlain := shows.step_eq_halted wellFormed rejects
    obtain ⟨top, _, _, rfl⟩ := Plain.step_eq_rejected shows.stack_ne_nil rejectsPlain
    exact ⟨rejectsPlain, Plain.lookahead_rejection⟩

theorem stackMachine_lockstep_sum :
    Grammar.expression.Built ∧ Table.ofGrammar .expression = .ok expressionTable ∧
    Option.Rel
      (fun state plain => state.stack = plain.stack ∧ state.rules = plain.rules ∧
        eraseEpsilon state.input = terminalForm plain.tokens ∧
        ∀ rejection, state.step expressionTable = .halted (.rejected rejection) →
          plain.step expressionTable = .halted (.rejected rejection) ∧
            (rejection.lookahead = .epsilon ↔ plain.tokens = []))
      ((State.initial Grammar.expression.startSymbol (terminalForm ["a", "+", "a", ")"])).after? expressionTable 15)
      ((Plain.initial Grammar.expression.startSymbol ["a", "+", "a", ")"]).after? expressionTable 15) ∧
    (State.initial Grammar.expression.startSymbol (terminalForm ["a", "+", "a", ")"])).run? expressionTable 15 =
      (Plain.initial Grammar.expression.startSymbol ["a", "+", "a", ")"]).run? expressionTable 15 :=
  ⟨expression_built, ofGrammar_expression,
    stackMachine_lockstep expression_built ofGrammar_expression ["a", "+", "a", ")"] 15⟩

end

end Predictive
