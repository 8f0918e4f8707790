import Mathlib.Algebra.Group.Nat.Defs
import Predictive.Proofs.Completeness

/-!
The steps of a run, counted. A run ends at the first step that halts (`State.EndsAt`), and its states are those that
the machine steps on, up to this one (`State.Run`). A trace with a limit is the whole run, if the run has no more
states than that (`State.trace?_eq_some`), so translating and tracing succeed together, exactly if the run ends
within the limit. How many steps lead to a configuration of the plain machine can be read off it: a step reads a
token, applies a rule or drops an empty word, and every empty word comes onto the stack by a rule for the empty word
(`Plain.balance_of_moves`, `Plain.balance_of_after?`). So the rules of an accepted run tell the number of its steps
(`State.EndsAt.steps_of_accepted`).
-/
namespace Predictive

namespace State

/-- The first step that halts has this number, counted from one, and halts with the outcome. -/
inductive EndsAt (table : Table) : (state : State) → (steps : Nat) → (outcome : Outcome) → Prop where
  | halted {state : State} {outcome : Outcome} : state.step table = .halted outcome → EndsAt table state 1 outcome
  | moved {state next : State} {steps : Nat} {outcome : Outcome} :
    state.step table = .moved next → EndsAt table next steps outcome → EndsAt table state (steps + 1) outcome

/-- The states of a run, the initial one first, up to the one on which the step halts with the outcome. -/
structure Run (table : Table) (initial : State) (states : List State) (outcome : Outcome) : Prop where
  first : states.head? = some initial
  next : states.IsChain fun state next => state.step table = .moved next
  last : ∃ last, states.getLast? = some last ∧ last.step table = .halted outcome

variable {table : Table} {state next : State} {states : List State} {steps : Nat} {outcome : Outcome}

theorem EndsAt.unique {more : Nat} {other : Outcome} (ends : state.EndsAt table steps outcome)
    (endsOther : state.EndsAt table more other) : more = steps ∧ other = outcome := by
  induction ends generalizing more other with
  | halted halts =>
    cases endsOther with
    | halted haltsToo => exact ⟨rfl, by simpa [halts, eq_comm] using haltsToo⟩
    | moved moved => simp [halts] at moved
  | moved moved _ ih =>
    cases endsOther with
    | halted halts => simp [moved] at halts
    | moved movedToo behind =>
      obtain rfl := Step.moved.inj (moved.symm.trans movedToo)
      obtain ⟨rfl, rfl⟩ := ih behind
      exact ⟨rfl, rfl⟩

/-- The step that halts is taken on the state that the steps before it lead to. -/
theorem EndsAt.exists_last (ends : state.EndsAt table steps outcome) :
    ∃ count last, steps = count + 1 ∧ state.after? table count = some last ∧ last.step table = .halted outcome := by
  induction ends with
  | @halted state outcome halts => exact ⟨0, state, rfl, rfl, halts⟩
  | moved moved _ ih =>
    obtain ⟨count, last, rfl, reached, halts⟩ := ih
    exact ⟨count + 1, last, rfl, by simpa [after?, moved] using reached, halts⟩

/-! ### The states of a run -/

theorem Run.halted (halts : state.step table = .halted outcome) : Run table state [state] outcome :=
  ⟨rfl, .singleton state, state, rfl, halts⟩

theorem Run.cons (moved : state.step table = .moved next) (run : Run table next states outcome) :
    Run table state (state :: states) outcome := by
  obtain ⟨rest, rfl⟩ := List.head?_eq_some_iff.mp run.first
  obtain ⟨last, isLast, halts⟩ := run.last
  exact ⟨rfl, .cons_cons moved run.next, last, by simpa using isLast, halts⟩

/-- A run has halted at once or makes a step. -/
theorem Run.cases (run : Run table state states outcome) :
    (states = [state] ∧ state.step table = .halted outcome) ∨
      ∃ next rest, states = state :: rest ∧ state.step table = .moved next ∧ Run table next rest outcome := by
  obtain ⟨rest, rfl⟩ := List.head?_eq_some_iff.mp run.first
  obtain ⟨last, isLast, halts⟩ := run.last
  cases rest with
  | nil =>
    obtain rfl : state = last := by simpa using isLast
    exact .inl ⟨rfl, halts⟩
  | cons next rest =>
    obtain ⟨moved, chain⟩ := List.isChain_cons_cons.mp run.next
    exact .inr ⟨next, next :: rest, rfl, moved, rfl, chain, last, by simpa using isLast, halts⟩

/-- One step is taken on each state of a run. -/
theorem Run.endsAt (run : Run table state states outcome) : state.EndsAt table states.length outcome := by
  induction states generalizing state with
  | nil => cases run.first
  | cons own rest ih =>
    rcases run.cases with ⟨alone, halts⟩ | ⟨next, _, split, moved, behind⟩
    · rw [alone]
      exact .halted halts
    · obtain ⟨rfl, rfl⟩ := List.cons.inj split
      exact .moved moved (ih behind)

/-- The states of a run are states that it comes to. -/
theorem Run.reaches (run : Run table state states outcome) : ∀ later ∈ states, state.Reaches table later := by
  intro later member
  induction states generalizing state with
  | nil => contradiction
  | cons own rest ih =>
    rcases run.cases with ⟨alone, _⟩ | ⟨next, _, split, moved, behind⟩
    · rw [alone] at member
      obtain rfl := List.mem_singleton.mp member
      exact .refl
    · obtain ⟨rfl, rfl⟩ := List.cons.inj split
      rcases List.mem_cons.mp member with rfl | inside
      · exact .refl
      · exact .of_step moved (ih behind inside)

theorem EndsAt.exists_run (ends : state.EndsAt table steps outcome) :
    ∃ states, Run table state states outcome ∧ states.length = steps := by
  induction ends with
  | @halted state outcome halts => exact ⟨[state], .halted halts, rfl⟩
  | @moved state _ _ _ moved _ ih =>
    obtain ⟨states, run, rfl⟩ := ih
    exact ⟨state :: states, .cons moved run, rfl⟩

/-- A trace within a number of steps holds the states of a run of at most that length, behind those before it. -/
theorem trace?_eq_some {before : List State} {trace : Trace} :
    state.trace? table steps before = some trace ↔
      ∃ states, trace.states = before.reverse ++ states ∧ states.length ≤ steps ∧
        Run table state states trace.outcome := by
  induction steps generalizing before state with
  | zero =>
    simp only [trace?, reduceCtorEq, false_iff]
    rintro ⟨states, _, short, run⟩
    obtain rfl := List.length_eq_zero_iff.mp (Nat.le_zero.mp short)
    cases run.first
  | succ steps ih =>
    unfold trace?
    cases taken : state.step table with
    | moved next =>
      simp only [ih]
      constructor
      · rintro ⟨states, split, short, run⟩
        exact ⟨state :: states, by simpa using split, by simpa using short, .cons taken run⟩
      · rintro ⟨states, split, short, run⟩
        rcases run.cases with ⟨_, halts⟩ | ⟨other, rest, rfl, moved, behind⟩
        · simp [taken] at halts
        · obtain rfl := Step.moved.inj (taken.symm.trans moved)
          exact ⟨rest, by simpa using split, by simpa using short, behind⟩
    | halted other =>
      simp only [Option.some.injEq]
      constructor
      · rintro rfl
        exact ⟨[state], by simp, by simp, .halted taken⟩
      · rintro ⟨states, split, _, run⟩
        rcases run.cases with ⟨rfl, halts⟩ | ⟨next, _, _, moved, _⟩
        · obtain rfl := Step.halted.inj (taken.symm.trans halts)
          obtain ⟨whole, outcome⟩ := trace
          simpa using split.symm
        · simp [taken] at moved

/-- A step applies at most one rule. -/
theorem rules_of_step (moved : state.step table = .moved next) :
    ∃ applied, next.rules = state.rules ++ applied ∧ applied.length ≤ 1 := by
  cases moves_of_step moved with
  | consume => exact ⟨[], by simp [rules], by simp⟩
  | @expand _ _ _ _ _ production => exact ⟨[production.id], by simp [rules], by simp⟩
  | @retry _ _ _ _ _ production => exact ⟨[production.id], by simp [rules], by simp⟩

end State

/-! ### Steps paid for -/

/-- How many of the rules are rules for the empty word. -/
def Grammar.countEpsilon (g : Grammar) (rules : List Nat) : Nat :=
  rules.countP fun id => ∃ production ∈ g.rule? id, production.IsEpsilon

theorem Grammar.countEpsilon_cons {g : Grammar} {id : Nat} {rules : List Nat} :
    g.countEpsilon (id :: rules) = g.countEpsilon [id] + g.countEpsilon rules := by
  simp only [countEpsilon, ← List.countP_append, List.singleton_append]

/-- Only the right side of a rule for the empty word holds it, and holds nothing else. -/
theorem Grammar.WellFormed.count_epsilon_right {g : Grammar} (wellFormed : g.WellFormed) {production : Production}
    (listed : production ∈ g.productions) :
    production.right.count .epsilon = g.countEpsilon [production.id] := by
  have found := wellFormed.rule?_id listed
  rcases wellFormed.right_proper production listed with alone | ⟨_, declared⟩
  · simp [countEpsilon, found, Production.IsEpsilon, alone]
  · have clean : Symbol.epsilon ∉ production.right := fun member => declared .epsilon member
    have proper : ¬ production.IsEpsilon := fun alone => clean (by simp [show production.right = [.epsilon] from alone])
    simp [countEpsilon, found, proper, List.count_eq_zero_of_not_mem clean]

namespace Plain

variable {table : Table} {plain next : Plain}

/-- The steps that the rules of a configuration pay for, less those that are still to be taken for its tokens and
    for the empty words on its stack. -/
def balance (table : Table) (plain : Plain) : Int :=
  plain.history.length + table.grammar.countEpsilon plain.history - plain.stack.count .epsilon - plain.tokens.length

/-- Each move pays one step: it reads a token, drops an empty word or applies a rule. -/
theorem balance_of_moves (wellFormed : table.grammar.WellFormed) (moves : Moves table plain next) :
    next.balance table = plain.balance table + 1 := by
  cases moves with
  | terminal =>
    simp [balance]
    omega
  | epsilon =>
    simp [balance]
    omega
  | @expand name tokens below history production choice =>
    have listed := (Grammar.mem_productionsOf.mp (mem_productionsOf_of_choice? choice)).1
    have pushed := wellFormed.count_epsilon_right listed
    have paid : table.grammar.countEpsilon (production.id :: history) =
        table.grammar.countEpsilon [production.id] + table.grammar.countEpsilon history := Grammar.countEpsilon_cons
    -- The empty words pushed are still to be dropped, and are paid for by the rule that pushes them.
    simp [balance, paid, pushed]
    omega

theorem balance_of_after? (wellFormed : table.grammar.WellFormed) {count : Nat} {last : Plain}
    (reached : plain.after? table count = some last) : last.balance table = plain.balance table + count := by
  induction count generalizing plain with
  | zero =>
    cases reached
    simp
  | succ count ih =>
    unfold after? at reached
    split at reached
    · next next moved =>
      have first := balance_of_moves wellFormed (step_eq_moved.mp moved)
      have behind := ih reached
      omega
    · contradiction

/-- At the end of an accepting run, the stack is empty but for the end marker, and no token is left. -/
theorem balance_of_accepted (wellFormed : table.grammar.WellFormed) {form : List Symbol}
    (expects : plain.Expects form) {count : Nat} {last : Plain} (reached : plain.after? table count = some last)
    {rules : List Nat} (accepts : last.step table = .halted (.accepted rules)) :
    last.balance table = rules.length + table.grammar.countEpsilon rules := by
  obtain ⟨noTokens, onTop, rfl⟩ := step_eq_accepted accepts
  obtain ⟨later, _, _, expectsLater, _⟩ := expects.of_after? wellFormed reached
  obtain rfl := expectsLater.eq_nil onTop
  have onStack : last.stack = [.endMarker] := expectsLater.1
  simp [balance, noTokens, onStack, Plain.rules, Grammar.countEpsilon, List.countP_reverse]

end Plain

section
variable {g : Grammar} {table : Table} {tokens : List String}

/-- An accepted run takes one step for every token, one for every rule, one more for every rule for the empty word,
    and the step that accepts. -/
theorem State.EndsAt.steps_of_accepted (built : g.Built) (made : Table.ofGrammar g = .ok table) {steps : Nat}
    {rules : List Nat}
    (ends : (State.initial g.startSymbol (terminalForm tokens)).EndsAt table steps (.accepted rules)) :
    steps = rules.length + tokens.length + g.countEpsilon rules + 1 := by
  have wellFormed := built.wellFormed_of_ofGrammar made
  obtain ⟨count, last, rfl, reached, halts⟩ := ends.exists_last
  obtain ⟨lastPlain, reachedPlain, shows⟩ := (Shows.of_ofGrammar made tokens).of_after? wellFormed reached
  have haltsPlain := shows.step_eq_halted wellFormed halts
  have atEnd := Plain.balance_of_accepted wellFormed (.initial g.start tokens) reachedPlain haltsPlain
  have onTheWay := Plain.balance_of_after? wellFormed reachedPlain
  have atStart : (Plain.initial g.startSymbol tokens).balance table = -tokens.length := by
    simp [Plain.balance, Plain.initial, Grammar.countEpsilon, Grammar.startSymbol]
  obtain rfl := Table.ofGrammar_eq_ok made
  omega

/-! ### Runs within the limit -/

namespace Translator

variable {translator : Translator} {outcome : Outcome}

theorem trace_eq_ok {trace : Trace} : translator.trace tokens = .ok trace ↔
    trace.states.length ≤ translator.limit tokens ∧
      (translator.initial tokens).Run translator.table trace.states trace.outcome := by
  have found : translator.trace tokens = .ok trace ↔
      (translator.initial tokens).trace? translator.table (translator.limit tokens) [] = some trace := by
    unfold Translator.trace
    cases (translator.initial tokens).trace? translator.table (translator.limit tokens) [] <;> simp
  rw [found, State.trace?_eq_some]
  constructor
  · rintro ⟨states, rfl, short, run⟩
    exact ⟨short, run⟩
  · rintro ⟨short, run⟩
    exact ⟨trace.states, rfl, short, run⟩

theorem translate_eq_ok_iff_trace : translator.translate tokens = .ok outcome ↔
    ∃ trace, translator.trace tokens = .ok trace ∧ trace.outcome = outcome := by
  rw [← map_outcome_trace]
  cases translator.trace tokens <;> simp [Except.map]

/-- Translating and tracing run away together, when the run does not end within the limit. -/
theorem runaway_of_endsAt
    (late : ∀ steps outcome, (translator.initial tokens).EndsAt translator.table steps outcome →
      translator.limit tokens < steps) :
    translator.translate tokens = .error (.runaway (translator.limit tokens)) ∧
      translator.trace tokens = .error (.runaway (translator.limit tokens)) := by
  have missing : (translator.initial tokens).trace? translator.table (translator.limit tokens) [] = none := by
    refine Option.eq_none_iff_forall_ne_some.mpr fun trace found => ?_
    obtain ⟨states, _, short, run⟩ := State.trace?_eq_some.mp found
    exact absurd short (Nat.not_le.mpr (late _ _ run.endsAt))
  have traced : translator.trace tokens = .error (.runaway (translator.limit tokens)) := by
    unfold Translator.trace
    rw [missing]
  refine ⟨?_, traced⟩
  rw [← map_outcome_trace, traced]
  rfl

end Translator

theorem stepLimit_mono {allowance more count : Nat} (larger : allowance ≤ more) :
    stepLimit allowance count ≤ stepLimit more count := by
  have scaled := Nat.mul_le_mul_right (count + 1) larger
  unfold stepLimit
  omega

/-- The step that ends a run decides both how tokens are translated and how they are traced. Within the limit both
    report its outcome; beyond it, and if no step ends the run, both run away. A trace holds one state for each step:
    the initial one, then each time the one that the step leads to, with at most one more rule, and last the one on
    which the step halts. An accepted run is as long as its tokens, its rules and its rules for the empty word tell.
    A larger allowance changes no result. -/
theorem runs_end_within_limit (built : g.Built) {allowance : Nat} {translator : Translator}
    (made : Translator.ofGrammar g allowance = .ok translator) (tokens : List String) :
    translator.limit tokens = min (allowance * (tokens.length + 1)) (2 ^ 64 - 1) ∧
    (∀ steps outcome, (translator.initial tokens).EndsAt translator.table steps outcome →
      (steps ≤ translator.limit tokens → translator.translate tokens = .ok outcome ∧
        ∃ trace, translator.trace tokens = .ok trace ∧ trace.outcome = outcome ∧ trace.states.length = steps) ∧
      (translator.limit tokens < steps →
        translator.translate tokens = .error (.runaway (translator.limit tokens)) ∧
        translator.trace tokens = .error (.runaway (translator.limit tokens)))) ∧
    ((∀ steps outcome, ¬ (translator.initial tokens).EndsAt translator.table steps outcome) →
      translator.translate tokens = .error (.runaway (translator.limit tokens)) ∧
      translator.trace tokens = .error (.runaway (translator.limit tokens))) ∧
    (∀ trace, translator.trace tokens = .ok trace →
      trace.states.head? = some (translator.initial tokens) ∧
      trace.states.IsChain (fun state next => state.step translator.table = .moved next ∧
        ∃ applied, next.rules = state.rules ++ applied ∧ applied.length ≤ 1) ∧
      (∃ last, trace.states.getLast? = some last ∧ last.step translator.table = .halted trace.outcome) ∧
      ∀ rules, trace.outcome = .accepted rules →
        trace.states.length = rules.length + tokens.length + g.countEpsilon rules + 1) ∧
    ∀ more wider, allowance ≤ more → Translator.ofGrammar g more = .ok wider →
      (∀ outcome, translator.translate tokens = .ok outcome → wider.translate tokens = .ok outcome) ∧
      ∀ trace, translator.trace tokens = .ok trace → wider.trace tokens = .ok trace := by
  obtain ⟨table, madeTable, rfl⟩ := Translator.ofGrammar_eq_ok made
  obtain rfl := Table.ofGrammar_eq_ok madeTable
  refine ⟨rfl, fun steps outcome ends => ⟨fun within => ?_, fun beyond => ?_⟩, fun never => ?_, fun trace traced => ?_,
    fun more wider larger madeWider => ?_⟩
  · obtain ⟨states, run, rfl⟩ := ends.exists_run
    have traced : ({ table, allowance } : Translator).trace tokens = .ok { states, outcome } :=
      Translator.trace_eq_ok.mpr ⟨within, run⟩
    exact ⟨Translator.translate_eq_ok_iff_trace.mpr ⟨_, traced, rfl⟩, _, traced, rfl, rfl⟩
  · refine Translator.runaway_of_endsAt fun other otherOutcome endsOther => ?_
    rwa [(ends.unique endsOther).1]
  · exact Translator.runaway_of_endsAt fun steps outcome ends => absurd ends (never steps outcome)
  · obtain ⟨_, run⟩ := Translator.trace_eq_ok.mp traced
    refine ⟨run.first, run.next.imp fun state next moved => ⟨moved, State.rules_of_step moved⟩, run.last, ?_⟩
    intro rules accepted
    have ends := run.endsAt
    rw [accepted] at ends
    exact ends.steps_of_accepted built madeTable
  · obtain ⟨_, madeAgain, rfl⟩ := Translator.ofGrammar_eq_ok madeWider
    obtain rfl := Except.ok.inj (madeTable.symm.trans madeAgain)
    have kept : ∀ trace, ({ table, allowance } : Translator).trace tokens = .ok trace →
        ({ table, allowance := more } : Translator).trace tokens = .ok trace := by
      intro trace traced
      obtain ⟨short, run⟩ := Translator.trace_eq_ok.mp traced
      exact Translator.trace_eq_ok.mpr ⟨short.trans (stepLimit_mono larger), run⟩
    refine ⟨fun outcome translated => ?_, kept⟩
    obtain ⟨trace, traced, same⟩ := Translator.translate_eq_ok_iff_trace.mp translated
    exact Translator.translate_eq_ok_iff_trace.mpr ⟨trace, kept trace traced, same⟩

theorem runs_end_within_limit_sum :
    Grammar.expression.Built ∧ Translator.ofGrammar .expression = .ok { table := expressionTable } ∧
    ∃ trace, ({ table := expressionTable } : Translator).trace ["a", "+", "a"] = .ok trace ∧
      trace.outcome = .accepted [1, 5, 10, 8, 2, 5, 10, 8, 4] ∧
      Grammar.expression.countEpsilon [1, 5, 10, 8, 2, 5, 10, 8, 4] = 3 ∧
      trace.states.length = 9 + 3 + 3 + 1 ∧
      ∀ more wider, 1024 ≤ more → Translator.ofGrammar .expression more = .ok wider →
        wider.trace ["a", "+", "a"] = .ok trace := by
  have made : Translator.ofGrammar .expression = .ok { table := expressionTable } := rfl
  have translated : ({ table := expressionTable } : Translator).translate ["a", "+", "a"] =
      .ok (.accepted [1, 5, 10, 8, 2, 5, 10, 8, 4]) := rfl
  obtain ⟨_, _, _, tells, enough⟩ := runs_end_within_limit expression_built made ["a", "+", "a"]
  obtain ⟨trace, traced, accepted⟩ := Translator.translate_eq_ok_iff_trace.mp translated
  exact ⟨expression_built, made, trace, traced, accepted, rfl, (tells trace traced).2.2.2 _ accepted,
    fun more wider larger madeWider => (enough more wider larger madeWider).2 trace traced⟩

end

end Predictive
