import Predictive.Machine
import Predictive.Proofs.Alternatives

/-!
The steps of the stack machine, by the symbol on top. A terminal, the empty word and the end marker look
at nothing but the lookahead. A non-terminal is expanded by its first alternative for the lookahead; if it
has none, by its first alternative for the empty word, which then stands in front of the input; and if it
has none of these either, the machine rejects. One equation each, so that no proof about runs has to look
into the table.
-/
namespace Predictive

namespace Table

variable {table : Table}

theorem column_eq_lookahead {top lookahead : Symbol} (plain : top.nonTerminal? = none) :
    table.column top lookahead = lookahead := by
  simp [column, plain]

theorem refuses_nonTerminal_iff (wellFormed : table.grammar.WellFormed) {name : String} {lookahead : Symbol}
    (declared : name ∈ table.grammar.nonTerminals) :
    table.Refuses (.nonTerminal name) lookahead ↔ table.alternative? name lookahead = none := by
  have inRows : Symbol.nonTerminal name ∈ table.rows := mem_rows.mpr (.inl (List.mem_map_of_mem declared))
  unfold Refuses action?
  rw [entry_nonTerminal wellFormed]
  by_cases inColumns : lookahead ∈ table.lookaheads
  · rw [if_pos ⟨inRows, inColumns⟩]
    cases table.alternative? name lookahead <;> simp
  · have missing : table.alternative? name lookahead = none :=
      (alternative?_eq_none wellFormed).mpr (inColumns ∘ mem_lookaheads_of_contains wellFormed)
    simp [inColumns, missing]

theorem action?_of_alternative? (wellFormed : table.grammar.WellFormed) {name : String} {lookahead : Symbol}
    {production : Production} (declared : name ∈ table.grammar.nonTerminals)
    (found : table.alternative? name lookahead = some production) :
    table.action? (.nonTerminal name) lookahead = some (.apply production) := by
  have contained : table.first.Contains name lookahead := by
    rw [← alternative?_isSome wellFormed, found]
    rfl
  refine action?_eq_some.mpr ⟨⟨mem_rows.mpr (.inl (List.mem_map_of_mem declared)), ?_⟩, ?_⟩
  · exact mem_lookaheads_of_contains wellFormed contained
  · rw [entry_nonTerminal wellFormed, found]

section
variable {top lookahead : Symbol}

theorem entry_eq_consume (consumes : table.entry top lookahead = .consume) :
    top.nonTerminal? = none ∧ top = lookahead := by
  cases top with
  | nonTerminal name =>
    unfold entry at consumes
    simp only at consumes
    split at consumes <;> contradiction
  | endMarker => by_cases last : lookahead = .epsilon <;> simp [entry, last] at consumes
  | terminal name => simpa [entry, Symbol.nonTerminal?] using consumes
  | epsilon => simpa [entry, Symbol.nonTerminal?] using consumes

theorem entry_eq_apply {production : Production} (applies : table.entry top lookahead = .apply production) :
    ∃ name, top = .nonTerminal name := by
  unfold entry at applies
  split at applies
  · next name => exact ⟨name, rfl⟩
  · split at applies <;> contradiction
  · split at applies <;> contradiction

/-- A column other than the lookahead is the one of the empty word, which is tried where the table has no way
    on for the lookahead. -/
theorem refuses_of_column_ne (other : table.column top lookahead ≠ lookahead) :
    table.Refuses top lookahead ∧ table.column top lookahead = .epsilon := by
  unfold column at other ⊢
  split at other
  · next retries => exact ⟨retries.1, if_pos retries⟩
  · contradiction

end

end Table

namespace State

variable {table : Table} {name : String} {lookahead : Symbol} {rest below : List Symbol} {history : List Nat}

/-- The moves of the stack machine that do not halt. -/
inductive Moves (table : Table) : State → State → Prop where
  | consume {top : Symbol} {rest below : List Symbol} {history : List Nat} : top ∈ table.lookaheads →
    Moves table { input := top :: rest, stack := top :: below, history }
      (refill { input := rest, stack := below, history })
  | expand {name : String} {lookahead : Symbol} {rest below : List Symbol} {history : List Nat}
    {production : Production} : table.action? (.nonTerminal name) lookahead = some (.apply production) →
    Moves table { input := lookahead :: rest, stack := .nonTerminal name :: below, history }
      { input := lookahead :: rest, stack := production.right ++ below, history := production.id :: history }
  | retry {name : String} {lookahead : Symbol} {rest below : List Symbol} {history : List Nat}
    {production : Production} : table.Refuses (.nonTerminal name) lookahead →
    table.action? (.nonTerminal name) .epsilon = some (.apply production) →
    Moves table { input := lookahead :: rest, stack := .nonTerminal name :: below, history }
      { input := .epsilon :: lookahead :: rest
        stack := production.right ++ below
        history := production.id :: history }

theorem moves_of_step {state next : State} (moved : state.step table = .moved next) : Moves table state next := by
  obtain ⟨input, stack, history⟩ := state
  unfold step at moved
  simp only at moved
  split at moved
  · next top below lookahead rest =>
    split at moved
    · next consumes =>
      obtain ⟨⟨_, inColumns⟩, entry⟩ := Table.action?_eq_some.mp consumes
      obtain ⟨plain, same⟩ := Table.entry_eq_consume entry
      rw [Table.column_eq_lookahead plain] at same inColumns moved
      subst same
      cases moved
      simpa using Moves.consume inColumns
    · next production applies =>
      obtain ⟨name, rfl⟩ := Table.entry_eq_apply (Table.action?_eq_some.mp applies).2
      cases moved
      by_cases same : table.column (.nonTerminal name) lookahead = lookahead
      · rw [if_pos same]
        exact .expand (same ▸ applies)
      · obtain ⟨refuses, column⟩ := Table.refuses_of_column_ne same
        rw [if_neg same, column]
        exact .retry refuses (column ▸ applies)
    · contradiction
    · contradiction
  · contradiction

theorem step_terminal (declared : name ∈ table.grammar.terminals) :
    step table { input := lookahead :: rest, stack := .terminal name :: below, history } =
      if lookahead = .terminal name then .moved (refill { input := rest, stack := below, history })
      else .halted (.rejected { stackTop := .terminal name, lookahead, reason := table.reasonFor lookahead }) := by
  have inColumns : Symbol.terminal name ∈ table.lookaheads :=
    Table.mem_lookaheads.mpr (.inl (List.mem_map_of_mem declared))
  have inRows : Symbol.terminal name ∈ table.rows := Table.mem_rows.mpr (.inr (.inl inColumns))
  unfold step
  simp only [Table.column_eq_lookahead (show (Symbol.terminal name).nonTerminal? = none from rfl)]
  by_cases same : lookahead = .terminal name
  · subst same
    have consumes : table.action? (.terminal name) (.terminal name) = some .consume :=
      Table.action?_eq_some.mpr ⟨⟨inRows, inColumns⟩, by simp [Table.entry]⟩
    simp [consumes]
  · have entry : table.entry (.terminal name) lookahead = .reject := by
      simp [Table.entry, Ne.symm same]
    by_cases inside : lookahead ∈ table.lookaheads
    · simp [Table.action?, inRows, inside, entry, same]
    · simp [Table.action?, inside, same]

theorem step_epsilon :
    step table { input := .epsilon :: rest, stack := .epsilon :: below, history } =
      .moved (refill { input := rest, stack := below, history }) := by
  have consumes : table.action? .epsilon .epsilon = some .consume :=
    Table.action?_eq_some.mpr ⟨by simp, rfl⟩
  unfold step
  simp [Table.column_eq_lookahead (show Symbol.epsilon.nonTerminal? = none from rfl), consumes]

theorem step_endMarker :
    step table { input := lookahead :: rest, stack := .endMarker :: below, history } =
      if lookahead = .epsilon then .halted (.accepted history.reverse)
      else .halted (.rejected { stackTop := .endMarker, lookahead, reason := table.reasonFor lookahead }) := by
  unfold step
  simp only [Table.column_eq_lookahead (show Symbol.endMarker.nonTerminal? = none from rfl)]
  by_cases same : lookahead = .epsilon
  · subst same
    have accepts : table.action? .endMarker .epsilon = some .accept :=
      Table.action?_eq_some.mpr ⟨by simp, rfl⟩
    simp [accepts, rules]
  · by_cases inside : lookahead ∈ table.lookaheads
    · simp [Table.action?, inside, Table.entry, same]
    · simp [Table.action?, inside, same]

section
variable (wellFormed : table.grammar.WellFormed) (declared : name ∈ table.grammar.nonTerminals)
include wellFormed declared

/-- An alternative for the lookahead is applied. -/
theorem step_expand {production : Production} (found : table.alternative? name lookahead = some production) :
    step table { input := lookahead :: rest, stack := .nonTerminal name :: below, history } =
      .moved {
        input := lookahead :: rest
        stack := production.right ++ below
        history := production.id :: history } := by
  have goesOn : ¬ table.Refuses (.nonTerminal name) lookahead := by
    rw [Table.refuses_nonTerminal_iff wellFormed declared, found]
    simp
  have column : table.column (.nonTerminal name) lookahead = lookahead := by simp [Table.column, goesOn]
  unfold step
  simp [column, Table.action?_of_alternative? wellFormed declared found]

/-- Without an alternative for the lookahead, one for the empty word is applied, and the empty word is put
    in front of the input. -/
theorem step_retry {production : Production} (missing : table.alternative? name lookahead = none)
    (found : table.alternative? name .epsilon = some production) :
    step table { input := lookahead :: rest, stack := .nonTerminal name :: below, history } =
      .moved {
        input := .epsilon :: lookahead :: rest
        stack := production.right ++ below
        history := production.id :: history } := by
  have refuses : table.Refuses (.nonTerminal name) lookahead :=
    (Table.refuses_nonTerminal_iff wellFormed declared).mpr missing
  have goesOn : ¬ table.Refuses (.nonTerminal name) .epsilon := by
    rw [Table.refuses_nonTerminal_iff wellFormed declared, found]
    simp
  have column : table.column (.nonTerminal name) lookahead = .epsilon := by
    simp [Table.column, refuses, goesOn, Symbol.nonTerminal?]
  have different : Symbol.epsilon ≠ lookahead := by
    rintro rfl
    rw [missing] at found
    contradiction
  unfold step
  simp [column, different, Table.action?_of_alternative? wellFormed declared found]

/-- Without an alternative for either, the machine rejects. -/
theorem step_stuck (missing : table.alternative? name lookahead = none)
    (missingEpsilon : table.alternative? name .epsilon = none) :
    step table { input := lookahead :: rest, stack := .nonTerminal name :: below, history } =
      .halted (.rejected { stackTop := .nonTerminal name, lookahead, reason := table.reasonFor lookahead }) := by
  have refuses : table.Refuses (.nonTerminal name) lookahead :=
    (Table.refuses_nonTerminal_iff wellFormed declared).mpr missing
  have refusesEpsilon : table.Refuses (.nonTerminal name) .epsilon :=
    (Table.refuses_nonTerminal_iff wellFormed declared).mpr missingEpsilon
  have column : table.column (.nonTerminal name) lookahead = lookahead := by simp [Table.column, refusesEpsilon]
  unfold step
  rcases refuses with outside | rejects
  · simp [column, outside]
  · simp [column, rejects]

end

end State

end Predictive
