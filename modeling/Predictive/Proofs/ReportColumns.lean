import Predictive.Proofs.AlignedColumns
import Predictive.Proofs.RejectionLookahead
import Predictive.Proofs.StepCounts
import Predictive.Proofs.TableEntries
import Predictive.Proofs.ViablePrefix
import Predictive.Report.Actions
import Predictive.Report.Trace

/-!
Reports in plain text are written in aligned columns. The table of actions and a trace are tables with as many cells
in each row as in the header. Their cells are made of names, numbers and tokens: what is on the stack in a state that
a run comes to is declared, and what is left to read are tokens of the run. So there is no line break in a cell unless
there is one in a name or a token (`columns_aligned`).
-/
namespace Predictive

open Text

section
variable {g : Grammar} (named : ∀ name ∈ g.terminals ++ g.nonTerminals, OneLine name)
include named

theorem oneLine_name {symbol : Symbol} (row : g.IsRow symbol) : OneLine symbol.name := by
  rcases row with declared | rfl | rfl
  · cases symbol with
    | terminal name => exact named name (List.mem_append_left _ declared)
    | nonTerminal name => exact named name (List.mem_append_right _ declared)
    | epsilon => exact absurd declared id
    | endMarker => exact absurd declared id
  · decide
  · decide

theorem oneLine_text (wellFormed : g.WellFormed) {production : Production} (listed : production ∈ g.productions) :
    OneLine production.text := by
  have left : OneLine production.left :=
    named _ (List.mem_append_right _ (wellFormed.left_declared production listed))
  have right : OneLine production.rightText := by
    refine .intercalate_map (by decide) fun symbol inside => ?_
    exact oneLine_name named ((wellFormed.right_declared listed inside).symm.imp_right .inl)
  exact (left.append (by decide)).append right

end

theorem Table.mem_productions_of_entry {table : Table} (wellFormed : table.grammar.WellFormed) {top lookahead : Symbol}
    {production : Production} (applies : table.entry top lookahead = .apply production) :
    production ∈ table.grammar.productions := by
  obtain ⟨name, rfl⟩ := entry_eq_apply applies
  rw [entry_nonTerminal wellFormed] at applies
  cases chosen : table.alternative? name lookahead with
  | none => simp [chosen] at applies
  | some other =>
    obtain rfl : other = production := by simpa [chosen] using applies
    exact (Grammar.mem_productionsOf.mp (alternative?_eq_some chosen).1).1

/-- The header and the rows of a table of actions. -/
def Report.Actions.matrix (table : Table) : List (List String) := ("" :: columns table) :: rows table

theorem Report.Actions.tabular_matrix {table : Table} (wellFormed : table.grammar.WellFormed)
    (named : ∀ name ∈ table.grammar.terminals ++ table.grammar.nonTerminals, OneLine name) :
    Tabular (matrix table) where
  rectangular := by
    rintro _ ⟨⟩ row member
    rcases List.mem_cons.mp member with rfl | listed
    · rfl
    · rw [length_of_mem_rows listed, List.length_cons, columns, List.length_map]
  unbroken := by
    have name : ∀ symbol ∈ table.rows, OneLine symbol.name :=
      fun symbol listed => oneLine_name named (Table.mem_rows_iff.mp listed)
    intro row member cell inside
    rcases List.mem_cons.mp member with rfl | listed
    · rcases List.mem_cons.mp inside with rfl | column
      · decide
      · obtain ⟨symbol, lookahead, rfl⟩ := List.mem_map.mp column
        exact name symbol (Table.mem_rows.mpr (.inr (.inl lookahead)))
    · obtain ⟨top, isRow, rfl⟩ := List.mem_map.mp listed
      rcases List.mem_cons.mp inside with rfl | action
      · exact name top isRow
      · obtain ⟨lookahead, _, rfl⟩ := List.mem_map.mp action
        cases entry : table.entry top lookahead with
        | consume => decide
        | accept => decide
        | reject => decide
        | apply production =>
          have text := oneLine_text named wellFormed (Table.mem_productions_of_entry wellFormed entry)
          have number : OneLine ("(" ++ toString production.id ++ ") ") :=
            (OneLine.append (by decide) (oneLine_toString _)).append (by decide)
          exact number.append text

/-- The input of a state consists of the tokens that are left, but for the empty word. -/
theorem Shows.mem_input {table : Table} {state : State} {plain : Plain} (shows : Shows table state plain) :
    ∀ symbol ∈ state.input, symbol = .epsilon ∨ ∃ token ∈ plain.tokens, symbol = .terminal token := by
  intro symbol inside
  have isToken : ∀ tokens, symbol ∈ terminalForm tokens → ∃ token ∈ tokens, symbol = .terminal token := by
    intro tokens member
    obtain ⟨token, listed, rfl⟩ := List.mem_map.mp member
    exact ⟨token, listed, rfl⟩
  cases shows with
  | reading _ => exact .inr (isToken (_ :: _) inside)
  | meeting _ => exact (List.mem_cons.mp inside).imp_right (isToken _)
  | standingIn _ _ => exact (List.mem_cons.mp inside).imp_right (isToken _)

theorem Report.Trace.oneLine_stateCells {table : Table} {state : State} {plain : Plain}
    (shows : Shows table state plain)
    (named : ∀ name ∈ table.grammar.terminals ++ table.grammar.nonTerminals, OneLine name)
    (read : ∀ token ∈ plain.tokens, OneLine token) (number : Nat) : ∀ cell ∈ stateCells state number, OneLine cell := by
  have stack : OneLine (names state.stack) := by
    refine .intercalate_map (by decide) fun symbol inside => ?_
    exact oneLine_name named (or_assoc.mpr (shows.declared_of_mem symbol inside)).symm
  have input : OneLine (names state.input) := by
    refine .intercalate_map (by decide) fun symbol inside => ?_
    rcases shows.mem_input symbol inside with rfl | ⟨token, unread, rfl⟩
    · decide
    · exact read token unread
  have rules : OneLine (ruleList "," state.rules) :=
    .intercalate_map (by decide) fun rule _ => oneLine_toString rule
  intro cell member
  simp only [stateCells, List.mem_cons, List.not_mem_nil, or_false] at member
  rcases member with rfl | rfl | rfl | rfl
  · exact oneLine_toString number
  · exact stack
  · exact input
  · exact rules

theorem Report.Trace.tabular_cells {table : Table} (wellFormed : table.grammar.WellFormed)
    (named : ∀ name ∈ table.grammar.terminals ++ table.grammar.nonTerminals, OneLine name) {allowance : Nat}
    {tokens : List String} (read : ∀ token ∈ tokens, OneLine token) {trace : Trace}
    (traced : ({ table, allowance } : Translator).trace tokens = .ok trace) : Tabular (cells trace) where
  rectangular := by
    rintro _ ⟨⟩ row member
    exact length_of_mem_cells member
  unbroken := by
    intro row member
    rcases List.mem_cons.mp member with rfl | listed
    · decide
    · obtain ⟨⟨state, number⟩, inside, rfl⟩ := List.mem_map.mp listed
      obtain ⟨_, run⟩ := Translator.trace_eq_ok.mp traced
      obtain ⟨count, reached⟩ := run.reaches state (List.fst_mem_of_mem_zipIdx inside)
      have shows : Shows table (({ table, allowance } : Translator).initial tokens)
          (Plain.initial table.grammar.startSymbol tokens) := .initial table.grammar_usable.1 tokens
      obtain ⟨plain, reachedPlain, showsState⟩ := shows.of_after? wellFormed reached
      have left : plain.tokens <:+ tokens := Plain.suffix_of_after? reachedPlain
      exact oneLine_stateCells showsState named (fun token unread => read token (left.subset unread)) number

/-- A table of rows that have as many cells as its header and no line break in them is written in columns: no lookup
    is outside of a row, all lines have the same number of characters, a column begins and ends at the same place in
    all of them and holds its cell behind nothing but spaces, a bar stands between neighbouring columns, and every
    column is as narrow as its widest cell. So are the table of actions of a grammar and the traces of its translator,
    if no name and no token has a line break. -/
theorem columns_aligned :
    (∀ rows, Tabular rows → alignColumns? rows = some (alignColumns rows) ∧
      (rows ≠ [] → Aligned rows ((alignColumns rows).toList.splitOn '\n'))) ∧
    ∀ g : Grammar, g.Built → (∀ name ∈ g.terminals ++ g.nonTerminals, OneLine name) →
      (∀ table, Table.ofGrammar g = .ok table →
        Tabular (Report.Actions.matrix table) ∧
        Report.Actions.plain table = alignColumns (Report.Actions.matrix table)) ∧
      ∀ allowance translator, Translator.ofGrammar g allowance = .ok translator →
        ∀ tokens, (∀ token ∈ tokens, OneLine token) → ∀ trace, translator.trace tokens = .ok trace →
          Tabular (Report.Trace.cells trace) ∧
          Report.Trace.plain trace =
            alignColumns (Report.Trace.cells trace) ++ "\n" ++ Report.Outcome.plain trace.outcome := by
  refine ⟨fun rows tabular => ⟨alignColumns?_eq_some tabular, tabular.aligned⟩, fun g built named => ⟨?_, ?_⟩⟩
  · intro table made
    have wellFormed := built.wellFormed_of_ofGrammar made
    obtain rfl := Table.ofGrammar_eq_ok made
    exact ⟨Report.Actions.tabular_matrix wellFormed named, rfl⟩
  · intro allowance translator made tokens read trace traced
    obtain ⟨table, madeTable, rfl⟩ := Translator.ofGrammar_eq_ok made
    have wellFormed := built.wellFormed_of_ofGrammar madeTable
    obtain rfl := Table.ofGrammar_eq_ok madeTable
    exact ⟨Report.Trace.tabular_cells wellFormed named read traced, rfl⟩

theorem columns_aligned_operand :
    Grammar.expression.Built ∧
    (∀ name ∈ Grammar.expression.terminals ++ Grammar.expression.nonTerminals, OneLine name) ∧
    Aligned (Report.Actions.matrix expressionTable)
      ((Report.Actions.plain expressionTable).toList.splitOn '\n') ∧
    ∃ trace, ({ table := expressionTable } : Translator).trace ["a"] = .ok trace ∧
      alignColumns? (Report.Trace.cells trace) = some (alignColumns (Report.Trace.cells trace)) ∧
      Aligned (Report.Trace.cells trace) ((alignColumns (Report.Trace.cells trace)).toList.splitOn '\n') := by
  have named : ∀ name ∈ Grammar.expression.terminals ++ Grammar.expression.nonTerminals, OneLine name := by decide
  obtain ⟨aligned, reports⟩ := columns_aligned
  obtain ⟨ofTable, ofTrace⟩ := reports .expression expression_built named
  have tabular := (ofTable expressionTable ofGrammar_expression).1
  have made : Translator.ofGrammar .expression = .ok { table := expressionTable } := rfl
  obtain ⟨trace, traced⟩ : ∃ trace, ({ table := expressionTable } : Translator).trace ["a"] = .ok trace := ⟨_, rfl⟩
  have tabularTrace := (ofTrace _ _ made ["a"] (by decide) trace traced).1
  obtain ⟨lookups, alignedTrace⟩ := aligned _ tabularTrace
  exact ⟨expression_built, named, (aligned _ tabular).2 (List.cons_ne_nil _ _), trace, traced, lookups,
    alignedTrace (List.cons_ne_nil _ _)⟩

end Predictive
