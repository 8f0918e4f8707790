import Predictive.Proofs.DeclarationOrder
import Predictive.Proofs.EmptyInput

/-!
The entries of the predictive table. What a cell holds can be said without any search (`Grammar.Prescribes`): a
non-terminal is expanded by the first of its productions whose head is the lookahead or has it in its set, and every
other symbol is compared with the lookahead. The actions of the table are exactly the prescribed ones
(`Table.action?_eq_some_iff`). A table can also be filled cell by cell and stored. There a cell is a fault if the set
of its non-terminal promises an entry and no chain of heads leads to it (`Table.fill`); but each promise is kept, so
no cell is a fault, and what is stored are the actions of the table (`Table.exists_fill`).
-/
namespace Predictive

namespace Grammar

/-- The symbol has a column: it is a declared terminal or the empty word. -/
def IsColumn (g : Grammar) (symbol : Symbol) : Prop :=
  (∃ name ∈ g.terminals, symbol = .terminal name) ∨ symbol = .epsilon

/-- The symbol has a row: it is a declared symbol, the empty word or the end marker. -/
def IsRow (g : Grammar) (symbol : Symbol) : Prop := g.Declared symbol ∨ symbol = .epsilon ∨ symbol = .endMarker

/-- The production is the first one of the non-terminal, in the order of declaration, whose head is the symbol or a
    non-terminal with the symbol in its set. -/
def OpensFirst (g : Grammar) (first : FirstSets) (name : String) (symbol : Symbol) (production : Production) : Prop :=
  ∃ before behind, g.productionsOf name = before ++ production :: behind ∧ first.Opens production symbol ∧
    ∀ earlier ∈ before, ¬ first.Opens earlier symbol

/-- The action that belongs into the cell of a stack top and a lookahead. -/
inductive Prescribes (g : Grammar) (first : FirstSets) : (top lookahead : Symbol) → Action → Prop where
  | expand {name : String} {lookahead : Symbol} {production : Production} :
    name ∈ g.nonTerminals → g.IsColumn lookahead → first.Contains name lookahead →
    g.OpensFirst first name lookahead production →
    Prescribes g first (.nonTerminal name) lookahead (.apply production)
  /-- No derivation from the non-terminal begins with the lookahead, as far as heads tell. -/
  | exclude {name : String} {lookahead : Symbol} :
    name ∈ g.nonTerminals → g.IsColumn lookahead → ¬ first.Contains name lookahead →
    Prescribes g first (.nonTerminal name) lookahead .reject
  | consume {symbol : Symbol} : g.IsColumn symbol → Prescribes g first symbol symbol .consume
  | mismatch {top lookahead : Symbol} : g.IsColumn top → g.IsColumn lookahead → top ≠ lookahead →
    Prescribes g first top lookahead .reject
  | accept : Prescribes g first .endMarker .epsilon .accept
  /-- Nothing more is expected, but there is more to read. -/
  | leftOver {lookahead : Symbol} : g.IsColumn lookahead → lookahead ≠ .epsilon →
    Prescribes g first .endMarker lookahead .reject

variable {g : Grammar} {first : FirstSets} {top lookahead : Symbol}

theorem IsRow.cases (row : g.IsRow top) :
    (∃ name ∈ g.nonTerminals, top = .nonTerminal name) ∨ g.IsColumn top ∨ top = .endMarker := by
  rcases row with declared | empty | marker
  · cases top with
    | terminal name => exact .inr (.inl (.inl ⟨name, declared, rfl⟩))
    | nonTerminal name => exact .inl ⟨name, declared, rfl⟩
    | epsilon => exact declared.elim
    | endMarker => exact declared.elim
  · exact .inr (.inl (.inr empty))
  · exact .inr (.inr marker)

theorem IsColumn.isRow (column : g.IsColumn top) : g.IsRow top := by
  rcases column with ⟨name, declared, rfl⟩ | empty
  · exact .inl declared
  · exact .inr (.inl empty)

theorem alternative?_eq_some_iff {name : String} {production : Production} :
    g.alternative? first name lookahead = some production ↔ g.OpensFirst first name lookahead production := by
  unfold alternative? OpensFirst
  rw [List.find?_eq_some_iff_append]
  simp only [decide_eq_true_eq, Bool.not_eq_eq_eq_not, Bool.not_true, decide_eq_false_iff_not]
  constructor
  · rintro ⟨opens, before, behind, split, closed⟩
    exact ⟨before, behind, split, opens, closed⟩
  · rintro ⟨before, behind, split, opens, closed⟩
    exact ⟨opens, before, behind, split, closed⟩

end Grammar

namespace Table

variable {table : Table} {top lookahead : Symbol} {action : Action}

/-! ### Computed entries -/

theorem mem_lookaheads_iff {symbol : Symbol} : symbol ∈ table.lookaheads ↔ table.grammar.IsColumn symbol := by
  simp [Grammar.IsColumn, eq_comm]

theorem mem_rows_iff {symbol : Symbol} : symbol ∈ table.rows ↔ table.grammar.IsRow symbol := by
  cases symbol <;> simp [Grammar.IsRow, Grammar.Declared]

/-- A stack top that has a column is compared with the lookahead. -/
theorem entry_of_isColumn (compared : table.grammar.IsColumn top) :
    table.entry top lookahead = if top = lookahead then .consume else .reject := by
  rcases compared with ⟨name, _, rfl⟩ | rfl <;> rfl

section
variable (wellFormed : table.grammar.WellFormed)
include wellFormed

theorem prescribes_entry (row : table.grammar.IsRow top) (column : table.grammar.IsColumn lookahead) :
    table.grammar.Prescribes table.first top lookahead (table.entry top lookahead) := by
  rcases row.cases with ⟨name, declared, rfl⟩ | compared | rfl
  · rw [entry_nonTerminal wellFormed]
    cases chosen : table.alternative? name lookahead with
    | none => exact .exclude declared column ((alternative?_eq_none wellFormed).mp chosen)
    | some production =>
      have contained : table.first.Contains name lookahead := by
        rw [← alternative?_isSome wellFormed, chosen]
        rfl
      exact .expand declared column contained (Grammar.alternative?_eq_some_iff.mp chosen)
  · rw [entry_of_isColumn compared]
    by_cases same : top = lookahead
    · rw [if_pos same]
      exact same ▸ .consume compared
    · rw [if_neg same]
      exact .mismatch compared column same
  · show table.grammar.Prescribes table.first .endMarker lookahead (if lookahead = .epsilon then .accept else .reject)
    by_cases last : lookahead = .epsilon
    · rw [if_pos last, last]
      exact .accept
    · rw [if_neg last]
      exact .leftOver column last

theorem entry_of_prescribes (prescribed : table.grammar.Prescribes table.first top lookahead action) :
    (table.grammar.IsRow top ∧ table.grammar.IsColumn lookahead) ∧ table.entry top lookahead = action := by
  cases prescribed with
  | expand declared column _ opensFirst =>
    refine ⟨⟨.inl declared, column⟩, ?_⟩
    have chosen : table.alternative? _ lookahead = some _ := Grammar.alternative?_eq_some_iff.mpr opensFirst
    rw [entry_nonTerminal wellFormed, chosen]
  | exclude declared column excluded =>
    refine ⟨⟨.inl declared, column⟩, ?_⟩
    rw [entry_nonTerminal wellFormed, (alternative?_eq_none wellFormed).mpr excluded]
  | consume compared => exact ⟨⟨compared.isRow, compared⟩, by rw [entry_of_isColumn compared, if_pos rfl]⟩
  | mismatch compared column different =>
    exact ⟨⟨compared.isRow, column⟩, by rw [entry_of_isColumn compared, if_neg different]⟩
  | accept => exact ⟨⟨.inr (.inr rfl), .inr rfl⟩, rfl⟩
  | leftOver column more => exact ⟨⟨.inr (.inr rfl), column⟩, if_neg more⟩

/-- The actions of a table are the prescribed ones. -/
theorem action?_eq_some_iff : table.action? top lookahead = some action ↔
    table.grammar.Prescribes table.first top lookahead action := by
  rw [action?_eq_some, mem_rows_iff, mem_lookaheads_iff]
  constructor
  · rintro ⟨⟨row, column⟩, rfl⟩
    exact prescribes_entry wellFormed row column
  · exact entry_of_prescribes wellFormed

end

/-- There is an action in every row and column, and nowhere else. -/
theorem isSome_action? : (table.action? top lookahead).isSome ↔
    table.grammar.IsRow top ∧ table.grammar.IsColumn lookahead := by
  rw [← mem_rows_iff, ← mem_lookaheads_iff]
  unfold action?
  by_cases inside : top ∈ table.rows ∧ lookahead ∈ table.lookaheads
  · rw [if_pos inside]
    exact iff_of_true rfl inside
  · rw [if_neg inside]
    exact iff_of_false Bool.false_ne_true inside

end Table

/-! ### Stored entries -/

/-- The cell of a non-terminal whose set holds the lookahead, though no chain of heads leads there. -/
structure MissingChain where
  name : String
  lookahead : Symbol
deriving DecidableEq, Repr

/-- Stored actions with their cells, the last stored one first. -/
abbrev StoredActions := List ((Symbol × Symbol) × Action)

namespace Table

/-- The action to be stored in a cell. The set of a non-terminal decides whether there has to be a chain of heads,
    and the chain decides which production is applied. -/
def fillCell (table : Table) (top lookahead : Symbol) : Except MissingChain Action :=
  match top with
  | .nonTerminal name =>
    if table.first.Contains name lookahead then
      match (table.grammar.findChain? table.first name lookahead).bind List.head? with
      | some production => .ok (.apply production)
      | none => .error { name, lookahead }
    else .ok .reject
  | .endMarker => .ok (if lookahead = .epsilon then .accept else .reject)
  | symbol => .ok (if symbol = lookahead then .consume else .reject)

/-- Stores the actions of cells, one after another. -/
def fillCells (table : Table) : StoredActions → List (Symbol × Symbol) → Except MissingChain StoredActions
  | stored, [] => .ok stored
  | stored, cell :: rest => match table.fillCell cell.1 cell.2 with
    | .error missing => .error missing
    | .ok action => table.fillCells ((cell, action) :: stored) rest

/-- All cells, row by row. -/
def cells (table : Table) : List (Symbol × Symbol) := table.rows.product table.lookaheads

/-- Stores the actions of all cells. -/
def fill (table : Table) : Except MissingChain StoredActions := table.fillCells [] table.cells

variable {table : Table} (wellFormed : table.grammar.WellFormed)
include wellFormed

/-- What a set promises, some chain of heads keeps, and it begins with the production of the entry. -/
theorem fillCell_eq_ok (top lookahead : Symbol) : table.fillCell top lookahead = .ok (table.entry top lookahead) := by
  cases top with
  | nonTerminal name =>
    have head : (table.grammar.findChain? table.first name lookahead).map List.head? =
        (table.alternative? name lookahead).map some := findChain?_head wellFormed
    rw [entry_nonTerminal wellFormed]
    unfold fillCell
    by_cases contained : table.first.Contains name lookahead
    · obtain ⟨production, chosen⟩ := Option.isSome_iff_exists.mp ((alternative?_isSome wellFormed).mpr contained)
      rw [chosen] at head ⊢
      obtain ⟨chain, found, begins⟩ := Option.map_eq_some_iff.mp head
      simp [contained, found, begins]
    · rw [(alternative?_eq_none wellFormed).mpr contained]
      simp [contained]
  | _ => rfl

theorem fillCells_eq_ok (stored : StoredActions) (cells : List (Symbol × Symbol)) :
    ∃ filled, table.fillCells stored cells = .ok filled ∧
      ∀ cell, filled.lookup cell =
        if cell ∈ cells then some (table.entry cell.1 cell.2) else stored.lookup cell := by
  induction cells generalizing stored with
  | nil => exact ⟨stored, rfl, by simp⟩
  | cons next rest ih =>
    obtain ⟨filled, fills, found⟩ := ih ((next, table.entry next.1 next.2) :: stored)
    refine ⟨filled, by simp [fillCells, fillCell_eq_ok wellFormed, fills], fun cell => ?_⟩
    rw [found cell]
    by_cases later : cell ∈ rest
    · simp [later]
    · by_cases same : cell = next
      · simp [same]
      · have different : (cell == next) = false := beq_eq_false_iff_ne.mpr same
        simp [later, same, List.lookup_cons, different]

/-- All cells can be filled, and what is stored are the actions of the table. -/
theorem exists_fill : ∃ stored, table.fill = .ok stored ∧
    ∀ top lookahead, stored.lookup (top, lookahead) = table.action? top lookahead := by
  obtain ⟨stored, fills, found⟩ := fillCells_eq_ok wellFormed [] table.cells
  refine ⟨stored, fills, fun top lookahead => ?_⟩
  rw [found]
  simp only [cells, List.pair_mem_product, List.lookup_nil]
  rfl

end Table

/-- A grammar with FIRST sets has a table. All cells of the table can be filled, it has an action in every row and
    column and nowhere else, and its actions are the prescribed ones. -/
theorem table_prescribed {g : Grammar} {first : FirstSets} (built : g.Built) (computed : g.firstSets = .ok first) :
    ∃ table, Table.ofGrammar g = .ok table ∧ table.grammar = g ∧ table.first = first ∧
      (∃ stored, table.fill = .ok stored ∧
        ∀ top lookahead, stored.lookup (top, lookahead) = table.action? top lookahead) ∧
      ∀ top lookahead,
        ((table.action? top lookahead).isSome ↔ g.IsRow top ∧ g.IsColumn lookahead) ∧
        ∀ action, table.action? top lookahead = some action ↔ g.Prescribes first top lookahead action := by
  have wellFormed := built.wellFormed
  refine ⟨⟨g, first, computed⟩, Table.ofGrammar_eq_of_firstSets computed, rfl, rfl, ?_, fun top lookahead => ⟨?_, ?_⟩⟩
  · exact Table.exists_fill wellFormed
  · exact Table.isSome_action?
  · intro action
    exact Table.action?_eq_some_iff wellFormed

/-- Two alternatives of the start symbol open with the empty word, one by its head alone, and the first is taken. -/
theorem table_prescribed_shadowed :
    Grammar.shadowed.Built ∧ Grammar.shadowed.firstSets = .ok shadowedTable.first ∧
    (∃ stored, shadowedTable.fill = .ok stored ∧
      ∀ top lookahead, stored.lookup (top, lookahead) = shadowedTable.action? top lookahead) ∧
    (∀ top lookahead, (shadowedTable.action? top lookahead).isSome ↔
      Grammar.shadowed.IsRow top ∧ Grammar.shadowed.IsColumn lookahead) ∧
    Grammar.shadowed.Prescribes shadowedTable.first (.nonTerminal "S") .epsilon
      (.apply { id := 1, left := "S", right := [.nonTerminal "A", .terminal "b"] }) := by
  have written : Grammar.ofText "S -> A b | e\nA -> e" = .ok .shadowed := rfl
  have built : Grammar.shadowed.Built := .written written
  obtain ⟨table, made, _, _, filled, actions⟩ := table_prescribed built shadowedTable.first_eq
  obtain rfl : shadowedTable = table := Except.ok.inj made
  exact ⟨built, shadowedTable.first_eq, filled, fun top lookahead => (actions top lookahead).1,
    ((actions _ _).2 _).mp rfl⟩

end Predictive
