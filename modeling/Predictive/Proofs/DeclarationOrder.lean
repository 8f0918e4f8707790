import Predictive.Proofs.Alternatives
import Predictive.Proofs.HeadCycles
import Predictive.Proofs.Lockstep
import Predictive.Proofs.Soundness

/-!
What the order of declarations decides. Two grammars with the same declarations (`Grammar.SameDeclarations`) have
the same head chains, so they have the same FIRST sets or both none (`SameDeclarations.get?_eq`), whatever the search
for them visits first. The order tells only which of several alternatives is taken that open with the lookahead. Where
the heads of the alternatives of a non-terminal have nothing in common (`Grammar.HeadsDisjoint`), there is no more
than one, and so the two tables have the same entries. As the stack machine sees no more of a table than its entries
(`State.step_congr`), all runs are then the same.
-/
namespace Predictive

namespace Grammar

/-- The grammars have the same start symbol and the same declarations, in whatever order. -/
structure SameDeclarations (g h : Grammar) : Prop where
  start : g.start = h.start
  terminals : ∀ name, name ∈ g.terminals ↔ name ∈ h.terminals
  nonTerminals : ∀ name, name ∈ g.nonTerminals ↔ name ∈ h.nonTerminals
  productions : ∀ production, production ∈ g.productions ↔ production ∈ h.productions

namespace SameDeclarations

variable {g h : Grammar}

theorem symm (same : g.SameDeclarations h) : h.SameDeclarations g where
  start := same.start.symm
  terminals name := (same.terminals name).symm
  nonTerminals name := (same.nonTerminals name).symm
  productions production := (same.productions production).symm

theorem mem_productionsOf (same : g.SameDeclarations h) {name : String} {production : Production} :
    production ∈ g.productionsOf name ↔ production ∈ h.productionsOf name := by
  rw [Grammar.mem_productionsOf, Grammar.mem_productionsOf, same.productions]

theorem usable (same : g.SameDeclarations h) (usable : g.Usable) : h.Usable := by
  obtain ⟨declared, supplied⟩ := usable
  refine ⟨(same.nonTerminals _).mp (same.start ▸ declared), fun name needed => ?_⟩
  have neededBefore : name ∈ g.neededNonTerminals := by
    simp only [neededNonTerminals, groupedProductions, List.mem_cons, List.mem_flatMap] at needed ⊢
    refine needed.imp (fun isStart => isStart.trans same.start.symm) ?_
    rintro ⟨production, ⟨left, declaredLeft, listed⟩, member⟩
    have listedBefore : production ∈ g.productionsOf left := same.mem_productionsOf.mpr listed
    exact ⟨production, ⟨left, (same.nonTerminals left).mpr declaredLeft, listedBefore⟩, member⟩
  obtain ⟨production, listed⟩ := List.exists_mem_of_ne_nil _ (supplied name neededBefore)
  exact List.ne_nil_of_mem (same.mem_productionsOf.mp listed)

theorem headEdge (same : g.SameDeclarations h) {name next : String} (edge : g.HeadEdge name next) :
    h.HeadEdge name next := by
  obtain ⟨production, listed, isHead⟩ := edge
  exact ⟨production, same.mem_productionsOf.mp listed, isHead⟩

theorem headAcyclic (same : g.SameDeclarations h) (acyclic : g.HeadAcyclic) : h.HeadAcyclic := by
  intro path moves edges
  refine acyclic path moves (headPath_iff_isChain.mpr ?_)
  exact (headPath_iff_isChain.mp edges).imp fun _ _ edge => same.symm.headEdge edge

theorem headChain (same : g.SameDeclarations h) {name : String} {chain : List Production} {symbol : Symbol}
    (leads : g.HeadChain name chain symbol) : h.HeadChain name chain symbol := by
  induction leads with
  | single listed isHead => exact .single (same.mem_productionsOf.mp listed) isHead
  | cons listed isHead _ ih => exact .cons (same.mem_productionsOf.mp listed) isHead ih

theorem exists_firstSets (same : g.SameDeclarations h) (wellFormedG : g.WellFormed) (wellFormedH : h.WellFormed)
    (computed : ∃ first, g.firstSets = .ok first) : ∃ first, h.firstSets = .ok first := by
  obtain ⟨usable, acyclic⟩ := wellFormedG.exists_firstSets_iff.mp computed
  exact wellFormedH.exists_firstSets_iff.mpr ⟨same.usable usable, same.headAcyclic acyclic⟩

variable {first other : FirstSets}

/-- The same declarations give the same FIRST sets. -/
theorem get?_eq (same : g.SameDeclarations h) (wellFormedG : g.WellFormed) (wellFormedH : h.WellFormed)
    (computedG : g.firstSets = .ok first) (computedH : h.firstSets = .ok other) (name : String) :
    first.get? name = other.get? name := by
  obtain ⟨layeredG, finishedG⟩ := FirstSets.of_firstSets wellFormedG computedG
  obtain ⟨layeredH, finishedH⟩ := FirstSets.of_firstSets wellFormedH computedH
  by_cases declared : name ∈ g.nonTerminals
  · have declaredH : name ∈ h.nonTerminals := (same.nonTerminals name).mp declared
    obtain ⟨set, found⟩ := Option.isSome_iff_exists.mp ((finishedG name).mpr declared)
    obtain ⟨otherSet, foundH⟩ := Option.isSome_iff_exists.mp ((finishedH name).mpr declaredH)
    -- Sets with the same members are equal, and both hold what head chains lead to.
    have sameMembers : ∀ symbol, symbol ∈ set ↔ symbol ∈ otherSet := by
      intro symbol
      have inSet : symbol ∈ set ↔ first.Contains name symbol := by simp [FirstSets.Contains, found]
      have inOther : symbol ∈ otherSet ↔ other.Contains name symbol := by simp [FirstSets.Contains, foundH]
      rw [inSet, inOther, layeredG.contains_iff_headChain ((finishedG name).mpr declared),
        layeredH.contains_iff_headChain ((finishedH name).mpr declaredH)]
      exact and_congr_right fun _ => exists_congr fun chain => ⟨same.headChain, same.symm.headChain⟩
    rw [found, foundH, SymbolSet.ext_mem sameMembers]
  · have undeclaredH : name ∉ h.nonTerminals := mt (same.nonTerminals name).mpr declared
    have missing : first.get? name = none := Option.not_isSome_iff_eq_none.mp (mt (finishedG name).mp declared)
    have missingH : other.get? name = none := Option.not_isSome_iff_eq_none.mp (mt (finishedH name).mp undeclaredH)
    rw [missing, missingH]

end SameDeclarations

end Grammar

/-! ### Alternatives without a conflict -/

/-- The symbols that a production begins with, as far as its head tells: the head itself, or its FIRST set. -/
def FirstSets.ofHead (first : FirstSets) (production : Production) : SymbolSet :=
  match production.head? with
  | some (.nonTerminal name) => (first.get? name).getD ∅
  | some symbol => SymbolSet.insert ∅ symbol
  | none => ∅

theorem FirstSets.ofHead_congr {first other : FirstSets} (same : ∀ name, first.get? name = other.get? name) :
    first.ofHead = other.ofHead := by
  funext production
  simp only [ofHead, same]

theorem FirstSets.mem_ofHead {first : FirstSets} {production : Production} {symbol : Symbol} :
    symbol ∈ first.ofHead production ↔ first.Opens production symbol := by
  unfold ofHead
  cases found : production.head? with
  | none => simp [Opens, found]
  | some head =>
    rw [opens_iff_of_head? found]
    cases head with
    | nonTerminal name => cases entry : first.get? name <;> simp [Leads, Contains, entry]
    | _ => simp [Leads, eq_comm]

namespace Grammar

/-- Different alternatives of a non-terminal begin with different symbols, as far as their heads tell. -/
def HeadsDisjoint (g : Grammar) (first : FirstSets) : Prop :=
  ∀ one ∈ g.productions, ∀ other ∈ g.productions, one.left = other.left → one ≠ other →
    ∀ symbol ∈ (first.ofHead one).toList, symbol ∉ first.ofHead other

instance (g : Grammar) (first : FirstSets) : Decidable (g.HeadsDisjoint first) :=
  inferInstanceAs (Decidable (∀ one ∈ _, ∀ other ∈ _, _ → _ → ∀ symbol ∈ _, _))

variable {g h : Grammar} {first other : FirstSets} {name : String} {symbol : Symbol} {production : Production}

/-- Without conflicts, the alternative taken is the one that opens with the symbol. -/
theorem HeadsDisjoint.alternative?_eq_some_iff (disjoint : g.HeadsDisjoint first) :
    g.alternative? first name symbol = some production ↔
      production ∈ g.productionsOf name ∧ first.Opens production symbol := by
  refine ⟨alternative?_eq_some, fun ⟨listed, opens⟩ => ?_⟩
  obtain ⟨taken, found⟩ : ∃ taken, g.alternative? first name symbol = some taken := by
    refine Option.isSome_iff_exists.mp (List.find?_isSome.mpr ⟨production, listed, ?_⟩)
    simpa using opens
  obtain ⟨listedTaken, opensTaken⟩ := alternative?_eq_some found
  obtain ⟨member, isLeft⟩ := mem_productionsOf.mp listed
  obtain ⟨memberTaken, isLeftTaken⟩ := mem_productionsOf.mp listedTaken
  have same : taken = production := by
    by_contra different
    exact disjoint taken memberTaken production member (isLeftTaken.trans isLeft.symm) different symbol
      (FirstSets.mem_ofHead.mpr opensTaken) (FirstSets.mem_ofHead.mpr opens)
  rw [found, same]

theorem SameDeclarations.headsDisjoint (same : g.SameDeclarations h)
    (sameSets : ∀ name, first.get? name = other.get? name) (disjoint : g.HeadsDisjoint first) :
    h.HeadsDisjoint other := by
  intro one listedOne another listedOther
  rw [← FirstSets.ofHead_congr sameSets]
  exact disjoint one ((same.productions one).mpr listedOne) another ((same.productions another).mpr listedOther)

/-- Without conflicts, the alternative taken does not depend on the order of the declarations. -/
theorem SameDeclarations.alternative?_eq (same : g.SameDeclarations h)
    (sameSets : ∀ name, first.get? name = other.get? name) (disjoint : g.HeadsDisjoint first) :
    g.alternative? first name symbol = h.alternative? other name symbol := by
  refine Option.ext fun production => ?_
  rw [disjoint.alternative?_eq_some_iff, (same.headsDisjoint sameSets disjoint).alternative?_eq_some_iff,
    same.mem_productionsOf, ← FirstSets.mem_ofHead, ← FirstSets.mem_ofHead, FirstSets.ofHead_congr sameSets]

end Grammar

/-! ### Tables with the same entries -/

/-- The tables tell the same for every stack top and every lookahead. -/
def Table.SameActions (table other : Table) : Prop :=
  ∀ top lookahead, table.action? top lookahead = other.action? top lookahead

namespace Table

variable {table other : Table}

theorem mem_lookaheads_iff_action? {symbol : Symbol} :
    symbol ∈ table.lookaheads ↔ (table.action? .endMarker symbol).isSome := by
  have inRows : Symbol.endMarker ∈ table.rows := mem_rows.mpr (.inr (.inr rfl))
  by_cases inColumns : symbol ∈ table.lookaheads <;> simp [action?, inRows, inColumns]

theorem SameActions.mem_lookaheads (same : table.SameActions other) {symbol : Symbol} :
    symbol ∈ table.lookaheads ↔ symbol ∈ other.lookaheads := by
  rw [mem_lookaheads_iff_action?, mem_lookaheads_iff_action?, same]

theorem SameActions.column (same : table.SameActions other) : table.column = other.column := by
  have sameRefuses : ∀ top lookahead, table.Refuses top lookahead ↔ other.Refuses top lookahead := by
    intro top lookahead
    rw [Refuses, Refuses, same]
  funext top lookahead
  simp only [Table.column, sameRefuses]

theorem SameActions.reasonFor (same : table.SameActions other) : table.reasonFor = other.reasonFor := by
  funext lookahead
  simp only [Table.reasonFor, same.mem_lookaheads]

/-- Tables of the same declarations without conflicts have the same actions. -/
theorem sameActions_of_sameDeclarations (same : table.grammar.SameDeclarations other.grammar)
    (wellFormed : table.grammar.WellFormed) (wellFormedOther : other.grammar.WellFormed)
    (disjoint : table.grammar.HeadsDisjoint table.first) : table.SameActions other := by
  have sameSets := same.get?_eq wellFormed wellFormedOther table.first_eq other.first_eq
  have sameColumns : ∀ symbol, symbol ∈ table.lookaheads ↔ symbol ∈ other.lookaheads := by
    intro symbol
    simp only [Table.mem_lookaheads, List.mem_map, same.terminals]
  have sameRows : ∀ symbol, symbol ∈ table.rows ↔ symbol ∈ other.rows := by
    intro symbol
    simp only [Table.mem_rows, sameColumns, List.mem_map, same.nonTerminals]
  intro top lookahead
  have sameEntry : table.entry top lookahead = other.entry top lookahead := by
    cases top with
    | nonTerminal name =>
      rw [entry_nonTerminal wellFormed, entry_nonTerminal wellFormedOther]
      unfold alternative?
      rw [same.alternative?_eq sameSets disjoint]
    | _ => rfl
  simp only [action?, sameRows, sameColumns, sameEntry]

end Table

/-- A step of the machine sees no more of the table than its actions. -/
theorem State.step_congr {table other : Table} (same : table.SameActions other) (state : State) :
    state.step table = state.step other := by
  unfold step
  simp only [same.column, same.reasonFor, same _ _]

theorem State.trace?_congr {table other : Table} (same : table.SameActions other) (steps : Nat)
    (before : List State) (state : State) : trace? table steps before state = trace? other steps before state := by
  induction steps generalizing before state with
  | zero => rfl
  | succ steps ih => simp only [trace?, step_congr same, ih]

theorem Translator.trace_congr {translator other : Translator} (same : translator.table.SameActions other.table)
    (sameStart : translator.table.grammar.start = other.table.grammar.start)
    (sameAllowance : translator.allowance = other.allowance) (tokens : List String) :
    translator.trace tokens = other.trace tokens := by
  simp only [trace, Translator.initial, Grammar.startSymbol, limit, sameStart, sameAllowance, State.trace?_congr same]

theorem Table.ofGrammar_eq_of_firstSets {g : Grammar} {first : FirstSets} (computed : g.firstSets = .ok first) :
    Table.ofGrammar g = .ok { grammar := g, first, first_eq := computed } := by
  unfold ofGrammar
  split
  · next failed => rw [computed] at failed; contradiction
  · next found => cases computed.symm.trans found; rfl

theorem Translator.ofGrammar_eq_of_firstSets {g : Grammar} {first : FirstSets} (computed : g.firstSets = .ok first)
    (allowance : Nat) : Translator.ofGrammar g allowance = .ok { table := ⟨g, first, computed⟩, allowance } := by
  rw [Translator.ofGrammar, Table.ofGrammar_eq_of_firstSets computed]
  rfl

variable {g h : Grammar}

/-- The order of declarations does not change whether there are FIRST sets, nor the sets; and without conflicts
    between the heads of alternatives it changes neither the actions of the table nor any run. -/
theorem declaration_order_irrelevant (builtG : g.Built) (builtH : h.Built) (same : g.SameDeclarations h) :
    ((∃ first, g.firstSets = .ok first) ↔ ∃ other, h.firstSets = .ok other) ∧
    ∀ first other, g.firstSets = .ok first → h.firstSets = .ok other →
      (∀ name, first.get? name = other.get? name) ∧
      (g.HeadsDisjoint first → ∀ allowance, ∃ translator swapped,
        Translator.ofGrammar g allowance = .ok translator ∧ Translator.ofGrammar h allowance = .ok swapped ∧
        (∀ top lookahead, translator.table.action? top lookahead = swapped.table.action? top lookahead) ∧
        ∀ tokens, translator.translate tokens = swapped.translate tokens ∧
          translator.trace tokens = swapped.trace tokens) := by
  have wellFormedG := builtG.wellFormed
  have wellFormedH := builtH.wellFormed
  refine ⟨⟨?_, ?_⟩, fun first other computedG computedH => ?_⟩
  · exact same.exists_firstSets wellFormedG wellFormedH
  · exact same.symm.exists_firstSets wellFormedH wellFormedG
  refine ⟨same.get?_eq wellFormedG wellFormedH computedG computedH, fun disjoint allowance => ?_⟩
  let translator : Translator := { table := ⟨g, first, computedG⟩, allowance }
  let swapped : Translator := { table := ⟨h, other, computedH⟩, allowance }
  have sameActions : translator.table.SameActions swapped.table :=
    Table.sameActions_of_sameDeclarations same wellFormedG wellFormedH disjoint
  have sameTrace : ∀ tokens, translator.trace tokens = swapped.trace tokens :=
    Translator.trace_congr sameActions same.start rfl
  refine ⟨translator, swapped, Translator.ofGrammar_eq_of_firstSets computedG allowance,
    Translator.ofGrammar_eq_of_firstSets computedH allowance, sameActions, fun tokens => ⟨?_, sameTrace tokens⟩⟩
  rw [← Translator.map_outcome_trace, ← Translator.map_outcome_trace, sameTrace]

/-- The grammar of expressions, declared from the operand up to the whole. -/
def operandsFirst : Grammar where
  start := "E"
  terminals := Grammar.expression.terminals.reverse
  nonTerminals := Grammar.expression.nonTerminals.reverse
  productions := Grammar.expression.productions.reverse

/-- The declarations that build it. -/
def operandsFirstEdits : List Edit :=
  [.terminals operandsFirst.terminals, .nonTerminals operandsFirst.nonTerminals] ++
    operandsFirst.productions.map fun production =>
      .production production.left (production.right.map Symbol.name) production.id

theorem operandsFirst_built : operandsFirst.Built := by
  have build : Grammar.build "E" operandsFirstEdits = .ok operandsFirst := rfl
  exact .of_build build

theorem operandsFirst_sameDeclarations : Grammar.expression.SameDeclarations operandsFirst where
  start := rfl
  terminals _ := List.mem_reverse.symm
  nonTerminals _ := List.mem_reverse.symm
  productions _ := List.mem_reverse.symm

/-- The table of the grammar that is declared from the operand up. -/
def operandsFirstTable : Table where
  grammar := operandsFirst
  first := (FirstSets.searchAll operandsFirst {} operandsFirst.nonTerminals).toOption.getD {}
  first_eq := rfl

theorem declaration_order_irrelevant_expression :
    Grammar.expression.Built ∧ operandsFirst.Built ∧ Grammar.expression.SameDeclarations operandsFirst ∧
    Grammar.expression.firstSets = .ok expressionTable.first ∧
    operandsFirst.firstSets = .ok operandsFirstTable.first ∧
    Grammar.expression.HeadsDisjoint expressionTable.first ∧
    (∀ name, expressionTable.first.get? name = operandsFirstTable.first.get? name) ∧
    (∀ top lookahead, expressionTable.action? top lookahead = operandsFirstTable.action? top lookahead) ∧
    ({ table := expressionTable } : Translator).translate ["a", "+", "a"] =
      ({ table := operandsFirstTable } : Translator).translate ["a", "+", "a"] := by
  have disjoint : Grammar.expression.HeadsDisjoint expressionTable.first := by decide
  obtain ⟨_, compared⟩ :=
    declaration_order_irrelevant expression_built operandsFirst_built operandsFirst_sameDeclarations
  obtain ⟨sameSets, sameRuns⟩ := compared _ _ expressionTable.first_eq operandsFirstTable.first_eq
  obtain ⟨translator, swapped, made, madeSwapped, sameActions, runs⟩ := sameRuns disjoint 1024
  obtain rfl : { table := expressionTable } = translator := Except.ok.inj made
  obtain rfl : { table := operandsFirstTable } = swapped := Except.ok.inj madeSwapped
  exact ⟨expression_built, operandsFirst_built, operandsFirst_sameDeclarations, expressionTable.first_eq,
    operandsFirstTable.first_eq, disjoint, sameSets, sameActions, (runs ["a", "+", "a"]).1⟩

end Predictive
