import Predictive.Proofs.SampleGrammars

/-!
Runs without tokens. Such a run sees nothing but the empty word, so each non-terminal that comes to the top is
expanded by its first alternative that opens with the empty word. The run accepts exactly if these expansions
leave nothing of the start symbol (`Table.Dissolves`), with the rules of a derivation of the empty word
(`emptyInput_accepted`). An alternative that is the empty word alone need not be the one that is taken: it can
stand behind another one whose head may vanish while the rest does not (`emptyInput_shadowed`).
-/
namespace Predictive

/-- The form vanishes with these rules when its leftmost non-terminal is expanded, again and again, by the first
    of its alternatives that opens with the empty word. -/
inductive Table.Dissolves (table : Table) : (form : List Symbol) → (rules : List Nat) → Prop where
  | nil : Dissolves table [] []
  | epsilon {form : List Symbol} {rules : List Nat} :
    Dissolves table form rules → Dissolves table (.epsilon :: form) rules
  | expand {name : String} {production : Production} {form : List Symbol} {rules : List Nat} :
    table.alternative? name .epsilon = some production → Dissolves table (production.right ++ form) rules →
      Dissolves table (.nonTerminal name :: form) (production.id :: rules)

section
variable {table : Table} {form : List Symbol} {rules : List Nat}

/-- The first choices make up a leftmost derivation of the empty word. -/
theorem Table.Dissolves.spells (dissolves : table.Dissolves form rules) : table.grammar.Spells form rules [] := by
  induction dissolves with
  | nil => exact .nil
  | epsilon _ ih => exact .epsilon ih
  | expand chosen _ ih =>
    obtain ⟨listed, rfl⟩ := Grammar.mem_productionsOf.mp (Table.alternative?_eq_some chosen).1
    exact .expand listed ih

/-- An alternative that is the empty word alone is the first choice if no earlier one opens with the empty word. -/
theorem Table.dissolves_of_isEpsilon {name : String} {before behind : List Production} {production : Production}
    (alternatives : table.grammar.productionsOf name = before ++ production :: behind)
    (isEpsilon : production.IsEpsilon)
    (closed : ∀ earlier ∈ before, ¬ table.first.Opens earlier .epsilon) :
    table.Dissolves [.nonTerminal name] [production.id] := by
  have opens : table.first.Opens production .epsilon := by
    rw [Production.IsEpsilon] at isEpsilon
    exact ⟨.epsilon, by simp [Production.head?, isEpsilon], rfl⟩
  have chosen : table.alternative? name .epsilon = some production := by
    refine List.find?_eq_some_iff_append.mpr ⟨by simpa using opens, before, behind, alternatives, ?_⟩
    simpa using closed
  refine .expand chosen ?_
  rw [isEpsilon]
  exact .epsilon .nil

namespace Plain

/-- Without tokens the machine accepts what dissolves. -/
theorem run?_of_dissolves (dissolves : table.Dissolves form rules) (history : List Nat) :
    ∃ steps, run? table steps { tokens := [], stack := form ++ [.endMarker], history } =
      some (.accepted (history.reverse ++ rules)) := by
  induction dissolves generalizing history with
  | nil => exact ⟨1, by simp [run?, step, Plain.rules]⟩
  | epsilon _ ih =>
    obtain ⟨steps, accepts⟩ := ih history
    exact ⟨steps + 1, by simpa [run?, step] using accepts⟩
  | @expand name production form rules chosen _ ih =>
    obtain ⟨steps, accepts⟩ := ih (production.id :: history)
    have choice : choice? table name [] = some production := chosen
    exact ⟨steps + 1, by simpa [run?, step, choice] using accepts⟩

/-- Without tokens the machine accepts only what dissolves. -/
theorem Expects.dissolves_of_run? (wellFormed : table.grammar.WellFormed) {plain : Plain}
    (expects : plain.Expects form) (noTokens : plain.tokens = []) {steps : Nat}
    (accepts : plain.run? table steps = some (.accepted rules)) :
    ∃ applied, rules = plain.rules ++ applied ∧ table.Dissolves form applied := by
  induction steps generalizing plain form with
  | zero => contradiction
  | succ steps ih =>
    obtain ⟨onStack, clean⟩ := expects
    unfold run? at accepts
    cases taken : plain.step table with
    | halted outcome =>
      obtain rfl : outcome = .accepted rules := by simpa [taken] using accepts
      obtain ⟨_, onTop, rfl⟩ := step_eq_accepted taken
      cases form with
      | nil => exact ⟨[], by simp, .nil⟩
      | cons top behind => simp_all
    | moved next =>
      have acceptsNext : next.run? table steps = some (.accepted rules) := by simpa [taken] using accepts
      cases form with
      | nil => cases step_eq_moved.mp taken <;> cases onStack
      | cons top behind =>
        have cleanBehind : Symbol.endMarker ∉ behind := fun member => clean (List.mem_cons_of_mem top member)
        cases step_eq_moved.mp taken with
        | terminal => cases noTokens
        | epsilon =>
          cases onStack
          cases noTokens
          obtain ⟨applied, same, dissolves⟩ := ih ⟨rfl, cleanBehind⟩ rfl acceptsNext
          exact ⟨applied, same, .epsilon dissolves⟩
        | @expand name tokens below history production choice =>
          cases onStack
          cases noTokens
          have listed := (Grammar.mem_productionsOf.mp (mem_productionsOf_of_choice? choice)).1
          obtain ⟨applied, same, dissolves⟩ := ih (.of_right wellFormed listed cleanBehind) rfl acceptsNext
          exact ⟨production.id :: applied, by simpa [Plain.rules] using same, .expand choice dissolves⟩

end Plain

end

section
variable {g : Grammar} {table : Table}

/-- A run without tokens accepts exactly if the start symbol dissolves, and with the rules by which it does. So it
    accepts with an alternative that is the empty word alone if no earlier one opens with the empty word, and it
    does not accept if the start symbol does not derive the empty word. -/
theorem emptyInput_accepted (built : g.Built) (made : Table.ofGrammar g = .ok table) :
    let initial := State.initial g.startSymbol []
    (∀ rules, (∃ steps, initial.run? table steps = some (.accepted rules)) ↔
      table.Dissolves [g.startSymbol] rules) ∧
    (∀ before production behind, g.productionsOf g.start = before ++ production :: behind →
      production.IsEpsilon → (∀ earlier ∈ before, ¬ table.first.Opens earlier .epsilon) →
      ∃ steps, initial.run? table steps = some (.accepted [production.id])) ∧
    (¬ g.Yields [g.startSymbol] [] → ∀ steps rules, initial.run? table steps ≠ some (.accepted rules)) := by
  intro initial
  have wellFormed := built.wellFormed
  have lockstep := (Shows.of_ofGrammar made []).lockstep (built.wellFormed_of_ofGrammar made)
  obtain rfl := Table.ofGrammar_eq_ok made
  have decided : ∀ rules, (∃ steps, initial.run? table steps = some (.accepted rules)) ↔
      table.Dissolves [table.grammar.startSymbol] rules := by
    intro rules
    constructor
    · rintro ⟨steps, accepted⟩
      have acceptedPlain := (lockstep steps).2.symm.trans accepted
      obtain ⟨applied, same, dissolves⟩ :=
        (Plain.Expects.initial _ []).dissolves_of_run? wellFormed rfl acceptedPlain
      obtain rfl : rules = applied := same
      exact dissolves
    · intro dissolves
      obtain ⟨steps, accepted⟩ := Plain.run?_of_dissolves dissolves []
      exact ⟨steps, (lockstep steps).2.trans accepted⟩
  refine ⟨decided, fun before production behind alternatives isEpsilon closed => ?_,
    fun neverEmpty steps rules accepted => ?_⟩
  · exact (decided _).mpr (Table.dissolves_of_isEpsilon alternatives isEpsilon closed)
  · have spells := ((decided rules).mp ⟨steps, accepted⟩).spells
    exact neverEmpty (wellFormed.translates_iff_spells.mpr spells).yields

/-- In the grammar of assignments, the second alternative of the start symbol is the empty word alone. -/
theorem emptyInput_accepted_assignment :
    let initial := State.initial Grammar.assignment.startSymbol []
    Grammar.assignment.Built ∧ Table.ofGrammar .assignment = .ok assignmentTable ∧
    (∀ rules, (∃ steps, initial.run? assignmentTable steps = some (.accepted rules)) ↔
      assignmentTable.Dissolves [Grammar.assignment.startSymbol] rules) ∧
    (∃ steps, initial.run? assignmentTable steps = some (.accepted [2])) ∧
    (¬ Grammar.assignment.Yields [Grammar.assignment.startSymbol] [] →
      ∀ steps rules, initial.run? assignmentTable steps ≠ some (.accepted rules)) := by
  obtain ⟨decided, accepts, never⟩ := emptyInput_accepted assignment_built ofGrammar_assignment
  have alternatives : Grammar.assignment.productionsOf Grammar.assignment.start =
      [{ id := 1, left := "P", right := [.nonTerminal "O", .terminal ";", .nonTerminal "P"] }] ++
        { id := 2, left := "P", right := [.epsilon] } :: [] := rfl
  exact ⟨assignment_built, ofGrammar_assignment, decided, accepts _ _ _ alternatives rfl (by decide), never⟩

/-! ### An alternative in the shadow of another -/

/-- A grammar whose start symbol has the empty word as its second alternative. The head of the first alternative
    vanishes, the terminal behind it does not. -/
def Grammar.shadowed : Grammar where
  start := "S"
  terminals := ["b"]
  nonTerminals := ["S", "A"]
  productions := [
    { id := 1, left := "S", right := [.nonTerminal "A", .terminal "b"] },
    { id := 2, left := "S", right := [.epsilon] },
    { id := 3, left := "A", right := [.epsilon] }]

/-- The table of the grammar with a shadowed alternative. -/
def shadowedTable : Table where
  grammar := .shadowed
  first := (FirstSets.searchAll .shadowed {} Grammar.shadowed.nonTerminals).toOption.getD {}
  first_eq := rfl

/-- The start symbol has an alternative that is the empty word alone, yet no run without tokens accepts. -/
theorem emptyInput_shadowed :
    Grammar.shadowed.Built ∧ Table.ofGrammar .shadowed = .ok shadowedTable ∧
    (∃ production ∈ Grammar.shadowed.productionsOf Grammar.shadowed.start, production.IsEpsilon) ∧
    ∀ steps rules,
      (State.initial Grammar.shadowed.startSymbol []).run? shadowedTable steps ≠ some (.accepted rules) := by
  have built : Grammar.ofText "S -> A b | e\nA -> e" = .ok .shadowed := rfl
  have rejected : (State.initial Grammar.shadowed.startSymbol []).run? shadowedTable 4 =
      some (.rejected { stackTop := .terminal "b", lookahead := .epsilon, reason := .noAction }) := rfl
  refine ⟨.written built, rfl, by decide, fun steps rules accepted => ?_⟩
  have contradictory := State.run?_unique accepted rejected
  contradiction

end

end Predictive
