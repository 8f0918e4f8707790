import Predictive.Proofs.FirstMeaning
import Predictive.Proofs.LL1
import Predictive.Proofs.Soundness

/-!
No word of an LL(1) grammar is rejected. The machine chooses productions without FOLLOW sets and by heads
alone; for an LL(1) grammar in which no non-terminal has two alternatives whose heads let it vanish, it
nevertheless chooses the production of the leftmost derivation each time. If the next token is in the FIRST
set of the non-terminal, another production that opens with this token would break the LL(1) condition
(`Grammar.LL1.eq_of_begins`); and if it is not, the production must open with the empty word, which only one
does (`Plain.choice?_of_spells`). So the machine follows the derivation to its end (`derivable_accepted`).
-/
namespace Predictive

/-- In a form that the start symbol derives, the production that spells the tokens behind it is the only
    alternative that can begin with the first of them. -/
theorem Grammar.LL1.eq_of_begins {g : Grammar} (ll1 : g.LL1) (wellFormed : g.WellFormed)
    {production other : Production} (listed : production ∈ g.productions) (listedOther : other ∈ g.productions)
    (same : production.left = other.left) {before behind : List Symbol} {rules : List Nat} {token : String}
    {tokens : List String}
    (reached : g.Yields [g.startSymbol] (before ++ .nonTerminal production.left :: eraseEpsilon behind))
    (spells : g.Spells (production.right ++ behind) rules (token :: tokens))
    (begins : g.BeginsWith (eraseEpsilon other.right) token) : production = other := by
  by_contra different
  have alternatives : g.Alternatives production other := ⟨listed, listedOther, same, different⟩
  obtain ⟨first, second, own, rest, rfl, split, spellsRight, spellsBehind⟩ := spells_append.mp spells
  have derivesRight := wellFormed.derives_of_spells spellsRight
  cases own with
  | nil =>
    -- The production vanishes, so the token comes from behind the non-terminal.
    obtain rfl : token :: tokens = rest := split
    have derivesBehind := (wellFormed.derives_of_spells spellsBehind).yields.context
      (before ++ [.nonTerminal production.left]) []
    simp only [List.append_nil, List.append_assoc, List.singleton_append] at derivesBehind
    have followed : g.FollowedBy other.left token :=
      ⟨before, terminalForm tokens, same ▸ reached.trans derivesBehind⟩
    exact ll1.follow_apart _ _ alternatives ⟨first, derivesRight⟩ token begins followed
  | cons next more =>
    obtain ⟨rfl, rfl⟩ := List.cons.inj split
    exact ll1.begins_apart _ _ alternatives token ⟨first, terminalForm more, derivesRight⟩ begins

namespace Table

/-- At most one alternative of each non-terminal opens with the empty word. -/
def VanishesOnce (table : Table) : Prop :=
  ∀ one ∈ table.grammar.productions, ∀ other ∈ table.grammar.productions, one.left = other.left →
    table.first.Opens one .epsilon → table.first.Opens other .epsilon → one = other

instance (table : Table) : Decidable table.VanishesOnce :=
  inferInstanceAs (Decidable (∀ one ∈ table.grammar.productions, ∀ other ∈ table.grammar.productions, _))

variable {table : Table}

theorem exists_alternative? (wellFormed : table.grammar.WellFormed) {name : String} {symbol : Symbol}
    (contained : table.first.Contains name symbol) :
    ∃ production ∈ table.grammar.productions, production.left = name ∧ table.first.Opens production symbol ∧
      table.alternative? name symbol = some production := by
  obtain ⟨production, found⟩ := Option.isSome_iff_exists.mp ((alternative?_isSome wellFormed).mpr contained)
  obtain ⟨listed, opens⟩ := alternative?_eq_some found
  obtain ⟨member, same⟩ := Grammar.mem_productionsOf.mp listed
  exact ⟨production, member, same, opens, found⟩

end Table

namespace Plain

variable {table : Table} (wellFormed : table.grammar.WellFormed) (ll1 : table.grammar.LL1)
  (once : table.VanishesOnce)
include wellFormed ll1 once

/-- The machine chooses the production that spells the tokens. -/
theorem choice?_of_spells {production : Production} (listed : production ∈ table.grammar.productions)
    {before behind : List Symbol} {rules : List Nat} {tokens : List String}
    (reached : table.grammar.Yields [table.grammar.startSymbol]
      (before ++ .nonTerminal production.left :: eraseEpsilon behind))
    (spells : table.grammar.Spells (production.right ++ behind) rules tokens) :
    choice? table production.left tokens = some production := by
  obtain ⟨symbol, opens, seen⟩ := Table.opens_of_spells wellFormed listed spells
  have contains : ∀ {symbol : Symbol}, table.first.Opens production symbol →
      table.first.Contains production.left symbol := Table.contains_left wellFormed listed
  -- The machine looks at the token only if the FIRST set of the non-terminal holds it.
  by_cases excluded : ∀ token ∈ tokens.head?, ¬ table.first.Contains production.left (.terminal token)
  · have vanishes : table.first.Opens production .epsilon := by
      rcases seen with rfl | ⟨token, next, rfl⟩
      · exact opens
      · exact absurd (contains opens) (excluded token next)
    obtain ⟨other, listedOther, same, opensOther, found⟩ :=
      Table.exists_alternative? wellFormed (contains vanishes)
    rw [choice?_of_not_contains excluded, found,
      once production listed other listedOther same.symm vanishes opensOther]
  · cases tokens with
    | nil => simp at excluded
    | cons token rest =>
      have contained : table.first.Contains production.left (.terminal token) := by simpa using excluded
      obtain ⟨other, listedOther, same, opensOther, found⟩ := Table.exists_alternative? wellFormed contained
      have begins := Table.beginsWith_of_opens wellFormed opensOther
      have chosen := ll1.eq_of_begins wellFormed listed listedOther same.symm reached spells begins
      rw [choice?, if_pos contained, found, chosen]

/-- The machine accepts what the form on its stack spells, with the rules of this spelling. -/
theorem run?_of_spells {form : List Symbol} {rules : List Nat} {tokens : List String}
    (spells : table.grammar.Spells form rules tokens) (consumed : List String)
    (reached : table.grammar.Yields [table.grammar.startSymbol] (terminalForm consumed ++ eraseEpsilon form))
    (history : List Nat) :
    ∃ steps, run? table steps { tokens, stack := form ++ [.endMarker], history } =
      some (.accepted (history.reverse ++ rules)) := by
  induction spells generalizing consumed history with
  | nil => exact ⟨1, by simp [run?, step, Plain.rules]⟩
  | @terminal name form rules tokens _ ih =>
    have reachedNext : table.grammar.Yields [table.grammar.startSymbol]
        (terminalForm (consumed ++ [name]) ++ eraseEpsilon form) := by
      simpa [terminalForm, eraseEpsilon_cons] using reached
    obtain ⟨steps, accepts⟩ := ih _ reachedNext history
    exact ⟨steps + 1, by simpa [run?, step] using accepts⟩
  | @epsilon form rules tokens _ ih =>
    have reachedNext : table.grammar.Yields [table.grammar.startSymbol]
        (terminalForm consumed ++ eraseEpsilon form) := by
      simpa [eraseEpsilon] using reached
    obtain ⟨steps, accepts⟩ := ih _ reachedNext history
    exact ⟨steps + 1, by simpa [run?, step] using accepts⟩
  | @expand production form rules tokens listed spells ih =>
    rw [eraseEpsilon_cons (by simp)] at reached
    have choice := choice?_of_spells wellFormed ll1 once listed reached spells
    have reachedNext : table.grammar.Yields [table.grammar.startSymbol]
        (terminalForm consumed ++ eraseEpsilon (production.right ++ form)) := by
      simpa using reached.expand listed
    obtain ⟨steps, accepts⟩ := ih _ reachedNext (production.id :: history)
    exact ⟨steps + 1, by simpa [run?, step, choice] using accepts⟩

end Plain

namespace State

variable {table : Table} {state : State} {outcome : Outcome}

theorem run?_mono {steps more : Nat} (ends : state.run? table steps = some outcome) (within : steps ≤ more) :
    state.run? table more = some outcome := by
  induction steps generalizing state more with
  | zero => contradiction
  | succ steps ih =>
    obtain ⟨more, rfl⟩ : ∃ fewer, more = fewer + 1 := ⟨more - 1, by omega⟩
    unfold run? at ends ⊢
    cases taken : state.step table with
    | moved next =>
      rw [taken] at ends
      exact ih ends (by omega)
    | halted last => rwa [taken] at ends

theorem run?_unique {other : Outcome} {steps more : Nat} (ends : state.run? table steps = some outcome)
    (endsOther : state.run? table more = some other) : outcome = other := by
  rcases Nat.le_total steps more with within | within
  · exact Option.some.inj ((run?_mono ends within).symm.trans endsOther)
  · exact Option.some.inj (ends.symm.trans (run?_mono endsOther within))

end State

section
variable {g : Grammar} {table : Table}

/-- A word that the start symbol derives in any order has exactly one leftmost derivation. The machine comes
    to accept it with the rules of this derivation, so a translator either reports these or runs out of steps,
    whatever its allowance. -/
theorem derivable_accepted (built : g.Built) (made : Table.ofGrammar g = .ok table) (ll1 : g.LL1)
    (once : table.VanishesOnce) {tokens : List String}
    (derivable : g.Yields [g.startSymbol] (terminalForm tokens)) :
    ∃ rules, g.Translates rules tokens ∧ (∀ others, g.Translates others tokens → others = rules) ∧
      (∃ steps, (State.initial g.startSymbol (terminalForm tokens)).run? table steps = some (.accepted rules)) ∧
      ∀ allowance outcome, ({ table, allowance } : Translator).translate tokens = .ok outcome →
        outcome = .accepted rules := by
  have wellFormed := built.wellFormed
  have lockstep := (Shows.of_ofGrammar made tokens).lockstep (built.wellFormed_of_ofGrammar made)
  obtain rfl := Table.ofGrammar_eq_ok made
  have accepts : ∀ rules, table.grammar.Translates rules tokens →
      ∃ steps, (State.initial table.grammar.startSymbol (terminalForm tokens)).run? table steps =
        some (.accepted rules) := by
    intro rules translates
    have spells := wellFormed.translates_iff_spells.mp translates
    obtain ⟨steps, accepted⟩ := Plain.run?_of_spells wellFormed ll1 once spells [] .refl []
    exact ⟨steps, (lockstep steps).2.trans accepted⟩
  obtain ⟨rules, translates⟩ := wellFormed.generates_iff_yields.mpr derivable
  obtain ⟨steps, accepted⟩ := accepts rules translates
  refine ⟨rules, translates, fun others translatesToo => ?_, ⟨steps, accepted⟩, fun allowance outcome found => ?_⟩
  · obtain ⟨more, acceptedToo⟩ := accepts others translatesToo
    exact Outcome.accepted.inj (State.run?_unique acceptedToo accepted)
  · exact State.run?_unique (Translator.translate_eq_ok.mp found) accepted

theorem derivable_accepted_product :
    Grammar.expression.Built ∧ Table.ofGrammar .expression = .ok expressionTable ∧ Grammar.expression.LL1 ∧
    expressionTable.VanishesOnce ∧
    Grammar.expression.Yields [Grammar.expression.startSymbol] (terminalForm ["a", "*", "a"]) ∧
    ∃ rules, Grammar.expression.Translates rules ["a", "*", "a"] ∧
      (∀ others, Grammar.expression.Translates others ["a", "*", "a"] → others = rules) ∧
      (∃ steps, (State.initial Grammar.expression.startSymbol (terminalForm ["a", "*", "a"])).run? expressionTable
        steps = some (.accepted rules)) ∧
      ∀ allowance outcome, ({ table := expressionTable, allowance } : Translator).translate ["a", "*", "a"] =
        .ok outcome → outcome = .accepted rules := by
  have translates : Grammar.expression.Translates [1, 5, 10, 6, 10, 8, 4] ["a", "*", "a"] := rfl
  have once : expressionTable.VanishesOnce := by decide
  have derivable := translates.yields
  exact ⟨expression_built, ofGrammar_expression, expression_ll1, once, derivable,
    derivable_accepted expression_built ofGrammar_expression expression_ll1 once derivable⟩

end

end Predictive
