import Predictive.Proofs.MatchedTokens
import Predictive.Proofs.Rewriting
import Predictive.Proofs.Soundness

/-!
Every run is the beginning of a derivation. Whether a run is going to be accepted or rejected or to go on for
ever, the rules it has applied so far derive, from the start symbol, the tokens it has matched followed by what
its stack still expects (`State.pending`). In a grammar whose non-terminals all derive some word, what is
expected can be completed to one, so the matched tokens are the beginning of a word (`viable_prefix`).
-/
namespace Predictive

/-- The symbols on the stack that stand for text, the top first. -/
def State.pending (state : State) : List Symbol :=
  state.stack.filter fun symbol => symbol ≠ .epsilon ∧ symbol ≠ .endMarker

/-- Every non-terminal derives some word. -/
def Grammar.Productive (g : Grammar) : Prop :=
  ∀ name ∈ g.nonTerminals, ∃ word, g.Yields [.nonTerminal name] (terminalForm word)

namespace Grammar

variable {g : Grammar}

/-- A form of declared symbols derives some word. -/
theorem Productive.exists_word (productive : g.Productive) {form : List Symbol}
    (declared : ∀ symbol ∈ form, g.Declared symbol) : ∃ word, g.Yields form (terminalForm word) := by
  induction form with
  | nil => exact ⟨[], .refl⟩
  | cons symbol rest ih =>
    obtain ⟨others, yieldsRest⟩ := ih fun other member => declared other (List.mem_cons_of_mem symbol member)
    have known := declared symbol (by simp)
    cases symbol with
    | terminal name =>
      have yields : g.Yields [.terminal name] (terminalForm [name]) := .refl
      exact ⟨[name] ++ others, terminalForm_append ▸ yields.append yieldsRest⟩
    | nonTerminal name =>
      obtain ⟨word, yields⟩ := productive name known
      exact ⟨word ++ others, terminalForm_append ▸ Yields.append yields yieldsRest⟩
    | epsilon => exact absurd known id
    | endMarker => exact absurd known id

theorem Stacked.declared {stack : List Symbol} (stacked : g.Stacked stack) :
    ∀ symbol ∈ stack, symbol = .endMarker ∨ g.Declared symbol := by
  induction stacked with
  | bottom => simp
  | terminal known _ ih =>
    intro symbol member
    rcases List.mem_cons.mp member with rfl | below
    · exact .inr known
    · exact ih symbol below
  | nonTerminal known _ ih =>
    intro symbol member
    rcases List.mem_cons.mp member with rfl | below
    · exact .inr known
    · exact ih symbol below

end Grammar

section
variable {table : Table} {state : State} {plain : Plain}

/-- Symbols on the stack are declared, but for the empty word and the end marker. -/
theorem Shows.declared_of_mem (shows : Shows table state plain) :
    ∀ symbol ∈ state.stack, symbol = .epsilon ∨ symbol = .endMarker ∨ table.grammar.Declared symbol := by
  intro symbol onStack
  cases shows with
  | reading stacked => exact .inr (stacked.declared symbol onStack)
  | meeting stacked =>
    rcases List.mem_cons.mp onStack with same | below
    · exact .inl same
    · exact .inr (stacked.declared symbol below)
  | standingIn stacked _ => exact .inr (stacked.declared symbol onStack)

theorem Shows.declared_of_pending (shows : Shows table state plain) :
    ∀ symbol ∈ state.pending, table.grammar.Declared symbol := by
  intro symbol member
  simp only [State.pending, List.mem_filter, decide_eq_true_eq] at member
  obtain ⟨onStack, notEpsilon, notEnd⟩ := member
  exact ((shows.declared_of_mem symbol onStack).resolve_left notEpsilon).resolve_left notEnd

theorem Plain.Expects.pending_eq {form : List Symbol} (expects : plain.Expects form)
    (shows : Shows table state plain) : state.pending = eraseEpsilon form := by
  obtain ⟨onStack, clean⟩ := expects
  rw [State.pending, shows.stack_eq, onStack, List.filter_append, eraseEpsilon]
  have noMarker : [Symbol.endMarker].filter (fun symbol => symbol ≠ .epsilon ∧ symbol ≠ .endMarker) = [] := by simp
  rw [noMarker, List.append_nil]
  refine List.filter_congr fun symbol member => ?_
  have notEnd : symbol ≠ .endMarker := fun same => clean (same ▸ member)
  simp [notEnd]

theorem Shows.derives_of_after? (wellFormed : table.grammar.WellFormed) {start : String} {tokens : List String}
    {initial : State} (shows : Shows table initial (Plain.initial (.nonTerminal start) tokens)) {count : Nat}
    (reached : initial.after? table count = some state) :
    ∃ plain, Shows table state plain ∧ tokens = initial.matched table count ++ plain.tokens ∧
      table.grammar.Derives state.rules [.nonTerminal start]
        (terminalForm (initial.matched table count) ++ state.pending) := by
  obtain ⟨plain, reachedPlain, showsLater⟩ := shows.of_after? wellFormed reached
  obtain ⟨form, applied, read, expects, extended, split, derives⟩ :=
    (Plain.Expects.initial _ tokens).of_after? wellFormed reachedPlain
  have matched : tokens = initial.matched table count ++ plain.tokens := shows.tokens_eq reached showsLater
  have sameRead : read = initial.matched table count := List.append_cancel_right (split.symm.trans matched)
  have sameRules : state.rules = applied := by simpa [Plain.rules, Plain.initial, showsLater.rules_eq] using extended
  refine ⟨plain, showsLater, matched, ?_⟩
  rw [sameRules, expects.pending_eq showsLater, ← sameRead]
  exact derives

end

section
variable {g : Grammar} {table : Table}

/-- In every state of a run, the rules applied so far derive the tokens matched so far followed by the symbols
    that the stack expects. If all non-terminals derive some word, the tokens that a run matches within any
    number of steps are therefore the beginning of a word of the grammar. -/
theorem viable_prefix (built : g.Built) (made : Table.ofGrammar g = .ok table) (tokens : List String) :
    let initial := State.initial g.startSymbol (terminalForm tokens)
    (∀ count state, initial.after? table count = some state →
      (∃ rest, tokens = initial.matched table count ++ rest ∧ eraseEpsilon state.input = terminalForm rest) ∧
      g.Derives state.rules [g.startSymbol] (terminalForm (initial.matched table count) ++ state.pending)) ∧
    (g.Productive → ∀ steps, ∃ rest, g.Generates (initial.matched table steps ++ rest)) := by
  intro initial
  have wellFormed := built.wellFormed_of_ofGrammar made
  have shows := Shows.of_ofGrammar made tokens
  obtain rfl := Table.ofGrammar_eq_ok made
  refine ⟨fun count state reached => ?_, fun productive steps => ?_⟩
  · obtain ⟨plain, showsLater, matched, derives⟩ := shows.derives_of_after? wellFormed reached
    exact ⟨⟨plain.tokens, matched, showsLater.eraseEpsilon_input⟩, derives⟩
  · obtain ⟨count, last, reached, same, _⟩ := State.exists_last table steps initial
    obtain ⟨plain, showsLater, _, derives⟩ := shows.derives_of_after? wellFormed reached
    obtain ⟨word, completes⟩ := productive.exists_word showsLater.declared_of_pending
    refine ⟨word, built.wellFormed.generates_iff_yields.mpr ?_⟩
    rw [same, terminalForm_append]
    exact derives.yields.trans (Grammar.Yields.append .refl completes)

theorem expression_productive : Grammar.expression.Productive := by
  have words : ∀ name ∈ Grammar.expression.nonTerminals, ∃ rules word,
      Grammar.expression.Derives rules [.nonTerminal name] (terminalForm word) := by
    intro name declared
    have cases : name = "E" ∨ name = "E'" ∨ name = "T" ∨ name = "T'" ∨ name = "F" := by
      simpa [Grammar.expression] using declared
    rcases cases with rfl | rfl | rfl | rfl | rfl
    · exact ⟨[1, 5, 10, 8, 4], ["a"], rfl⟩
    · exact ⟨[4], [], rfl⟩
    · exact ⟨[5, 10, 8], ["a"], rfl⟩
    · exact ⟨[8], [], rfl⟩
    · exact ⟨[10], ["a"], rfl⟩
  intro name declared
  obtain ⟨rules, word, derives⟩ := words name declared
  exact ⟨word, derives.yields⟩

/-- In `(a))` the last token is rejected after the other three have been matched. -/
theorem viable_prefix_parentheses :
    let initial := State.initial Grammar.expression.startSymbol (terminalForm ["(", "a", ")", ")"])
    Grammar.expression.Built ∧ Table.ofGrammar .expression = .ok expressionTable ∧
    Grammar.expression.Productive ∧ initial.matched expressionTable 64 = ["(", "a", ")"] ∧
    (∀ count state, initial.after? expressionTable count = some state →
      (∃ rest, ["(", "a", ")", ")"] = initial.matched expressionTable count ++ rest ∧
        eraseEpsilon state.input = terminalForm rest) ∧
      Grammar.expression.Derives state.rules [Grammar.expression.startSymbol]
        (terminalForm (initial.matched expressionTable count) ++ state.pending)) ∧
    ∀ steps, ∃ rest, Grammar.expression.Generates (initial.matched expressionTable steps ++ rest) := by
  have holds := viable_prefix expression_built ofGrammar_expression ["(", "a", ")", ")"]
  exact ⟨expression_built, ofGrammar_expression, expression_productive, rfl, holds.1, holds.2 expression_productive⟩

end

end Predictive
