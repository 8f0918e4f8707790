import Predictive.Proofs.Lockstep
import Predictive.Proofs.Spelling

/-!
Whatever a translator accepts is a word of its grammar. Above the end marker, the stack of the plain machine
holds the form that is still expected (`Plain.Expects`). The rule of a step derives what the step reads and what
is expected after it from what was expected before it (`Plain.Expects.step`), and so do the rules of a run
(`Plain.Expects.of_after?`). An accepting run therefore ends with the rules of a leftmost derivation of all its
tokens, and by lockstep so does an accepting run of the stack machine (`accepted_translates`).
-/
namespace Predictive

namespace Plain

/-- The form is on the stack, above the end marker. -/
def Expects (plain : Plain) (form : List Symbol) : Prop := plain.stack = form ++ [.endMarker] ∧ .endMarker ∉ form

variable {table : Table} {plain next : Plain} {form : List Symbol}

theorem mem_productionsOf_of_choice? {name : String} {tokens : List String} {production : Production}
    (chosen : choice? table name tokens = some production) : production ∈ table.grammar.productionsOf name := by
  unfold choice? at chosen
  split at chosen
  · exact (Table.alternative?_eq_some chosen).1
  · split at chosen
    · exact (Table.alternative?_eq_some chosen).1
    · exact (Table.alternative?_eq_some chosen).1

theorem Expects.initial (start : String) (tokens : List String) :
    (initial (.nonTerminal start) tokens).Expects [.nonTerminal start] := ⟨rfl, by simp⟩

/-- Nothing is expected above an end marker on top. -/
theorem Expects.eq_nil (expects : plain.Expects form) (onTop : plain.stack.head? = some .endMarker) : form = [] := by
  obtain ⟨onStack, clean⟩ := expects
  cases form with
  | nil => rfl
  | cons top behind => simp_all

theorem Expects.of_right (wellFormed : table.grammar.WellFormed) {production : Production}
    (listed : production ∈ table.grammar.productions) {tokens : List String} {history : List Nat}
    (clean : .endMarker ∉ form) :
    Expects { tokens, stack := production.right ++ (form ++ [.endMarker]), history } (production.right ++ form) := by
  refine ⟨(List.append_assoc ..).symm, fun member => ?_⟩
  rcases List.mem_append.mp member with own | behind
  · exact absurd (wellFormed.right_declared listed own) (by simp [Grammar.Declared])
  · exact clean behind

/-- A step reads at most one token and applies at most one rule. The rule derives the token and what is
    expected after the step from what is expected before it. -/
theorem Expects.step (wellFormed : table.grammar.WellFormed) (expects : plain.Expects form)
    (moved : plain.step table = .moved next) :
    ∃ later applied read, next.Expects later ∧ next.rules = plain.rules ++ applied ∧
      plain.tokens = read ++ next.tokens ∧
      table.grammar.Derives applied (eraseEpsilon form) (terminalForm read ++ eraseEpsilon later) := by
  obtain ⟨onStack, clean⟩ := expects
  cases form with
  | nil => cases step_eq_moved.mp moved <;> cases onStack
  | cons top behind =>
    have cleanBehind : Symbol.endMarker ∉ behind := fun member => clean (List.mem_cons_of_mem top member)
    cases step_eq_moved.mp moved with
    | @terminal name rest below history =>
      cases onStack
      refine ⟨behind, [], [name], ⟨rfl, cleanBehind⟩, by simp [Plain.rules], rfl, Grammar.derives_nil.mpr ?_⟩
      rw [eraseEpsilon_cons (by simp)]
      rfl
    | epsilon =>
      cases onStack
      refine ⟨behind, [], [], ⟨rfl, cleanBehind⟩, by simp [Plain.rules], rfl, Grammar.derives_nil.mpr ?_⟩
      rw [eraseEpsilon_epsilon_cons]
      rfl
    | @expand name tokens below history production choice =>
      obtain ⟨listed, rfl⟩ := Grammar.mem_productionsOf.mp (mem_productionsOf_of_choice? choice)
      cases onStack
      refine ⟨production.right ++ behind, [production.id], [], .of_right wellFormed listed cleanBehind,
        by simp [Plain.rules], rfl, ?_⟩
      rw [eraseEpsilon_cons (by simp), eraseEpsilon_append]
      exact wellFormed.derives_expand listed (Grammar.derives_nil.mpr rfl)

/-- The rules that a run applies derive what it reads and still expects from what it expected at first. -/
theorem Expects.of_after? (wellFormed : table.grammar.WellFormed) (expects : plain.Expects form) {count : Nat}
    {reached : Plain} (after : plain.after? table count = some reached) :
    ∃ later applied read, reached.Expects later ∧ reached.rules = plain.rules ++ applied ∧
      plain.tokens = read ++ reached.tokens ∧
      table.grammar.Derives applied (eraseEpsilon form) (terminalForm read ++ eraseEpsilon later) := by
  induction count generalizing plain form with
  | zero =>
    cases after
    exact ⟨form, [], [], expects, by simp, rfl, Grammar.derives_nil.mpr rfl⟩
  | succ count ih =>
    unfold after? at after
    split at after
    · next next moved =>
      obtain ⟨middle, applied, read, expectsMiddle, extended, split, derives⟩ := expects.step wellFormed moved
      obtain ⟨later, more, others, expectsLater, extendedMore, splitMore, derivesMore⟩ := ih expectsMiddle after
      refine ⟨later, applied ++ more, read ++ others, expectsLater, ?_, ?_, ?_⟩
      · rw [extendedMore, extended, List.append_assoc]
      · rw [split, splitMore, List.append_assoc]
      · have whole := derives.trans (derivesMore.terminalForm_append read)
        simpa [terminalForm] using whole
    · contradiction

/-- An accepting run adds the rules by which the expected form spells the remaining tokens. -/
theorem Expects.spells_of_run? (wellFormed : table.grammar.WellFormed) (expects : plain.Expects form) {steps : Nat}
    {rules : List Nat} (accepts : plain.run? table steps = some (.accepted rules)) :
    ∃ applied, rules = plain.rules ++ applied ∧ table.grammar.Spells form applied plain.tokens := by
  obtain ⟨count, last, reached, halts⟩ := exists_halted accepts
  obtain ⟨noTokens, onTop, rfl⟩ := step_eq_accepted halts
  obtain ⟨later, applied, read, expectsLater, extended, split, derives⟩ := expects.of_after? wellFormed reached
  obtain rfl := expectsLater.eq_nil onTop
  have allRead : plain.tokens = read := by simpa [noTokens] using split
  refine ⟨applied, extended, wellFormed.derives_iff_spells.mp ?_⟩
  rw [allRead]
  simpa [eraseEpsilon] using derives

end Plain

section
variable {g : Grammar}

theorem Translator.ofGrammar_eq_ok {allowance : Nat} {translator : Translator}
    (made : Translator.ofGrammar g allowance = .ok translator) :
    ∃ table, Table.ofGrammar g = .ok table ∧ translator = { table, allowance } := by
  unfold Translator.ofGrammar at made
  cases found : Table.ofGrammar g with
  | error fault => simp [found, Except.map] at made
  | ok table => exact ⟨table, rfl, by simpa [found, Except.map, eq_comm] using made⟩

theorem Translator.translate_eq_ok {translator : Translator} {tokens : List String} {outcome : Outcome} :
    translator.translate tokens = .ok outcome ↔
      (translator.initial tokens).run? translator.table (translator.limit tokens) = some outcome := by
  unfold Translator.translate
  cases (translator.initial tokens).run? translator.table (translator.limit tokens) <;> simp

/-- The rules of an accepted translation are those of a leftmost derivation of all tokens from the start
    symbol, and all tokens are terminals of the grammar. -/
theorem accepted_translates (built : g.Built) {allowance : Nat} {translator : Translator}
    (made : Translator.ofGrammar g allowance = .ok translator) {tokens : List String} {rules : List Nat}
    (accepted : translator.translate tokens = .ok (.accepted rules)) :
    g.Translates rules tokens ∧ ∀ token ∈ tokens, token ∈ g.terminals := by
  obtain ⟨table, madeTable, rfl⟩ := Translator.ofGrammar_eq_ok made
  obtain rfl := Table.ofGrammar_eq_ok madeTable
  have wellFormed := built.wellFormed
  have run := Translator.translate_eq_ok.mp accepted
  have lockstep := (Shows.of_ofGrammar madeTable tokens).lockstep wellFormed
  have runPlain : (Plain.initial table.grammar.startSymbol tokens).run? table _ = some (.accepted rules) :=
    (lockstep _).2.symm.trans run
  obtain ⟨applied, rfl, spells⟩ := (Plain.Expects.initial _ tokens).spells_of_run? wellFormed runPlain
  refine ⟨wellFormed.translates_iff_spells.mpr spells, wellFormed.terminals_of_spells spells ?_⟩
  intro symbol member
  rw [List.mem_singleton.mp member]
  exact .inr table.grammar_usable.1

theorem accepted_translates_sum :
    Grammar.expression.Built ∧ Translator.ofGrammar .expression = .ok { table := expressionTable } ∧
    ({ table := expressionTable } : Translator).translate ["(", "a", "+", "a", ")"] =
      .ok (.accepted [1, 5, 9, 1, 5, 10, 8, 2, 5, 10, 8, 4, 8, 4]) ∧
    Grammar.expression.Translates [1, 5, 9, 1, 5, 10, 8, 2, 5, 10, 8, 4, 8, 4] ["(", "a", "+", "a", ")"] ∧
      ∀ token ∈ ["(", "a", "+", "a", ")"], token ∈ Grammar.expression.terminals := by
  have made : Translator.ofGrammar .expression = .ok { table := expressionTable } := rfl
  have accepted : ({ table := expressionTable } : Translator).translate ["(", "a", "+", "a", ")"] =
      .ok (.accepted [1, 5, 9, 1, 5, 10, 8, 2, 5, 10, 8, 4, 8, 4]) := rfl
  exact ⟨expression_built, made, accepted, accepted_translates expression_built made accepted⟩

end

end Predictive
