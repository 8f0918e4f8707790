import Predictive.Proofs.LinearRuns

/-!
Translators that decide the language of their grammar. For an LL(1) grammar in which no non-terminal has two
alternatives that let it vanish by their heads, the machine accepts a word exactly with the rules of its leftmost
derivation (`run?_eq_accepted_iff`). If the grammar also has levels, and the allowance covers them, every list of
tokens is translated: to its only leftmost derivation if it is a word, and else to a rejection
(`Translator.decides_of_levels`). The two sample grammars are of this kind (`samples_decided`).
-/
namespace Predictive

section
variable {g : Grammar} {table : Table} {level : String → Nat} {width depth : Nat} {tokens : List String}

/-- The machine accepts with the rules of the leftmost derivation of the tokens, and only with these. -/
theorem run?_eq_accepted_iff (built : g.Built) (made : Table.ofGrammar g = .ok table) (ll1 : g.LL1)
    (once : table.VanishesOnce) {rules : List Nat} :
    (∃ steps, (State.initial g.startSymbol (terminalForm tokens)).run? table steps = some (.accepted rules)) ↔
      g.Translates rules tokens := by
  have wellFormed := built.wellFormed
  have lockstep := (Shows.of_ofGrammar made tokens).lockstep (built.wellFormed_of_ofGrammar made)
  obtain rfl := Table.ofGrammar_eq_ok made
  rw [wellFormed.translates_iff_spells]
  constructor
  · rintro ⟨steps, accepted⟩
    have acceptedPlain := (lockstep steps).2.symm.trans accepted
    obtain ⟨applied, same, spells⟩ := (Plain.Expects.initial _ tokens).spells_of_run? wellFormed acceptedPlain
    obtain rfl : rules = applied := same
    exact spells
  · intro spells
    obtain ⟨steps, accepted⟩ := Plain.run?_of_spells wellFormed ll1 once spells [] .refl []
    exact ⟨steps, (lockstep steps).2.trans accepted⟩

/-- The translation of the tokens succeeds. It is an acceptance exactly if they are a word of the grammar, and then
    its rules are those of their only leftmost derivation. -/
def Translator.Decides (translator : Translator) (g : Grammar) (tokens : List String) : Prop :=
  ∃ outcome, translator.translate tokens = .ok outcome ∧
    ((∃ rules, outcome = .accepted rules) ↔ g.Yields [g.startSymbol] (terminalForm tokens)) ∧
    ∀ rules, outcome = .accepted rules → ∀ others, g.Translates others tokens ↔ others = rules

theorem Translator.decides_of_levels (built : g.Built) (made : Table.ofGrammar g = .ok table) (ll1 : g.LL1)
    (once : table.VanishesOnce) (levels : g.Levels level)
    (short : ∀ production ∈ g.productions, production.right.length ≤ width)
    (shallow : ∀ production ∈ g.productions, level production.left < depth) {allowance : Nat}
    (allowed : Plain.sufficient width depth < allowance) (counted : allowance * (tokens.length + 1) ≤ 2 ^ 64) :
    ({ table, allowance } : Translator).Decides g tokens := by
  have halts : Plain.Halts table (Plain.sufficient width depth * (tokens.length + 1)) tokens
      [g.startSymbol, .endMarker] := by
    obtain rfl := Table.ofGrammar_eq_ok made
    exact Plain.halts_initial built.wellFormed levels short shallow _
  obtain ⟨outcome, ends, translates⟩ := halts.translate built made
  have below : Plain.sufficient width depth * (tokens.length + 1) < 2 ^ 64 :=
    (Nat.mul_lt_mul_of_pos_right allowed (Nat.succ_pos _)).trans_le counted
  have decided : ∀ rules, outcome = .accepted rules ↔ g.Translates rules tokens := by
    intro rules
    rw [← run?_eq_accepted_iff built made ll1 once]
    constructor
    · rintro rfl
      exact ⟨_, ends⟩
    · rintro ⟨steps, accepted⟩
      exact State.run?_unique ends accepted
  refine ⟨outcome, translates allowance allowed.le below, ?_, fun rules accepted others => ?_⟩
  · rw [← built.wellFormed.generates_iff_yields]
    exact exists_congr decided
  · rw [← decided, accepted, Outcome.accepted.injEq, eq_comm]

end

variable {tokens : List String}

/-! ### The sample grammars -/

/-- The declarations that build the grammar of assignments. -/
def assignmentEdits : List Edit := [
  .nonTerminals ["P", "O", "I", "E", "E'", "N", "A"],
  .terminals ["+", "-", "*", "/", "(", ")", "=", ";", identifierTerminal, numberTerminal],
  .production "P" ["O", ";", "P"] 1,
  .production "P" ["e"] 2,
  .production "O" ["I", "=", "E"] 3,
  .production "E" ["N", "E'"] 5,
  .production "E" ["I", "E'"] 6,
  .production "E" ["(", "E", ")", "E'"] 7,
  .production "E'" ["A", "E"] 8,
  .production "E'" ["e"] 9,
  .production "A" ["+"] 10,
  .production "A" ["-"] 11,
  .production "A" ["*"] 12,
  .production "A" ["/"] 13,
  .production "I" [identifierTerminal] 14,
  .production "N" [numberTerminal] 15]

theorem build_assignmentEdits : Grammar.build "P" assignmentEdits = .ok .assignment := by
  rfl

theorem assignment_built : Grammar.assignment.Built := .of_build build_assignmentEdits

/-- The table of the grammar of assignments. -/
def assignmentTable : Table where
  grammar := .assignment
  first := (FirstSets.searchAll .assignment {} Grammar.assignment.nonTerminals).toOption.getD {}
  first_eq := rfl

theorem ofGrammar_assignment : Table.ofGrammar .assignment = .ok assignmentTable := rfl

/-- What the non-terminals of the grammar of assignments begin with and are followed by. -/
def assignmentLookahead : Lookahead where
  vanishing := ["P", "E'"]
  begins
    | "E" => ["(", identifierTerminal, numberTerminal]
    | "E'" => ["+", "-", "*", "/"]
    | "A" => ["+", "-", "*", "/"]
    | "N" => [numberTerminal]
    | _ => [identifierTerminal]
  follows
    | "P" => []
    | "O" => [";"]
    | "I" => ["=", "+", "-", "*", "/", ")", ";"]
    | "N" => ["+", "-", "*", "/", ")", ";"]
    | "A" => ["(", identifierTerminal, numberTerminal]
    | _ => [")", ";"]

theorem assignment_certified : assignmentLookahead.Certifies .assignment := by decide

/-- Operands and operators are below expressions, and these are below the whole. -/
def assignmentLevel : String → Nat
  | "P" => 2
  | "O" => 1
  | "E" => 1
  | "E'" => 1
  | _ => 0

theorem assignment_levels : Grammar.assignment.Levels assignmentLevel := assignment_certified.1.levels (by decide)

theorem assignment_decides (few : tokens.length < 2 ^ 54) :
    ({ table := assignmentTable } : Translator).Decides .assignment tokens := by
  have short : ∀ production ∈ Grammar.assignment.productions, production.right.length ≤ 4 := by decide
  have shallow : ∀ production ∈ Grammar.assignment.productions, assignmentLevel production.left < 3 := by decide
  exact Translator.decides_of_levels assignment_built ofGrammar_assignment assignment_certified.ll1 (by decide)
    assignment_levels short shallow (by decide) (by omega)

theorem expression_decides (few : tokens.length < 2 ^ 54) :
    ({ table := expressionTable } : Translator).Decides .expression tokens := by
  have short : ∀ production ∈ Grammar.expression.productions, production.right.length ≤ 3 := by decide
  have shallow : ∀ production ∈ Grammar.expression.productions, expressionLevel production.left < 3 := by decide
  exact Translator.decides_of_levels expression_built ofGrammar_expression expression_ll1 (by decide)
    expression_levels short shallow (by decide) (by omega)

/-- With the usual allowance, assignments and expressions of less than 2 ^ 54 tokens are decided. -/
theorem samples_decided : ∀ g ∈ [Grammar.assignment, Grammar.expression],
    ∃ translator, Translator.ofGrammar g = .ok translator ∧
      ∀ tokens : List String, tokens.length < 2 ^ 54 → ∃ outcome, translator.translate tokens = .ok outcome ∧
        ((∃ rules, outcome = .accepted rules) ↔ g.Yields [g.startSymbol] (terminalForm tokens)) ∧
        ∀ rules, outcome = .accepted rules → ∀ others, g.Translates others tokens ↔ others = rules := by
  intro g sample
  rcases List.mem_pair.mp sample with rfl | rfl
  · exact ⟨_, rfl, fun _ few => assignment_decides few⟩
  · exact ⟨_, rfl, fun _ few => expression_decides few⟩

theorem samples_decided_assignments :
    Grammar.assignment ∈ [Grammar.assignment, Grammar.expression] ∧
    Translator.ofGrammar .assignment = .ok { table := assignmentTable } ∧
    ["id", "=", "num", "+", "num", ";"].length < 2 ^ 54 ∧
    ∃ outcome, ({ table := assignmentTable } : Translator).translate ["id", "=", "num", "+", "num", ";"] =
        .ok outcome ∧
      ((∃ rules, outcome = .accepted rules) ↔
        Grammar.assignment.Yields [Grammar.assignment.startSymbol]
          (terminalForm ["id", "=", "num", "+", "num", ";"])) ∧
      ∀ rules, outcome = .accepted rules →
        ∀ others, Grammar.assignment.Translates others ["id", "=", "num", "+", "num", ";"] ↔ others = rules := by
  have sample : Grammar.assignment ∈ [Grammar.assignment, Grammar.expression] := .head _
  have few : ["id", "=", "num", "+", "num", ";"].length < 2 ^ 54 := by decide
  obtain ⟨translator, made, decides⟩ := samples_decided _ sample
  obtain rfl : { table := assignmentTable } = translator := Except.ok.inj made
  exact ⟨sample, made, few, decides _ few⟩

end Predictive
