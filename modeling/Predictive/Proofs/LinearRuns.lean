import Mathlib.Data.Finset.Lattice.Fold
import Predictive.Proofs.Completeness
import Predictive.Proofs.LeftRecursion

/-!
Without left recursion, runs are linear in the number of tokens. The levels of the non-terminals bound how long a
symbol can stay on the stack of the plain machine: after so many steps it has vanished, or a token has been read and
only few symbols are left in its place (`Plain.GivesWay`, `Plain.givesWay_nonTerminal`). The stack that is emptied
behind the last token can be long, but each of its symbols was put there for a token that has been read; a run is
therefore paid for by the symbols on the stack and the tokens still to be read (`Plain.halts_of_givesWay`). So there
is an allowance that no list of tokens uses up (`halts_linearly`).
-/
namespace Predictive

namespace Plain

/-- Whatever rules were applied before, the run ends within so many steps. -/
def Halts (table : Table) (steps : Nat) (tokens : List String) (stack : List Symbol) : Prop :=
  ∀ history, ∃ used ≤ steps, ∃ outcome, run? table used { tokens, stack, history } = some outcome

/-- Within so many steps the form is gone from the top of the stack, unless the machine has halted: it has vanished,
    or a token has been read and at most so many symbols have come in its place. Both are said by what then is
    enough for the whole run to end. -/
def GivesWay (table : Table) (steps growth : Nat) (form : List Symbol) : Prop :=
  ∀ (count : Nat) (tokens : List String) (below : List Symbol),
    (table.grammar.Nullable (eraseEpsilon form) → Halts table count tokens below) →
    (∀ left rest, left.length ≤ growth → rest.length < tokens.length → Halts table count rest (left ++ below)) →
    Halts table (count + steps) tokens (form ++ below)

/-- The steps that a non-terminal below the given level can take to give way, where no production is longer than the
    width. -/
def stretch (width : Nat) : Nat → Nat
  | 0 => 1
  | level + 1 => width * stretch width level + 1

variable {table : Table} {tokens : List String} {stack form : List Symbol} {steps more growth wider width : Nat}
  {level : String → Nat}

theorem Halts.mono (halts : Halts table steps tokens stack) (within : steps ≤ more) :
    Halts table more tokens stack := by
  intro history
  obtain ⟨used, enough, ends⟩ := halts history
  exact ⟨used, enough.trans within, ends⟩

/-- A run ends one step after all that its first step can lead to. -/
theorem Halts.of_moves (next : ∀ plain history, Moves table { tokens, stack, history } plain →
    Halts table steps plain.tokens plain.stack) : Halts table (steps + 1) tokens stack := by
  intro history
  cases taken : step table { tokens, stack, history } with
  | moved plain =>
    obtain ⟨used, enough, outcome, ends⟩ := next plain history (step_eq_moved.mp taken) plain.history
    exact ⟨used + 1, by omega, outcome, by simpa [run?, taken] using ends⟩
  | halted outcome => exact ⟨1, by omega, outcome, by simp [run?, taken]⟩

theorem GivesWay.mono (givesWay : GivesWay table steps growth form) (longer : steps ≤ more)
    (larger : growth ≤ wider) : GivesWay table more wider form := by
  intro count tokens below vanished replaced
  have halts := givesWay count tokens below vanished fun left rest few => replaced left rest (few.trans larger)
  exact halts.mono (Nat.add_le_add_left longer count)

theorem givesWay_of_nonTerminal?_eq_none {symbol : Symbol} (none : symbol.nonTerminal? = none) :
    GivesWay table 1 0 [symbol] := by
  intro count tokens below vanished replaced
  refine .of_moves fun plain history moves => ?_
  cases moves with
  | terminal => exact replaced [] _ (Nat.le_refl 0) (by simp)
  | epsilon => exact vanished ⟨[], rfl⟩
  | expand => simp [Symbol.nonTerminal?] at none

theorem givesWay_symbol (positive : 1 ≤ steps) {symbol : Symbol}
    (nonTerminal : ∀ name, symbol = .nonTerminal name → GivesWay table steps growth [.nonTerminal name]) :
    GivesWay table steps growth [symbol] := by
  cases kind : symbol.nonTerminal? with
  | none => exact (givesWay_of_nonTerminal?_eq_none kind).mono positive (Nat.zero_le _)
  | some name =>
    obtain rfl := Symbol.nonTerminal?_eq_some.mp kind
    exact nonTerminal name rfl

theorem one_le_stretch {depth : Nat} : 1 ≤ stretch width depth := by
  cases depth <;> simp [stretch]

section
variable (wellFormed : table.grammar.WellFormed)
include wellFormed

/-- A form gives way symbol by symbol, as far as its first symbols vanish. -/
theorem givesWay_form (positive : 1 ≤ steps)
    (leading : ∀ name, table.grammar.Leading name form → GivesWay table steps growth [.nonTerminal name]) :
    GivesWay table (form.length * steps) (growth + (form.length - 1)) form := by
  induction form with
  | nil =>
    intro count tokens below vanished _
    exact (vanished ⟨[], rfl⟩).mono (Nat.le_add_right _ _)
  | cons symbol rest ih =>
    intro count tokens below vanished replaced
    have first : GivesWay table steps growth [symbol] :=
      givesWay_symbol positive fun name same => leading name (.inl same)
    have halts : Halts table (count + rest.length * steps + steps) tokens ([symbol] ++ (rest ++ below)) := by
      refine first _ _ _ (fun vanishes => ?_) fun left others few fewer => ?_
      · have behind := ih fun name leads => leading name (.inr ⟨vanishes, leads⟩)
        refine behind count tokens below (fun vanishesRest => ?_) fun left others few => ?_
        · exact vanished (wellFormed.nullable_cons.mpr ⟨vanishes, vanishesRest⟩)
        · exact replaced left others (by simp only [List.length_cons]; omega)
      · have remains := replaced (left ++ rest) others (by simp; omega) fewer
        rw [List.append_assoc] at remains
        exact remains.mono (Nat.le_add_right _ _)
    exact halts.mono (by simp [Nat.succ_mul, Nat.add_assoc])

/-- A non-terminal gives way one step after its productions. -/
theorem givesWay_expand {name : String}
    (right : ∀ production ∈ table.grammar.productionsOf name, GivesWay table steps growth production.right) :
    GivesWay table (steps + 1) growth [.nonTerminal name] := by
  intro count tokens below vanished replaced
  refine .of_moves fun plain history moves => ?_
  cases moves with
  | @expand _ _ _ _ production choice =>
    have own := mem_productionsOf_of_choice? choice
    obtain ⟨listed, rfl⟩ := Grammar.mem_productionsOf.mp own
    refine right production own count tokens below (fun vanishes => vanished ?_) replaced
    exact wellFormed.nullable_expand listed (by simpa using vanishes)

/-- By induction on the level: what a production begins with is below its non-terminal. -/
theorem givesWay_nonTerminal (levels : table.grammar.Levels level)
    (short : ∀ production ∈ table.grammar.productions, production.right.length ≤ width) {depth : Nat} {name : String}
    (below : ∀ production ∈ table.grammar.productionsOf name, level name < depth) :
    GivesWay table (stretch width depth) (depth * (width - 1)) [.nonTerminal name] := by
  induction depth generalizing name with
  | zero => exact givesWay_expand wellFormed fun production own => absurd (below production own) (Nat.not_lt_zero _)
  | succ depth ih =>
    refine givesWay_expand wellFormed fun production own => ?_
    have leading : ∀ next, table.grammar.Leading next production.right →
        GivesWay table (stretch width depth) (depth * (width - 1)) [.nonTerminal next] := by
      intro next leads
      have descends := levels name next ⟨production, own, leads⟩
      have atMost := below production own
      exact ih fun _ _ => by omega
    have fits := short production (Grammar.mem_productionsOf.mp own).1
    refine (givesWay_form wellFormed one_le_stretch leading).mono (Nat.mul_le_mul_right _ fits) ?_
    rw [Nat.succ_mul]
    omega

end

/-- Where every symbol gives way, a run is paid for by the symbols on the stack and by those that can come there for
    the tokens still to be read. -/
theorem halts_of_givesWay (givesWay : ∀ symbol, GivesWay table steps growth [symbol]) :
    Halts table (steps * (stack.length + growth * tokens.length) + 1) tokens stack := by
  induction length : tokens.length using Nat.strongRecOn generalizing tokens stack with
  | ind count ihTokens =>
    subst length
    induction stack with
    | nil => exact .of_moves fun plain history moves => nomatch moves
    | cons top below ihStack =>
      have halts := givesWay top _ tokens below (fun _ => ihStack) fun left rest few fewer => by
        have remains : Halts table (steps * ((left ++ below).length + growth * rest.length) + 1) rest (left ++ below) :=
          ihTokens rest.length fewer rfl
        have paid : growth * rest.length + growth ≤ growth * tokens.length := Nat.mul_le_mul_left growth fewer
        refine remains.mono (Nat.succ_le_succ (Nat.mul_le_mul_left steps ?_))
        rw [List.length_append]
        omega
      exact halts.mono (by simp only [List.length_cons, Nat.mul_add, Nat.mul_one]; omega)

/-- The steps for each token, and for the end of the input, that are enough where no production is longer than the
    width and no non-terminal is as high as the depth. -/
def sufficient (width depth : Nat) : Nat := stretch width depth * (depth * (width - 1) + 2) + 1

theorem halts_initial (wellFormed : table.grammar.WellFormed) (levels : table.grammar.Levels level)
    (short : ∀ production ∈ table.grammar.productions, production.right.length ≤ width) {depth : Nat}
    (shallow : ∀ production ∈ table.grammar.productions, level production.left < depth) (start : Symbol) :
    Halts table (sufficient width depth * (tokens.length + 1)) tokens [start, .endMarker] := by
  have givesWay : ∀ symbol, GivesWay table (stretch width depth) (depth * (width - 1)) [symbol] := by
    intro symbol
    refine givesWay_symbol one_le_stretch fun name _ => ?_
    refine givesWay_nonTerminal wellFormed levels short fun production own => ?_
    obtain ⟨listed, rfl⟩ := Grammar.mem_productionsOf.mp own
    exact shallow production listed
  refine (halts_of_givesWay givesWay).mono ?_
  have paid : 2 + depth * (width - 1) * tokens.length ≤ (depth * (width - 1) + 2) * (tokens.length + 1) := by
    simp only [Nat.add_mul, Nat.mul_add]
    omega
  calc stretch width depth * (2 + depth * (width - 1) * tokens.length) + 1
    _ ≤ stretch width depth * ((depth * (width - 1) + 2) * (tokens.length + 1)) + (tokens.length + 1) :=
      Nat.add_le_add (Nat.mul_le_mul_left _ paid) (Nat.le_add_left 1 _)
    _ = sufficient width depth * (tokens.length + 1) := by
      rw [sufficient, Nat.succ_mul (_ * _), Nat.mul_assoc (stretch _ _)]

end Plain

section
variable {g : Grammar} {table : Table} {tokens : List String}

/-- Steps that are enough for the plain machine are enough for the stack machine, and for a translator with such an
    allowance. -/
theorem Plain.Halts.translate (built : g.Built) (made : Table.ofGrammar g = .ok table) {bound : Nat}
    (halts : Plain.Halts table (bound * (tokens.length + 1)) tokens [g.startSymbol, .endMarker]) :
    ∃ outcome,
      (State.initial g.startSymbol (terminalForm tokens)).run? table (bound * (tokens.length + 1)) = some outcome ∧
      ∀ allowance, bound ≤ allowance → bound * (tokens.length + 1) < 2 ^ 64 →
        ({ table, allowance } : Translator).translate tokens = .ok outcome := by
  obtain ⟨used, enough, outcome, endsPlain⟩ := halts []
  have lockstep := ((Shows.of_ofGrammar made tokens).lockstep (built.wellFormed_of_ofGrammar made) used).2
  have ends := State.run?_mono (lockstep.trans endsPlain) enough
  refine ⟨outcome, ends, fun allowance allowed counted => Translator.translate_eq_ok.mpr ?_⟩
  obtain rfl := Table.ofGrammar_eq_ok made
  refine State.run?_mono ends (Nat.le_min.mpr ⟨Nat.mul_le_mul_right _ allowed, ?_⟩)
  exact Nat.le_sub_one_of_lt counted

/-- Without left recursion a number of steps for each token and for the end of the input is enough, whatever the
    tokens are and whether or not they are accepted. -/
theorem halts_linearly (built : g.Built) (made : Table.ofGrammar g = .ok table)
    (noRecursion : ∀ name ∈ g.nonTerminals, ¬ g.LeftRecursive name) :
    ∃ bound, ∀ tokens : List String, ∃ outcome,
      (State.initial g.startSymbol (terminalForm tokens)).run? table (bound * (tokens.length + 1)) = some outcome ∧
      ∀ allowance, bound ≤ allowance → bound * (tokens.length + 1) < 2 ^ 64 →
        ({ table, allowance } : Translator).translate tokens = .ok outcome := by
  obtain ⟨level, levels⟩ := built.wellFormed.exists_levels noRecursion
  obtain rfl := Table.ofGrammar_eq_ok made
  let width := table.grammar.productions.toFinset.sup fun production => production.right.length
  let height := table.grammar.productions.toFinset.sup fun production => level production.left
  have short : ∀ production ∈ table.grammar.productions, production.right.length ≤ width :=
    fun production listed => Finset.le_sup (f := fun other : Production => other.right.length) (by simpa using listed)
  have shallow : ∀ production ∈ table.grammar.productions, level production.left < height + 1 :=
    fun production listed => Nat.lt_succ_of_le
      (Finset.le_sup (f := fun other : Production => level other.left) (by simpa using listed))
  exact ⟨Plain.sufficient width (height + 1), fun tokens =>
    Plain.Halts.translate built made (Plain.halts_initial built.wellFormed levels short shallow _)⟩

theorem halts_linearly_expression :
    Grammar.expression.Built ∧ Table.ofGrammar .expression = .ok expressionTable ∧
    (∀ name ∈ Grammar.expression.nonTerminals, ¬ Grammar.expression.LeftRecursive name) ∧
    ∃ bound, ∀ tokens : List String, ∃ outcome,
      (State.initial Grammar.expression.startSymbol (terminalForm tokens)).run? expressionTable
        (bound * (tokens.length + 1)) = some outcome ∧
      ∀ allowance, bound ≤ allowance → bound * (tokens.length + 1) < 2 ^ 64 →
        ({ table := expressionTable, allowance } : Translator).translate tokens = .ok outcome := by
  have noRecursion : ∀ name ∈ Grammar.expression.nonTerminals, ¬ Grammar.expression.LeftRecursive name :=
    fun _ _ => expression_levels.not_leftRecursive expression_built.wellFormed
  exact ⟨expression_built, ofGrammar_expression, noRecursion,
    halts_linearly expression_built ofGrammar_expression noRecursion⟩

end

end Predictive
