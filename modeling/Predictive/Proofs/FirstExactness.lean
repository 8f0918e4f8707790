import Predictive.Proofs.EmptyInput
import Predictive.Proofs.FirstMeaning
import Predictive.Proofs.LeastSets

/-!
When FIRST sets by heads are the real ones. Heads tell all about what a non-terminal begins with, unless one of them
vanishes while something is left behind it. Where the sets say that this cannot happen (`Grammar.HeadsStay`), it
happens in no derivation either: a form whose head may vanish has nothing behind its head (`FirstSets.Steady`), and so
has every form that a leftmost derivation makes of it (`Table.steady_expand`). The first terminal of such a derivation
then comes from head to head (`Table.leads_of_derives`), and a chain of heads to the empty word is itself a derivation
of it (`Table.nullable_of_headChain`).
-/
namespace Predictive

/-- No production of two or more symbols begins with a non-terminal that has the empty word in its set. -/
def Grammar.HeadsStay (g : Grammar) (first : FirstSets) : Prop :=
  ∀ production ∈ g.productions, 2 ≤ production.right.length →
    ∀ name ∈ production.head?.bind Symbol.nonTerminal?, ¬ first.Contains name .epsilon

instance (g : Grammar) (first : FirstSets) : Decidable (g.HeadsStay first) :=
  inferInstanceAs (Decidable (∀ production ∈ g.productions, 2 ≤ production.right.length →
    ∀ name ∈ production.head?.bind Symbol.nonTerminal?, ¬ first.Contains name .epsilon))

/-- If the head of the form may be empty, by the given sets, then there is nothing behind it. -/
def FirstSets.Steady (first : FirstSets) : (form : List Symbol) → Prop
  | [] => True
  | head :: rest => first.Leads .epsilon head → rest = []

namespace Table

variable {table : Table} (wellFormed : table.grammar.WellFormed)
include wellFormed

/-! ### The empty word -/

/-- A form that vanishes vanishes with its head. -/
theorem contains_epsilon_of_yields {name : String} (yields : table.grammar.Yields [.nonTerminal name] []) :
    table.first.Contains name .epsilon := by
  have nothing : table.grammar.Yields [.nonTerminal name] (terminalForm []) := yields
  obtain ⟨rules, spells⟩ := nothing.spells
  cases spells with
  | @expand production _ rules _ listed spells =>
    obtain ⟨symbol, opens, rfl | ⟨_, impossible, _⟩⟩ := opens_of_spells wellFormed listed spells
    · exact contains_left wellFormed listed opens
    · cases impossible

/-- A production with a head that may be empty is this head alone. -/
theorem right_eq_of_leads_epsilon (stay : table.grammar.HeadsStay table.first) {production : Production}
    (listed : production ∈ table.grammar.productions) {head : Symbol} (isHead : production.head? = some head)
    (empty : table.first.Leads .epsilon head) : production.right = [head] := by
  obtain ⟨rest, split⟩ := List.head?_eq_some_iff.mp isHead
  suffices nothing : rest = [] by rw [split, nothing]
  by_contra more
  have long : 2 ≤ production.right.length := by
    have behind : 0 < rest.length := List.length_pos_of_ne_nil more
    rw [split, List.length_cons]
    omega
  cases head with
  | nonTerminal name => exact stay production listed long name (by simp [isHead, Symbol.nonTerminal?]) empty
  | epsilon =>
    rcases wellFormed.right_proper production listed with alone | ⟨_, declared⟩
    · rw [alone] at long
      contradiction
    · exact declared .epsilon (by simp [split])
  | terminal _ => cases empty
  | endMarker => cases empty

/-- If the head of a production vanishes, then so does the non-terminal. -/
theorem nullable_of_head (stay : table.grammar.HeadsStay table.first) {production : Production}
    (listed : production ∈ table.grammar.productions) {head : Symbol} (isHead : production.head? = some head)
    (empty : table.first.Leads .epsilon head) (vanishes : table.grammar.Nullable (eraseEpsilon [head])) :
    table.grammar.Nullable [.nonTerminal production.left] := by
  have alone := right_eq_of_leads_epsilon wellFormed stay listed isHead empty
  refine wellFormed.nullable_expand listed ?_
  rwa [alone, List.append_nil]

theorem nullable_of_headChain (stay : table.grammar.HeadsStay table.first) {name : String} {chain : List Production}
    (leads : table.grammar.HeadChain name chain .epsilon) : table.grammar.Nullable [.nonTerminal name] := by
  generalize isEmpty : Symbol.epsilon = symbol at leads
  induction leads with
  | @single name production symbol listed isHead =>
    subst isEmpty
    obtain ⟨member, rfl⟩ := Grammar.mem_productionsOf.mp listed
    exact nullable_of_head wellFormed stay member isHead rfl ⟨[], rfl⟩
  | @cons name next production chain symbol listed isHead behind ih =>
    subst isEmpty
    obtain ⟨member, rfl⟩ := Grammar.mem_productionsOf.mp listed
    have contained : table.first.Contains next .epsilon := (table.solves wellFormed).of_headChain rfl behind
    exact nullable_of_head wellFormed stay member isHead contained (ih rfl)

/-! ### The first terminal -/

/-- The head of a steady form is expanded to nothing, and was all of the form, or the head of the production takes its
    place, in a form that is steady again. -/
theorem steady_expand (stay : table.grammar.HeadsStay table.first) {production : Production}
    (listed : production ∈ table.grammar.productions) {rest : List Symbol}
    (steady : table.first.Steady (.nonTerminal production.left :: rest)) :
    eraseEpsilon production.right ++ rest = [] ∨
      ∃ head behind, production.head? = some head ∧ eraseEpsilon production.right ++ rest = head :: behind ∧
        table.first.Steady (head :: behind) := by
  obtain ⟨head, behind, isHead, split⟩ := wellFormed.exists_head listed
  have nothingBehind : table.first.Leads .epsilon head → eraseEpsilon behind ++ rest = [] := by
    intro empty
    have alone := right_eq_of_leads_epsilon wellFormed stay listed isHead empty
    obtain rfl : behind = [] := List.tail_eq_of_cons_eq (split.symm.trans alone)
    exact steady (contains_left wellFormed listed ⟨head, isHead, empty⟩)
  by_cases empty : head = .epsilon
  · subst empty
    rw [split, eraseEpsilon_epsilon_cons]
    exact .inl (nothingBehind rfl)
  · refine .inr ⟨head, eraseEpsilon behind ++ rest, isHead, ?_, nothingBehind⟩
    rw [split, eraseEpsilon_cons empty, List.cons_append]

/-- The first terminal of what a steady form derives comes from its head. -/
theorem leads_of_derives (stay : table.grammar.HeadsStay table.first) {head : Symbol} {rest target : List Symbol}
    {rules : List Nat} {terminal : String} (steady : table.first.Steady (head :: rest))
    (derives : table.grammar.Derives rules (head :: rest) (.terminal terminal :: target)) :
    table.first.Leads (.terminal terminal) head := by
  induction rules generalizing head rest with
  | nil =>
    cases Grammar.derives_nil.mp derives
    rfl
  | cons id more ih =>
    cases kind : head.nonTerminal? with
    | none =>
      obtain ⟨_, same, _⟩ := (Grammar.derives_fixed_cons kind).mp derives
      cases same
      rfl
    | some name =>
      obtain rfl := Symbol.nonTerminal?_eq_some.mp kind
      rcases Grammar.derives_nonTerminal_cons.mp derives with
        ⟨impossible, _⟩ | ⟨production, _, found, rfl, same, later⟩
      · cases impossible
      cases same
      have listed := (Grammar.rule?_eq_some found).1
      rcases steady_expand wellFormed stay listed steady with nothing | ⟨next, behind, isHead, form, steadyNext⟩
      · rw [nothing] at later
        cases Grammar.Derives.eq_nil later
      · rw [form] at later
        exact contains_left wellFormed listed ⟨next, isHead, ih steadyNext later⟩

end Table

/-- A derivation begins with each terminal that a set holds, and no set lacks the empty word where its non-terminal
    derives it. If the heads of longer productions do not have it, the sets hold all terminals that derivations begin
    with, and the empty word exactly where it is derived. -/
theorem firstSets_exact {g : Grammar} {first : FirstSets} (built : g.Built) (computed : g.firstSets = .ok first) :
    (∀ name terminal, first.Contains name (.terminal terminal) →
      ∃ rest, g.Yields [.nonTerminal name] (.terminal terminal :: rest)) ∧
    (∀ name, g.Yields [.nonTerminal name] [] → first.Contains name .epsilon) ∧
    (g.HeadsStay first →
      (∀ name terminal rest, g.Yields [.nonTerminal name] (.terminal terminal :: rest) →
        first.Contains name (.terminal terminal)) ∧
      ∀ name, first.Contains name .epsilon ↔ g.Yields [.nonTerminal name] []) := by
  have wellFormed := built.wellFormed
  let table : Table := ⟨g, first, computed⟩
  have complete : ∀ name, g.Yields [.nonTerminal name] [] → first.Contains name .epsilon :=
    fun _ => table.contains_epsilon_of_yields wellFormed
  refine ⟨fun name terminal contained => ?_, complete, fun stay => ⟨?_, fun name => ?_⟩⟩
  · exact wellFormed.beginsWith_iff_yields.mp (table.beginsWith_of_contains wellFormed contained)
  · intro name terminal rest yields
    obtain ⟨rules, target, derives⟩ := wellFormed.beginsWith_iff_yields.mpr ⟨rest, yields⟩
    exact table.leads_of_derives wellFormed stay (fun _ => rfl) derives
  · refine ⟨fun contained => ?_, complete name⟩
    obtain ⟨_, chain, leads⟩ := (table.layered wellFormed).exists_headChain contained
    obtain ⟨rules, derives⟩ := table.nullable_of_headChain wellFormed stay leads
    exact derives.yields

theorem firstSets_exact_expression :
    Grammar.expression.Built ∧ Grammar.expression.firstSets = .ok expressionTable.first ∧
    Grammar.expression.HeadsStay expressionTable.first ∧
    (∃ rest, Grammar.expression.Yields [.nonTerminal "E"] (.terminal "(" :: rest)) ∧
    (Grammar.expression.Yields [.nonTerminal "E'"] [] ∧ expressionTable.first.Contains "E'" .epsilon) ∧
    (∀ terminal rest, Grammar.expression.Yields [.nonTerminal "T'"] (.terminal terminal :: rest) →
      expressionTable.first.Contains "T'" (.terminal terminal)) ∧
    (expressionTable.first.Contains "F" .epsilon ↔ Grammar.expression.Yields [.nonTerminal "F"] []) := by
  have stay : Grammar.expression.HeadsStay expressionTable.first := by decide
  obtain ⟨begins, complete, sharp⟩ := firstSets_exact expression_built expressionTable.first_eq
  obtain ⟨terminals, empty⟩ := sharp stay
  have vanishes : Grammar.expression.Yields [.nonTerminal "E'"] [] := (empty "E'").mp (by decide)
  exact ⟨expression_built, expressionTable.first_eq, stay, begins "E" "(" (by decide),
    ⟨vanishes, complete "E'" vanishes⟩, terminals "T'", empty "F"⟩

-- A terminal behind a head that vanishes is missed, although the start symbol derives it.
example : ¬ Grammar.shadowed.HeadsStay shadowedTable.first ∧ ¬ shadowedTable.first.Contains "S" (.terminal "b") := by
  decide

end Predictive
