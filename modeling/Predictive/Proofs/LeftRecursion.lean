import Mathlib.Data.Finset.Card
import Predictive.Proofs.LL1

/-!
Left recursion, also behind symbols that vanish. A non-terminal is left-recursive if a form derived from it begins
with it again. This is so exactly if one comes back to it by going from a non-terminal to those that stand in its
productions behind nothing but vanishing symbols (`Grammar.WellFormed.leftRecursive_iff`). In a grammar without
left recursion every non-terminal therefore has a level above all that it can begin with
(`Grammar.WellFormed.exists_levels`); levels of a concrete grammar can be checked by means of claims about what
vanishes (`Lookahead.Closed.levels`).
-/
namespace Predictive

namespace Grammar

/-- Some form that is derived from the non-terminal begins with it again. -/
def LeftRecursive (g : Grammar) (name : String) : Prop :=
  ∃ rest, Relation.TransGen g.Rewrites [.nonTerminal name] (.nonTerminal name :: rest)

/-- The non-terminal stands in the form behind nothing but symbols that vanish. -/
def Leading (g : Grammar) (name : String) : List Symbol → Prop
  | [] => False
  | symbol :: rest => symbol = .nonTerminal name ∨ g.Nullable (eraseEpsilon [symbol]) ∧ g.Leading name rest

/-- The second non-terminal can be the first one of a production of the first. -/
def LeftEdge (g : Grammar) (name next : String) : Prop :=
  ∃ production ∈ g.productionsOf name, g.Leading next production.right

/-- Every non-terminal has a level above all that it can begin with. -/
def Levels (g : Grammar) (level : String → Nat) : Prop :=
  ∀ name next, g.LeftEdge name next → level next < level name

variable {g : Grammar} {front back form next : List Symbol} {name other : String} {level : String → Nat}

theorem exists_production_of_rewrites (rewrites : g.Rewrites [.nonTerminal name] next) :
    ∃ production ∈ g.productionsOf name, next = eraseEpsilon production.right := by
  generalize whole : [Symbol.nonTerminal name] = form at rewrites
  cases rewrites with
  | @expand production before behind listed =>
    cases before with
    | nil =>
      obtain ⟨same, rfl⟩ := List.cons.inj whole
      obtain rfl := Symbol.nonTerminal.inj same
      exact ⟨production, mem_productionsOf.mpr ⟨listed, rfl⟩, by simp⟩
    | cons symbol rest => simp at whole

theorem mem_of_leading (leading : g.Leading name form) : .nonTerminal name ∈ form := by
  induction form with
  | nil => exact absurd leading id
  | cons symbol rest ih =>
    rcases leading with same | ⟨_, later⟩
    · simp [same]
    · exact List.mem_cons_of_mem _ (ih later)

theorem leading_eraseEpsilon : g.Leading name (eraseEpsilon form) ↔ g.Leading name form := by
  induction form with
  | nil => rfl
  | cons symbol rest ih =>
    by_cases empty : symbol = .epsilon
    · subst empty
      have nothing : g.Nullable (eraseEpsilon [.epsilon]) := ⟨[], rfl⟩
      rw [eraseEpsilon_epsilon_cons, ih, Leading]
      simp [nothing]
    · rw [eraseEpsilon_cons empty, Leading, Leading, ih]

namespace WellFormed

variable (wellFormed : g.WellFormed)
include wellFormed

theorem nullable_iff_spells : g.Nullable (eraseEpsilon form) ↔ ∃ rules, g.Spells form rules [] := by
  simp only [Nullable, ← wellFormed.derives_iff_spells]
  rfl

theorem nullable_append : g.Nullable (eraseEpsilon (front ++ back)) ↔
    g.Nullable (eraseEpsilon front) ∧ g.Nullable (eraseEpsilon back) := by
  rw [wellFormed.nullable_iff_spells, wellFormed.nullable_iff_spells, wellFormed.nullable_iff_spells]
  constructor
  · rintro ⟨rules, spells⟩
    obtain ⟨first, second, begins, ends, rfl, none, spellsFront, spellsBack⟩ := spells.split
    obtain ⟨rfl, rfl⟩ := List.append_eq_nil_iff.mp none.symm
    exact ⟨⟨first, spellsFront⟩, second, spellsBack⟩
  · rintro ⟨⟨first, spellsFront⟩, second, spellsBack⟩
    exact ⟨first ++ second, spellsFront.append spellsBack⟩

theorem nullable_cons {symbol : Symbol} : g.Nullable (eraseEpsilon (symbol :: form)) ↔
    g.Nullable (eraseEpsilon [symbol]) ∧ g.Nullable (eraseEpsilon form) := by
  rw [← List.singleton_append, wellFormed.nullable_append]

/-- What is leading in two forms in a row is leading in the first one, or in the second one behind nothing. -/
theorem leading_append : g.Leading name (front ++ back) ↔
    g.Leading name front ∨ g.Nullable (eraseEpsilon front) ∧ g.Leading name back := by
  induction front with
  | nil =>
    have nothing : g.Nullable (eraseEpsilon []) := ⟨[], rfl⟩
    simp [Leading, nothing]
  | cons symbol rest ih =>
    have both : g.Nullable (eraseEpsilon (symbol :: rest)) ↔
        g.Nullable (eraseEpsilon [symbol]) ∧ g.Nullable (eraseEpsilon rest) := wellFormed.nullable_cons
    rw [List.cons_append, Leading, Leading, ih, both]
    tauto

/-- What is leading in a form after an expansion was leading before, or it is leading in the production that
    expands a leading non-terminal. -/
theorem leading_of_rewrites (rewrites : g.Rewrites form next) (leading : g.Leading name next) :
    g.Leading name form ∨ ∃ middle, g.Leading middle form ∧ g.LeftEdge middle name := by
  cases rewrites with
  | @expand production before behind listed =>
    rw [List.append_assoc, wellFormed.leading_append, wellFormed.leading_append, leading_eraseEpsilon,
      eraseEpsilon_eraseEpsilon] at leading
    rcases leading with inFront | ⟨vanishesFront, inRight | ⟨vanishesRight, inBack⟩⟩
    · exact .inl (wellFormed.leading_append.mpr (.inl inFront))
    · have leadingLeft : g.Leading production.left (before ++ .nonTerminal production.left :: behind) :=
        wellFormed.leading_append.mpr (.inr ⟨vanishesFront, .inl rfl⟩)
      exact .inr ⟨production.left, leadingLeft, production, mem_productionsOf.mpr ⟨listed, rfl⟩, inRight⟩
    · have vanishesLeft : g.Nullable (eraseEpsilon [.nonTerminal production.left]) :=
        wellFormed.nullable_expand listed (by simpa using vanishesRight)
      exact .inl (wellFormed.leading_append.mpr (.inr ⟨vanishesFront, .inr ⟨vanishesLeft, inBack⟩⟩))

theorem leading_of_yields (yields : g.Yields form next) (leading : g.Leading name next) :
    ∃ first, g.Leading first form ∧ Relation.ReflTransGen g.LeftEdge first name := by
  induction yields generalizing name with
  | refl => exact ⟨name, leading, .refl⟩
  | tail _ rewrites ih =>
    rcases wellFormed.leading_of_rewrites rewrites leading with before | ⟨middle, before, edge⟩
    · exact ih before
    · obtain ⟨first, atFirst, edges⟩ := ih before
      exact ⟨first, atFirst, edges.tail edge⟩

theorem yields_of_leading (leading : g.Leading name form) :
    ∃ rest, g.Yields (eraseEpsilon form) (.nonTerminal name :: rest) := by
  induction form with
  | nil => exact absurd leading id
  | cons symbol rest ih =>
    rcases leading with rfl | ⟨vanishes, later⟩
    · rw [eraseEpsilon_cons (by simp)]
      exact ⟨_, .refl⟩
    · obtain ⟨behind, yields⟩ := ih later
      have whole := Yields.append (wellFormed.nullable_iff_yields.mp vanishes) yields
      rw [← eraseEpsilon_append] at whole
      exact ⟨behind, whole⟩

theorem rewrites_of_leftEdge (edge : g.LeftEdge name other) :
    ∃ rest, Relation.TransGen g.Rewrites [.nonTerminal name] (.nonTerminal other :: rest) := by
  obtain ⟨production, listed, leading⟩ := edge
  obtain ⟨member, rfl⟩ := mem_productionsOf.mp listed
  obtain ⟨rest, yields⟩ := wellFormed.yields_of_leading leading
  have first : g.Rewrites [.nonTerminal production.left] (eraseEpsilon production.right) := by
    simpa using Rewrites.expand [] [] member
  exact ⟨rest, .head' first yields⟩

theorem rewrites_of_leftEdges (edges : Relation.TransGen g.LeftEdge name other) :
    ∃ rest, Relation.TransGen g.Rewrites [.nonTerminal name] (.nonTerminal other :: rest) := by
  induction edges with
  | single edge => exact wellFormed.rewrites_of_leftEdge edge
  | tail _ edge ih =>
    obtain ⟨behind, begins⟩ := ih
    obtain ⟨rest, ends⟩ := wellFormed.rewrites_of_leftEdge edge
    have inContext := ends.lift (· ++ behind) fun _ _ rewrites => rewrites.context [] behind
    exact ⟨rest ++ behind, begins.trans inContext⟩

/-- A non-terminal is left-recursive exactly if a cycle of left edges goes through it. -/
theorem leftRecursive_iff : g.LeftRecursive name ↔ Relation.TransGen g.LeftEdge name name := by
  constructor
  · rintro ⟨rest, rewrites⟩
    obtain ⟨middle, first, yields⟩ := Relation.TransGen.head'_iff.mp rewrites
    obtain ⟨production, listed, rfl⟩ := exists_production_of_rewrites first
    obtain ⟨next, leading, edges⟩ := wellFormed.leading_of_yields yields (.inl rfl)
    exact .head' ⟨production, listed, leading_eraseEpsilon.mp leading⟩ edges
  · exact wellFormed.rewrites_of_leftEdges

end WellFormed

theorem Levels.lt_of_leftEdges (levels : g.Levels level) (edges : Relation.TransGen g.LeftEdge name other) :
    level other < level name := by
  induction edges with
  | single edge => exact levels _ _ edge
  | tail _ edge ih => exact (levels _ _ edge).trans ih

theorem Levels.not_leftRecursive (levels : g.Levels level) (wellFormed : g.WellFormed) : ¬ g.LeftRecursive name :=
  fun recursive => Nat.lt_irrefl _ (levels.lt_of_leftEdges (wellFormed.leftRecursive_iff.mp recursive))

open Classical in
/-- Without left recursion, the number of non-terminals that one can come to by left edges is a level. -/
theorem WellFormed.exists_levels (wellFormed : g.WellFormed)
    (noRecursion : ∀ name ∈ g.nonTerminals, ¬ g.LeftRecursive name) : ∃ level, g.Levels level := by
  refine ⟨fun name => (g.nonTerminals.toFinset.filter (Relation.TransGen g.LeftEdge name)).card, ?_⟩
  intro name next edge
  have declared : next ∈ g.nonTerminals := by
    obtain ⟨production, listed, leading⟩ := edge
    exact (wellFormed.right_declared (mem_productionsOf.mp listed).1 (mem_of_leading leading)).resolve_left (by simp)
  refine Finset.card_lt_card ⟨fun other member => ?_, fun all => ?_⟩
  · obtain ⟨inside, edges⟩ := Finset.mem_filter.mp member
    exact Finset.mem_filter.mpr ⟨inside, .head edge edges⟩
  · have member := all (Finset.mem_filter.mpr ⟨List.mem_toFinset.mpr declared, .single edge⟩)
    exact noRecursion next declared (wellFormed.leftRecursive_iff.mpr (Finset.mem_filter.mp member).2)

end Grammar

namespace Lookahead

/-- The non-terminals that may come first in a form, behind nothing but symbols that may vanish. -/
def leading (claims : Lookahead) : List Symbol → List String
  | [] => []
  | symbol :: rest => symbol.nonTerminal?.toList ++ if claims.MayVanish symbol then claims.leading rest else []

variable {claims : Lookahead} {g : Grammar} {level : String → Nat}

theorem Closed.mem_leading (closed : claims.Closed g) {name : String} {form : List Symbol}
    (leads : g.Leading name form) : name ∈ claims.leading form := by
  induction form with
  | nil => exact absurd leads id
  | cons symbol rest ih =>
    rcases leads with rfl | ⟨vanishes, later⟩
    · simp [leading, Symbol.nonTerminal?]
    · have mayVanish : claims.MayVanish symbol :=
        (eraseEpsilon_claims [symbol]).1.mp (closed.vanishes vanishes) symbol (by simp)
      simp [leading, mayVanish, ih later]

/-- Levels that descend from each production to the non-terminals that it is claimed to begin with. -/
theorem Closed.levels (closed : claims.Closed g)
    (descend : ∀ production ∈ g.productions, ∀ next ∈ claims.leading production.right,
      level next < level production.left) : g.Levels level := by
  rintro name next ⟨production, listed, leads⟩
  obtain ⟨member, rfl⟩ := Grammar.mem_productionsOf.mp listed
  exact descend production member next (closed.mem_leading leads)

end Lookahead

/-- Operands are below products and products below sums. -/
def expressionLevel : String → Nat
  | "T" => 1
  | "E" => 2
  | _ => 0

theorem expression_levels : Grammar.expression.Levels expressionLevel := by
  have certified : expressionLookahead.Certifies .expression := by decide
  exact certified.1.levels (by decide)

end Predictive
