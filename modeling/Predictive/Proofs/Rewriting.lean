import Mathlib.Logic.Relation
import Predictive.Proofs.Spelling

/-!
Derivations in any order. The textbook notions of a derivation expand any non-terminal of a form, not only the
leftmost one. Every leftmost derivation is such a derivation (`Derives.yields`), and the order makes no
difference where it does not show: to the words of a form (`generates_iff_yields`), to whether a form can
vanish (`nullable_iff_yields`), and to the terminals it can begin with (`beginsWith_iff_yields`). Each of these
holds because an expansion anywhere in a form can be put off until the leftmost derivation comes to it.
-/
namespace Predictive.Grammar

/-- Some non-terminal of the form is expanded by a production. -/
inductive Rewrites (g : Grammar) : List Symbol → List Symbol → Prop where
  | expand {production : Production} (before behind : List Symbol) : production ∈ g.productions →
    Rewrites g (before ++ .nonTerminal production.left :: behind) (before ++ eraseEpsilon production.right ++ behind)

/-- Expansions lead from one form to another. -/
def Yields (g : Grammar) : List Symbol → List Symbol → Prop := Relation.ReflTransGen g.Rewrites

variable {g : Grammar} {form next source target front back : List Symbol} {rules : List Nat} {tokens : List String}

theorem Rewrites.context (rewrites : g.Rewrites form next) (before behind : List Symbol) :
    g.Rewrites (before ++ form ++ behind) (before ++ next ++ behind) := by
  cases rewrites with
  | expand inner outer listed =>
    have wider := Rewrites.expand (before ++ inner) (outer ++ behind) listed
    simpa only [List.append_assoc, List.cons_append] using wider

theorem Yields.context (yields : g.Yields source target) (before behind : List Symbol) :
    g.Yields (before ++ source ++ behind) (before ++ target ++ behind) := by
  induction yields with
  | refl => exact .refl
  | tail _ rewrites ih => exact ih.tail (rewrites.context before behind)

theorem Yields.trans (begins : g.Yields source form) (ends : g.Yields form target) : g.Yields source target :=
  Relation.ReflTransGen.trans begins ends

theorem Yields.append {rest : List Symbol} (begins : g.Yields front target)
    (ends : g.Yields back rest) : g.Yields (front ++ back) (target ++ rest) := by
  have first := begins.context [] back
  have second := ends.context target []
  simp only [List.nil_append, List.append_nil] at first second
  exact first.trans second

theorem Yields.expand {production : Production} (listed : production ∈ g.productions) {before behind : List Symbol}
    (yields : g.Yields source (before ++ .nonTerminal production.left :: behind)) :
    g.Yields source (before ++ eraseEpsilon production.right ++ behind) :=
  Relation.ReflTransGen.tail yields (.expand before behind listed)

/-! ### Leftmost derivations are derivations -/

theorem rewrites_of_expand? {production : Production} (listed : production ∈ g.productions)
    (expands : production.expand? form = some next) : g.Rewrites form next := by
  induction form generalizing next with
  | nil => cases expands
  | cons symbol rest ih =>
    cases symbol with
    | nonTerminal name =>
      by_cases same : name = production.left
      · subst same
        rw [Production.expand?_nonTerminal] at expands
        cases expands
        exact .expand [] rest listed
      · simp [Production.expand?, same] at expands
    | _ =>
      obtain ⟨below, expandsBelow, rfl⟩ := Option.map_eq_some_iff.mp expands
      simpa using (ih expandsBelow).context [_] []

theorem Derives.yields (derives : g.Derives rules source target) : g.Yields source target := by
  induction rules generalizing source with
  | nil =>
    obtain rfl := derives_nil.mp derives
    exact .refl
  | cons id rest ih =>
    obtain ⟨production, next, found, expands, derivesNext⟩ := derives_cons.mp derives
    exact .head (rewrites_of_expand? (rule?_eq_some found).1 expands) (ih derivesNext)

/-! ### Words -/

theorem Rewrites.spells (rewrites : g.Rewrites form next) (spells : g.Spells next rules tokens) :
    ∃ more, g.Spells form more tokens := by
  cases rewrites with
  | @expand production before behind listed =>
    rw [List.append_assoc] at spells
    obtain ⟨first, _, begins, _, rfl, rfl, spellsBefore, spellsRest⟩ := spells_append.mp spells
    obtain ⟨second, third, middle, ends, rfl, rfl, spellsRight, spellsBehind⟩ := spells_append.mp spellsRest
    have expanded := (spells_eraseEpsilon.mp spellsRight).append spellsBehind
    exact ⟨first ++ production.id :: (second ++ third), spellsBefore.append (.expand listed expanded)⟩

theorem Yields.spells (yields : g.Yields form (terminalForm tokens)) : ∃ rules, g.Spells form rules tokens := by
  induction yields using Relation.ReflTransGen.head_induction_on with
  | refl => exact ⟨[], spells_terminalForm⟩
  | head rewrites _ ih =>
    obtain ⟨rules, spells⟩ := ih
    exact rewrites.spells spells

/-- The words of a grammar are the token lists that can be derived from its start symbol in any order. -/
theorem WellFormed.generates_iff_yields (wellFormed : g.WellFormed) :
    g.Generates tokens ↔ g.Yields [g.startSymbol] (terminalForm tokens) := by
  constructor
  · rintro ⟨rules, translates⟩
    exact translates.yields
  · intro yields
    obtain ⟨rules, spells⟩ := yields.spells
    exact ⟨rules, wellFormed.translates_iff_spells.mpr spells⟩

/-! ### Vanishing and first terminals -/

theorem expand?_append {production : Production} (expands : production.expand? form = some next) :
    production.expand? (form ++ back) = some (next ++ back) := by
  induction form generalizing next with
  | nil => cases expands
  | cons symbol rest ih =>
    cases symbol with
    | nonTerminal name =>
      by_cases same : name = production.left
      · subst same
        rw [Production.expand?_nonTerminal] at expands
        cases expands
        simp
      · simp [Production.expand?, same] at expands
    | _ =>
      obtain ⟨below, expandsBelow, rfl⟩ := Option.map_eq_some_iff.mp expands
      exact Option.map_eq_some_iff.mpr ⟨_, ih expandsBelow, rfl⟩

theorem Derives.append_right (derives : g.Derives rules source target) :
    g.Derives rules (source ++ back) (target ++ back) := by
  induction rules generalizing source with
  | nil =>
    obtain rfl := derives_nil.mp derives
    exact derives_nil.mpr rfl
  | cons id rest ih =>
    obtain ⟨production, next, found, expands, derivesNext⟩ := derives_cons.mp derives
    exact derives_cons.mpr ⟨production, next ++ back, found, expand?_append expands, ih derivesNext⟩

theorem BeginsWith.append_right {terminal : String} (begins : g.BeginsWith front terminal) :
    g.BeginsWith (front ++ back) terminal := by
  obtain ⟨rules, rest, derives⟩ := begins
  exact ⟨rules, rest ++ back, derives.append_right⟩

theorem Nullable.beginsWith {terminal : String} (vanishes : g.Nullable front) (begins : g.BeginsWith back terminal) :
    g.BeginsWith (front ++ back) terminal := by
  obtain ⟨first, derivesFront⟩ := vanishes
  obtain ⟨second, rest, derivesBack⟩ := begins
  exact ⟨first ++ second, rest, derivesFront.append_right.trans derivesBack⟩

namespace WellFormed

variable (wellFormed : g.WellFormed)
include wellFormed

theorem nullable_expand {production : Production} (listed : production ∈ g.productions)
    (vanishes : g.Nullable (eraseEpsilon production.right ++ form)) :
    g.Nullable (.nonTerminal production.left :: form) := by
  obtain ⟨rules, derives⟩ := vanishes
  exact ⟨production.id :: rules, wellFormed.derives_expand listed derives⟩

theorem beginsWith_expand {production : Production} (listed : production ∈ g.productions) {terminal : String}
    (begins : g.BeginsWith (eraseEpsilon production.right ++ form) terminal) :
    g.BeginsWith (.nonTerminal production.left :: form) terminal := by
  obtain ⟨rules, rest, derives⟩ := begins
  exact ⟨production.id :: rules, rest, wellFormed.derives_expand listed derives⟩

/-- The first terminal of two forms in a row comes from the first form, or from the second one behind
    nothing. -/
theorem beginsWith_append {terminal : String} : g.BeginsWith (front ++ back) terminal ↔
    g.BeginsWith front terminal ∨ g.Nullable front ∧ g.BeginsWith back terminal := by
  constructor
  · rintro ⟨rules, rest, derives⟩
    -- Each rule expands a non-terminal of the first form until this form begins with a symbol that stays.
    induction rules generalizing front with
    | nil =>
      cases front with
      | nil => exact .inr ⟨⟨[], rfl⟩, [], rest, derives⟩
      | cons symbol behind =>
        cases derives_nil.mp derives
        exact .inl ⟨[], behind, rfl⟩
    | cons id more ih =>
      cases front with
      | nil => exact .inr ⟨⟨[], rfl⟩, id :: more, rest, derives⟩
      | cons symbol behind =>
        cases kind : symbol.nonTerminal? with
        | none =>
          obtain ⟨_, same, _⟩ := (derives_fixed_cons kind).mp derives
          cases same
          exact .inl ⟨[], behind, rfl⟩
        | some name =>
          obtain rfl := Symbol.nonTerminal?_eq_some.mp kind
          rcases derives_nonTerminal_cons.mp derives with ⟨impossible, _⟩ | ⟨production, _, found, rfl, same, remains⟩
          · cases impossible
          · cases same
            have listed := (rule?_eq_some found).1
            rcases ih (List.append_assoc .. ▸ remains) with begins | ⟨vanishes, begins⟩
            · exact .inl (wellFormed.beginsWith_expand listed begins)
            · exact .inr ⟨wellFormed.nullable_expand listed vanishes, begins⟩
  · rintro (begins | ⟨vanishes, begins⟩)
    · exact begins.append_right
    · exact vanishes.beginsWith begins

/-- A form derives the empty word in any order exactly if it does so leftmost. -/
theorem nullable_iff_yields : g.Nullable (eraseEpsilon form) ↔ g.Yields (eraseEpsilon form) [] := by
  constructor
  · rintro ⟨rules, derives⟩
    exact derives.yields
  · intro yields
    have nothing : g.Yields (eraseEpsilon form) (terminalForm []) := yields
    obtain ⟨rules, spells⟩ := nothing.spells
    exact ⟨rules, wellFormed.derives_iff_spells.mpr (spells_eraseEpsilon.mp spells)⟩

/-- The terminals that a form can begin with in any order are those that it can begin with leftmost. -/
theorem beginsWith_iff_yields {terminal : String} :
    g.BeginsWith form terminal ↔ ∃ rest, g.Yields form (.terminal terminal :: rest) := by
  constructor
  · rintro ⟨rules, rest, derives⟩
    exact ⟨rest, derives.yields⟩
  · rintro ⟨rest, yields⟩
    induction yields using Relation.ReflTransGen.head_induction_on with
    | refl => exact ⟨[], rest, rfl⟩
    | head rewrites _ ih =>
      cases rewrites with
      | @expand production before behind listed =>
        rw [List.append_assoc, wellFormed.beginsWith_append] at ih
        rcases ih with begins | ⟨vanishes, begins⟩
        · exact begins.append_right
        · exact vanishes.beginsWith (wellFormed.beginsWith_expand listed begins)

end WellFormed

end Predictive.Grammar
