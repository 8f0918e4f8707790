import Predictive.Grammar.Derivation
import Predictive.Proofs.Declarations

/-!
Leftmost derivations read along the form. A complete leftmost derivation deals with the symbols of a form
from left to right: a terminal is the next token, a non-terminal is expanded by the next rule, and the empty
word is passed over (`Grammar.Spells`). So the derivation of a form is made of the derivations of its parts
(`Grammar.spells_append`). The rules of such a derivation are exactly those whose replay ends in the tokens
(`Grammar.WellFormed.derives_iff_spells`).
-/
namespace Predictive

theorem eraseEpsilon_epsilon_cons {rest : List Symbol} : eraseEpsilon (.epsilon :: rest) = eraseEpsilon rest := by
  simp [eraseEpsilon]

theorem eraseEpsilon_cons {symbol : Symbol} {rest : List Symbol} (kept : symbol ≠ .epsilon) :
    eraseEpsilon (symbol :: rest) = symbol :: eraseEpsilon rest := by
  simp [eraseEpsilon, kept]

@[simp] theorem eraseEpsilon_eraseEpsilon {form : List Symbol} :
    eraseEpsilon (eraseEpsilon form) = eraseEpsilon form := by
  simp [eraseEpsilon]

namespace Grammar

/-- The form spells the tokens: the rules, in their order, expand its leftmost non-terminals until the tokens
    are left. -/
inductive Spells (g : Grammar) : (form : List Symbol) → (rules : List Nat) → (tokens : List String) → Prop where
  | nil : Spells g [] [] []
  | terminal {name : String} {form : List Symbol} {rules : List Nat} {tokens : List String} :
    Spells g form rules tokens → Spells g (.terminal name :: form) rules (name :: tokens)
  | epsilon {form : List Symbol} {rules : List Nat} {tokens : List String} :
    Spells g form rules tokens → Spells g (.epsilon :: form) rules tokens
  | expand {production : Production} {form : List Symbol} {rules : List Nat} {tokens : List String} :
    production ∈ g.productions → Spells g (production.right ++ form) rules tokens →
      Spells g (.nonTerminal production.left :: form) (production.id :: rules) tokens

variable {g : Grammar} {form target front back : List Symbol} {rules : List Nat} {tokens : List String}

/-! ### Parts of a form -/

theorem Spells.append {more : List Nat} {others : List String} (begins : g.Spells front rules tokens)
    (ends : g.Spells back more others) : g.Spells (front ++ back) (rules ++ more) (tokens ++ others) := by
  induction begins with
  | nil => exact ends
  | terminal _ ih => exact .terminal ih
  | epsilon _ ih => exact .epsilon ih
  | expand listed _ ih =>
    rw [List.append_assoc] at ih
    exact .expand listed ih

theorem Spells.split (spells : g.Spells (front ++ back) rules tokens) :
    ∃ first second begins ends, rules = first ++ second ∧ tokens = begins ++ ends ∧
      g.Spells front first begins ∧ g.Spells back second ends := by
  generalize whole : front ++ back = form at spells
  induction spells generalizing front with
  | nil =>
    obtain ⟨rfl, rfl⟩ := List.append_eq_nil_iff.mp whole
    exact ⟨[], [], [], [], rfl, rfl, .nil, .nil⟩
  | @terminal name form rules tokens below ih =>
    rcases List.append_eq_cons_iff.mp whole with ⟨rfl, rfl⟩ | ⟨rest, rfl, rfl⟩
    · exact ⟨[], rules, [], name :: tokens, rfl, rfl, .nil, .terminal below⟩
    · obtain ⟨first, second, begins, ends, rfl, rfl, spellsRest, spellsBack⟩ := ih rfl
      exact ⟨first, second, name :: begins, ends, rfl, rfl, .terminal spellsRest, spellsBack⟩
  | @epsilon form rules tokens below ih =>
    rcases List.append_eq_cons_iff.mp whole with ⟨rfl, rfl⟩ | ⟨rest, rfl, rfl⟩
    · exact ⟨[], rules, [], tokens, rfl, rfl, .nil, .epsilon below⟩
    · obtain ⟨first, second, begins, ends, rfl, rfl, spellsRest, spellsBack⟩ := ih rfl
      exact ⟨first, second, begins, ends, rfl, rfl, .epsilon spellsRest, spellsBack⟩
  | @expand production form rules tokens listed below ih =>
    rcases List.append_eq_cons_iff.mp whole with ⟨rfl, rfl⟩ | ⟨rest, rfl, rfl⟩
    · exact ⟨[], production.id :: rules, [], tokens, rfl, rfl, .nil, .expand listed below⟩
    · obtain ⟨first, second, begins, ends, rfl, rfl, spellsRest, spellsBack⟩ := ih (List.append_assoc ..)
      exact ⟨production.id :: first, second, begins, ends, rfl, rfl, .expand listed spellsRest, spellsBack⟩

/-- What two forms spell in a row, they spell one after the other. -/
theorem spells_append : g.Spells (front ++ back) rules tokens ↔
    ∃ first second begins ends, rules = first ++ second ∧ tokens = begins ++ ends ∧
      g.Spells front first begins ∧ g.Spells back second ends := by
  constructor
  · exact Spells.split
  · rintro ⟨first, second, begins, ends, rfl, rfl, spellsFront, spellsBack⟩
    exact spellsFront.append spellsBack

theorem spells_epsilon_cons : g.Spells (.epsilon :: form) rules tokens ↔ g.Spells form rules tokens := by
  constructor
  · rintro (_ | _)
    assumption
  · exact .epsilon

/-- The empty word makes no difference to what a form spells. -/
theorem spells_eraseEpsilon : g.Spells (eraseEpsilon form) rules tokens ↔ g.Spells form rules tokens := by
  induction form generalizing rules tokens with
  | nil => exact Iff.rfl
  | cons symbol rest ih =>
    by_cases empty : symbol = .epsilon
    · subst empty
      rw [eraseEpsilon_epsilon_cons, ih, spells_epsilon_cons]
    · have kept : eraseEpsilon (symbol :: rest) = [symbol] ++ eraseEpsilon rest := eraseEpsilon_cons empty
      have whole : symbol :: rest = [symbol] ++ rest := rfl
      rw [kept, whole, spells_append, spells_append]
      simp only [ih]

theorem spells_terminalForm : g.Spells (terminalForm tokens) [] tokens := by
  induction tokens with
  | nil => exact .nil
  | cons token rest ih => exact .terminal ih

/-! ### Replayed rules -/

theorem derives_nil : g.Derives [] form target ↔ form = target := by
  unfold Derives
  rw [replay?, Option.some.injEq]

theorem derives_cons {id : Nat} : g.Derives (id :: rules) form target ↔
    ∃ production next, g.rule? id = some production ∧ production.expand? form = some next ∧
      g.Derives rules next target := by
  unfold Derives
  simp only [replay?, Option.bind_eq_some_iff]
  constructor
  · rintro ⟨next, ⟨production, found, expands⟩, replayed⟩
    exact ⟨production, next, found, expands, replayed⟩
  · rintro ⟨production, next, found, expands, replayed⟩
    exact ⟨next, ⟨production, found, expands⟩, replayed⟩

theorem Derives.eq_nil (derives : g.Derives rules [] target) : target = [] := by
  cases rules with
  | nil => exact (derives_nil.mp derives).symm
  | cons id rest =>
    obtain ⟨production, next, _, expands, _⟩ := derives_cons.mp derives
    cases expands

theorem rule?_eq_some {id : Nat} {production : Production} (found : g.rule? id = some production) :
    production ∈ g.productions ∧ production.id = id :=
  ⟨List.mem_of_find?_eq_some found, by simpa using List.find?_some found⟩

/-- A symbol that is no non-terminal stays in front. -/
theorem derives_fixed_cons {symbol : Symbol} (fixed : symbol.nonTerminal? = none) :
    g.Derives rules (symbol :: form) target ↔ ∃ rest, target = symbol :: rest ∧ g.Derives rules form rest := by
  have inside : ∀ (production : Production) (form : List Symbol),
      production.expand? (symbol :: form) = (production.expand? form).map (symbol :: ·) := by
    intro production form
    cases symbol with
    | nonTerminal name => cases fixed
    | _ => rfl
  induction rules generalizing form with
  | nil =>
    simp only [derives_nil]
    constructor
    · rintro rfl
      exact ⟨form, rfl, rfl⟩
    · rintro ⟨rest, rfl, rfl⟩
      rfl
  | cons id more ih =>
    simp only [derives_cons, inside, Option.map_eq_some_iff]
    constructor
    · rintro ⟨production, _, found, ⟨next, expands, rfl⟩, derives⟩
      obtain ⟨rest, rfl, derivesRest⟩ := ih.mp derives
      exact ⟨rest, rfl, production, next, found, expands, derivesRest⟩
    · rintro ⟨rest, rfl, production, next, found, expands, derivesRest⟩
      exact ⟨production, symbol :: next, found, ⟨next, expands, rfl⟩, ih.mpr ⟨rest, rfl, derivesRest⟩⟩

theorem Derives.terminalForm_append (derives : g.Derives rules form target) (tokens : List String) :
    g.Derives rules (terminalForm tokens ++ form) (terminalForm tokens ++ target) := by
  induction tokens with
  | nil => exact derives
  | cons token rest ih => exact (derives_fixed_cons rfl).mpr ⟨_, rfl, ih⟩

/-- A derivation begins with the expansion of a non-terminal in front. -/
theorem derives_nonTerminal_cons {name : String} : g.Derives rules (.nonTerminal name :: form) target ↔
    rules = [] ∧ target = .nonTerminal name :: form ∨
      ∃ production rest, g.rule? production.id = some production ∧ name = production.left ∧
        rules = production.id :: rest ∧ g.Derives rest (eraseEpsilon production.right ++ form) target := by
  cases rules with
  | nil => simp [derives_nil, eq_comm]
  | cons id rest =>
    rw [derives_cons]
    constructor
    · rintro ⟨production, next, found, expands, derives⟩
      obtain ⟨_, rfl⟩ := rule?_eq_some found
      by_cases same : name = production.left
      · subst same
        rw [Production.expand?_nonTerminal] at expands
        cases expands
        exact .inr ⟨production, rest, found, rfl, rfl, derives⟩
      · simp [Production.expand?, same] at expands
    · rintro (⟨impossible, _⟩ | ⟨production, rest, found, rfl, same, derives⟩)
      · cases impossible
      · cases same
        exact ⟨production, _, found, Production.expand?_nonTerminal, derives⟩

theorem Derives.spells (derives : g.Derives rules form (terminalForm tokens)) : g.Spells form rules tokens := by
  -- First by the rules; within one rule along the symbols in front of the non-terminal that it expands.
  induction rules generalizing form tokens with
  | nil =>
    obtain rfl := derives_nil.mp derives
    exact spells_terminalForm
  | cons id rest ih =>
    induction form generalizing tokens with
    | nil =>
      obtain ⟨production, next, _, expands, _⟩ := derives_cons.mp derives
      cases expands
    | cons symbol behind ihForm =>
      cases kind : symbol.nonTerminal? with
      | some name =>
        obtain rfl := Symbol.nonTerminal?_eq_some.mp kind
        rcases derives_nonTerminal_cons.mp derives with ⟨impossible, _⟩ | ⟨production, more, found, rfl, same, remains⟩
        · cases impossible
        · cases same
          have spells := ih remains
          rw [spells_append] at spells
          simp only [spells_eraseEpsilon] at spells
          exact .expand (rule?_eq_some found).1 (spells_append.mpr spells)
      | none =>
        obtain ⟨target, same, derivesRest⟩ := (derives_fixed_cons kind).mp derives
        cases tokens with
        | nil => cases same
        | cons token others =>
          cases same
          exact .terminal (ihForm derivesRest)

namespace WellFormed

variable (wellFormed : g.WellFormed)
include wellFormed

theorem rule?_id {production : Production} (listed : production ∈ g.productions) :
    g.rule? production.id = some production := by
  cases found : g.rule? production.id with
  | none => exact absurd (List.find?_eq_none.mp found production listed) (by simp)
  | some other =>
    obtain ⟨member, same⟩ := rule?_eq_some found
    rw [List.inj_on_of_nodup_map wellFormed.ids_nodup member listed same]

theorem derives_expand {production : Production} (listed : production ∈ g.productions)
    (derives : g.Derives rules (eraseEpsilon production.right ++ form) target) :
    g.Derives (production.id :: rules) (.nonTerminal production.left :: form) target :=
  derives_nonTerminal_cons.mpr (.inr ⟨production, rules, wellFormed.rule?_id listed, rfl, rfl, derives⟩)

theorem derives_of_spells (spells : g.Spells form rules tokens) :
    g.Derives rules (eraseEpsilon form) (terminalForm tokens) := by
  induction spells with
  | nil => rfl
  | terminal _ ih =>
    rw [eraseEpsilon_cons (by simp), derives_fixed_cons rfl]
    exact ⟨_, rfl, ih⟩
  | epsilon _ ih => rwa [eraseEpsilon_epsilon_cons]
  | expand listed _ ih =>
    rw [eraseEpsilon_append] at ih
    rw [eraseEpsilon_cons (by simp)]
    exact wellFormed.derives_expand listed ih

theorem derives_iff_spells :
    g.Derives rules (eraseEpsilon form) (terminalForm tokens) ↔ g.Spells form rules tokens :=
  ⟨fun derives => spells_eraseEpsilon.mp derives.spells, wellFormed.derives_of_spells⟩

theorem translates_iff_spells : g.Translates rules tokens ↔ g.Spells [g.startSymbol] rules tokens := by
  have erased : eraseEpsilon [g.startSymbol] = [g.startSymbol] := rfl
  unfold Translates
  rw [← wellFormed.derives_iff_spells, erased]

/-- A form of declared symbols spells declared terminals. -/
theorem terminals_of_spells (spells : g.Spells form rules tokens)
    (declared : ∀ symbol ∈ form, symbol = .epsilon ∨ g.Declared symbol) : ∀ token ∈ tokens, token ∈ g.terminals := by
  induction spells with
  | nil => simp
  | @terminal name form rules tokens _ ih =>
    intro token member
    rcases List.mem_cons.mp member with rfl | later
    · exact (declared (.terminal token) (by simp)).resolve_left (by simp)
    · exact ih (fun symbol inside => declared symbol (List.mem_cons_of_mem _ inside)) token later
  | epsilon _ ih => exact ih fun symbol inside => declared symbol (List.mem_cons_of_mem _ inside)
  | @expand production form rules tokens listed _ ih =>
    refine ih fun symbol inside => ?_
    rcases List.mem_append.mp inside with own | behind
    · exact wellFormed.right_declared listed own
    · exact declared symbol (List.mem_cons_of_mem _ behind)

end WellFormed

end Grammar

end Predictive
