import Predictive.Grammar.Basic

/-!
Leftmost derivations. A sentential form is a list of symbols; a production expands the leftmost
non-terminal of a form if that is its left side, and the empty word leaves no trace in the form. A
list of rule numbers is replayed by expanding with one rule after another. The language of a grammar is
the set of token lists that some replay from the start symbol ends in.
-/
namespace Predictive

/-- The symbols of a form that stand for text, that is, all but the empty word. -/
def eraseEpsilon (form : List Symbol) : List Symbol := form.filter (· ≠ .epsilon)

@[simp] theorem eraseEpsilon_append {left right : List Symbol} :
    eraseEpsilon (left ++ right) = eraseEpsilon left ++ eraseEpsilon right := by
  simp [eraseEpsilon]

@[simp] theorem not_mem_eraseEpsilon {form : List Symbol} : Symbol.epsilon ∉ eraseEpsilon form := by
  simp [eraseEpsilon]

/-- The form with the right side in the place of its leftmost non-terminal, if the production is one of
    that non-terminal. -/
def Production.expand? (production : Production) : List Symbol → Option (List Symbol)
  | [] => none
  | .nonTerminal name :: rest =>
    if name = production.left then some (eraseEpsilon production.right ++ rest) else none
  | symbol :: rest => (production.expand? rest).map (symbol :: ·)

/-- Tokens as a form. -/
def terminalForm (tokens : List String) : List Symbol := tokens.map .terminal

theorem terminalForm_append {front back : List String} :
    terminalForm (front ++ back) = terminalForm front ++ terminalForm back := by
  simp [terminalForm]

namespace Production

@[simp] theorem expand?_nonTerminal {production : Production} {rest : List Symbol} :
    production.expand? (.nonTerminal production.left :: rest) =
      some (eraseEpsilon production.right ++ rest) := by
  simp [expand?]

end Production

namespace Grammar

/-- The production with a number. -/
def rule? (g : Grammar) (id : Nat) : Option Production := g.productions.find? (·.id = id)

/-- The form after the numbered rules expanded its leftmost non-terminal one after another. -/
def replay? (g : Grammar) : List Nat → List Symbol → Option (List Symbol)
  | [], form => some form
  | id :: rest, form => ((g.rule? id).bind (·.expand? form)).bind (g.replay? rest)

theorem replay?_append {g : Grammar} {first second : List Nat} {form : List Symbol} :
    g.replay? (first ++ second) form = (g.replay? first form).bind (g.replay? second) := by
  induction first generalizing form with
  | nil => simp [replay?]
  | cons id rest ih =>
    simp only [List.cons_append, replay?]
    cases (g.rule? id).bind (·.expand? form) <;> simp [ih]

/-- The rules lead from one form to another, each expanding the leftmost non-terminal. -/
def Derives (g : Grammar) (rules : List Nat) (source target : List Symbol) : Prop :=
  g.replay? rules source = some target

theorem Derives.trans {g : Grammar} {first second : List Nat} {source middle target : List Symbol}
    (begins : g.Derives first source middle) (ends : g.Derives second middle target) :
    g.Derives (first ++ second) source target := by
  unfold Derives at *
  simp [replay?_append, begins, ends]

/-- The rules derive the tokens from the start symbol. -/
def Translates (g : Grammar) (rules : List Nat) (tokens : List String) : Prop :=
  g.Derives rules [g.startSymbol] (terminalForm tokens)

/-- The tokens are a word of the grammar's language. -/
def Generates (g : Grammar) (tokens : List String) : Prop := ∃ rules, g.Translates rules tokens

/-- The form derives the empty word. -/
def Nullable (g : Grammar) (form : List Symbol) : Prop := ∃ rules, g.Derives rules form []

/-- The form derives a form that begins with the terminal. -/
def BeginsWith (g : Grammar) (form : List Symbol) (terminal : String) : Prop :=
  ∃ rules rest, g.Derives rules form (.terminal terminal :: rest)

end Grammar

end Predictive
