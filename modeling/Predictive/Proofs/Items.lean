import Predictive.Export
import Predictive.Proofs.Lexemes
import Predictive.Proofs.RejectionLookahead
import Predictive.Proofs.TextOutcomes

/-!
What an expression says, apart from how it is written. An expression is a list of items: numbers and identifiers of
whatever spelling, keywords, and operators. It may have blanks anywhere between them, and must have some between two
runs of letters or two runs of digits (`Grammar.Expresses`). The lexer of a grammar recovers the items
(`Expresses.read`), so how translating an expression ends depends on them alone (`outcome_of_expresses`).
-/
namespace Predictive

/-- What one token of an expression says, however it is spelled. -/
inductive Item where
  | number
  | identifier
  | keyword (name : String)
  | operator (c : Char)
deriving DecidableEq, Repr

namespace Item

/-- The terminal that stands for an item. -/
def terminal : Item → String
  | number => numberTerminal
  | identifier => identifierTerminal
  | keyword name => name
  | operator c => String.singleton c

/-- The class of which all spellings of an item are runs, if there is one. -/
def runClass? : Item → Option RunClass
  | number => some .digit
  | identifier => some .letter
  | keyword _ => some .letter
  | operator _ => none

/-- Without a blank between them, the first item would run on into the second. -/
def RunsInto (first second : Item) : Prop := first.runClass?.isSome ∧ second.runClass? = first.runClass?

instance (first second : Item) : Decidable (first.RunsInto second) := inferInstanceAs (Decidable (_ ∧ _))

/-- The characters are a spelling of the item, by a grammar. Any run of digits is a number, and any run of letters is
    an identifier unless it is a keyword. Keywords are the terminals in letters other than those that stand for
    numbers and identifiers; operators are the terminals of one character that is no letter and no digit. -/
def SpelledBy (g : Grammar) (spelling : List Char) : Item → Prop
  | number => spelling ≠ [] ∧ ∀ c ∈ spelling, c.isDigit
  | identifier => spelling ≠ [] ∧ (∀ c ∈ spelling, c.isAlpha) ∧ String.ofList spelling ∉ Lexer.keywordsOf g
  | keyword name => spelling = name.toList ∧ name ∈ g.terminals ∧ (∀ c ∈ spelling, c.isAlpha) ∧
    name ≠ numberTerminal ∧ name ≠ identifierTerminal
  | operator c => spelling = [c] ∧ String.singleton c ∈ g.terminals ∧ c.isAlpha = false ∧ c.isDigit = false

instance (g : Grammar) (spelling : List Char) : (item : Item) → Decidable (item.SpelledBy g spelling)
  | number => inferInstanceAs (Decidable (_ ∧ _))
  | identifier => inferInstanceAs (Decidable (_ ∧ _))
  | keyword _ => inferInstanceAs (Decidable (_ ∧ _))
  | operator _ => inferInstanceAs (Decidable (_ ∧ _))

end Item

/-- The characters spell the items in turn, by a grammar, with blanks before, between and behind them. -/
inductive Grammar.Expresses (g : Grammar) : List Item → List Char → Prop where
  | blanks {gap : List Char} : (∀ c ∈ gap, Text.isBlank c) → Expresses g [] gap
  | item {gap spelling rest : List Char} {item : Item} {items : List Item} :
    (∀ c ∈ gap, Text.isBlank c) → item.SpelledBy g spelling → Expresses g items rest →
    (∀ next ∈ items.head?, item.RunsInto next → ∃ c ∈ rest.head?, Text.isBlank c) →
    Expresses g (item :: items) (gap ++ spelling ++ rest)

/-! ### Reading items -/

namespace Item

variable {g : Grammar} {item : Item} {spelling : List Char}

theorem mem_keywordsOf {name : String} : name ∈ Lexer.keywordsOf g ↔
    name ∈ g.terminals ∧ (∀ c ∈ name.toList, c.isAlpha) ∧ name ≠ numberTerminal ∧ name ≠ identifierTerminal := by
  simp [Lexer.keywordsOf]

theorem single?_eq_some {name : String} {c : Char} : Lexer.single? name = some c ↔ name = String.singleton c := by
  unfold Lexer.single?
  rw [← String.toList_inj, String.toList_singleton]
  split
  · next other same => simp [same]
  · next several =>
    simp only [reduceCtorEq, false_iff]
    exact fun same => several c same

theorem mem_operators {c : Char} : c ∈ (Lexer.ofGrammar g).operators ↔ String.singleton c ∈ g.terminals := by
  simp [Lexer.ofGrammar, List.mem_filterMap, single?_eq_some]

theorem spelling_ne_nil (spelled : item.SpelledBy g spelling) (solid : Text.IsWord item.terminal.toList) :
    spelling ≠ [] := by
  cases item with
  | number => exact spelled.1
  | identifier => exact spelled.1
  | keyword name => exact spelled.1 ▸ solid.ne_nil
  | operator c => simp [spelled.1]

/-- An item with a class is spelled by a run of it. -/
theorem holds_of_spelledBy {run : RunClass} (spelled : item.SpelledBy g spelling) (isRun : item.runClass? = some run) :
    ∀ c ∈ spelling, run.holds c := by
  cases item with
  | number => cases isRun; exact spelled.2
  | identifier => cases isRun; exact spelled.2.1
  | keyword name => cases isRun; exact spelled.2.2.1
  | operator c => cases isRun

/-- Only items with a class have characters of it in their spellings. -/
theorem runClass?_of_holds {run : RunClass} (spelled : item.SpelledBy g spelling) {c : Char} (inside : c ∈ spelling)
    (member : run.holds c) : item.runClass? = some run := by
  cases isRun : item.runClass? with
  | some other =>
    have same : other = run := RunClass.eq_of_holds (holds_of_spelledBy spelled isRun c inside) member
    rw [same]
  | none =>
    cases item with
    | operator only =>
      obtain ⟨rfl, _, noLetter, noDigit⟩ := spelled
      obtain rfl := List.mem_singleton.mp inside
      cases run with
      | letter => exact absurd (noLetter.symm.trans member) Bool.false_ne_true
      | digit => exact absurd (noDigit.symm.trans member) Bool.false_ne_true
    | _ => cases isRun

/-- The kind of lexeme that a run of letters or digits makes tells what it says. -/
theorem terminalOf_run {run : RunClass} (spelled : item.SpelledBy g spelling) (isRun : item.runClass? = some run)
    {position : Nat} : (Lexer.ofGrammar g).terminalOf
      { kind := (Lexer.ofGrammar g).runKind run spelling, source := spelling, position } = item.terminal := by
  cases item with
  | number => cases isRun; rfl
  | identifier =>
    cases isRun
    have free : String.ofList spelling ∉ (Lexer.ofGrammar g).keywords := spelled.2.2
    simp only [Lexer.runKind, Lexer.wordKind, free, if_false]
    rfl
  | keyword name =>
    cases isRun
    obtain ⟨rfl, declared⟩ := spelled
    have keyword : name ∈ (Lexer.ofGrammar g).keywords := mem_keywordsOf.mpr declared
    simp only [Lexer.runKind, Lexer.wordKind, String.ofList_toList, keyword, if_true]
    exact String.ofList_toList
  | operator c => cases isRun

end Item

namespace Grammar.Expresses

variable {g : Grammar} {items : List Item} {text : List Char}

/-- A text goes on with nothing of a class, if a blank comes first whenever the next item is of the class. -/
theorem not_holds_head (expressed : g.Expresses items text)
    (solid : ∀ item ∈ items, Text.IsWord item.terminal.toList) {run : RunClass}
    (apart : ∀ next ∈ items.head?, next.runClass? = some run → ∃ c ∈ text.head?, Text.isBlank c) :
    ∀ c ∈ text.head?, run.holds c = false := by
  intro c first
  refine Bool.eq_false_iff.mpr fun member => ?_
  have visible : ¬ Text.isBlank c := by simp [RunClass.not_isBlank_of_holds member]
  cases expressed with
  | blanks blank => exact visible (blank c (List.mem_of_mem_head? first))
  | @item gap spelling rest item items blank spelled _ _ =>
    cases gap with
    | cons b gap =>
      obtain rfl : b = c := by simpa using first
      exact visible (blank b List.mem_cons_self)
    | nil =>
      obtain ⟨b, others, rfl⟩ := List.exists_cons_of_ne_nil (Item.spelling_ne_nil spelled (solid item List.mem_cons_self))
      obtain rfl : b = c := by simpa using first
      obtain ⟨other, same, isBlank⟩ := apart item rfl (Item.runClass?_of_holds spelled List.mem_cons_self member)
      obtain rfl : b = other := by simpa using same
      exact visible isBlank

/-- The lexer of a grammar finds the items that a text expresses. -/
theorem lexemes (expressed : g.Expresses items text) (solid : ∀ item ∈ items, Text.IsWord item.terminal.toList)
    (position : Nat) : ∃ found, (Lexer.ofGrammar g).lexemes position text = .ok found ∧
      found.map (Lexer.ofGrammar g).terminalOf = items.map Item.terminal := by
  induction expressed generalizing position with
  | @blanks gap blank =>
    refine ⟨[], ?_, rfl⟩
    rw [← List.append_nil gap, Lexer.lexemes_blanks blank, Lexer.lexemes]
  | @item gap spelling rest item items blank spelled later apart ih =>
    obtain ⟨solidItem, solidRest⟩ := List.forall_mem_cons.mp solid
    obtain ⟨found, scanned, terminals⟩ := ih solidRest (position + gap.length + spelling.length)
    rw [List.append_assoc, Lexer.lexemes_blanks blank]
    cases isRun : item.runClass? with
    | some run =>
      have ends : ∀ c ∈ rest.head?, run.holds c = false :=
        later.not_holds_head solidRest fun next first same => apart next first ⟨by simp [isRun], same.trans isRun.symm⟩
      rw [Lexer.lexemes_run (Item.spelling_ne_nil spelled solidItem) (Item.holds_of_spelledBy spelled isRun) ends, scanned]
      refine ⟨_, rfl, ?_⟩
      rw [List.map_cons, List.map_cons, Item.terminalOf_run spelled isRun, terminals]
    | none =>
      cases item with
      | operator c =>
        obtain ⟨rfl, declared, noLetter, noDigit⟩ := spelled
        have visible : Text.isBlank c = false := solidItem.not_blank c (by simp [Item.terminal])
        have single : ∀ run : RunClass, run.holds c = false := fun run => by cases run <;> assumption
        have scannedNext : (Lexer.ofGrammar g).lexemes (position + gap.length + 1) rest = .ok found := scanned
        rw [List.singleton_append, Lexer.lexemes_operator (Item.mem_operators.mpr declared) visible single, scannedNext]
        refine ⟨_, rfl, ?_⟩
        rw [List.map_cons, List.map_cons, terminals]
        rfl
      | _ => cases isRun

/-- The lexer of a grammar reads the items of an expression as their terminals. -/
theorem read {expression : String} (expressed : g.Expresses items expression.toList)
    (solid : ∀ item ∈ items, Text.IsWord item.terminal.toList) :
    (Lexer.ofGrammar g).read expression = .ok (items.map Item.terminal) := by
  obtain ⟨found, scanned, terminals⟩ := expressed.lexemes solid 0
  rw [Lexer.read_eq, scanned]
  exact congrArg Except.ok terminals

end Grammar.Expresses

/-! ### Translating items -/

namespace Export

variable {text expression : String} {g : Grammar} {translator : Translator} {tokens : List String}

theorem tableOf_of_translator (written : Grammar.ofText text = .ok g) (made : Translator.ofGrammar g = .ok translator) :
    tableOf text = .ok translator.table ∧ translator.table.grammar = g ∧ translator = { table := translator.table } := by
  obtain ⟨table, madeTable, rfl⟩ := Translator.ofGrammar_eq_ok made
  refine ⟨?_, Table.ofGrammar_eq_ok madeTable, rfl⟩
  rw [tableOf, grammarOf, written]
  exact madeTable

theorem translator_of_tableOf {table : Table} (made : tableOf text = .ok table) :
    Grammar.ofText text = .ok table.grammar ∧ Translator.ofGrammar table.grammar = .ok { table } := by
  unfold tableOf grammarOf at made
  cases written : Grammar.ofText text with
  | error fault => rw [written] at made; cases made
  | ok g =>
    rw [written] at made
    have madeTable : Table.ofGrammar g = .ok table := made
    obtain rfl := Table.ofGrammar_eq_ok madeTable
    exact ⟨rfl, by rw [Translator.ofGrammar, madeTable]; rfl⟩

/-- The outcome for an expression is that of the tokens that it is read as. -/
theorem outcomeOf_eq (written : Grammar.ofText text = .ok g) (made : Translator.ofGrammar g = .ok translator)
    (read : (Lexer.ofGrammar g).read expression = .ok tokens) :
    outcomeOf text expression = translator.translate tokens := by
  obtain ⟨table, rfl, same⟩ := tableOf_of_translator written made
  rw [outcomeOf, table, same]
  simp only [Except.bind, read]

end Export

/-- The terminals of a written grammar are words. -/
theorem Grammar.isWord_of_ofText {text : String} {g : Grammar} (written : ofText text = .ok g) :
    ∀ name ∈ g.terminals, Text.IsWord name.toList := by
  obtain ⟨first, rest, rules, _, rfl⟩ := RuleLine.ofText_eq_ok_iff.mp written
  intro name declared
  obtain ⟨⟨alternative, listed, inside⟩, _⟩ := RuleLine.mem_terminalWords.mp (mem_firstUses.mp declared)
  obtain ⟨rule, member, ofRule⟩ := List.mem_flatMap.mp listed
  obtain ⟨words, ofLine, rfl⟩ := List.mem_map.mp ofRule
  have legible : rule.Legible := (RuleLine.reads_of_readAll rules).legible (by simp) rule member
  exact (legible.words words ofLine name inside).isWord

theorem Item.isWord_terminal {g : Grammar} {item : Item} {spelling : List Char}
    (solid : ∀ name ∈ g.terminals, Text.IsWord name.toList) (spelled : item.SpelledBy g spelling) :
    Text.IsWord item.terminal.toList := by
  cases item with
  | number => exact ⟨by decide, by decide⟩
  | identifier => exact ⟨by decide, by decide⟩
  | keyword name => exact solid name spelled.2.1
  | operator c => exact solid _ spelled.2.1

theorem Grammar.Expresses.isWord_terminal {g : Grammar} {items : List Item} {text : List Char}
    (solid : ∀ name ∈ g.terminals, Text.IsWord name.toList) (expressed : g.Expresses items text) :
    ∀ item ∈ items, Text.IsWord item.terminal.toList := by
  induction expressed with
  | blanks _ => simp
  | item _ spelled _ _ ih => exact List.forall_mem_cons.mpr ⟨Item.isWord_terminal solid spelled, ih⟩

/-- Expressions that say the same have the same outcome, however they are spelled and laid out: the one of the
    terminals that stand for their items, or an error if translating these passes the step ceiling. -/
theorem outcome_of_expresses {text first second : String} {items : List Item}
    (expressed : ∀ g, Grammar.ofText text = .ok g →
      g.Expresses items first.toList ∧ g.Expresses items second.toList) :
    Export.outcome text first = Export.outcome text second ∧
    ∀ g translator, Grammar.ofText text = .ok g → Translator.ofGrammar g = .ok translator →
      match translator.translate (items.map Item.terminal) with
      | .ok outcome => Export.outcome text first = (Report.Outcome.json outcome).render
      | .error fault => fault = .runaway (translator.limit (items.map Item.terminal)) ∧
        Export.outcome text first = (Export.jsonError fault).render := by
  have outcomes : ∀ {g translator}, Grammar.ofText text = .ok g → Translator.ofGrammar g = .ok translator →
      Export.outcomeOf text first = translator.translate (items.map Item.terminal) ∧
      Export.outcomeOf text second = translator.translate (items.map Item.terminal) := by
    intro g translator written made
    have solid := Grammar.isWord_of_ofText written
    obtain ⟨one, two⟩ := expressed g written
    exact ⟨Export.outcomeOf_eq written made (one.read (one.isWord_terminal solid)),
      Export.outcomeOf_eq written made (two.read (two.isWord_terminal solid))⟩
  refine ⟨?_, fun g translator written made => ?_⟩
  · -- Without a table, all expressions have the error of the grammar.
    unfold Export.outcome
    cases made : Export.tableOf text with
    | error fault => simp only [Export.outcomeOf, made, Except.bind]
    | ok table =>
      obtain ⟨written, madeTranslator⟩ := Export.translator_of_tableOf made
      obtain ⟨one, two⟩ := outcomes written madeTranslator
      rw [one, two]
  · have translated : Export.outcome text first = Export.jsonResult Report.Outcome.json
        (translator.translate (items.map Item.terminal)) := by
      rw [Export.outcome, (outcomes written made).1]
    cases run : translator.translate (items.map Item.terminal) with
    | ok outcome => rw [translated, run]; rfl
    | error fault => exact ⟨Translator.runaway_of_translate run, by rw [translated, run]; rfl⟩

/-- The grammar of `let`, an identifier, and the number that it stands for. -/
def setting : Grammar where
  start := "S"
  terminals := ["let", "id", "=", "num"]
  nonTerminals := ["S"]
  productions := [
    { id := 1, left := "S",
      right := [.terminal "let", .terminal identifierTerminal, .terminal "=", .terminal numberTerminal] }]

/-- The table of the grammar of settings. -/
def settingTable : Table where
  grammar := setting
  first := { entries := [("S", SymbolSet.empty.insert (.terminal "let"))] }
  first_eq := rfl

theorem ofText_setting : Grammar.ofText "S -> let id = num" = .ok setting := rfl

/-- The items of a setting. -/
def settingItems : List Item := [.keyword "let", .identifier, .operator '=', .number]

theorem setting_expresses (before between left right behind word digits : List Char)
    (blank : ∀ gap ∈ [before, between, left, right, behind], ∀ c ∈ gap, Text.isBlank c) (apart : between ≠ [])
    (isWord : Item.identifier.SpelledBy setting word) (isNumber : Item.number.SpelledBy setting digits) :
    setting.Expresses settingItems (before ++ "let".toList ++
      (between ++ word ++ (left ++ ['='] ++ (right ++ digits ++ behind)))) := by
  simp only [List.forall_mem_cons] at blank
  obtain ⟨blankBefore, blankBetween, blankLeft, blankRight, blankBehind, _⟩ := blank
  obtain ⟨c, others, rfl⟩ := List.exists_cons_of_ne_nil apart
  refine .item blankBefore (by decide) (.item blankBetween isWord (.item blankLeft (by decide)
    (.item blankRight isNumber (.blanks blankBehind) (by simp)) ?_) ?_) ?_
  · simp [Item.RunsInto, Item.runClass?]
  · simp [Item.RunsInto, Item.runClass?]
  · exact fun _ _ _ => ⟨c, rfl, blankBetween c List.mem_cons_self⟩

/-- An identifier can begin like a keyword, and blanks stand where they like: both texts are accepted by the one rule. -/
theorem outcome_of_expresses_setting :
    (∀ g, Grammar.ofText "S -> let id = num" = .ok g →
      g.Expresses settingItems "let x=1".toList ∧ g.Expresses settingItems "  let\tletter =  640 ".toList) ∧
    Export.outcome "S -> let id = num" "let x=1" = Export.outcome "S -> let id = num" "  let\tletter =  640 " ∧
    Export.outcome "S -> let id = num" "let x=1" = "\x7b\"status\":\"accepted\",\"rules\":[1]\x7d" := by
  have expressed : ∀ g, Grammar.ofText "S -> let id = num" = .ok g →
      g.Expresses settingItems "let x=1".toList ∧ g.Expresses settingItems "  let\tletter =  640 ".toList := by
    intro g written
    obtain rfl := Except.ok.inj (ofText_setting.symm.trans written)
    exact ⟨setting_expresses [] [' '] [] [] [] ['x'] ['1'] (by decide) (by decide) (by decide) (by decide),
      setting_expresses [' ', ' '] ['\t'] [' '] [' ', ' '] [' '] "letter".toList "640".toList (by decide) (by decide)
        (by decide) (by decide)⟩
  obtain ⟨alike, outcome⟩ := outcome_of_expresses expressed
  exact ⟨expressed, alike, outcome setting { table := settingTable } ofText_setting rfl⟩

end Predictive
