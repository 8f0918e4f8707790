import Predictive.Proofs.Items

/-!
Terminals as expressions. A terminal that is a run of letters or a single visible character can be written as a token,
and a list of such terminals as an expression with spaces between them. The lexer of the grammar reads all of them as
themselves but the digits, which are read as numbers (`read_terminals`).
-/
namespace Predictive

/-- An expression can have the terminal as a token: it is one visible character, or a run of letters that does not
    stand for numbers or identifiers. -/
def Spellable (name : String) : Prop :=
  name.length = 1 ∧ (∀ c ∈ name.toList, Text.isBlank c = false) ∨
    name ≠ "" ∧ (∀ c ∈ name.toList, c.isAlpha) ∧ name ≠ numberTerminal ∧ name ≠ identifierTerminal

instance (name : String) : Decidable (Spellable name) := inferInstanceAs (Decidable (_ ∨ _))

/-- The name is a run of digits. -/
def InDigits (name : String) : Prop := name ≠ "" ∧ ∀ c ∈ name.toList, c.isDigit

instance (name : String) : Decidable (InDigits name) := inferInstanceAs (Decidable (_ ∧ _))

/-- The terminal that a spelled terminal is read as. -/
def readAs (name : String) : String := if InDigits name then numberTerminal else name

theorem readAs_eq_self {name : String} : readAs name = name ↔ ¬ InDigits name := by
  unfold readAs
  by_cases digits : InDigits name
  · have different : numberTerminal ≠ name := by
      rintro rfl
      exact absurd digits (by decide)
    simp [digits, different]
  · simp [digits]

theorem map_readAs_eq_self {names : List String} : names.map readAs = names ↔ ∀ name ∈ names, ¬ InDigits name := by
  have pointwise : names.map readAs = names ↔ ∀ name ∈ names, readAs name = name := by
    rw [← List.map_inj_left, List.map_id']
  simp only [pointwise, readAs_eq_self]

theorem isWord_of_letters {name : String} (nonempty : name ≠ "") (letters : ∀ c ∈ name.toList, c.isAlpha) :
    Text.IsWord name.toList :=
  ⟨by simpa using nonempty, fun c inside =>
    RunClass.not_isBlank_of_holds (show RunClass.letter.holds c from letters c inside)⟩

theorem not_inDigits_of_letters {name : String} (letters : ∀ c ∈ name.toList, c.isAlpha) : ¬ InDigits name := by
  rintro ⟨nonempty, digits⟩
  obtain ⟨c, rest, same⟩ := List.exists_cons_of_ne_nil (show name.toList ≠ [] by simpa using nonempty)
  have inside : c ∈ name.toList := by simp [same]
  have letter : RunClass.letter.holds c := letters c inside
  have digit : RunClass.digit.holds c := digits c inside
  cases RunClass.eq_of_holds letter digit

/-- A terminal that can be a token spells an item. Only a digit spells one that stands for something else. -/
theorem exists_item {g : Grammar} {name : String} (declared : name ∈ g.terminals) (spellable : Spellable name) :
    ∃ item : Item, item.SpelledBy g name.toList ∧ item.terminal = readAs name ∧
      Text.IsWord item.terminal.toList := by
  have keyword : name ≠ "" → (∀ c ∈ name.toList, c.isAlpha) → name ≠ numberTerminal → name ≠ identifierTerminal →
      ∃ item : Item, item.SpelledBy g name.toList ∧ item.terminal = readAs name ∧ Text.IsWord item.terminal.toList :=
    fun nonempty letters noNumber noIdentifier =>
      ⟨.keyword name, ⟨rfl, declared, letters, noNumber, noIdentifier⟩,
        (readAs_eq_self.mpr (not_inDigits_of_letters letters)).symm, isWord_of_letters nonempty letters⟩
  rcases spellable with ⟨single, visible⟩ | ⟨nonempty, letters, noNumber, noIdentifier⟩
  · obtain ⟨c, spelling⟩ := List.length_eq_one_iff.mp (String.length_toList.trans single)
    obtain rfl : name = String.singleton c := String.toList_inj.mp (by simpa using spelling)
    by_cases digit : c.isDigit
    · have digits : InDigits (String.singleton c) := ⟨by simp, by simpa using digit⟩
      exact ⟨.number, ⟨by simp, digits.2⟩, (if_pos digits).symm, ⟨by decide, by decide⟩⟩
    by_cases letter : c.isAlpha
    · have longer : ∀ other : String, other.length ≠ 1 → String.singleton c ≠ other := by
        rintro other several rfl
        exact several single
      exact keyword (by simp) (by simpa using letter) (longer _ (by decide)) (longer _ (by decide))
    · have noDigits : ¬ InDigits (String.singleton c) := fun digits => digit (by simpa using digits.2)
      exact ⟨.operator c, ⟨spelling, declared, by simpa using letter, by simpa using digit⟩,
        (readAs_eq_self.mpr noDigits).symm, ⟨by simp [Item.terminal], visible⟩⟩
  · exact keyword nonempty letters noNumber noIdentifier

theorem Grammar.Expresses.behind_blank {g : Grammar} {items : List Item} {text : List Char} {c : Char}
    (blank : Text.isBlank c) (expressed : g.Expresses items text) : g.Expresses items (c :: text) := by
  cases expressed with
  | blanks gap => exact .blanks (List.forall_mem_cons.mpr ⟨blank, gap⟩)
  | item gap spelled later apart => exact .item (List.forall_mem_cons.mpr ⟨blank, gap⟩) spelled later apart

/-- Terminals that can be tokens express items with spaces between them. -/
theorem exists_items {g : Grammar} {names : List String} (declared : ∀ name ∈ names, name ∈ g.terminals)
    (spellable : ∀ name ∈ names, Spellable name) :
    ∃ items : List Item, g.Expresses items ([' '].intercalate (names.map String.toList)) ∧
      items.map Item.terminal = names.map readAs ∧ ∀ item ∈ items, Text.IsWord item.terminal.toList := by
  induction names with
  | nil => exact ⟨[], .blanks (by simp), rfl, by simp⟩
  | cons name rest ih =>
    obtain ⟨declaredFirst, declaredRest⟩ := List.forall_mem_cons.mp declared
    obtain ⟨spellableFirst, spellableRest⟩ := List.forall_mem_cons.mp spellable
    obtain ⟨items, expressed, terminals, solid⟩ := ih declaredRest spellableRest
    obtain ⟨item, spelled, terminal, isWord⟩ := exists_item declaredFirst spellableFirst
    refine ⟨item :: items, ?_, by simp [terminal, terminals], List.forall_mem_cons.mpr ⟨isWord, solid⟩⟩
    cases rest with
    | nil =>
      obtain rfl : items = [] := by simpa using terminals
      have alone : g.Expresses [item] ([] ++ name.toList ++ []) :=
        .item (by simp) spelled (.blanks (by simp)) (by simp)
      simpa using alone
    | cons second others =>
      have separated := expressed.behind_blank (show Text.isBlank ' ' by decide)
      have behind : g.Expresses (item :: items)
          ([] ++ name.toList ++ ' ' :: [' '].intercalate ((second :: others).map String.toList)) :=
        .item (by simp) spelled separated fun _ _ _ => ⟨' ', rfl, by decide⟩
      simpa [List.intercalate_cons_cons] using behind

/-- The lexer of a grammar reads terminals with spaces between them, of those that can be tokens, as they are written,
    except that it reads digits as numbers. So a list without digits is translated as it is. -/
theorem read_terminals (g : Grammar) {names : List String} (declared : ∀ name ∈ names, name ∈ g.terminals)
    (spellable : ∀ name ∈ names, Spellable name) :
    (∃ tokenization, (Lexer.ofGrammar g).tokenize (" ".intercalate names) = .ok tokenization ∧
      (Lexer.ofGrammar g).normalize tokenization.tokens = names.map readAs) ∧
    (names.map readAs = names ↔ ∀ name ∈ names, ¬ InDigits name) ∧
    ∀ text translator, Grammar.ofText text = .ok g → Translator.ofGrammar g = .ok translator →
      Export.outcome text (" ".intercalate names) =
        Export.jsonResult Report.Outcome.json (translator.translate (names.map readAs)) := by
  obtain ⟨items, expressed, terminals, solid⟩ := exists_items declared spellable
  have joined : (" ".intercalate names).toList = [' '].intercalate (names.map String.toList) :=
    String.toList_intercalate
  have read : (Lexer.ofGrammar g).read (" ".intercalate names) = .ok (names.map readAs) := by
    rw [← joined] at expressed
    rw [← terminals]
    exact expressed.read solid
  refine ⟨Lexer.exists_tokenize read, map_readAs_eq_self, fun text translator written made => ?_⟩
  rw [Export.outcome, Export.outcomeOf_eq written made read]

/-- The parentheses and operands of an expression are read as themselves. -/
theorem read_terminals_parentheses :
    (∀ name ∈ ["(", "a", "+", "a", ")"], name ∈ Grammar.expression.terminals) ∧
    (∀ name ∈ ["(", "a", "+", "a", ")"], Spellable name) ∧
    (∃ tokenization, (Lexer.ofGrammar .expression).tokenize "( a + a )" = .ok tokenization ∧
      (Lexer.ofGrammar .expression).normalize tokenization.tokens = ["(", "a", "+", "a", ")"]) ∧
    Export.outcome Grammar.expressionText "( a + a )" =
      "\x7b\"status\":\"accepted\",\"rules\":[1,5,9,1,5,10,8,2,5,10,8,4,8,4]\x7d" := by
  have declared : ∀ name ∈ ["(", "a", "+", "a", ")"], name ∈ Grammar.expression.terminals := by decide
  have spellable : ∀ name ∈ ["(", "a", "+", "a", ")"], Spellable name := by decide
  obtain ⟨read, _, translated⟩ := read_terminals .expression declared spellable
  have made : Translator.ofGrammar .expression = .ok { table := expressionTable } := rfl
  exact ⟨declared, spellable, read, translated _ _ Grammar.ofText_expressionText made⟩

/-- The grammar of the single digit seven. -/
def seven : Grammar where
  start := "S"
  terminals := ["7"]
  nonTerminals := ["S"]
  productions := [{ id := 1, left := "S", right := [.terminal "7"] }]

/-- The table of the grammar of the digit seven. -/
def sevenTable : Table where
  grammar := seven
  first := { entries := [("S", SymbolSet.empty.insert (.terminal "7"))] }
  first_eq := rfl

/-- A digit is not read as itself, although it is a terminal of one visible character: the grammar generates it, but
    not from an expression. -/
theorem read_digit_as_number :
    Grammar.ofText "S -> 7" = .ok seven ∧ "7" ∈ seven.terminals ∧ Spellable "7" ∧
    (Lexer.ofGrammar seven).read (" ".intercalate ["7"]) = .ok ["num"] ∧
    Translator.ofGrammar seven = .ok { table := sevenTable } ∧
    ({ table := sevenTable } : Translator).translate ["7"] = .ok (.accepted [1]) ∧
    Export.outcome "S -> 7" (" ".intercalate ["7"]) =
      "\x7b\"status\":\"rejected\",\"stack_top\":\"S\",\"lookahead\":\"num\",\"reason\":\"unknown_token\"\x7d" := by
  have written : Grammar.ofText "S -> 7" = .ok seven := rfl
  have made : Translator.ofGrammar seven = .ok { table := sevenTable } := rfl
  have expressed : seven.Expresses [.number] ([] ++ ['7'] ++ []) :=
    .item (by decide) (by decide) (.blanks (by decide)) (by decide)
  have solid := expressed.isWord_terminal (Grammar.isWord_of_ofText written)
  have read : (Lexer.ofGrammar seven).read "7" = .ok ["num"] := Grammar.Expresses.read expressed solid
  refine ⟨written, by decide, by decide, read, made, rfl, ?_⟩
  show Export.outcome "S -> 7" "7" = _
  rw [Export.outcome, Export.outcomeOf_eq written made read]
  rfl

end Predictive
