import Predictive.Proofs.RuleLines

/-!
Printed grammars are read back. The productions of a grammar that was read from a text are printed one to a line, each
with its left side, so alternatives that shared a line or continued one stand on lines of their own, and the empty
word is spelled one way. Each printed line is read as the rule line that it stands for (`read_ruleText`), so the
printed text has the rule lines `printed rules` where the first text had `rules` (`writtenRules_toText`); and both
amount to the same grammar, with the same names in the same order and the same numbers (`grammar_printed`).
-/
namespace Predictive

namespace RuleLine

/-- The written form of a word, where the empty word is spelled one way. -/
def respell (word : String) : String := if SpellsEpsilon word then "ε" else word

/-- What stands behind the arrow of a rule. -/
def behindArrow (words : List String) : List Char := ' ' :: [' '].intercalate (words.map String.toList)

/-- A rule as a line of text. -/
def ruleText (left : String) (words : List String) : String := left ++ " -> " ++ " ".intercalate words

/-- The rule lines as they are printed: one for each alternative. -/
def printed (rules : List RuleLine) : List RuleLine :=
  (alternativesOf rules).map fun alternative =>
    { left := alternative.1, alternatives := [alternative.2.map respell] }

variable {rules : List RuleLine} {left : String} {words : List String}

/-! ### Lines of single rules -/

theorem toList_ruleText : (ruleText left words).toList = (left.toList ++ [' ']) ++ '-' :: '>' :: behindArrow words := by
  have arrow : " -> ".toList = [' ', '-', '>', ' '] := rfl
  have space : " ".toList = [' '] := rfl
  simp [ruleText, behindArrow, String.toList_intercalate, arrow, space]

theorem text_production (alternative : Alternative) : (alternative.production rules).text =
    ruleText alternative.left (alternative.words.map respell) := by
  have names : ∀ word, (symbolOf rules word).name = respell word := by
    intro word
    unfold symbolOf respell
    split
    · rfl
    · split <;> rfl
  simp [Production.text, Production.rightText, Alternative.production, ruleText, Function.comp_def, names]

section
variable (legible : ∀ word ∈ words, WritableRight word)
include legible

theorem arrowFree_behindArrow : ArrowFree (behindArrow words) := by
  have free : ∀ word ∈ words.map String.toList, ArrowFree word :=
    List.forall_mem_map.mpr fun word member => (legible word member).arrowFree
  exact arrowFree_nil.join (arrowFree_intercalate (by decide) (by decide) free) (by decide) (by decide)

theorem readAlternatives_behindArrow : readAlternatives (behindArrow words) = [words] := by
  have barFree : '|' ∉ behindArrow words := by
    intro bar
    rcases List.mem_cons.mp bar with same | later
    · contradiction
    · obtain same | ⟨part, listed, inside⟩ := Text.mem_intercalate later
      · exact absurd same (by decide)
      · obtain ⟨word, member, rfl⟩ := List.mem_map.mp listed
        exact (legible word member).barFree inside
  have areWords : ∀ word ∈ words.map String.toList, Text.IsWord word :=
    List.forall_mem_map.mpr fun word member => (legible word member).isWord
  have readWords : Text.words (behindArrow words) = words.map String.toList := by
    rw [behindArrow, ← List.nil_append (' ' :: _), Text.words_append_blank (by decide),
      Text.words_intercalate areWords]
    rfl
  rw [readAlternatives, List.splitOn_eq_singleton barFree, List.map_singleton, readWords, List.map_map]
  simp

variable (writable : Writable left)
include writable

theorem read_ruleText (above : Option String) :
    read above (ruleText left words).toList = .ok { left, alternatives := [words] } := by
  have leftFree : ArrowFree (left.toList ++ [' ']) := writable.arrowFree.join arrowFree_nil (by decide) (by decide)
  have pieces : splitArrows (ruleText left words).toList = [left.toList ++ [' '], behindArrow words] := by
    rw [toList_ruleText, splitArrows_append_arrow leftFree, splitArrows_of_arrowFree (arrowFree_behindArrow legible)]
  have leftWords : Text.words (left.toList ++ [' ']) = [left.toList] := by
    rw [Text.words_append_blank (by decide), writable.isWord.words_eq]
    rfl
  simp only [read, pieces, leftWords, readAlternatives_behindArrow legible, String.ofList_toList]

/-- The only blanks of a printed line are spaces. -/
theorem eq_space_of_isBlank {c : Char} (member : c ∈ (ruleText left words).toList) (blank : Text.isBlank c) :
    c = ' ' := by
  have solid : ∀ word, Text.IsWord word → c ∉ word := fun word isWord inside => by
    simp [isWord.not_blank c inside] at blank
  rw [toList_ruleText] at member
  simp only [behindArrow, List.mem_append, List.mem_cons, List.not_mem_nil, or_false] at member
  rcases member with (inLeft | space) | dash | tip | space | inRight
  · exact absurd inLeft (solid _ writable.isWord)
  · exact space
  · subst dash; contradiction
  · subst tip; contradiction
  · exact space
  · obtain same | ⟨part, listed, inside⟩ := Text.mem_intercalate inRight
    · exact List.mem_singleton.mp same
    · obtain ⟨word, member, rfl⟩ := List.mem_map.mp listed
      exact absurd inside (solid _ (legible word member).isWord)

theorem isLine_ruleText : Text.IsLine (ruleText left words).toList where
  ne_nil := by simp [toList_ruleText]
  unbroken feed := absurd (eq_space_of_isBlank legible writable feed (by decide)) (by decide)
  no_return last :=
    absurd (eq_space_of_isBlank legible writable (List.mem_of_getLast? last) (by decide)) (by decide)

end

/-! ### All lines -/

/-- Printed lines of legible rules are read one by one. -/
theorem readAll_ruleTexts {alternatives : List (String × List String)}
    (legible : ∀ alternative ∈ alternatives, Writable alternative.1 ∧ ∀ word ∈ alternative.2, WritableRight word)
    (number : Nat) (above : Option String) :
    readAll number above (alternatives.map fun alternative => (ruleText alternative.1 alternative.2).toList) =
      .ok (alternatives.map fun alternative => { left := alternative.1, alternatives := [alternative.2] }) := by
  induction alternatives generalizing number above with
  | nil => rfl
  | cons first rest ih =>
    obtain ⟨⟨writable, words⟩, later⟩ := List.forall_mem_cons.mp legible
    have dash : '-' ∈ (ruleText first.1 first.2).toList := by simp [toList_ruleText]
    have notBlank : ¬ (ruleText first.1 first.2).toList.all Text.isBlank := fun blank =>
      absurd (List.all_eq_true.mp blank '-' dash) (by decide)
    rw [List.map_cons, readAll, if_neg notBlank, read_ruleText words writable, List.map_cons]
    simp only [ih later]
    rfl

/-! ### The printed grammar -/

/-- The alternative with its words as they are printed. -/
def Alternative.respelled (alternative : Alternative) : Alternative :=
  { alternative with words := alternative.words.map respell }

@[simp] theorem spellsEpsilon_respell {word : String} : SpellsEpsilon (respell word) ↔ SpellsEpsilon word := by
  unfold respell
  split
  · next empty => exact iff_of_true (.inr rfl) empty
  · rfl

theorem respell_of_not_spellsEpsilon {word : String} (filled : ¬ SpellsEpsilon word) : respell word = word :=
  if_neg filled

theorem fault?_respelled (alternative : Alternative) : alternative.respelled.fault? = alternative.fault? := by
  simp [Alternative.fault?, Alternative.respelled]

theorem numberFrom_respelled {number : Nat} {alternatives : List (String × List String)} :
    numberFrom number (alternatives.map fun alternative => (alternative.1, alternative.2.map respell)) =
      (numberFrom number alternatives).map Alternative.respelled := by
  induction alternatives generalizing number with
  | nil => rfl
  | cons first rest ih => rw [List.map_cons, numberFrom_cons, ih, numberFrom_cons, List.map_cons]; rfl

theorem alternativesOf_printed : alternativesOf (printed rules) =
    (alternativesOf rules).map fun alternative => (alternative.1, alternative.2.map respell) := by
  rw [printed, alternativesOf, List.flatMap_map]
  exact List.flatMap_pure_eq_map _ _

theorem lefts_printed : lefts (printed rules) = (alternativesOf rules).map Prod.fst := by
  simp [lefts, printed]

/-- The first printed line has the first left side. -/
theorem printed_eq_cons {first : RuleLine} (rest : List RuleLine) (filled : first.alternatives ≠ []) :
    ∃ words others, printed (first :: rest) = { left := first.left, alternatives := [words] } :: others := by
  obtain ⟨words, others, split⟩ := List.exists_cons_of_ne_nil filled
  exact ⟨words.map respell, _, by rw [printed, alternativesOf, List.flatMap_cons, split]; rfl⟩

section
variable (filled : ∀ rule ∈ rules, rule.alternatives ≠ [])
include filled

theorem firstUses_lefts_printed : firstUses (lefts (printed rules)) = firstUses (lefts rules) := by
  rw [lefts_printed, firstUses_fst_alternativesOf filled]

theorem mem_lefts_printed {name : String} : name ∈ lefts (printed rules) ↔ name ∈ lefts rules := by
  rw [← mem_firstUses, firstUses_lefts_printed filled, mem_firstUses]

theorem terminalWords_printed : terminalWords (printed rules) = terminalWords rules := by
  have sameWords : ∀ words : List String,
      (words.map respell).filter (fun word => ¬ SpellsEpsilon word ∧ word ∉ lefts (printed rules)) =
        words.filter fun word => ¬ SpellsEpsilon word ∧ word ∉ lefts rules := by
    intro words
    induction words with
    | nil => rfl
    | cons word rest ih =>
      rw [List.map_cons, List.filter_cons, List.filter_cons, ih]
      by_cases empty : SpellsEpsilon word
      · simp [empty]
      · simp [respell_of_not_spellsEpsilon empty, mem_lefts_printed filled]
  unfold terminalWords
  rw [alternativesOf_printed, List.flatMap_map]
  exact congrArg (List.flatMap · (alternativesOf rules)) (funext fun alternative => sameWords alternative.2)

theorem production_respelled (alternative : Alternative) :
    alternative.respelled.production (printed rules) = alternative.production rules := by
  have sameSymbol : ∀ word, symbolOf (printed rules) (respell word) = symbolOf rules word := by
    intro word
    by_cases empty : SpellsEpsilon word
    · simp [symbolOf, empty]
    · simp [symbolOf, respell_of_not_spellsEpsilon empty, mem_lefts_printed filled]
  simp [Alternative.production, Alternative.respelled, Function.comp_def, sameSymbol]

theorem grammar_printed (start : String) : grammar start (printed rules) = grammar start rules := by
  have productions : (numbered (printed rules)).map (Alternative.production (printed rules)) =
      (numbered rules).map (Alternative.production rules) := by
    rw [numbered, alternativesOf_printed, numberFrom_respelled, List.map_map]
    exact congrArg (List.map · _) (funext (production_respelled filled))
  unfold grammar
  rw [terminalWords_printed filled, productions, firstUses_lefts_printed filled]

theorem fault?_printed (faultless : fault? rules = none) : fault? (printed rules) = none := by
  have sameNames : ∀ name, name ∈ names (printed rules) ↔ name ∈ names rules := by
    intro name
    simp only [names, List.mem_append, mem_lefts_printed filled, terminalWords_printed filled]
  have sameFaults : (numbered (printed rules)).findSome? Alternative.fault? =
      (numbered rules).findSome? Alternative.fault? := by
    rw [numbered, alternativesOf_printed, numberFrom_respelled, List.findSome?_map]
    exact congrArg (List.findSome? · _) (funext fault?_respelled)
  unfold fault? at faultless ⊢
  split at faultless
  · contradiction
  · next free =>
    have freePrinted : (names (printed rules)).find? (fun name => Reserved name) = none :=
      List.find?_eq_none.mpr fun name member => List.find?_eq_none.mp free name ((sameNames name).mp member)
    rw [freePrinted, sameFaults]
    exact faultless

end

/-! ### The printed text -/

theorem texts_grammar (start : String) : (grammar start rules).productions.map Production.text =
    (alternativesOf rules).map fun alternative => ruleText alternative.1 (alternative.2.map respell) := by
  rw [← map_numberFrom 1 (alternativesOf rules), List.map_map, grammar, List.map_map]
  exact congrArg (List.map · _) (funext text_production)

theorem writableRight_epsilon : WritableRight "ε" := by
  have letters : "ε".toList = ['ε'] := rfl
  refine ⟨⟨⟨?_, ?_⟩, ?_⟩, ?_⟩ <;> rw [letters]
  · exact List.cons_ne_nil 'ε' []
  · exact List.forall_mem_singleton.mpr (by decide)
  · exact fun arrow => absurd arrow.length_le (by decide)
  · simp

theorem writableRight_respell {word : String} (writable : WritableRight word) : WritableRight (respell word) := by
  unfold respell
  split
  · exact writableRight_epsilon
  · exact writable

/-- What is printed, with or without a line feed at its end, has the printed rule lines. -/
theorem writtenRules_toText (legible : ∀ rule ∈ rules, rule.Legible) (nonempty : alternativesOf rules ≠ [])
    (start : String) : WrittenRules (grammar start rules).toText (printed rules) ∧
      WrittenRules ((grammar start rules).toText ++ "\n") (printed rules) := by
  have respelled : ∀ alternative ∈ (alternativesOf rules).map fun alternative =>
      (alternative.1, alternative.2.map respell),
      Writable alternative.1 ∧ ∀ word ∈ alternative.2, WritableRight word := by
    refine List.forall_mem_map.mpr fun alternative listed => ?_
    obtain ⟨rule, written, words, given, rfl⟩ : ∃ rule ∈ rules, ∃ words ∈ rule.alternatives,
        (rule.left, words) = alternative := by simpa [alternativesOf] using listed
    exact ⟨(legible rule written).left, List.forall_mem_map.mpr fun word member =>
      writableRight_respell ((legible rule written).words words given word member)⟩
  have areLines : ∀ line ∈ ((grammar start rules).productions.map Production.text).map String.toList,
      Text.IsLine line := by
    rw [texts_grammar]
    refine List.forall_mem_map.mpr (List.forall_mem_map.mpr fun alternative listed => ?_)
    obtain ⟨writable, words⟩ := respelled _ (List.mem_map_of_mem listed)
    exact isLine_ruleText words writable
  have readBack : readAll 1 none (((grammar start rules).productions.map Production.text).map String.toList) =
      .ok (printed rules) := by
    have read := readAll_ruleTexts respelled 1 none
    rw [List.map_map, List.map_map] at read
    rw [texts_grammar, List.map_map]
    exact read
  have feed : "\n".toList = ['\n'] := rfl
  constructor
  · unfold WrittenRules Grammar.toText
    rw [String.toList_intercalate, feed, Text.lines_intercalate areLines, readBack]
  · have ended : (grammar start rules).toText ++ "\n" =
        "\n".intercalate ((grammar start rules).productions.map Production.text ++ [""]) := by
      rw [String.intercalate_append_of_ne_nil (by simpa [texts_grammar] using nonempty) (by simp)]
      simp [Grammar.toText]
    unfold WrittenRules
    rw [ended, String.toList_intercalate, feed, List.map_append, List.map_singleton, String.toList_empty,
      Text.lines_intercalate_ended areLines, readBack]

end RuleLine

/-- A grammar that was read from a text is read from its printed productions again. These are all its productions, each
    once, in the order of their numbers. -/
theorem Grammar.ofText_toText {text : String} {g : Grammar} (read : ofText text = .ok g) :
    g.productions.Perm g.groupedProductions ∧ (g.productions.map Production.id).Pairwise (· < ·) ∧
      ofText g.toText = .ok g ∧ ofText (g.toText ++ "\n") = .ok g := by
  have wellFormed := (Built.written read).wellFormed
  obtain ⟨first, rest, written, faultless, rfl⟩ := RuleLine.ofText_eq_ok_iff.mp read
  have reads := RuleLine.reads_of_readAll written
  have filled := reads.alternatives_ne_nil
  obtain ⟨words, others, begins⟩ := RuleLine.printed_eq_cons rest (filled first List.mem_cons_self)
  have faultlessPrinted := RuleLine.fault?_printed filled faultless
  have samePrinted := RuleLine.grammar_printed filled first.left
  have nonempty : RuleLine.alternativesOf (first :: rest) ≠ [] := fun none => by simp [RuleLine.printed, none] at begins
  obtain ⟨printedRules, endedRules⟩ :=
    RuleLine.writtenRules_toText (reads.legible (by simp)) nonempty first.left
  rw [begins] at faultlessPrinted samePrinted printedRules endedRules
  refine ⟨?_, ?_, ?_, ?_⟩
  · exact (List.perm_ext_iff_of_nodup wellFormed.ids_nodup.of_map wellFormed.grouped_ids_nodup.of_map).mpr
      fun production => wellFormed.mem_groupedProductions.symm
  · rw [RuleLine.ids_grammar]
    exact List.pairwise_lt_range'
  · exact RuleLine.ofText_eq_ok_iff.mpr ⟨_, _, printedRules, faultlessPrinted, samePrinted⟩
  · exact RuleLine.ofText_eq_ok_iff.mpr ⟨_, _, endedRules, faultlessPrinted, samePrinted⟩

/-- A grammar whose text gives one left side its alternatives on lines apart, with names that look like other parts of
    a line. -/
def Grammar.interleaved : Grammar where
  start := "|a"
  terminals := ["b-", "y", "x"]
  nonTerminals := ["|a", ">c"]
  productions := [
    { id := 1, left := "|a", right := [.terminal "b-", .nonTerminal ">c"] },
    { id := 2, left := "|a", right := [.epsilon] },
    { id := 3, left := "|a", right := [.terminal "y"] },
    { id := 4, left := ">c", right := [.terminal "x"] },
    { id := 5, left := "|a", right := [.epsilon] }]

theorem Grammar.ofText_toText_interleaved :
    ofText "|a -> b- >c | e\r\n  | y\n\n>c -> x\n|a -> ε" = .ok interleaved ∧
      interleaved.toText = "|a -> b- >c\n|a -> ε\n|a -> y\n>c -> x\n|a -> ε" ∧
      ofText interleaved.toText = .ok interleaved := by
  have read : ofText "|a -> b- >c | e\r\n  | y\n\n>c -> x\n|a -> ε" = .ok interleaved := rfl
  exact ⟨read, rfl, (ofText_toText read).2.2.1⟩

end Predictive
