import Predictive.Proofs.RuleLines

/-!
Rule lines as additions made one after another, and what of the lines these depend on. Reading declares the words that
are neither left sides nor the empty word; adding only the words that are not declared yet comes to the same
(`Grammar.foldlM_addUnknown`), so rule lines are the additions of their left sides, unknown words and numbered
alternatives in this order (`Grammar.declareRules_eq`). How alternatives of one left side are divided among lines makes
no difference: all that counts is the list of alternatives, each with its left side (`RuleLine.ofRules_congr`).
-/
namespace Predictive

namespace Grammar

/-- Declares a word of a right side as a terminal, unless it is declared already or spells the empty word. -/
def addUnknown (g : Grammar) (word : String) : Except Malformation Grammar :=
  if SpellsEpsilon word ∨ (g.symbol? word).isSome then .ok g else g.addTerminal word

/-- Adds the left sides of rules, the unknown words of their right sides, and their alternatives, numbered from 1. -/
def declareRules (first : RuleLine) (rest : List RuleLine) : Except Malformation Grammar := do
  let alternatives := RuleLine.alternativesOf (first :: rest)
  let named ← (RuleLine.lefts (first :: rest)).foldlM addNonTerminal { start := first.left }
  let known ← (alternatives.flatMap Prod.snd).foldlM addUnknown named
  (alternatives.zipIdx 1).foldlM (fun g (alternative, id) => g.addProduction alternative.1 alternative.2 id) known

variable {g : Grammar}

/-- Edits that must all succeed are additions in turn. -/
theorem editAll_map {α : Type} {request : α → Edit} {add : Grammar → α → Except Malformation Grammar}
    (settles : ∀ (g : Grammar) (item : α), g.edit (request item) = g.settle (add g item)) (items : List α) :
    g.editAll (items.map request) = items.foldlM add g := by
  induction items generalizing g with
  | nil => rfl
  | cons item rest ih =>
    rw [List.map_cons, editAll, settles, List.foldlM_cons]
    cases add g item with
    | error fault => rfl
    | ok next => exact ih

theorem addUnknown_eq (free : ∀ name ∈ g.terminals, ¬ Reserved name) {word : String} :
    g.addUnknown word = if SpellsEpsilon word ∨ word ∈ g.nonTerminals then .ok g else g.addTerminal word := by
  unfold addUnknown
  by_cases terminal : word ∈ g.terminals
  · -- The name of a terminal is accepted again, for it cannot be reserved.
    have same : g.addTerminal word = .ok g := by simp [addTerminal, free word terminal, symbol?, terminal]
    simp [symbol?, terminal, same]
  · by_cases nonTerminal : word ∈ g.nonTerminals <;> simp [symbol?, terminal, nonTerminal]

theorem foldlM_addUnknown (free : ∀ name ∈ g.terminals, ¬ Reserved name) (words : List String) :
    words.foldlM addUnknown g =
      (words.filter fun word => ¬ SpellsEpsilon word ∧ word ∉ g.nonTerminals).foldlM addTerminal g := by
  induction words generalizing g with
  | nil => rfl
  | cons word rest ih =>
    rw [List.foldlM_cons, addUnknown_eq free, List.filter_cons]
    by_cases skipped : SpellsEpsilon word ∨ word ∈ g.nonTerminals
    · rw [if_pos skipped, if_neg (by simpa [imp_iff_not_or] using skipped)]
      exact ih free
    · rw [if_neg skipped, if_pos (by simpa using skipped), List.foldlM_cons]
      cases added : g.addTerminal word with
      | error fault => rfl
      | ok next =>
        have declares : g.addName .terminal word = .ok next := added
        obtain rfl | ⟨notReserved, _, rfl⟩ := addName_eq_ok declares
        · exact ih free
        · refine ih fun name member => ?_
          rcases List.mem_append.mp member with old | new
          · exact free name old
          · exact List.mem_singleton.mp new ▸ notReserved

/-- With the left sides declared, the unknown words of right sides are the terminals of the rule lines. -/
theorem foldlM_addUnknown_words {rules : List RuleLine} {start : String} :
    ((RuleLine.alternativesOf rules).flatMap Prod.snd).foldlM addUnknown
        { start, nonTerminals := firstUses (RuleLine.lefts rules) } =
      (RuleLine.terminalWords rules).foldlM addTerminal
        { start, nonTerminals := firstUses (RuleLine.lefts rules) } := by
  rw [foldlM_addUnknown (by simp), List.filter_flatMap]
  simp only [mem_firstUses]
  rfl

theorem editAll_append_bind {front back : List Edit} :
    g.editAll (front ++ back) = g.editAll front >>= fun next => next.editAll back := by
  rw [editAll_append]
  cases g.editAll front <;> rfl

/-- Rule lines stand for the additions of their left sides, unknown words and alternatives, made in turn. -/
theorem declareRules_eq {first : RuleLine} {rest : List RuleLine} : declareRules first rest = ofRules first rest := by
  have nonTerminal : ∀ (g : Grammar) (name : String),
      g.edit (Kind.nonTerminal.edit name) = g.settle (g.addNonTerminal name) := fun _ _ => rfl
  have terminal : ∀ (g : Grammar) (name : String),
      g.edit (Kind.terminal.edit name) = g.settle (g.addTerminal name) := fun _ _ => rfl
  have production : ∀ (g : Grammar) (alternative : RuleLine.Alternative),
      g.edit alternative.edit = g.settle (g.addProduction alternative.left alternative.words alternative.id) :=
    fun _ _ => rfl
  have apart : ∀ name ∈ RuleLine.lefts (first :: rest),
      name ∉ ({ start := first.left } : Grammar).namesOf Kind.nonTerminal.other := by simp [Kind.other, namesOf]
  have named := editAll_names apart
  unfold declareRules ofRules build
  rw [RuleLine.edits_eq, editAll_append_bind, ← editAll_map nonTerminal, named]
  cases (RuleLine.lefts (first :: rest)).find? fun name => Reserved name with
  | some name => rfl
  | none =>
    simp only [editAll_append_bind, editAll_map terminal, editAll_map production, RuleLine.numbered,
      RuleLine.numberFrom, List.foldlM_map]
    exact congrFun (congrArg Except.bind foldlM_addUnknown_words) _

end Grammar

theorem find?_foldl_enrol {names seen : List String} {p : String → Bool} :
    (names.foldl enrol seen).find? p = (seen ++ names).find? p := by
  induction names generalizing seen with
  | nil => simp
  | cons name rest ih =>
    rw [List.foldl_cons, ih, enrol]
    split
    · next listed =>
      cases found : seen.find? p with
      | some _ => simp [found]
      | none => simp [found, List.find?_eq_none.mp found name listed]
    · simp

/-- The first name of some kind stands at its first use. -/
theorem find?_firstUses {names : List String} {p : String → Bool} : (firstUses names).find? p = names.find? p :=
  find?_foldl_enrol

namespace RuleLine

variable {rules others : List RuleLine}

section
variable (filled : ∀ rule ∈ rules, rule.alternatives ≠ []) (filledOthers : ∀ rule ∈ others, rule.alternatives ≠ [])
  (same : alternativesOf rules = alternativesOf others)
include filled filledOthers same

theorem firstUses_lefts_congr : firstUses (lefts rules) = firstUses (lefts others) := by
  rw [← firstUses_fst_alternativesOf filled, ← firstUses_fst_alternativesOf filledOthers, same]

theorem mem_lefts_congr {name : String} : name ∈ lefts rules ↔ name ∈ lefts others := by
  rw [← mem_firstUses, firstUses_lefts_congr filled filledOthers same, mem_firstUses]

theorem terminalWords_congr : terminalWords rules = terminalWords others := by
  have sameLefts : ∀ word, word ∈ rules.map RuleLine.left ↔ word ∈ others.map RuleLine.left :=
    fun _ => mem_lefts_congr filled filledOthers same
  simp only [terminalWords, same, sameLefts]

theorem fault?_congr : fault? rules = fault? others := by
  have sameNames : (names rules).find? (fun name => Reserved name) =
      (names others).find? fun name => Reserved name := by
    have sameLefts := firstUses_lefts_congr filled filledOthers same
    rw [names, names, List.find?_append, List.find?_append, terminalWords_congr filled filledOthers same,
      ← find?_firstUses, sameLefts, find?_firstUses]
  unfold fault? numbered
  rw [sameNames, same]

theorem grammar_congr (start : String) : grammar start rules = grammar start others := by
  have sameLefts : ∀ word, word ∈ lefts rules ↔ word ∈ lefts others :=
    fun _ => mem_lefts_congr filled filledOthers same
  have sameProductions : Alternative.production rules = Alternative.production others := by
    funext alternative
    have sameSymbols : symbolOf rules = symbolOf others := by
      funext word
      simp only [symbolOf, sameLefts]
    rw [Alternative.production, Alternative.production, sameSymbols]
  unfold grammar numbered
  rw [terminalWords_congr filled filledOthers same, firstUses_lefts_congr filled filledOthers same, sameProductions,
    same]

end

/-- Rule lines with the same alternatives, however divided, declare the same. -/
theorem ofRules_congr {first other : RuleLine} {rest others : List RuleLine}
    (filled : ∀ rule ∈ first :: rest, rule.alternatives ≠ [])
    (filledOthers : ∀ rule ∈ other :: others, rule.alternatives ≠ [])
    (same : alternativesOf (first :: rest) = alternativesOf (other :: others)) :
    Grammar.ofRules first rest = Grammar.ofRules other others := by
  have sameStart : first.left = other.left := by
    obtain ⟨words, more, split⟩ := List.exists_cons_of_ne_nil (filled first List.mem_cons_self)
    obtain ⟨wordsOther, moreOthers, splitOther⟩ := List.exists_cons_of_ne_nil (filledOthers other List.mem_cons_self)
    rw [alternativesOf_cons, alternativesOf_cons, split, splitOther] at same
    exact congrArg Prod.fst (List.cons.inj same).1
  rw [ofRules_eq, ofRules_eq, fault?_congr filled filledOthers same, grammar_congr filled filledOthers same, sameStart]

end RuleLine

end Predictive
