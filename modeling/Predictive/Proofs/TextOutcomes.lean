import Predictive.Proofs.Alternatives
import Predictive.Proofs.RuleLines

/-!
What can come of a text. Of all causes for which declarations are refused, only four are left to a text, and each is
found in what is written there. A text that is not refused yields a grammar whose non-terminals are the left sides
written, whose rules are numbered without a gap, and which is usable, so that only a cycle of heads can keep it from
having a table (`ofText_outcome`).
-/
namespace Predictive

/-- The left sides that are written in a text, from top to bottom. -/
def writtenLefts (text : String) : List String := (Text.lines text.toList).filterMap RuleLine.writtenLeft?

/-- What a text can be refused for, with what must then be written in it. -/
def Malformation.FoundIn (text : String) : Malformation → Prop
  | line _ _ => ∀ rules, WrittenRules text rules → rules = []
  | reservedName name => ∃ rules, WrittenRules text rules ∧ name ∈ RuleLine.names rules ∧ Reserved name
  | emptyRule id => ∃ rules, WrittenRules text rules ∧
    ∃ alternative ∈ RuleLine.numbered rules, alternative.id = id ∧ alternative.words = []
  | misplacedEpsilon id => ∃ rules, WrittenRules text rules ∧
    ∃ alternative ∈ RuleLine.numbered rules, alternative.id = id ∧
      1 < alternative.words.length ∧ ∃ word ∈ alternative.words, SpellsEpsilon word
  | _ => False

namespace Grammar

/-- The table of the grammar can be built and has a production wherever one is called for, or a cycle of heads is the
    only reason why it cannot be built. -/
def HasTableOrCycle (g : Grammar) : Prop :=
  match Table.ofGrammar g with
  | .ok table => table.grammar = g ∧ ∀ name symbol, table.first.Contains name symbol →
    ∃ production chain, g.findChain? table.first name symbol = some (production :: chain)
  | .error (.headCycle _) => True
  | .error _ => False

/-- What holds of a grammar that was read from a text. -/
structure WrittenIn (text : String) (g : Grammar) : Prop where
  /-- The non-terminals are the left sides written, each once, in the order of their first lines. -/
  nonTerminals : g.nonTerminals = firstUses (writtenLefts text)
  start : (writtenLefts text).head? = some g.start
  produced : ∀ name ∈ g.nonTerminals, g.productionsOf name ≠ []
  /-- The productions are the written alternatives, in the order in which they are written. -/
  productions : ∃ rules, WrittenRules text rules ∧
    g.productions = (RuleLine.numbered rules).map (RuleLine.Alternative.production rules)
  ids : g.productions.map Production.id = List.range' 1 g.productions.length
  valid : g.fault? = none
  table : g.HasTableOrCycle

theorem WellFormed.usable {g : Grammar} (wellFormed : g.WellFormed) (declared : g.start ∈ g.nonTerminals)
    (produced : ∀ name ∈ g.nonTerminals, g.productionsOf name ≠ []) : g.Usable := by
  refine ⟨declared, fun name needed => produced name ?_⟩
  rcases List.mem_cons.mp needed with rfl | inside
  · exact declared
  · obtain ⟨production, listed, mentioned⟩ := List.mem_flatMap.mp inside
    obtain ⟨symbol, member, isNonTerminal⟩ := List.mem_filterMap.mp mentioned
    obtain rfl := Symbol.nonTerminal?_eq_some.mp isNonTerminal
    rcases wellFormed.right_declared (wellFormed.mem_groupedProductions.mp listed) member with empty | known
    · contradiction
    · exact known

theorem hasTableOrCycle {g : Grammar} (wellFormed : g.WellFormed) (valid : g.fault? = none) : g.HasTableOrCycle := by
  unfold HasTableOrCycle
  split
  · next table made =>
    obtain rfl := Table.ofGrammar_eq_ok made
    refine ⟨rfl, fun name symbol contained => ?_⟩
    obtain ⟨production, taken⟩ := Option.isSome_iff_exists.mp ((Table.alternative?_isSome wellFormed).mpr contained)
    have head : (table.grammar.findChain? table.first name symbol).map List.head? = some (some production) := by
      rw [Table.findChain?_head wellFormed, taken, Option.map_some]
    obtain ⟨chain, found, opens⟩ := Option.map_eq_some_iff.mp head
    obtain ⟨rest, rfl⟩ := List.head?_eq_some_iff.mp opens
    exact ⟨production, rest, found⟩
  · trivial
  · next fault noCycle failed =>
    have searched : g.firstSets = .error fault := by
      unfold Table.ofGrammar at failed
      split at failed
      · next found => cases failed; exact found
      · contradiction
    simp only [firstSets, valid] at searched
    split at searched
    · cases searched; exact noCycle _ rfl
    · contradiction

end Grammar

namespace RuleLine

variable {rules : List RuleLine} {text : String}

theorem foundIn_of_fault? (written : WrittenRules text rules) {fault : Malformation}
    (faulty : fault? rules = some fault) : fault.FoundIn text := by
  unfold fault? at faulty
  split at faulty
  · next name found =>
    cases faulty
    exact ⟨rules, written, List.mem_of_find?_eq_some found, by simpa using List.find?_some found⟩
  · obtain ⟨alternative, listed, cause⟩ := List.exists_of_findSome?_eq_some faulty
    unfold Alternative.fault? at cause
    split at cause
    · next empty => cases cause; exact ⟨rules, written, alternative, listed, rfl, empty⟩
    · split at cause
      · next misplaced => cases cause; exact ⟨rules, written, alternative, listed, rfl, misplaced⟩
      · contradiction

/-- A left side has an alternative on every line that it stands on. -/
theorem productionsOf_grammar_ne_nil {start name : String} (filled : ∀ rule ∈ rules, rule.alternatives ≠ [])
    (listed : name ∈ lefts rules) : (grammar start rules).productionsOf name ≠ [] := by
  obtain ⟨rule, written, rfl⟩ := List.mem_map.mp listed
  obtain ⟨words, first⟩ := List.exists_mem_of_ne_nil _ (filled rule written)
  have alternative : (rule.left, words) ∈ alternativesOf rules :=
    List.mem_flatMap.mpr ⟨rule, written, List.mem_map_of_mem first⟩
  rw [← map_numberFrom 1 (alternativesOf rules)] at alternative
  obtain ⟨entry, member, same⟩ := List.mem_map.mp alternative
  have left : entry.left = rule.left := congrArg Prod.fst same
  exact List.ne_nil_of_mem (Grammar.mem_productionsOf.mpr ⟨List.mem_map_of_mem member, left⟩)

theorem writtenIn_grammar {first : RuleLine} {rest : List RuleLine} (written : WrittenRules text (first :: rest))
    (wellFormed : (grammar first.left (first :: rest)).WellFormed) :
    (grammar first.left (first :: rest)).WrittenIn text := by
  have reads := reads_of_readAll written
  have nonTerminals : (grammar first.left (first :: rest)).nonTerminals = firstUses (writtenLefts text) :=
    reads.enrol_lefts (by simp)
  have produced : ∀ name ∈ (grammar first.left (first :: rest)).nonTerminals,
      (grammar first.left (first :: rest)).productionsOf name ≠ [] :=
    fun name listed => productionsOf_grammar_ne_nil reads.alternatives_ne_nil (mem_firstUses.mp listed)
  have declared : first.left ∈ (grammar first.left (first :: rest)).nonTerminals :=
    mem_firstUses.mpr List.mem_cons_self
  have valid := Grammar.fault?_eq_none_iff.mpr (wellFormed.usable declared produced)
  exact {
    nonTerminals
    start := reads.head?_lefts rfl
    produced
    productions := ⟨first :: rest, written, rfl⟩
    ids := ids_grammar first.left
    valid
    table := Grammar.hasTableOrCycle wellFormed valid }

/-- A text is refused for something that is written in it. -/
theorem foundIn_of_ofText {fault : Malformation} (refused : Grammar.ofText text = .error fault) :
    fault.FoundIn text := by
  simp only [Grammar.ofText, ofRules_eq] at refused
  split at refused
  · next cause unread =>
    cases refused
    obtain ⟨position, lineFault, rfl⟩ := readAll_eq_error unread
    intro rules written
    rw [WrittenRules, unread] at written
    contradiction
  · next unruled =>
    cases refused
    intro rules written
    rw [WrittenRules, unruled] at written
    exact (Except.ok.inj written).symm
  · next first rest written =>
    split at refused
    · next cause faulty => cases refused; exact foundIn_of_fault? written faulty
    · contradiction

end RuleLine

/-- A text is refused for something that is written in it, or it yields a grammar that is what is written in it, that
    is usable, and whose table can be built unless there is a cycle of heads. -/
theorem Grammar.ofText_outcome (text : String) : match ofText text with
    | .error fault => fault.FoundIn text
    | .ok g => g.WrittenIn text := by
  cases outcome : ofText text with
  | error fault => exact RuleLine.foundIn_of_ofText outcome
  | ok g =>
    obtain ⟨first, rest, written, _, rfl⟩ := RuleLine.ofText_eq_ok_iff.mp outcome
    exact RuleLine.writtenIn_grammar written (Built.written outcome).wellFormed

end Predictive
