import Predictive.Proofs.Lockstep

/-!
FIRST sets as a least solution. The heads of its productions pose an equation for every non-terminal, in which the
sets of other non-terminals occur (`Grammar.Solves`). The FIRST sets solve these equations and are contained in every
other solution, because what they hold is what head chains lead to (`Grammar.Solves.of_headChain`). They do not depend
on how they are found: plain recursion that remembers nothing comes to the same sets (`FirstSets.recompute?`), since
each layer of finished sets is recomputed from the layers below it. And no set is empty whose non-terminal has a
production (`FirstSets.Layered.exists_contains`).
-/
namespace Predictive

namespace Grammar

/-- For every non-terminal, the members are the heads of its productions, with the members for those heads that are
    non-terminals in their place. -/
def Solves (g : Grammar) (members : String → Symbol → Prop) : Prop :=
  ∀ name symbol, members name symbol ↔ ∃ production ∈ g.productionsOf name,
    production.head? = some symbol ∧ symbol.nonTerminal? = none ∨
      ∃ next, production.head? = some (.nonTerminal next) ∧ members next symbol

variable {g : Grammar} {name : String} {symbol : Symbol}

/-- A solution has all symbols that head chains lead to. -/
theorem Solves.of_headChain {members : String → Symbol → Prop} (solves : g.Solves members)
    (noName : symbol.nonTerminal? = none) {chain : List Production} (leads : g.HeadChain name chain symbol) :
    members name symbol := by
  induction leads with
  | single listed isHead => exact (solves _ _).mpr ⟨_, listed, .inl ⟨isHead, noName⟩⟩
  | cons listed isHead _ ih => exact (solves _ _).mpr ⟨_, listed, .inr ⟨_, isHead, ih noName⟩⟩

/-- The non-terminals that head a production of a usable grammar have productions themselves. -/
theorem WellFormed.productionsOf_ne_nil (wellFormed : g.WellFormed) (usable : g.Usable) {next : String}
    (edge : g.HeadEdge name next) : g.productionsOf next ≠ [] := by
  obtain ⟨production, listed, isHead⟩ := edge
  have grouped : production ∈ g.groupedProductions :=
    wellFormed.mem_groupedProductions.mpr (mem_productionsOf.mp listed).1
  have inRight : .nonTerminal next ∈ production.right := List.mem_of_mem_head? isHead
  refine usable.2 next (List.mem_cons_of_mem _ (List.mem_flatMap.mpr ⟨production, grouped, ?_⟩))
  exact List.mem_filterMap.mpr ⟨_, inRight, rfl⟩

end Grammar

namespace FirstSets

/-- Joins to a set what each head of a list contributes, where the set of a non-terminal is found as given. -/
def joinHeads (setOf? : String → Option SymbolSet) : SymbolSet → List Symbol → Option SymbolSet
  | set, [] => some set
  | set, .nonTerminal name :: rest => match setOf? name with
    | none => none
    | some found => joinHeads setOf? (set.union found) rest
  | set, symbol :: rest => joinHeads setOf? (set.insert symbol) rest

/-- The set of a name by plain recursion, which computes the set of a head anew wherever it is needed. There is no
    result if the recursion would go deeper than there is room. -/
def recompute? (g : Grammar) : (room : Nat) → (name : String) → Option SymbolSet
  | 0, _ => none
  | room + 1, name => joinHeads (recompute? g room) ∅ ((g.productionsOf name).filterMap (·.head?))

theorem joinHeads_eq_some {setOf? : String → Option SymbolSet} {first : FirstSets} {heads : List Symbol}
    (agrees : ∀ name, .nonTerminal name ∈ heads → first.Finished name ∧ setOf? name = first.get? name)
    (set : SymbolSet) :
    ∃ result, joinHeads setOf? set heads = some result ∧
      ∀ symbol, symbol ∈ result ↔ symbol ∈ set ∨ ∃ head ∈ heads, first.Leads symbol head := by
  induction heads generalizing set with
  | nil => exact ⟨set, rfl, by simp⟩
  | cons head rest ih =>
    have agreesRest : ∀ name, .nonTerminal name ∈ rest → first.Finished name ∧ setOf? name = first.get? name :=
      fun name member => agrees name (List.mem_cons_of_mem _ member)
    cases head with
    | nonTerminal name =>
      obtain ⟨finished, same⟩ := agrees name (by simp)
      obtain ⟨own, isOwn⟩ := Option.isSome_iff_exists.mp finished
      obtain ⟨result, joined, members⟩ := ih agreesRest (set.union own)
      refine ⟨result, by simp [joinHeads, same, isOwn, joined], fun symbol => ?_⟩
      rw [members symbol, mem_union_or_leads isOwn]
    | _ =>
      obtain ⟨result, joined, members⟩ := ih agreesRest (set.insert _)
      refine ⟨result, joined, fun symbol => ?_⟩
      rw [members symbol, mem_insert_or_leads rfl]

namespace Layered

variable {g : Grammar} {first : FirstSets} {name : String}

/-- With as much room as there are layers, plain recursion comes to the finished set. -/
theorem recompute?_eq (layered : Layered g first) (finished : first.Finished name) {room : Nat}
    (enough : first.entries.length ≤ room) : recompute? g room name = first.get? name := by
  induction layered generalizing name room with
  | empty => simp [Finished] at finished
  | @add below new set layered _ fresh heads members ih =>
    have size : below.entries.length + 1 ≤ room := enough
    by_cases same : name = new
    · subst same
      obtain ⟨room, rfl⟩ : ∃ smaller, room = smaller + 1 := ⟨room - 1, by omega⟩
      have agrees : ∀ next, .nonTerminal next ∈ (g.productionsOf name).filterMap (·.head?) →
          below.Finished next ∧ recompute? g room next = below.get? next := by
        intro next isHead
        have before : below.Finished next := heads next (Grammar.headEdge_iff.mpr isHead)
        exact ⟨before, ih before (Nat.le_of_succ_le_succ size)⟩
      obtain ⟨result, joined, joinedMembers⟩ := joinHeads_eq_some agrees ∅
      have sameMembers : ∀ symbol, symbol ∈ result ↔ symbol ∈ set := by
        intro symbol
        rw [joinedMembers symbol, members symbol, exists_leads_iff]
        simp only [SymbolSet.not_mem_empty, false_or]
      rw [recompute?, joined, SymbolSet.ext_mem sameMembers]
      simp
    · have before : below.Finished name := by simpa [Finished, same] using finished
      rw [ih before (by omega)]
      simp [same]

/-- A set holds the terminals that head chains lead to, and the empty word if one leads there. -/
theorem contains_iff_terminal (layered : Layered g first) (wellFormed : g.WellFormed)
    (finished : first.Finished name) {symbol : Symbol} : first.Contains name symbol ↔
      ((∃ terminal, symbol = .terminal terminal) ∨ symbol = .epsilon) ∧ ∃ chain, g.HeadChain name chain symbol := by
  constructor
  · intro contained
    refine ⟨?_, (layered.exists_headChain contained).2⟩
    rcases layered.terminal_or_epsilon wellFormed contained with terminal | empty
    · obtain ⟨name, _, rfl⟩ := List.mem_map.mp terminal
      exact .inl ⟨name, rfl⟩
    · exact .inr empty
  · rintro ⟨kind, chain, leads⟩
    refine (layered.contains_iff_headChain finished).mpr ⟨?_, chain, leads⟩
    rcases kind with ⟨terminal, rfl⟩ | rfl <;> rfl

/-- A non-terminal with a production has a symbol in its set, if the heads of productions have productions. -/
theorem exists_contains (layered : Layered g first) (wellFormed : g.WellFormed)
    (supplied : ∀ name next, g.HeadEdge name next → g.productionsOf next ≠ []) (finished : first.Finished name)
    (filled : g.productionsOf name ≠ []) : ∃ symbol, first.Contains name symbol := by
  induction layered generalizing name with
  | empty => simp [Finished] at finished
  | @add below new set _ _ _ heads members ih =>
    by_cases same : name = new
    · subst same
      obtain ⟨production, listed⟩ := List.exists_mem_of_ne_nil _ filled
      obtain ⟨head, _, isHead, _⟩ := wellFormed.exists_head (Grammar.mem_productionsOf.mp listed).1
      obtain ⟨symbol, leads⟩ : ∃ symbol, below.Leads symbol head := by
        cases head with
        | nonTerminal next =>
          have edge : g.HeadEdge name next := ⟨production, listed, isHead⟩
          exact ih (heads next edge) (supplied name next edge)
        | _ => exact ⟨_, rfl⟩
      have inSet : symbol ∈ set := (members symbol).mpr ⟨production, listed, head, isHead, leads⟩
      exact ⟨symbol, set, by simp, inSet⟩
    · have before : below.Finished name := by simpa [Finished, same] using finished
      obtain ⟨symbol, contained⟩ := ih before filled
      exact ⟨symbol, by simpa [Contains, same] using contained⟩

end Layered

end FirstSets

/-- The FIRST sets solve the equations that the heads pose. -/
theorem Table.solves {table : Table} (wellFormed : table.grammar.WellFormed) :
    table.grammar.Solves table.first.Contains := by
  intro name symbol
  rw [contains_iff wellFormed]
  refine exists_congr fun production => and_congr_right fun _ => ?_
  cases isHead : production.head? with
  | none => simp [FirstSets.Opens, isHead]
  | some head =>
    rw [FirstSets.opens_iff_of_head? isHead]
    cases head with
    | nonTerminal next =>
      have noSymbol : ¬ (Symbol.nonTerminal next = symbol ∧ symbol.nonTerminal? = none) := by
        rintro ⟨rfl, noName⟩
        cases noName
      simp [FirstSets.leads_nonTerminal, noSymbol]
    | _ =>
      simp only [FirstSets.Leads, Option.some.injEq, reduceCtorEq, false_and, exists_false, or_false]
      refine ⟨fun same => ⟨same, ?_⟩, And.left⟩
      rw [← same]
      rfl

/-- There is a set for each declared non-terminal and for no other name. A set holds the terminals that head chains
    lead to, and the empty word if one leads there. Plain recursion that remembers nothing finds the same sets, and
    only a non-terminal without productions has an empty one. The sets are the least solution of the equations that
    the heads of productions pose. -/
theorem firstSets_least {g : Grammar} {first : FirstSets} (built : g.Built) (computed : g.firstSets = .ok first) :
    (∀ name, (first.get? name).isSome ↔ name ∈ g.nonTerminals) ∧
    (∀ name ∈ g.nonTerminals,
      (∀ symbol, first.Contains name symbol ↔
        ((∃ terminal, symbol = .terminal terminal) ∨ symbol = .epsilon) ∧ ∃ chain, g.HeadChain name chain symbol) ∧
      (∀ room, g.nonTerminals.length ≤ room → FirstSets.recompute? g room name = first.get? name) ∧
      (first.get? name = some ∅ → g.productionsOf name = [])) ∧
    g.Solves first.Contains ∧
    ∀ members, g.Solves members → ∀ name symbol, first.Contains name symbol → members name symbol := by
  have wellFormed := built.wellFormed
  let table : Table := ⟨g, first, computed⟩
  obtain ⟨layered, finished⟩ := FirstSets.of_firstSets wellFormed computed
  refine ⟨finished, fun name declared => ?_, table.solves wellFormed, fun members solves name symbol contained => ?_⟩
  · have own : first.Finished name := (finished name).mpr declared
    refine ⟨fun symbol => layered.contains_iff_terminal wellFormed own, fun room enough => ?_, fun isEmpty => ?_⟩
    · exact layered.recompute?_eq own (layered.length_entries_le.trans enough)
    · by_contra filled
      obtain ⟨symbol, set, found, inSet⟩ := layered.exists_contains wellFormed
        (fun _ _ => wellFormed.productionsOf_ne_nil table.grammar_usable) own filled
      rw [isEmpty] at found
      cases found
      exact SymbolSet.not_mem_empty inSet
  · obtain ⟨noName, chain, leads⟩ := layered.exists_headChain contained
    exact solves.of_headChain noName leads

/-- A grammar with a non-terminal that two others begin with, and with one that has no production. -/
def Grammar.sharing : Grammar where
  start := "S"
  terminals := ["b", "c"]
  nonTerminals := ["S", "A", "B", "U"]
  productions := [
    { id := 1, left := "S", right := [.nonTerminal "A", .terminal "c"] },
    { id := 2, left := "S", right := [.nonTerminal "B"] },
    { id := 3, left := "A", right := [.nonTerminal "B"] },
    { id := 4, left := "B", right := [.terminal "b"] },
    { id := 5, left := "B", right := [.epsilon] }]

/-- The declarations that build it. -/
def sharingEdits : List Edit := [
  .nonTerminals ["S", "A", "B", "U"], .terminals ["b", "c"],
  .production "S" ["A", "c"] 1, .production "S" ["B"] 2, .production "A" ["B"] 3,
  .production "B" ["b"] 4, .production "B" ["e"] 5]

/-- The table of the grammar with a shared non-terminal. -/
def sharingTable : Table where
  grammar := .sharing
  first := (FirstSets.searchAll .sharing {} Grammar.sharing.nonTerminals).toOption.getD {}
  first_eq := rfl

theorem firstSets_least_sharing :
    Grammar.sharing.Built ∧ Grammar.sharing.firstSets = .ok sharingTable.first ∧
    (∀ name, (sharingTable.first.get? name).isSome ↔ name ∈ Grammar.sharing.nonTerminals) ∧
    (∀ symbol, sharingTable.first.Contains "S" symbol ↔
      ((∃ terminal, symbol = .terminal terminal) ∨ symbol = .epsilon) ∧
        ∃ chain, Grammar.sharing.HeadChain "S" chain symbol) ∧
    FirstSets.recompute? .sharing 4 "S" = sharingTable.first.get? "S" ∧
    (sharingTable.first.get? "U" = some ∅ ∧ Grammar.sharing.productionsOf "U" = []) ∧
    Grammar.sharing.Solves sharingTable.first.Contains ∧
    ∀ members, Grammar.sharing.Solves members →
      ∀ name symbol, sharingTable.first.Contains name symbol → members name symbol := by
  have build : Grammar.build "S" sharingEdits = .ok .sharing := rfl
  have built : Grammar.sharing.Built := .of_build build
  have isEmpty : sharingTable.first.get? "U" = some ∅ := rfl
  obtain ⟨entries, sets, solves, least⟩ := firstSets_least built sharingTable.first_eq
  obtain ⟨members, recomputed, _⟩ := sets "S" (by decide)
  obtain ⟨_, _, unproductive⟩ := sets "U" (by decide)
  exact ⟨built, sharingTable.first_eq, entries, members, recomputed 4 (by decide), ⟨isEmpty, unproductive isEmpty⟩,
    solves, least⟩

end Predictive
