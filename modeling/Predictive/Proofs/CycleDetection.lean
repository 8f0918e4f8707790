import Mathlib.Logic.Relation
import Predictive.Proofs.HeadCycles

/-!
Cycle detection. The search for FIRST sets is a depth-first search of the graph of head edges, in which nothing bounds
how deep it goes: a set is finished by finishing the sets of all heads first (`FirstSets.Ends`). It comes to an end
nevertheless, because its trail never holds a name twice, so searching with room for all names is searching without a
bound (`FirstSets.search_ends`, `FirstSets.searchAll_endsInTurn`). What it detects are the cycles of the graph
(`Grammar.headAcyclic_iff`), wherever in the grammar they are: a name that is shared by several others is no cycle,
and a finished name hides none.
-/
namespace Predictive

namespace FirstSets

/-! ### The search without a bound -/

/-- What the search has to do at some point, with the trail it has there and the sets finished so far. -/
inductive Task where
  /-- Finish the set of a name. -/
  | finish (trail : List String) (done : FirstSets) (name : String)
  /-- Join to a set what each head of a list contributes. -/
  | join (trail : List String) (done : FirstSets) (set : SymbolSet) (heads : List Symbol)

/-- The task comes to an end: with the sets that are finished then and the set it was about, or with a cycle. -/
inductive Ends (g : Grammar) : Task → Except (List String) (FirstSets × SymbolSet) → Prop where
  /-- The set has been finished before. -/
  | known {trail : List String} {done : FirstSets} {name : String} {set : SymbolSet} :
    done.get? name = some set → Ends g (.finish trail done name) (.ok (done, set))
  /-- The name has come up again on its own trail. -/
  | cycle {trail : List String} {done : FirstSets} {name : String} :
    done.get? name = none → name ∈ trail → Ends g (.finish trail done name) (.error (cycleFrom trail name))
  | headsFail {trail path : List String} {done : FirstSets} {name : String} :
    done.get? name = none → name ∉ trail →
    Ends g (.join (trail ++ [name]) done ∅ ((g.productionsOf name).filterMap (·.head?))) (.error path) →
    Ends g (.finish trail done name) (.error path)
  | finished {trail : List String} {done next : FirstSets} {name : String} {set : SymbolSet} :
    done.get? name = none → name ∉ trail →
    Ends g (.join (trail ++ [name]) done ∅ ((g.productionsOf name).filterMap (·.head?))) (.ok (next, set)) →
    Ends g (.finish trail done name) (.ok (next.add name set, set))
  | nil {trail : List String} {done : FirstSets} {set : SymbolSet} :
    Ends g (.join trail done set []) (.ok (done, set))
  | searchFails {trail path : List String} {done : FirstSets} {set : SymbolSet} {name : String} {rest : List Symbol} :
    Ends g (.finish trail done name) (.error path) →
    Ends g (.join trail done set (.nonTerminal name :: rest)) (.error path)
  | search {trail : List String} {done next : FirstSets} {set found : SymbolSet} {name : String} {rest : List Symbol}
    {result : Except (List String) (FirstSets × SymbolSet)} :
    Ends g (.finish trail done name) (.ok (next, found)) → Ends g (.join trail next (set.union found) rest) result →
    Ends g (.join trail done set (.nonTerminal name :: rest)) result
  | insert {trail : List String} {done : FirstSets} {set : SymbolSet} {symbol : Symbol} {rest : List Symbol}
    {result : Except (List String) (FirstSets × SymbolSet)} :
    symbol.nonTerminal? = none → Ends g (.join trail done (set.insert symbol) rest) result →
    Ends g (.join trail done set (symbol :: rest)) result

/-- Finishing the sets of several names in turn, each with an empty trail, comes to an end: with the finished sets, or
    with the first cycle that is found. -/
inductive EndsInTurn (g : Grammar) : FirstSets → List String → Except (List String) FirstSets → Prop where
  | nil {done : FirstSets} : EndsInTurn g done [] (.ok done)
  | fail {done : FirstSets} {name : String} {rest path : List String} :
    Ends g (.finish [] done name) (.error path) → EndsInTurn g done (name :: rest) (.error path)
  | next {done next : FirstSets} {set : SymbolSet} {name : String} {rest : List String}
    {result : Except (List String) FirstSets} :
    Ends g (.finish [] done name) (.ok (next, set)) → EndsInTurn g next rest result →
    EndsInTurn g done (name :: rest) result

variable {g : Grammar} {trail : List String} {done : FirstSets} {name : String}

/-- A task has one outcome. -/
theorem Ends.unique {task : Task} {result other : Except (List String) (FirstSets × SymbolSet)}
    (ends : Ends g task result) (again : Ends g task other) : result = other := by
  induction ends generalizing other with
  | known isSet => cases again <;> simp_all
  | cycle unfinished onTrail => cases again <;> simp_all
  | headsFail unfinished offTrail _ ih =>
    cases again with
    | known isSet => simp_all
    | cycle _ onTrail => contradiction
    | headsFail _ _ joined => exact ih joined
    | finished _ _ joined => cases ih joined
  | finished unfinished offTrail _ ih =>
    cases again with
    | known isSet => simp_all
    | cycle _ onTrail => contradiction
    | headsFail _ _ joined => cases ih joined
    | finished _ _ joined => cases ih joined; rfl
  | nil => cases again; rfl
  | searchFails _ ih =>
    cases again with
    | searchFails failed => exact ih failed
    | search found _ => cases ih found
    | insert noName _ => cases noName
  | search _ _ ihSearch ihRest =>
    cases again with
    | searchFails failed => cases ihSearch failed
    | search found joined => cases ihSearch found; exact ihRest joined
    | insert noName _ => cases noName
  | insert noName _ ih =>
    cases again with
    | searchFails _ => cases noName
    | search _ _ => cases noName
    | insert _ joined => exact ih joined

theorem EndsInTurn.unique {names : List String} {result other : Except (List String) FirstSets}
    (ends : EndsInTurn g done names result) (again : EndsInTurn g done names other) : result = other := by
  induction ends generalizing other with
  | nil => cases again; rfl
  | fail failed =>
    cases again with
    | fail failedToo => cases failed.unique failedToo; rfl
    | next found _ => cases failed.unique found
  | next found _ ih =>
    cases again with
    | fail failed => cases found.unique failed
    | next foundToo rest => cases found.unique foundToo; exact ih rest

/-! ### The search ends -/

/-- Finished sets with the one of a name. -/
def withSet (name : String) (done : FirstSets) : FirstSets × SymbolSet := (done, (done.get? name).getD ∅)

/-- Joining the contributions of heads ends if the search for each of them does. -/
theorem collect_ends {search : FirstSets → String → Except (List String) FirstSets} {heads : List Symbol}
    (ends : ∀ name, .nonTerminal name ∈ heads → ∀ before,
      Ends g (.finish trail before name) ((search before name).map (withSet name)))
    (done : FirstSets) (set : SymbolSet) : Ends g (.join trail done set heads) (collect search done set heads) := by
  induction heads generalizing done set with
  | nil => exact .nil
  | cons head rest ih =>
    have endsRest : ∀ next set, Ends g (.join trail next set rest) (collect search next set rest) :=
      ih fun name member => ends name (List.mem_cons_of_mem _ member)
    cases head with
    | nonTerminal name =>
      have ended := ends name (by simp) done
      unfold collect
      cases found : search done name with
      | error path => rw [found] at ended; exact .searchFails ended
      | ok next => rw [found] at ended; exact .search ended (endsRest _ _)
    | _ => exact .insert rfl (endsRest _ _)

/-- With room for all names, the search without a bound ends, and as the search with that room does. -/
theorem search_ends (wellFormed : g.WellFormed) {room : Nat} (hasRoom : HasRoom g room trail)
    (declared : name ∈ g.nonTerminals) (done : FirstSets) :
    Ends g (.finish trail done name) ((search g room trail done name).map (withSet name)) := by
  induction room generalizing trail done name with
  | zero => exact absurd hasRoom HasRoom.not_zero
  | succ room ih =>
    cases isSet : done.get? name with
    | some set =>
      have known : search g (room + 1) trail done name = .ok done := by simp [search, isSet]
      simpa [known, Except.map, withSet, isSet] using Ends.known isSet
    | none =>
      by_cases onTrail : name ∈ trail
      · have cycle : search g (room + 1) trail done name = .error (cycleFrom trail name) := by
          simp [search, isSet, onTrail]
        rw [cycle]
        exact .cycle isSet onTrail
      · have headsEnd : ∀ next, .nonTerminal next ∈ (g.productionsOf name).filterMap (·.head?) → ∀ before,
            Ends g (.finish (trail ++ [name]) before next)
              ((search g room (trail ++ [name]) before next).map (withSet next)) := fun next isHead =>
          ih (hasRoom.concat declared onTrail) (wellFormed.headEdge_declared (Grammar.headEdge_iff.mpr isHead))
        have joined := collect_ends headsEnd done ∅
        cases collected : collect (search g room (trail ++ [name])) done ∅
            ((g.productionsOf name).filterMap (·.head?)) with
        | error path =>
          rw [collected] at joined
          have failed : search g (room + 1) trail done name = .error path := by
            simp [search, isSet, onTrail, collected]
          rw [failed]
          exact .headsFail isSet onTrail joined
        | ok result =>
          rw [collected] at joined
          have finished : search g (room + 1) trail done name = .ok (result.1.add name result.2) := by
            simp [search, isSet, onTrail, collected]
          simpa [finished, Except.map, withSet] using Ends.finished isSet onTrail joined

theorem searchAll_endsInTurn (wellFormed : g.WellFormed) {names : List String} (declared : names ⊆ g.nonTerminals) :
    EndsInTurn g done names (searchAll g done names) := by
  induction names generalizing done with
  | nil => exact .nil
  | cons name rest ih =>
    obtain ⟨declaredName, declaredRest⟩ := List.cons_subset.mp declared
    have ended := search_ends wellFormed .start declaredName done
    unfold searchAll
    cases found : search g (g.nonTerminals.length + 1) [] done name with
    | error path => rw [found] at ended; exact .fail ended
    | ok next => rw [found] at ended; exact .next ended (ih declaredRest)

end FirstSets

namespace Grammar

variable {g : Grammar}

/-! ### Cycles of the graph -/

/-- Heads lead back to no name exactly if their graph has no cycle. -/
theorem headAcyclic_iff : g.HeadAcyclic ↔ ∀ name, ¬ Relation.TransGen g.HeadEdge name name := by
  constructor
  · intro acyclic name cycle
    obtain ⟨next, edge, back⟩ := Relation.TransGen.head'_iff.mp cycle
    obtain ⟨rest, edges, closed⟩ := List.exists_isChain_cons_of_relationReflTransGen back
    refine acyclic (name :: next :: rest) (by simp) ?_ ?_
    · exact headPath_iff_isChain.mpr (List.isChain_cons_cons.mpr ⟨edge, edges⟩)
    · rw [List.head?_cons, List.getLast?_cons_cons, List.getLast?_eq_some_getLast (List.cons_ne_nil _ _), closed]
  · intro acyclic path moves edges closed
    match path, moves, edges with
    | name :: next :: rest, _, edges =>
      refine acyclic name (.head' edges.1 ?_)
      refine List.relationReflTransGen_of_exists_isChain_cons rest (headPath_iff_isChain.mp edges.2) ?_
      rw [List.head?_cons, List.getLast?_cons_cons, List.getLast?_eq_some_getLast (List.cons_ne_nil _ _)] at closed
      exact (Option.some.inj closed).symm

theorem WellFormed.not_headAcyclic_iff (wellFormed : g.WellFormed) :
    ¬ g.HeadAcyclic ↔ ∃ name ∈ g.nonTerminals, Relation.TransGen g.HeadEdge name name := by
  simp only [headAcyclic_iff, not_forall, not_not]
  refine exists_congr fun name => ⟨fun cycle => ⟨?_, cycle⟩, And.right⟩
  obtain ⟨_, _, edge⟩ := Relation.TransGen.tail'_iff.mp cycle
  exact wellFormed.headEdge_declared edge

/-- In a grammar without faults, nothing but the search decides about the FIRST sets. -/
theorem firstSets_eq_mapError (valid : g.fault? = none) :
    g.firstSets = (FirstSets.searchAll g {} g.nonTerminals).mapError .headCycle := by
  unfold firstSets
  rw [valid]
  cases FirstSets.searchAll g {} g.nonTerminals <;> rfl

end Grammar

/-- The search for the FIRST sets of a grammar without faults comes to an end, however deep it goes, and there is one
    way it does. It fails if and only if the graph of head edges has a cycle, be it out of reach of the start symbol,
    and what it reports is a cycle of this graph. -/
theorem firstSets_error_iff_cycle {g : Grammar} (built : g.Built) (valid : g.fault? = none) :
    (∃ result, (∀ other, FirstSets.EndsInTurn g {} g.nonTerminals other ↔ other = result) ∧
      g.firstSets = result.mapError .headCycle) ∧
    ((∃ error, g.firstSets = .error error) ↔ ∃ name ∈ g.nonTerminals, Relation.TransGen g.HeadEdge name name) ∧
    ∀ error, g.firstSets = .error error → ∃ path, g.HeadCycle path ∧ error = .headCycle path := by
  have wellFormed := built.wellFormed
  have ended : FirstSets.EndsInTurn g {} g.nonTerminals (FirstSets.searchAll g {} g.nonTerminals) :=
    FirstSets.searchAll_endsInTurn wellFormed (List.Subset.refl _)
  have reports : ∀ error, g.firstSets = .error error → ∃ path, g.HeadCycle path ∧ error = .headCycle path := by
    intro error failed
    rcases wellFormed.firstSets_error failed with ⟨fault, found, _⟩ | ⟨_, path, cycle, reported⟩
    · rw [valid] at found
      contradiction
    · exact ⟨path, cycle, reported⟩
  refine ⟨⟨_, fun other => ⟨?_, ?_⟩, Grammar.firstSets_eq_mapError valid⟩, ?_, reports⟩
  · exact fun again => again.unique ended
  · rintro rfl
    exact ended
  rw [← wellFormed.not_headAcyclic_iff]
  constructor
  · rintro ⟨error, failed⟩
    obtain ⟨path, cycle, _⟩ := reports error failed
    exact cycle.not_headAcyclic
  · intro cyclic
    cases outcome : g.firstSets with
    | error error => exact ⟨error, rfl⟩
    | ok first => exact absurd (wellFormed.headAcyclic outcome) cyclic

/-- A grammar with a non-terminal that two others share, and with a cycle of heads that its start symbol does not
    lead to. -/
def Grammar.hiddenCycle : Grammar where
  start := "S"
  terminals := ["b", "c"]
  nonTerminals := ["S", "A", "B", "D", "E"]
  productions := [
    { id := 1, left := "S", right := [.nonTerminal "A", .terminal "c"] },
    { id := 2, left := "S", right := [.nonTerminal "B"] },
    { id := 3, left := "A", right := [.nonTerminal "B"] },
    { id := 4, left := "B", right := [.terminal "b"] },
    { id := 5, left := "D", right := [.nonTerminal "E", .terminal "b"] },
    { id := 6, left := "E", right := [.terminal "c"] },
    { id := 7, left := "E", right := [.nonTerminal "D"] }]

/-- The declarations that build it. -/
def hiddenCycleEdits : List Edit := [
  .nonTerminals ["S", "A", "B", "D", "E"], .terminals ["b", "c"],
  .production "S" ["A", "c"] 1, .production "S" ["B"] 2, .production "A" ["B"] 3, .production "B" ["b"] 4,
  .production "D" ["E", "b"] 5, .production "E" ["c"] 6, .production "E" ["D"] 7]

theorem firstSets_error_hiddenCycle :
    Grammar.hiddenCycle.Built ∧ Grammar.hiddenCycle.fault? = none ∧
    (∃ result,
      (∀ other, FirstSets.EndsInTurn .hiddenCycle {} Grammar.hiddenCycle.nonTerminals other ↔ other = result) ∧
      Grammar.hiddenCycle.firstSets = result.mapError .headCycle) ∧
    Grammar.hiddenCycle.firstSets = .error (.headCycle ["D", "E", "D"]) ∧
    (∃ name ∈ Grammar.hiddenCycle.nonTerminals, Relation.TransGen Grammar.hiddenCycle.HeadEdge name name) ∧
    Grammar.hiddenCycle.HeadCycle ["D", "E", "D"] := by
  have build : Grammar.build "S" hiddenCycleEdits = .ok .hiddenCycle := rfl
  have built : Grammar.hiddenCycle.Built := .of_build build
  have failed : Grammar.hiddenCycle.firstSets = .error (.headCycle ["D", "E", "D"]) := rfl
  obtain ⟨ends, fails, reports⟩ := firstSets_error_iff_cycle built rfl
  obtain ⟨path, cycle, reported⟩ := reports _ failed
  cases reported
  exact ⟨built, rfl, ends, failed, fails.mp ⟨_, failed⟩, cycle⟩

end Predictive
