import Mathlib.Data.List.Chain
import Mathlib.Data.List.Perm.Subperm
import Predictive.Proofs.FirstSearch
import Predictive.Table

/-!
When FIRST sets exist. The search for them reports a cycle of heads that it has come round: its trail is a path of
head edges without repetition, and the name that ends the search is on it (`FirstSets.search_error`). Where it
succeeds there is no such cycle, because each set was finished after the sets of all heads of its non-terminal
(`FirstSets.Layered.not_comes_back`). A usable grammar therefore has FIRST sets exactly if its heads lead back to no
name (`Grammar.WellFormed.exists_firstSets_iff`), and the sets hold the symbols that head chains lead to
(`FirstSets.Layered.contains_iff_headChain`). Nothing of this depends on the order in which names are searched.
-/
namespace Predictive

namespace Grammar

/-- A path of head edges that comes back to the name it begins with, and to no other. -/
structure HeadCycle (g : Grammar) (path : List String) : Prop where
  moves : 1 < path.length
  edges : g.HeadPath path
  closed : path.head? = path.getLast?
  simple : path.dropLast.Nodup

variable {g : Grammar}

theorem headPath_iff_isChain {path : List String} : g.HeadPath path ↔ path.IsChain g.HeadEdge := by
  induction path with
  | nil => simp [HeadPath]
  | cons name rest ih =>
    cases rest with
    | nil => simp [HeadPath]
    | cons next rest => rw [List.isChain_cons_cons, ← ih, HeadPath]

theorem HeadPath.suffix {path back : List String} (edges : g.HeadPath path) (ends : back <:+ path) :
    g.HeadPath back :=
  headPath_iff_isChain.mpr ((headPath_iff_isChain.mp edges).suffix ends)

theorem HeadPath.concat {path : List String} {name next : String} (edges : g.HeadPath (path ++ [name]))
    (edge : g.HeadEdge name next) : g.HeadPath (path ++ [name] ++ [next]) := by
  refine headPath_iff_isChain.mpr (List.isChain_append.mpr ⟨headPath_iff_isChain.mp edges, by simp, ?_⟩)
  simpa using edge

theorem HeadCycle.not_headAcyclic {path : List String} (cycle : g.HeadCycle path) : ¬ g.HeadAcyclic :=
  fun acyclic => acyclic path cycle.moves cycle.edges cycle.closed

end Grammar

namespace FirstSets

variable {g : Grammar} {trail path : List String} {done : FirstSets} {name : String}

/-! ### What a failing search reports -/

theorem cycleFrom_eq (onTrail : name ∈ trail) :
    ∃ front back, trail = front ++ name :: back ∧ cycleFrom trail name = name :: back ++ [name] := by
  induction trail with
  | nil => simp at onTrail
  | cons first rest ih =>
    by_cases same : first = name
    · subst same
      exact ⟨[], rest, rfl, by simp [cycleFrom]⟩
    · obtain ⟨front, back, split, cycle⟩ := ih (List.mem_of_ne_of_mem (Ne.symm same) onTrail)
      exact ⟨first :: front, back, by simp [split], by simpa [cycleFrom, same] using cycle⟩

/-- A name that comes up again on its own trail closes a cycle. -/
theorem headCycle_cycleFrom (edges : g.HeadPath (trail ++ [name])) (distinct : trail.Nodup)
    (onTrail : name ∈ trail) : g.HeadCycle (cycleFrom trail name) := by
  obtain ⟨front, back, rfl, cycle⟩ := cycleFrom_eq onTrail
  rw [cycle]
  exact {
    moves := by simp
    edges := edges.suffix ⟨front, by simp⟩
    closed := by rw [List.getLast?_concat]; rfl
    simple := by rw [List.dropLast_concat]; exact (List.nodup_append.mp distinct).2.1 }

/-- Joining the contributions of heads fails only where the search for one of them does. -/
theorem collect_error {search : FirstSets → String → Except (List String) FirstSets} {set : SymbolSet}
    {heads : List Symbol} (failed : collect search done set heads = .error path) :
    ∃ before name, .nonTerminal name ∈ heads ∧ search before name = .error path := by
  induction heads generalizing done set with
  | nil => cases failed
  | cons head rest ih =>
    cases head with
    | nonTerminal name =>
      unfold collect at failed
      split at failed
      · next found =>
        cases failed
        exact ⟨done, name, by simp, found⟩
      · obtain ⟨before, other, member, found⟩ := ih failed
        exact ⟨before, other, List.mem_cons_of_mem _ member, found⟩
    | _ =>
      obtain ⟨before, other, member, found⟩ := ih failed
      exact ⟨before, other, List.mem_cons_of_mem _ member, found⟩

/-- The names of the trail are declared and differ, and there is room for more names than are not on it. -/
structure HasRoom (g : Grammar) (room : Nat) (trail : List String) : Prop where
  enough : g.nonTerminals.length < room + trail.length
  distinct : trail.Nodup
  declared : trail ⊆ g.nonTerminals

namespace HasRoom

theorem start : HasRoom g (g.nonTerminals.length + 1) [] where
  enough := by simp
  distinct := .nil
  declared := List.nil_subset _

/-- All names are on the trail before the room is used up. -/
theorem not_zero : ¬ HasRoom g 0 trail := by
  rintro ⟨enough, distinct, declared⟩
  have fits : trail.length ≤ g.nonTerminals.length := distinct.length_le_of_subset declared
  omega

theorem concat {room : Nat} (hasRoom : HasRoom g (room + 1) trail) (declared : name ∈ g.nonTerminals)
    (offTrail : name ∉ trail) : HasRoom g room (trail ++ [name]) where
  enough := by
    have enough := hasRoom.enough
    simp only [List.length_append, List.length_singleton]
    omega
  distinct := by simpa using hasRoom.distinct.concat offTrail
  declared := List.append_subset.mpr ⟨hasRoom.declared, by simpa using declared⟩

end HasRoom

/-- A search with room that fails reports a cycle of heads: one of the names has come up again on its own trail. -/
theorem search_error (wellFormed : g.WellFormed) {room : Nat} (hasRoom : HasRoom g room trail)
    (declared : name ∈ g.nonTerminals) (edges : g.HeadPath (trail ++ [name]))
    (failed : search g room trail done name = .error path) : g.HeadCycle path := by
  induction room generalizing trail done name with
  | zero => exact absurd hasRoom HasRoom.not_zero
  | succ room ih =>
    unfold search at failed
    split at failed
    · contradiction
    split at failed
    · next onTrail =>
      cases failed
      exact headCycle_cycleFrom edges hasRoom.distinct onTrail
    next offTrail =>
    split at failed
    · next collected =>
      cases failed
      -- The search for one of the heads has failed, with the name at the end of its trail.
      obtain ⟨before, next, isHead, found⟩ := collect_error collected
      have edge : g.HeadEdge name next := Grammar.headEdge_iff.mpr isHead
      exact ih (hasRoom.concat declared offTrail) (wellFormed.headEdge_declared edge) (edges.concat edge) found
    · contradiction

theorem searchAll_error (wellFormed : g.WellFormed) {names : List String} (declared : names ⊆ g.nonTerminals)
    (failed : searchAll g done names = .error path) : g.HeadCycle path := by
  induction names generalizing done with
  | nil => cases failed
  | cons name rest ih =>
    unfold searchAll at failed
    obtain ⟨declaredName, declaredRest⟩ := List.cons_subset.mp declared
    split at failed
    · next found =>
      cases failed
      exact search_error wellFormed .start declaredName trivial found
    · exact ih declaredRest failed

/-! ### What finished sets say about heads -/

namespace Layered

variable {first : FirstSets}

theorem finished_of_mem_headPath (layered : Layered g first) {rest : List String} (finished : first.Finished name)
    (edges : g.HeadPath (name :: rest)) : ∀ other ∈ name :: rest, first.Finished other := by
  induction rest generalizing name with
  | nil => simpa using finished
  | cons next rest ih =>
    intro other member
    rcases List.mem_cons.mp member with rfl | later
    · exact finished
    · exact ih (layered.closed finished edges.1) edges.2 other later

/-- Heads do not lead from a finished name back to it: what it leads to was finished before it was. -/
theorem not_comes_back (layered : Layered g first) (finished : first.Finished name) {next : String}
    {rest : List String} (edges : g.HeadPath (name :: next :: rest)) : name ∉ next :: rest := by
  induction layered with
  | empty => simp [Finished] at finished
  | @add below new set layered _ fresh heads _ ih =>
    by_cases same : name = new
    · subst same
      intro comesBack
      -- The new name would be among those that were finished before it.
      have before : below.Finished name :=
        layered.finished_of_mem_headPath (heads next edges.1) edges.2 name comesBack
      simp [Finished, fresh] at before
    · exact ih (by simpa [Finished, same] using finished)

theorem exists_headChain (layered : Layered g first) {symbol : Symbol} (contained : first.Contains name symbol) :
    symbol.nonTerminal? = none ∧ ∃ chain, g.HeadChain name chain symbol := by
  induction layered generalizing name with
  | empty => simp [Contains] at contained
  | @add below new set _ _ _ _ members ih =>
    by_cases same : name = new
    · subst same
      have inSet : symbol ∈ set := by simpa [Contains] using contained
      obtain ⟨production, listed, head, isHead, leads⟩ := (members symbol).mp inSet
      cases head with
      | nonTerminal next =>
        obtain ⟨noName, chain, behind⟩ := ih leads
        exact ⟨noName, _, .cons listed isHead behind⟩
      | _ =>
        obtain rfl : _ = symbol := leads
        exact ⟨rfl, _, .single listed isHead⟩
    · exact ih (by simpa [Contains, same] using contained)

/-- Following heads from a finished name, one comes to the symbols of its set. -/
theorem contains_iff_headChain (layered : Layered g first) (finished : first.Finished name) {symbol : Symbol} :
    first.Contains name symbol ↔ symbol.nonTerminal? = none ∧ ∃ chain, g.HeadChain name chain symbol := by
  refine ⟨layered.exists_headChain, ?_⟩
  rintro ⟨noName, chain, leads⟩
  induction leads with
  | @single name production symbol listed isHead =>
    refine (layered.contains_iff finished).mpr ⟨production, listed, symbol, isHead, ?_⟩
    cases symbol with
    | nonTerminal other => cases noName
    | _ => rfl
  | @cons name next production chain symbol listed isHead _ ih =>
    have edge : g.HeadEdge name next := ⟨production, listed, isHead⟩
    have behind : first.Contains next symbol := ih (layered.closed finished edge) noName
    exact (layered.contains_iff finished).mpr ⟨production, listed, _, isHead, behind⟩

end Layered

end FirstSets

namespace Grammar

variable {g : Grammar}

theorem WellFormed.headAcyclic (wellFormed : g.WellFormed) {first : FirstSets} (computed : g.firstSets = .ok first) :
    g.HeadAcyclic := by
  obtain ⟨layered, finished⟩ := FirstSets.of_firstSets wellFormed computed
  intro path moves edges closed
  match path, moves, edges with
  | name :: next :: rest, _, edges =>
    obtain ⟨production, listed, _⟩ := edges.1
    obtain ⟨member, rfl⟩ := mem_productionsOf.mp listed
    have declared : production.left ∈ g.nonTerminals := wellFormed.left_declared production member
    refine layered.not_comes_back ((finished _).mpr declared) edges (List.mem_of_getLast? ?_)
    rw [← List.getLast?_cons_cons (a := production.left), ← closed, List.head?_cons]

/-- Without FIRST sets, a grammar has a fault or a cycle of heads, which is what is reported. -/
theorem WellFormed.firstSets_error (wellFormed : g.WellFormed) {error : Error} (failed : g.firstSets = .error error) :
    (∃ fault, g.fault? = some fault ∧ error = .malformed fault) ∨
      g.Usable ∧ ∃ path, g.HeadCycle path ∧ error = .headCycle path := by
  unfold firstSets at failed
  split at failed
  · next fault found =>
    cases failed
    exact .inl ⟨fault, found, rfl⟩
  next sound =>
  split at failed
  · next path searched =>
    cases failed
    have cycle : g.HeadCycle path := FirstSets.searchAll_error wellFormed (List.Subset.refl _) searched
    exact .inr ⟨fault?_eq_none_iff.mp sound, path, cycle, rfl⟩
  · contradiction

/-- A usable grammar has FIRST sets exactly if its heads lead back to no name. -/
theorem WellFormed.exists_firstSets_iff (wellFormed : g.WellFormed) :
    (∃ first, g.firstSets = .ok first) ↔ g.Usable ∧ g.HeadAcyclic := by
  constructor
  · rintro ⟨first, computed⟩
    exact ⟨(Table.mk g first computed).grammar_usable, wellFormed.headAcyclic computed⟩
  · rintro ⟨usable, acyclic⟩
    cases outcome : g.firstSets with
    | ok first => exact ⟨first, rfl⟩
    | error error =>
      rcases wellFormed.firstSets_error outcome with ⟨fault, found, _⟩ | ⟨_, path, cycle, _⟩
      · rw [fault?_eq_none_iff.mpr usable] at found
        contradiction
      · exact absurd acyclic cycle.not_headAcyclic

end Grammar

end Predictive
