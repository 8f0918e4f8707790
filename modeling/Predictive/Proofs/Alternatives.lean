import Mathlib.Data.List.Perm.Subperm
import Predictive.Proofs.HeadCycles

/-!
Which alternative the predictive table takes. The table looks for a whole chain of heads, with
backtracking; but a chain exists behind every alternative that opens with the symbol, so the search takes
the first such alternative (`findChain?_head`). Room for the chain never runs out, because each step leads
to a set that was finished earlier. The entries of the table can therefore be read off the alternatives
of a non-terminal one by one (`Table.entry_nonTerminal`).
-/
namespace Predictive

/-- A search through alternatives that succeeds at exactly the suitable ones, where each result begins with
    the alternative that it was found at, agrees with the search for the first suitable alternative. -/
theorem map_head?_findSome? {α : Type} {suitable : α → Prop} [DecidablePred suitable]
    {search : α → Option (List α)} {alternatives : List α}
    (succeeds : ∀ a ∈ alternatives, suitable a → (search a).map List.head? = some (some a))
    (fails : ∀ a ∈ alternatives, ¬ suitable a → search a = none) :
    (alternatives.findSome? search).map List.head? = (alternatives.find? fun a => suitable a).map some := by
  induction alternatives with
  | nil => rfl
  | cons a rest ih =>
    by_cases isSuitable : suitable a
    · have found := succeeds a (by simp) isSuitable
      obtain ⟨chain, here, head⟩ := Option.map_eq_some_iff.mp found
      simp [here, head, isSuitable]
    · have missing := fails a (by simp) isSuitable
      have later := ih (fun b member => succeeds b (List.mem_cons_of_mem a member))
        (fun b member => fails b (List.mem_cons_of_mem a member))
      simpa [missing, isSuitable] using later

namespace Grammar

/-- The first alternative of a non-terminal that opens with the symbol, by the given sets. -/
def alternative? (g : Grammar) (first : FirstSets) (name : String) (symbol : Symbol) : Option Production :=
  (g.productionsOf name).find? fun production => first.Opens production symbol

theorem alternative?_eq_some {g : Grammar} {first : FirstSets} {name : String} {symbol : Symbol}
    {production : Production} (found : g.alternative? first name symbol = some production) :
    production ∈ g.productionsOf name ∧ first.Opens production symbol := by
  exact ⟨List.mem_of_find?_eq_some found, by simpa using List.find?_some found⟩

end Grammar

namespace FirstSets.Layered

variable {g : Grammar} {done first : FirstSets}

theorem length_entries_le (layered : Layered g first) : first.entries.length ≤ g.nonTerminals.length := by
  have names : (first.entries.map Prod.fst).Nodup ∧ ∀ name ∈ first.entries.map Prod.fst, name ∈ g.nonTerminals := by
    induction layered with
    | empty => simp
    | @add first new set _ declared fresh _ _ ih =>
      have unlisted : new ∉ first.entries.map Prod.fst := by
        intro listed
        obtain ⟨entry, member, same⟩ := List.mem_map.mp listed
        have absent := List.lookup_eq_none_iff.mp fresh entry member
        simp [same] at absent
      refine ⟨List.nodup_cons.mpr ⟨unlisted, ih.1⟩, fun name member => ?_⟩
      rcases List.mem_cons.mp member with rfl | older
      · exact declared
      · exact ih.2 name older
  simpa using (List.Nodup.subperm names.1 names.2).length_le

theorem alternative?_isSome (layered : Layered g done) (extension : done.Extends first) {name : String}
    (finished : done.Finished name) {symbol : Symbol} :
    (g.alternative? first name symbol).isSome ↔ first.Contains name symbol := by
  rw [extension.contains_iff finished, layered.contains_iff finished]
  simp only [Grammar.alternative?, List.find?_isSome, decide_eq_true_eq]
  exact exists_congr fun production => and_congr_right fun listed => layered.opens_iff extension finished listed

/-- The search for a chain takes the first alternative that opens with the symbol. -/
theorem chain?_head (layered : Layered g done) (extension : done.Extends first) {symbol : Symbol} {name : String}
    (finished : done.Finished name) {room : Nat} (enough : done.entries.length ≤ room) :
    (g.chain? first symbol room name).map List.head? = (g.alternative? first name symbol).map some := by
  induction layered generalizing name room with
  | empty => simp [Finished] at finished
  | @add below new set layered declared fresh heads members ih =>
    have extensionBelow : below.Extends first := (extends_add fresh set).trans extension
    have all : Layered g (below.add new set) := .add layered declared fresh heads members
    have size : below.entries.length + 1 ≤ room := enough
    by_cases same : name = new
    · subst same
      obtain ⟨room, rfl⟩ : ∃ smaller, room = smaller + 1 := ⟨room - 1, by omega⟩
      -- Behind a head that is a non-terminal, a chain is found exactly if its set holds the symbol.
      have behind : ∀ production ∈ g.productionsOf name, ∀ next, production.head? = some (.nonTerminal next) →
          ((g.chain? first symbol room next).isSome ↔ first.Contains next symbol) := by
        intro production listed next isHead
        have before : below.Finished next := heads next ⟨production, listed, isHead⟩
        have deeper := ih extensionBelow before (Nat.le_of_succ_le_succ size)
        rw [← layered.alternative?_isSome extensionBelow before, ← Option.isSome_map, deeper, Option.isSome_map]
      unfold Grammar.chain?
      split
      · refine map_head?_findSome? (fun production listed opens => ?_) (fun production listed closed => ?_)
        · obtain ⟨head, isHead, leads⟩ := opens
          cases head with
          | nonTerminal next =>
            obtain ⟨chain, found⟩ := Option.isSome_iff_exists.mp ((behind production listed next isHead).mpr leads)
            simp [Option.mem_def.mp isHead, found]
          | _ =>
            obtain rfl : _ = symbol := leads
            simp [Option.mem_def.mp isHead]
        · cases isHead : production.head? with
          | none => simp
          | some head =>
            rw [opens_iff_of_head? isHead] at closed
            cases head with
            | nonTerminal next =>
              have missing := (behind production listed next isHead).not.mpr closed
              simpa using missing
            | _ => simpa [Leads] using closed
      · next excluded =>
        have missing : g.alternative? first name symbol = none :=
          Option.not_isSome_iff_eq_none.mp fun present =>
            excluded ((all.alternative?_isSome extension finished).mp present)
        simp [missing]
    · have before : below.Finished name := by simpa [Finished, same] using finished
      exact ih extensionBelow before (by omega)

/-- The sets hold declared terminals and the empty word. -/
theorem terminal_or_epsilon (layered : Layered g first) (wellFormed : g.WellFormed) {name : String} {symbol : Symbol}
    (contained : first.Contains name symbol) : symbol ∈ g.terminals.map .terminal ∨ symbol = .epsilon := by
  obtain ⟨noName, chain, leads⟩ := layered.exists_headChain contained
  clear contained
  induction leads with
  | @single _ _ symbol listed isHead =>
    rcases wellFormed.head_declared (Grammar.mem_productionsOf.mp listed).1 isHead with empty | declared
    · exact .inr empty
    · cases symbol with
      | terminal name => exact .inl (List.mem_map_of_mem declared)
      | nonTerminal name => cases noName
      | _ => exact declared.elim
  | cons _ _ _ ih => exact ih noName

end FirstSets.Layered

namespace Table

variable {table : Table}

/-- The first alternative of a non-terminal that opens with the symbol. -/
def alternative? (table : Table) (name : String) (symbol : Symbol) : Option Production :=
  table.grammar.alternative? table.first name symbol

theorem alternative?_eq_some {name : String} {symbol : Symbol} {production : Production}
    (found : table.alternative? name symbol = some production) :
    production ∈ table.grammar.productionsOf name ∧ table.first.Opens production symbol :=
  Grammar.alternative?_eq_some found

section
variable (wellFormed : table.grammar.WellFormed)
include wellFormed

theorem layered : FirstSets.Layered table.grammar table.first :=
  (FirstSets.of_firstSets wellFormed table.first_eq).1

theorem finished_iff {name : String} : table.first.Finished name ↔ name ∈ table.grammar.nonTerminals :=
  (FirstSets.of_firstSets wellFormed table.first_eq).2 name

theorem productionsOf_of_not_finished {name : String} (unfinished : ¬ table.first.Finished name) :
    table.grammar.productionsOf name = [] := by
  refine List.eq_nil_iff_forall_not_mem.mpr fun production listed => unfinished ?_
  obtain ⟨member, rfl⟩ := Grammar.mem_productionsOf.mp listed
  exact (finished_iff wellFormed).mpr (wellFormed.left_declared production member)

/-- A symbol is in the FIRST set of a name exactly when an alternative of the name opens with it. -/
theorem contains_iff {name : String} {symbol : Symbol} : table.first.Contains name symbol ↔
    ∃ production ∈ table.grammar.productionsOf name, table.first.Opens production symbol := by
  by_cases finished : table.first.Finished name
  · exact (layered wellFormed).contains_iff finished
  · simp [FirstSets.not_contains_of_not_finished finished, productionsOf_of_not_finished wellFormed finished]

/-- What a production opens with is in the set of its non-terminal. -/
theorem contains_left {production : Production} (listed : production ∈ table.grammar.productions) {symbol : Symbol}
    (opens : table.first.Opens production symbol) : table.first.Contains production.left symbol :=
  (contains_iff wellFormed).mpr ⟨production, Grammar.mem_productionsOf.mpr ⟨listed, rfl⟩, opens⟩

theorem alternative?_isSome {name : String} {symbol : Symbol} :
    (table.alternative? name symbol).isSome ↔ table.first.Contains name symbol := by
  rw [contains_iff wellFormed]
  simp [alternative?, Grammar.alternative?]

theorem alternative?_eq_none {name : String} {symbol : Symbol} :
    table.alternative? name symbol = none ↔ ¬ table.first.Contains name symbol := by
  rw [← alternative?_isSome wellFormed, Option.not_isSome_iff_eq_none]

/-- The chain that the table looks for begins with the first alternative that opens with the symbol. -/
theorem findChain?_head {name : String} {symbol : Symbol} :
    (table.grammar.findChain? table.first name symbol).map List.head? = (table.alternative? name symbol).map some := by
  have layers := layered wellFormed
  by_cases finished : table.first.Finished name
  · exact layers.chain?_head .refl finished layers.length_entries_le
  · have closed : ¬ table.first.Contains name symbol := FirstSets.not_contains_of_not_finished finished
    rw [(alternative?_eq_none wellFormed).mpr closed, Grammar.findChain?]
    cases table.grammar.nonTerminals.length with
    | zero => rfl
    | succ room => simp [Grammar.chain?, closed]

/-- The table expands a non-terminal by its first alternative that opens with the lookahead. -/
theorem entry_nonTerminal {name : String} {lookahead : Symbol} :
    table.entry (.nonTerminal name) lookahead =
      match table.alternative? name lookahead with
      | some production => .apply production
      | none => .reject := by
  have head : (table.grammar.findChain? table.first name lookahead).map List.head? =
      (table.alternative? name lookahead).map some := findChain?_head wellFormed
  unfold entry
  cases taken : table.alternative? name lookahead with
  | none =>
    have missing : table.grammar.findChain? table.first name lookahead = none := by simpa [taken] using head
    simp [missing]
  | some production =>
    obtain ⟨chain, found, first⟩ := Option.map_eq_some_iff.mp (by simpa [taken] using head)
    obtain ⟨rest, rfl⟩ := List.head?_eq_some_iff.mp first
    simp [found]

theorem mem_lookaheads_of_contains {name : String} {symbol : Symbol}
    (contained : table.first.Contains name symbol) : symbol ∈ table.lookaheads :=
  mem_lookaheads.mpr ((layered wellFormed).terminal_or_epsilon wellFormed contained)

end

end Table

end Predictive
