import Predictive.FirstSets
import Predictive.Proofs.Declarations

/-!
What the search for FIRST sets leaves behind. A set is finished only after the sets of all heads that it
is made of, so the finished sets form layers (`Layered`), each explained by the ones below it. The search
keeps this (`search_ok`), and it finishes no name of its own trail on the way. The sets of a grammar
therefore solve the equations that its heads pose: a symbol is in the set of a non-terminal exactly when
one of its productions opens with it (`Layered.contains_iff`).
-/
namespace Predictive

namespace Grammar

theorem headEdge_iff {g : Grammar} {name next : String} :
    g.HeadEdge name next ↔ .nonTerminal next ∈ (g.productionsOf name).filterMap (·.head?) := by
  simp [HeadEdge]

theorem WellFormed.head_declared {g : Grammar} (wellFormed : g.WellFormed) {production : Production}
    (listed : production ∈ g.productions) {head : Symbol} (isHead : production.head? = some head) :
    head = .epsilon ∨ g.Declared head :=
  wellFormed.right_declared listed (List.mem_of_mem_head? isHead)

theorem WellFormed.headEdge_declared {g : Grammar} (wellFormed : g.WellFormed) {name next : String}
    (edge : g.HeadEdge name next) : next ∈ g.nonTerminals := by
  obtain ⟨production, listed, isHead⟩ := edge
  rcases wellFormed.head_declared (mem_productionsOf.mp listed).1 isHead with impossible | declared
  · contradiction
  · exact declared

end Grammar

namespace FirstSets

/-- A right side with this head can begin with the symbol, by the given sets. -/
def Leads (first : FirstSets) (symbol : Symbol) : (head : Symbol) → Prop
  | .nonTerminal name => first.Contains name symbol
  | head => head = symbol

instance (first : FirstSets) (symbol : Symbol) : (head : Symbol) → Decidable (first.Leads symbol head)
  | .nonTerminal name => inferInstanceAs (Decidable (first.Contains name symbol))
  | .terminal name => inferInstanceAs (Decidable (Symbol.terminal name = symbol))
  | .epsilon => inferInstanceAs (Decidable (Symbol.epsilon = symbol))
  | .endMarker => inferInstanceAs (Decidable (Symbol.endMarker = symbol))

/-- The production can begin with the symbol, as far as its head tells by the given sets. -/
def Opens (first : FirstSets) (production : Production) (symbol : Symbol) : Prop :=
  ∃ head ∈ production.head?, first.Leads symbol head

instance (first : FirstSets) (production : Production) (symbol : Symbol) :
    Decidable (first.Opens production symbol) :=
  decidable_of_iff ((production.head?.any fun head => first.Leads symbol head) = true) <| by
    cases found : production.head? <;> simp [Opens, found]

theorem leads_nonTerminal {first : FirstSets} {symbol : Symbol} {name : String} :
    first.Leads symbol (.nonTerminal name) ↔ first.Contains name symbol := Iff.rfl

theorem opens_iff_of_head? {first : FirstSets} {production : Production} {head symbol : Symbol}
    (isHead : production.head? = some head) : first.Opens production symbol ↔ first.Leads symbol head := by
  simp [Opens, isHead]

theorem exists_leads_iff {g : Grammar} {first : FirstSets} {name : String} {symbol : Symbol} :
    (∃ head ∈ (g.productionsOf name).filterMap (·.head?), first.Leads symbol head) ↔
      ∃ production ∈ g.productionsOf name, first.Opens production symbol := by
  simp only [List.mem_filterMap, Opens, Option.mem_def]
  constructor
  · rintro ⟨head, ⟨production, listed, isHead⟩, leads⟩
    exact ⟨production, listed, head, isHead, leads⟩
  · rintro ⟨production, listed, head, isHead, leads⟩
    exact ⟨head, ⟨production, listed, isHead⟩, leads⟩

/-- A set joined with the one of a non-terminal has what the non-terminal leads to. -/
theorem mem_union_or_leads {first : FirstSets} {set own : SymbolSet} {name : String} {rest : List Symbol}
    {symbol : Symbol} (isOwn : first.get? name = some own) :
    (symbol ∈ set.union own ∨ ∃ head ∈ rest, first.Leads symbol head) ↔
      symbol ∈ set ∨ ∃ head ∈ .nonTerminal name :: rest, first.Leads symbol head := by
  have contributed : symbol ∈ own ↔ first.Leads symbol (.nonTerminal name) := by
    simp [leads_nonTerminal, Contains, isOwn]
  rw [SymbolSet.mem_union, contributed]
  simp only [List.mem_cons, exists_eq_or_imp, or_assoc]

/-- A set with one more symbol has what this symbol leads to, which is itself if it is no non-terminal. -/
theorem mem_insert_or_leads {first : FirstSets} {set : SymbolSet} {new : Symbol} {rest : List Symbol} {symbol : Symbol}
    (noName : new.nonTerminal? = none) :
    (symbol ∈ set.insert new ∨ ∃ head ∈ rest, first.Leads symbol head) ↔
      symbol ∈ set ∨ ∃ head ∈ new :: rest, first.Leads symbol head := by
  have itself : symbol = new ↔ first.Leads symbol new := by
    cases new with
    | nonTerminal name => cases noName
    | _ => exact eq_comm
  rw [SymbolSet.mem_insert, itself]
  simp only [List.mem_cons, exists_eq_or_imp, or_assoc]
  exact or_left_comm

/-- The set of a non-terminal is finished. -/
def Finished (first : FirstSets) (name : String) : Prop := (first.get? name).isSome

theorem not_contains_of_not_finished {first : FirstSets} {name : String} {symbol : Symbol}
    (unfinished : ¬ first.Finished name) : ¬ first.Contains name symbol := by
  have missing : first.get? name = none := by simpa [Finished] using unfinished
  simp [Contains, missing]

/-- Every finished set is finished in the later sets as well, with the same members. -/
def Extends (first later : FirstSets) : Prop :=
  ∀ name set, first.get? name = some set → later.get? name = some set

theorem Extends.refl {first : FirstSets} : first.Extends first := fun _ _ found => found

theorem Extends.trans {first middle later : FirstSets} (begins : first.Extends middle)
    (ends : middle.Extends later) : first.Extends later :=
  fun name set found => ends name set (begins name set found)

theorem Extends.finished {first later : FirstSets} (extension : first.Extends later) {name : String}
    (finished : first.Finished name) : later.Finished name := by
  obtain ⟨set, found⟩ := Option.isSome_iff_exists.mp finished
  exact Option.isSome_iff_exists.mpr ⟨set, extension name set found⟩

theorem extends_add {first : FirstSets} {name : String} (fresh : first.get? name = none) (set : SymbolSet) :
    first.Extends (first.add name set) := by
  intro other members found
  have different : other ≠ name := by
    rintro rfl
    rw [fresh] at found
    contradiction
  simpa [different] using found

theorem Extends.contains_iff {first later : FirstSets} (extension : first.Extends later) {name : String}
    (finished : first.Finished name) {symbol : Symbol} :
    later.Contains name symbol ↔ first.Contains name symbol := by
  obtain ⟨set, found⟩ := Option.isSome_iff_exists.mp finished
  simp [Contains, found, extension name set found]

theorem Extends.leads_iff {first later : FirstSets} (extension : first.Extends later) {head symbol : Symbol}
    (finished : ∀ name, head = .nonTerminal name → first.Finished name) :
    later.Leads symbol head ↔ first.Leads symbol head := by
  cases head with
  | nonTerminal name => exact extension.contains_iff (finished name rfl)
  | _ => rfl

/-- Each set was finished once, after the sets of all heads of its non-terminal, and has the symbols that
    the productions of its non-terminal open with. -/
inductive Layered (g : Grammar) : FirstSets → Prop where
  | empty : Layered g {}
  | add {first : FirstSets} {name : String} {set : SymbolSet} :
      Layered g first → name ∈ g.nonTerminals → first.get? name = none →
      (∀ next, g.HeadEdge name next → first.Finished next) →
      (∀ symbol, symbol ∈ set ↔ ∃ production ∈ g.productionsOf name, first.Opens production symbol) →
      Layered g (first.add name set)

namespace Layered

variable {g : Grammar} {first later : FirstSets}

theorem declared (layered : Layered g first) {name : String} (finished : first.Finished name) :
    name ∈ g.nonTerminals := by
  induction layered with
  | empty => simp [Finished] at finished
  | @add first new set _ declared _ _ _ ih =>
    by_cases same : name = new
    · exact same ▸ declared
    · exact ih (by simpa [Finished, same] using finished)

theorem closed (layered : Layered g first) {name next : String} (finished : first.Finished name)
    (edge : g.HeadEdge name next) : first.Finished next := by
  induction layered with
  | empty => simp [Finished] at finished
  | @add first new set _ _ fresh heads _ ih =>
    have grows := extends_add fresh set
    by_cases same : name = new
    · exact grows.finished (heads next (same ▸ edge))
    · exact grows.finished (ih (by simpa [Finished, same] using finished))

theorem opens_iff (layered : Layered g first) (extension : first.Extends later) {name : String}
    (finished : first.Finished name) {production : Production} (listed : production ∈ g.productionsOf name)
    {symbol : Symbol} : later.Opens production symbol ↔ first.Opens production symbol := by
  refine exists_congr fun head => and_congr_right fun isHead => extension.leads_iff ?_
  rintro next rfl
  exact layered.closed finished ⟨production, listed, isHead⟩

/-- The finished sets solve their equations: a symbol is in the set of a non-terminal exactly when one of
    its productions opens with it. -/
theorem contains_iff (layered : Layered g first) {name : String} (finished : first.Finished name)
    {symbol : Symbol} :
    first.Contains name symbol ↔ ∃ production ∈ g.productionsOf name, first.Opens production symbol := by
  induction layered with
  | empty => simp [Finished] at finished
  | @add first new set below _ fresh heads members ih =>
    have grows := extends_add fresh set
    by_cases same : name = new
    · subst same
      have inSet : (first.add name set).Contains name symbol ↔ symbol ∈ set := by simp [Contains]
      rw [inSet, members symbol]
      refine exists_congr fun production => and_congr_right fun listed => ?_
      refine exists_congr fun head => and_congr_right fun isHead => (grows.leads_iff ?_).symm
      rintro next rfl
      exact heads next ⟨production, listed, isHead⟩
    · have before : first.Finished name := by simpa [Finished, same] using finished
      rw [grows.contains_iff before, ih before]
      exact exists_congr fun production => and_congr_right fun listed =>
        (below.opens_iff grows before listed).symm

end Layered

/-- What a search with a trail makes of the sets that were finished before it. -/
structure Advances (g : Grammar) (trail : List String) (done next : FirstSets) : Prop where
  layered : Layered g next
  keeps : done.Extends next
  /-- No name of the trail is finished on the way. -/
  skips : ∀ name ∈ trail, done.get? name = none → next.get? name = none

theorem Advances.trans {g : Grammar} {trail : List String} {done middle next : FirstSets}
    (begins : Advances g trail done middle) (ends : Advances g trail middle next) : Advances g trail done next where
  layered := ends.layered
  keeps := begins.keeps.trans ends.keeps
  skips name member fresh := ends.skips name member (begins.skips name member fresh)

/-- What a search does when it succeeds: it advances the sets and finishes the one it was started for. -/
def Succeeds (g : Grammar) (trail : List String)
    (search : FirstSets → String → Except (List String) FirstSets) : Prop :=
  ∀ {done next : FirstSets} {name : String}, Layered g done → name ∈ g.nonTerminals →
    search done name = .ok next → Advances g trail done next ∧ next.Finished name

/-- Joining the contributions of heads finishes the sets of all heads and adds what the heads lead to. -/
theorem collect_ok {g : Grammar} {trail : List String}
    {search : FirstSets → String → Except (List String) FirstSets} (succeeds : Succeeds g trail search)
    {heads : List Symbol} (declared : ∀ name, .nonTerminal name ∈ heads → name ∈ g.nonTerminals)
    {done next : FirstSets} {set result : SymbolSet} (layered : Layered g done)
    (collected : collect search done set heads = .ok (next, result)) :
    Advances g trail done next ∧ (∀ name, .nonTerminal name ∈ heads → next.Finished name) ∧
      ∀ symbol, symbol ∈ result ↔ symbol ∈ set ∨ ∃ head ∈ heads, next.Leads symbol head := by
  induction heads generalizing done set with
  | nil =>
    cases collected
    exact ⟨⟨layered, .refl, fun _ _ fresh => fresh⟩, by simp, by simp⟩
  | cons head rest ih =>
    have declaredRest : ∀ name, .nonTerminal name ∈ rest → name ∈ g.nonTerminals :=
      fun name member => declared name (List.mem_cons_of_mem _ member)
    cases head with
    | nonTerminal name =>
      unfold collect at collected
      split at collected
      · contradiction
      next middle found =>
      obtain ⟨begins, finished⟩ := succeeds layered (declared name (by simp)) found
      obtain ⟨ends, finishedRest, members⟩ := ih declaredRest begins.layered collected
      refine ⟨begins.trans ends, ?_, fun symbol => ?_⟩
      · intro other member
        rcases List.mem_cons.mp member with same | later
        · cases same; exact ends.keeps.finished finished
        · exact finishedRest other later
      · obtain ⟨own, isOwn⟩ := Option.isSome_iff_exists.mp finished
        rw [members symbol, isOwn, Option.getD_some, mem_union_or_leads (ends.keeps name own isOwn)]
    | _ =>
      obtain ⟨ends, finishedRest, members⟩ := ih declaredRest layered collected
      refine ⟨ends, fun name member => finishedRest name (by simpa using member), fun symbol => ?_⟩
      rw [members symbol, mem_insert_or_leads rfl]

theorem search_ok {g : Grammar} (wellFormed : g.WellFormed) {room : Nat} {trail : List String} :
    Succeeds g trail (search g room trail) := by
  induction room generalizing trail with
  | zero => intro done next name _ _ found; cases found
  | succ room ih =>
    intro done next name layered declared found
    unfold search at found
    split at found
    · next finished => cases found; exact ⟨⟨layered, .refl, fun _ _ fresh => fresh⟩, finished⟩
    split at found
    · contradiction
    next unfinished offTrail =>
    split at found
    · contradiction
    next middle set collected =>
    cases found
    have fresh : done.get? name = none := by simpa using unfinished
    obtain ⟨advances, finished, members⟩ := collect_ok ih
      (fun next member => wellFormed.headEdge_declared (Grammar.headEdge_iff.mpr member)) layered collected
    -- The name is on the trail of the searches for its heads, so none of them has finished it.
    have stillFresh : middle.get? name = none := advances.skips name (by simp) fresh
    refine ⟨⟨.add advances.layered declared stillFresh ?_ ?_, ?_, ?_⟩, by simp [Finished]⟩
    · exact fun next edge => finished next (Grammar.headEdge_iff.mp edge)
    · intro symbol
      rw [members symbol, exists_leads_iff]
      simp only [SymbolSet.not_mem_empty, false_or]
    · exact advances.keeps.trans (extends_add stillFresh set)
    · intro other member fresh
      have different : other ≠ name := by
        rintro rfl
        exact offTrail member
      simpa [different] using advances.skips other (List.mem_append_left _ member) fresh

theorem searchAll_ok {g : Grammar} (wellFormed : g.WellFormed) {names : List String}
    (declared : ∀ name ∈ names, name ∈ g.nonTerminals) {done next : FirstSets} (layered : Layered g done)
    (found : searchAll g done names = .ok next) :
    Layered g next ∧ done.Extends next ∧ ∀ name ∈ names, next.Finished name := by
  induction names generalizing done with
  | nil => cases found; exact ⟨layered, .refl, by simp⟩
  | cons name rest ih =>
    unfold searchAll at found
    split at found
    · contradiction
    next middle searched =>
    obtain ⟨advances, finished⟩ := search_ok wellFormed layered (declared name (by simp)) searched
    obtain ⟨layeredNext, keeps, finishedRest⟩ :=
      ih (fun other member => declared other (List.mem_cons_of_mem _ member)) advances.layered found
    refine ⟨layeredNext, advances.keeps.trans keeps, fun other member => ?_⟩
    rcases List.mem_cons.mp member with rfl | later
    · exact keeps.finished finished
    · exact finishedRest other later

/-- The FIRST sets of a grammar come in layers and have an entry for each declared non-terminal. -/
theorem of_firstSets {g : Grammar} (wellFormed : g.WellFormed) {first : FirstSets}
    (computed : g.firstSets = .ok first) :
    Layered g first ∧ ∀ name, first.Finished name ↔ name ∈ g.nonTerminals := by
  unfold Grammar.firstSets at computed
  split at computed
  · contradiction
  split at computed
  · contradiction
  next searched =>
  cases computed
  obtain ⟨layered, _, finished⟩ := searchAll_ok wellFormed (fun _ member => member) .empty searched
  exact ⟨layered, fun name => ⟨layered.declared, finished name⟩⟩

end FirstSets

end Predictive
