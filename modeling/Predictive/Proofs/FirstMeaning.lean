import Predictive.Proofs.Alternatives
import Predictive.Proofs.Rewriting

/-!
FIRST sets by heads and derivations. A terminal that a set holds does begin a form derived from its
non-terminal (`Table.beginsWith_of_contains`). The sets leave out terminals behind a head that vanishes; but
then they hold the empty word, so the head of a production always tells something about what it spells: a
production that spells tokens opens with the first of them or with the empty word (`Table.opens_of_spells`).
-/
namespace Predictive

/-- Where the sets are right about the head of a production, so they are about the production. -/
theorem FirstSets.beginsWith_of_opens {g : Grammar} {first : FirstSets} {terminal : String}
    (right : ∀ name, first.Contains name (.terminal terminal) → g.BeginsWith [.nonTerminal name] terminal)
    {production : Production} (opens : first.Opens production (.terminal terminal)) :
    g.BeginsWith (eraseEpsilon production.right) terminal := by
  obtain ⟨head, isHead, leads⟩ := opens
  obtain ⟨rest, split⟩ := List.head?_eq_some_iff.mp isHead
  cases head with
  | nonTerminal name =>
    rw [split, eraseEpsilon_cons (by simp)]
    exact (right name leads).append_right
  | terminal name =>
    cases leads
    rw [split, eraseEpsilon_cons (by simp)]
    exact ⟨[], eraseEpsilon rest, rfl⟩
  | epsilon => cases leads
  | endMarker => cases leads

theorem FirstSets.Layered.beginsWith {g : Grammar} {first : FirstSets} (layered : Layered g first)
    (wellFormed : g.WellFormed) {name terminal : String} (contained : first.Contains name (.terminal terminal)) :
    g.BeginsWith [.nonTerminal name] terminal := by
  induction layered generalizing name with
  | empty => simp [Contains] at contained
  | @add below new set _ _ _ _ members ih =>
    by_cases same : name = new
    · subst same
      have inSet : Symbol.terminal terminal ∈ set := by simpa [Contains] using contained
      obtain ⟨production, listed, opens⟩ := (members _).mp inSet
      obtain ⟨member, rfl⟩ := Grammar.mem_productionsOf.mp listed
      exact wellFormed.beginsWith_expand member (beginsWith_of_opens (fun _ => ih) opens).append_right
    · exact ih (by simpa [Contains, same] using contained)

namespace Table

variable {table : Table} (wellFormed : table.grammar.WellFormed)
include wellFormed

theorem beginsWith_of_contains {name terminal : String} (contained : table.first.Contains name (.terminal terminal)) :
    table.grammar.BeginsWith [.nonTerminal name] terminal :=
  (layered wellFormed).beginsWith wellFormed contained

theorem beginsWith_of_opens {production : Production} {terminal : String}
    (opens : table.first.Opens production (.terminal terminal)) :
    table.grammar.BeginsWith (eraseEpsilon production.right) terminal :=
  FirstSets.beginsWith_of_opens (fun _ => beginsWith_of_contains wellFormed) opens

/-- A production that spells tokens, together with what is behind it, opens with the first token or with the
    empty word. -/
theorem opens_of_spells {production : Production} (listed : production ∈ table.grammar.productions)
    {behind : List Symbol} {rules : List Nat} {tokens : List String}
    (spells : table.grammar.Spells (production.right ++ behind) rules tokens) :
    ∃ symbol, table.first.Opens production symbol ∧
      (symbol = .epsilon ∨ ∃ token ∈ tokens.head?, symbol = .terminal token) := by
  generalize whole : production.right ++ behind = form at spells
  induction spells generalizing production behind with
  | nil =>
    obtain ⟨head, rest, isHead, split⟩ := wellFormed.exists_head listed
    rw [split] at whole
    cases whole
  | @terminal name form rules tokens _ _ =>
    obtain ⟨head, rest, isHead, split⟩ := wellFormed.exists_head listed
    rw [split] at whole
    cases whole
    exact ⟨.terminal name, ⟨_, isHead, rfl⟩, .inr ⟨name, rfl, rfl⟩⟩
  | @epsilon form rules tokens _ _ =>
    obtain ⟨head, rest, isHead, split⟩ := wellFormed.exists_head listed
    rw [split] at whole
    cases whole
    exact ⟨.epsilon, ⟨_, isHead, rfl⟩, .inl rfl⟩
  | @expand other form rules tokens listedOther _ ih =>
    obtain ⟨head, rest, isHead, split⟩ := wellFormed.exists_head listed
    rw [split] at whole
    cases whole
    obtain ⟨symbol, opens, seen⟩ := ih listedOther rfl
    exact ⟨symbol, ⟨_, isHead, contains_left wellFormed listedOther opens⟩, seen⟩

end Table

end Predictive
