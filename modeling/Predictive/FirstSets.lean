import Predictive.Grammar.HeadChain
import Predictive.Symbol.Set

/-!
FIRST sets by heads. The FIRST set of a non-terminal holds the heads of its productions, with the FIRST
sets of those heads that are non-terminals in their place; symbols behind a head that can be empty are
not looked at. The sets are found by a depth-first search that keeps the sets it has finished and the
trail of names whose sets it is working on. A name that comes up again on its own trail depends on
itself, and the search reports the part of the trail between the two.
-/
namespace Predictive

/-- FIRST sets of non-terminals, each name with one set. -/
structure FirstSets where
  /-- The sets by name, the last finished one first. -/
  entries : List (String × SymbolSet) := []
deriving DecidableEq

namespace FirstSets

/-- The set of a non-terminal. -/
def get? (first : FirstSets) (name : String) : Option SymbolSet := first.entries.lookup name

/-- The symbol is in the set of a non-terminal. -/
def Contains (first : FirstSets) (name : String) (symbol : Symbol) : Prop :=
  ∃ set ∈ first.get? name, symbol ∈ set

instance (first : FirstSets) (name : String) (symbol : Symbol) : Decidable (first.Contains name symbol) :=
  decidable_of_iff (((first.get? name).any fun set => symbol ∈ set) = true) <| by
    cases found : first.get? name <;> simp [Contains, found]

/-- The sets with one more entry. -/
def add (first : FirstSets) (name : String) (set : SymbolSet) : FirstSets :=
  { entries := (name, set) :: first.entries }

@[simp] theorem get?_empty {name : String} : ({} : FirstSets).get? name = none := rfl

@[simp] theorem get?_add {first : FirstSets} {name other : String} {set : SymbolSet} :
    (first.add name set).get? other = if other = name then some set else first.get? other := by
  by_cases same : other = name
  · simp [get?, add, same]
  · have different : (other == name) = false := by simpa using same
    simp [get?, add, List.lookup_cons, same, different]

/-- Joins to a set what each head of a list contributes. A head that is a non-terminal contributes its
    set, which the search given may have to finish first. -/
def collect (search : FirstSets → String → Except (List String) FirstSets) :
    FirstSets → SymbolSet → List Symbol → Except (List String) (FirstSets × SymbolSet)
  | done, set, [] => .ok (done, set)
  | done, set, .nonTerminal name :: rest => match search done name with
    | .error path => .error path
    | .ok next => collect search next (set.union ((next.get? name).getD ∅)) rest
  | done, set, symbol :: rest => collect search done (set.insert symbol) rest

/-- The part of a trail that leads from a name on it to that name again. -/
def cycleFrom (trail : List String) (name : String) : List String :=
  trail.dropWhile (· ≠ name) ++ [name]

/-- Finishes the set of a name and all sets it needs, or finds the cycle that prevents this. The names
    of a trail differ, so room for one more than there are non-terminals is never used up. -/
def search (g : Grammar) : (room : Nat) → (trail : List String) → FirstSets → String →
    Except (List String) FirstSets
  | 0, trail, _, name => .error (cycleFrom trail name)
  | room + 1, trail, done, name =>
    if (done.get? name).isSome then .ok done else
    if name ∈ trail then .error (cycleFrom trail name) else
    match collect (search g room (trail ++ [name])) done ∅ ((g.productionsOf name).filterMap (·.head?)) with
    | .error path => .error path
    | .ok (next, set) => .ok (next.add name set)

/-- Finishes the sets of several names in turn. -/
def searchAll (g : Grammar) : FirstSets → List String → Except (List String) FirstSets
  | done, [] => .ok done
  | done, name :: rest => match search g (g.nonTerminals.length + 1) [] done name with
    | .error path => .error path
    | .ok next => searchAll g next rest

end FirstSets

namespace Grammar

/-- The FIRST sets of all non-terminals of a usable grammar. -/
def firstSets (g : Grammar) : Except Error FirstSets :=
  match g.fault? with
  | some fault => .error (.malformed fault)
  | none => match FirstSets.searchAll g {} g.nonTerminals with
    | .error path => .error (.headCycle path)
    | .ok first => .ok first

end Grammar

end Predictive
