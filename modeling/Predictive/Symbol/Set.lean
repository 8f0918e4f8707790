import Predictive.Symbol.Basic

/-!
Finite sets of symbols, kept as strictly increasing lists. Such a list is determined by its members,
so two sets with the same members are equal, whatever was inserted in which order.
-/
namespace Predictive

/-- A finite set of symbols, listed in increasing order. -/
structure SymbolSet where
  /-- The members in increasing order. -/
  toList : List Symbol
  /-- Each member comes before every later one. -/
  increasing : toList.Pairwise fun a b => compare a b = .lt
deriving DecidableEq

namespace SymbolSet

/-- The list with one symbol put in its place, unless it is there already. -/
def place (new : Symbol) : List Symbol → List Symbol
  | [] => [new]
  | first :: rest => match compare new first with
    | .lt => new :: first :: rest
    | .eq => first :: rest
    | .gt => first :: place new rest

theorem mem_place {new x : Symbol} {symbols : List Symbol} :
    x ∈ place new symbols ↔ x = new ∨ x ∈ symbols := by
  induction symbols with
  | nil => simp [place]
  | cons first rest ih =>
    unfold place
    split
    · simp
    · next same => simp [Std.LawfulEqCmp.eq_of_compare same]
    · simp only [List.mem_cons, ih]; exact or_left_comm

theorem increasing_place {new : Symbol} {symbols : List Symbol}
    (increasing : symbols.Pairwise fun a b => compare a b = .lt) :
    (place new symbols).Pairwise fun a b => compare a b = .lt := by
  induction symbols with
  | nil => simp [place]
  | cons first rest ih =>
    obtain ⟨below, restIncreasing⟩ := List.pairwise_cons.mp increasing
    unfold place
    split
    · next lower =>
      refine List.pairwise_cons.mpr ⟨fun x member => ?_, increasing⟩
      rcases List.mem_cons.mp member with rfl | later
      · exact lower
      · exact Std.TransCmp.lt_trans lower (below x later)
    · exact increasing
    · next higher =>
      refine List.pairwise_cons.mpr ⟨fun x member => ?_, ih restIncreasing⟩
      rcases mem_place.mp member with rfl | later
      · exact Std.OrientedCmp.lt_of_gt higher
      · exact below x later

/-- The set without members. -/
def empty : SymbolSet := ⟨[], .nil⟩

instance : EmptyCollection SymbolSet := ⟨empty⟩
instance : Inhabited SymbolSet := ⟨empty⟩

instance : Membership Symbol SymbolSet where
  mem set x := x ∈ set.toList

instance (x : Symbol) (set : SymbolSet) : Decidable (x ∈ set) := inferInstanceAs (Decidable (x ∈ set.toList))

/-- The set with one more member. -/
def insert (set : SymbolSet) (new : Symbol) : SymbolSet :=
  ⟨place new set.toList, increasing_place set.increasing⟩

/-- The set with all members of another one. -/
def union (set other : SymbolSet) : SymbolSet := other.toList.foldl insert set

@[simp] theorem not_mem_empty {x : Symbol} : x ∉ (∅ : SymbolSet) := List.not_mem_nil

@[simp] theorem mem_insert {x new : Symbol} {set : SymbolSet} : x ∈ set.insert new ↔ x = new ∨ x ∈ set :=
  mem_place

@[simp] theorem mem_union {x : Symbol} {set other : SymbolSet} : x ∈ set.union other ↔ x ∈ set ∨ x ∈ other := by
  have general : ∀ (symbols : List Symbol) (start : SymbolSet),
      x ∈ symbols.foldl insert start ↔ x ∈ start ∨ x ∈ symbols := by
    intro symbols
    induction symbols with
    | nil => simp
    | cons first rest ih => intro start; simp only [List.foldl_cons, ih, mem_insert, List.mem_cons]; grind
  exact general other.toList set

/-- Sets with the same members are equal. -/
theorem ext_mem {a b : SymbolSet} (same : ∀ x, x ∈ a ↔ x ∈ b) : a = b := by
  have irreflexive : ∀ x : Symbol, compare x x ≠ .lt := fun x => by simp
  have lists : ∀ (l m : List Symbol), l.Pairwise (fun a b => compare a b = .lt) →
      m.Pairwise (fun a b => compare a b = .lt) → (∀ x, x ∈ l ↔ x ∈ m) → l = m := by
    intro l
    induction l with
    | nil =>
      intro m _ _ members
      cases m with
      | nil => rfl
      | cons y ys => simpa using (members y).mpr (by simp)
    | cons x xs ih =>
      intro m lIncreasing mIncreasing members
      cases m with
      | nil => simpa using (members x).mp (by simp)
      | cons y ys =>
        obtain ⟨belowX, xsIncreasing⟩ := List.pairwise_cons.mp lIncreasing
        obtain ⟨belowY, ysIncreasing⟩ := List.pairwise_cons.mp mIncreasing
        have heads : x = y := by
          rcases List.mem_cons.mp ((members x).mp (by simp)) with equal | xLater
          · exact equal
          rcases List.mem_cons.mp ((members y).mpr (by simp)) with equal | yLater
          · exact equal.symm
          exact absurd (Std.TransCmp.lt_trans (belowX y yLater) (belowY x xLater)) (irreflexive x)
        subst heads
        refine congrArg _ (ih ys xsIncreasing ysIncreasing fun z => ?_)
        have memberZ := members z
        simp only [List.mem_cons] at memberZ
        constructor
        · intro inside
          rcases memberZ.mp (.inr inside) with rfl | found
          · exact absurd (belowX _ inside) (irreflexive _)
          · exact found
        · intro inside
          rcases memberZ.mpr (.inr inside) with rfl | found
          · exact absurd (belowY _ inside) (irreflexive _)
          · exact found
  cases a; cases b
  simp only [SymbolSet.mk.injEq]
  exact lists _ _ ‹_› ‹_› same

end SymbolSet

end Predictive
