import Predictive.Grammar.Reader

/-!
Terminals and non-terminals are declared alike. What differs is the list that a new name goes to, so here the kind
is a parameter: one equation says what declaring a name of either kind leads to (`addName_eq`), and one says so for
many names in turn (`editAll_names`).
-/
namespace Predictive

/-- The kinds of declared names. -/
inductive Kind where
  | terminal
  | nonTerminal
deriving DecidableEq, Repr

namespace Kind

/-- The symbol that a name of this kind stands for. -/
def symbol : Kind → String → Symbol
  | terminal => .terminal
  | nonTerminal => .nonTerminal

/-- The edit that declares a name of this kind. -/
def edit : Kind → String → Edit
  | terminal => .terminal
  | nonTerminal => .nonTerminal

/-- The kind that a name of this kind must not have as well. -/
def other : Kind → Kind
  | terminal => nonTerminal
  | nonTerminal => terminal

end Kind

/-- The names with one more at their end, unless it is one of them. -/
def enrol (names : List String) (name : String) : List String := if name ∈ names then names else names ++ [name]

/-- The names of a list, each once, in the order in which they first come up. -/
def firstUses (names : List String) : List String := names.foldl enrol []

theorem enrol_of_mem {names : List String} {name : String} (listed : name ∈ names) : enrol names name = names :=
  if_pos listed

theorem mem_enrol {names : List String} {name other : String} :
    other ∈ enrol names name ↔ other ∈ names ∨ other = name := by
  unfold enrol
  split
  · next listed => exact ⟨.inl, fun known => known.elim id fun same => same ▸ listed⟩
  · simp

theorem mem_foldl_enrol {names seen : List String} {name : String} :
    name ∈ names.foldl enrol seen ↔ name ∈ seen ∨ name ∈ names := by
  induction names generalizing seen with
  | nil => simp
  | cons first rest ih => rw [List.foldl_cons, ih, mem_enrol, List.mem_cons, or_assoc]

theorem mem_firstUses {names : List String} {name : String} : name ∈ firstUses names ↔ name ∈ names := by
  simp [firstUses, mem_foldl_enrol]

theorem foldl_enrol_of_subset {names seen : List String} (listed : ∀ name ∈ names, name ∈ seen) :
    names.foldl enrol seen = seen := by
  induction names with
  | nil => rfl
  | cons first rest ih =>
    rw [List.foldl_cons, enrol_of_mem (listed first List.mem_cons_self)]
    exact ih fun name member => listed name (List.mem_cons_of_mem first member)

namespace Grammar

/-- The names of a kind. -/
def namesOf (g : Grammar) : Kind → List String
  | .terminal => g.terminals
  | .nonTerminal => g.nonTerminals

/-- The grammar with the given names of a kind. -/
def withNames (g : Grammar) (kind : Kind) (names : List String) : Grammar :=
  match kind with
  | .terminal => { g with terminals := names }
  | .nonTerminal => { g with nonTerminals := names }

/-- Declares a name of a kind. -/
def addName (g : Grammar) : Kind → String → Except Malformation Grammar
  | .terminal => g.addTerminal
  | .nonTerminal => g.addNonTerminal

section
variable {g : Grammar} {kind : Kind} {names : List String}

@[simp] theorem namesOf_withNames : (g.withNames kind names).namesOf kind = names := by
  cases kind <;> rfl

@[simp] theorem namesOf_other_withNames : (g.withNames kind names).namesOf kind.other = g.namesOf kind.other := by
  cases kind <;> rfl

@[simp] theorem withNames_withNames {more : List String} :
    (g.withNames kind names).withNames kind more = g.withNames kind more := by
  cases kind <;> rfl

@[simp] theorem withNames_namesOf : g.withNames kind (g.namesOf kind) = g := by
  cases kind <;> rfl

end

/-! ### One name -/

/-- A name is declared if it stands for a symbol, which is then declared under this name. -/
theorem declared_of_symbol? {g : Grammar} {name : String} {symbol : Symbol} (found : g.symbol? name = some symbol) :
    g.Declared symbol ∧ symbol.name = name := by
  unfold symbol? at found
  split at found
  · next terminal => cases found; exact ⟨terminal, rfl⟩
  · split at found
    · next nonTerminal => cases found; exact ⟨nonTerminal, rfl⟩
    · contradiction

theorem symbol?_eq_none {g : Grammar} {name : String} :
    g.symbol? name = none ↔ name ∉ g.terminals ∧ name ∉ g.nonTerminals := by
  unfold symbol?
  by_cases terminal : name ∈ g.terminals
  · simp [terminal]
  · by_cases nonTerminal : name ∈ g.nonTerminals
    · simp [terminal, nonTerminal]
    · simp [terminal, nonTerminal]

variable {g : Grammar} {kind : Kind} {name : String}

theorem addName_eq : g.addName kind name =
    if Reserved name then .error (.reservedName name) else
    match g.symbol? name with
    | some symbol =>
      if symbol.rank = (kind.symbol name).rank then .ok g else .error (.vocabularyOverlap name)
    | none => .ok (g.withNames kind (g.namesOf kind ++ [name])) := by
  cases kind with
  | terminal =>
    show g.addTerminal name = _
    unfold addTerminal
    cases g.symbol? name with
    | none => rfl
    | some symbol => cases symbol <;> rfl
  | nonTerminal =>
    show g.addNonTerminal name = _
    unfold addNonTerminal
    cases g.symbol? name with
    | none => rfl
    | some symbol => cases symbol <;> rfl

theorem edit_kind : g.edit (kind.edit name) = g.settle (g.addName kind name) := by
  cases kind <;> rfl

theorem symbol?_withNames (fresh : g.symbol? name = none) {other : String} :
    (g.withNames kind (g.namesOf kind ++ [name])).symbol? other =
      if name = other then some (kind.symbol name) else g.symbol? other := by
  obtain ⟨noTerminal, noNonTerminal⟩ := symbol?_eq_none.mp fresh
  by_cases same : name = other
  · subst same
    cases kind <;> simp [withNames, namesOf, symbol?, noTerminal, Kind.symbol]
  · by_cases terminal : other ∈ g.terminals <;> by_cases nonTerminal : other ∈ g.nonTerminals <;>
      cases kind <;> simp [withNames, namesOf, symbol?, same, Ne.symm same, terminal, nonTerminal]

/-- A name that is accepted was there already, or it is new and is put at the end of its list. -/
theorem addName_eq_ok {next : Grammar} (added : g.addName kind name = .ok next) :
    next = g ∨ ¬ Reserved name ∧ g.symbol? name = none ∧ next = g.withNames kind (g.namesOf kind ++ [name]) := by
  rw [addName_eq] at added
  split at added
  · contradiction
  · next free =>
    split at added
    · split at added
      · cases added; exact .inl rfl
      · contradiction
    · next fresh => cases added; exact .inr ⟨free, fresh, rfl⟩

/-! ### Names in turn -/

/-- A name that is not of the other kind is declared, once. -/
theorem edit_name (apart : name ∉ g.namesOf kind.other) : g.edit (kind.edit name) =
    if Reserved name then (g, some (.reservedName name))
    else (g.withNames kind (enrol (g.namesOf kind) name), none) := by
  rw [edit_kind, addName_eq]
  by_cases reserved : Reserved name
  · simp only [reserved, if_true]
    rfl
  · simp only [reserved, if_false]
    by_cases listed : name ∈ g.namesOf kind
    · have known : g.symbol? name = some (kind.symbol name) := by
        cases kind with
        | terminal => exact if_pos listed
        | nonTerminal => exact (if_neg apart).trans (if_pos listed)
      simp only [known, if_true, enrol_of_mem listed, withNames_namesOf]
      rfl
    · have fresh : g.symbol? name = none := by
        cases kind with
        | terminal => exact symbol?_eq_none.mpr ⟨listed, apart⟩
        | nonTerminal => exact symbol?_eq_none.mpr ⟨apart, listed⟩
      simp only [fresh, enrol, listed, if_false]
      rfl

theorem editAll_append {front back : List Edit} : g.editAll (front ++ back) =
    match g.editAll front with
    | .ok next => next.editAll back
    | .error fault => .error fault := by
  induction front generalizing g with
  | nil => rfl
  | cons first rest ih =>
    simp only [List.cons_append, editAll]
    split
    · exact ih
    · rfl

/-- Names of one kind, none of which is of the other kind, are declared up to the first reserved one. -/
theorem editAll_names {names : List String} (apart : ∀ name ∈ names, name ∉ g.namesOf kind.other) :
    g.editAll (names.map kind.edit) =
      match names.find? fun name => Reserved name with
      | some name => .error (.reservedName name)
      | none => .ok (g.withNames kind (names.foldl enrol (g.namesOf kind))) := by
  induction names generalizing g with
  | nil => simp [editAll]
  | cons first rest ih =>
    have apartRest : ∀ name ∈ rest, name ∉ (g.withNames kind (enrol (g.namesOf kind) first)).namesOf kind.other := by
      intro name member
      rw [namesOf_other_withNames]
      exact apart name (List.mem_cons_of_mem first member)
    rw [List.map_cons, editAll, edit_name (apart first (by simp)), List.find?_cons]
    by_cases reserved : Reserved first
    · simp [reserved]
    · simp [reserved, ih apartRest]

end Grammar

end Predictive
