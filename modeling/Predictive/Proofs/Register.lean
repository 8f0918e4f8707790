import Predictive.Proofs.Declarations

/-!
Declarations that are looked up instead of searched for. A register keeps a grammar under construction in five
stores: the names of either kind in order, the symbol of each name, the productions of each left side, and the rule
numbers in use. Calls change one store after another and keep what they have changed when they are refused. Each
call has one equation that says what it answers and leaves behind (`answer_addName`, `answer_addProduction`), and by
these a register always records the grammar that the same edits build (`Records.call`). So its stores stay
consistent with each other through any calls, whether refused or not, and a refused call changes nothing but what
was accepted before (`register_consistent`).
-/
namespace Predictive

/-- The stores of a grammar under construction. -/
structure Register where
  start : String
  terminals : List String := []
  nonTerminals : List String := []
  /-- The symbols of the declared names. -/
  symbols : Std.HashMap String Symbol := ∅
  /-- The productions of each left side, in the order in which they were added. -/
  rules : Std.HashMap String (List Production) := ∅
  /-- The numbers of the productions. -/
  ids : Std.HashSet Nat := ∅

namespace Register

/-- A call that reads and changes a register, and that may be refused on the way. -/
abbrev Call := ExceptT Malformation (StateM Register)

/-- The answer to a call, and the register that the call leaves behind. -/
def answer {α : Type} (register : Register) (call : Call α) : Except Malformation α × Register :=
  call.run.run register

/-- The register with a name at the end of the list of its kind. -/
def enlist (kind : Kind) (name : String) (register : Register) : Register :=
  match kind with
  | .terminal => { register with terminals := register.terminals ++ [name] }
  | .nonTerminal => { register with nonTerminals := register.nonTerminals ++ [name] }

/-- The symbol that a name stands for already. -/
def lookUp (name : String) : Call (Option Symbol) := do
  if Reserved name then throw (.reservedName name)
  return (← get).symbols[name]?

/-- Declares a name. A name of the same kind is accepted as it is. -/
def addName (kind : Kind) (name : String) : Call Symbol := do
  match ← lookUp name with
  | some symbol =>
    if symbol.rank = (kind.symbol name).rank then return symbol else throw (.vocabularyOverlap name)
  | none =>
    modify (enlist kind name)
    modify fun register => { register with symbols := register.symbols.insert name (kind.symbol name) }
    return kind.symbol name

/-- Declares one name after another until one is refused. -/
def addNames (kind : Kind) : List String → Call Unit
  | [] => return
  | name :: rest => do
    let _ ← addName kind name
    addNames kind rest

/-- The symbol that a word of a right side stands for. -/
def rightSymbol (word : String) : Call Symbol := do
  if SpellsEpsilon word then return .epsilon
  match (← get).symbols[word]? with
  | some symbol => return symbol
  | none => throw (.undeclaredSymbol word)

/-- The name stands for a non-terminal. -/
def isNonTerminal (register : Register) (name : String) : Bool :=
  (register.symbols[name]?.bind Symbol.nonTerminal?).isSome

/-- Adds a production behind the ones that its left side has. -/
def addProduction (left : String) (right : List String) (id : Nat) : Call Unit := do
  if ¬ (← get).isNonTerminal left then throw (.undeclaredNonTerminal left)
  if right = [] then throw (.emptyRule id)
  if id ∈ (← get).ids then throw (.duplicateRule id)
  let symbols ← right.mapM rightSymbol
  if symbols.length > 1 ∧ Symbol.epsilon ∈ symbols then throw (.misplacedEpsilon id)
  modify fun register => { register with ids := register.ids.insert id }
  modify fun register => { register with
    rules := register.rules.alter left fun listed => some (listed.getD [] ++ [{ id, left, right := symbols }]) }

/-- The call that an edit stands for. -/
def call : Edit → Call Unit
  | .terminal name => do let _ ← addName .terminal name
  | .nonTerminal name => do let _ ← addName .nonTerminal name
  | .terminals names => addNames .terminal names
  | .nonTerminals names => addNames .nonTerminal names
  | .production left right id => addProduction left right id

/-- The register after calls of which some may have been refused. -/
def afterCalls (register : Register) (edits : List Edit) : Register :=
  edits.foldl (fun current request => (current.answer (call request)).2) register

/-- The productions of a left side. -/
def productionsOf (register : Register) (left : String) : List Production := register.rules.getD left []

/-- All productions, grouped by non-terminal in the order of declaration. -/
def listing (register : Register) : List Production := register.nonTerminals.flatMap register.productionsOf

/-- The stores agree with each other. -/
structure Consistent (register : Register) : Prop where
  terminals_nodup : register.terminals.Nodup
  nonTerminals_nodup : register.nonTerminals.Nodup
  kinds_disjoint : ∀ name ∈ register.terminals, name ∉ register.nonTerminals
  names_free : ∀ name ∈ register.terminals ++ register.nonTerminals, name ≠ "e" ∧ name ≠ "ε" ∧ name ≠ "$"
  /-- The declared names have symbols, each that of its kind, and no other name has one. -/
  symbols_exact : ∀ (name : String) (symbol : Symbol), register.symbols[name]? = some symbol ↔
    symbol = .terminal name ∧ name ∈ register.terminals ∨ symbol = .nonTerminal name ∧ name ∈ register.nonTerminals
  /-- Each production is kept under its own left side, a declared non-terminal. -/
  left_declared : ∀ left, ∀ production ∈ register.productionsOf left,
    production.left = left ∧ left ∈ register.nonTerminals
  /-- A right side is the empty word alone, or a non-empty sequence of declared symbols. -/
  right_proper : ∀ left, ∀ production ∈ register.productionsOf left, production.right = [.epsilon] ∨
    production.right ≠ [] ∧ ∀ symbol ∈ production.right, register.symbols[symbol.name]? = some symbol
  right_unmarked : ∀ left, ∀ production ∈ register.productionsOf left, .endMarker ∉ production.right
  ids_nodup : (register.listing.map Production.id).Nodup
  ids_exact : ∀ id, id ∈ register.ids ↔ id ∈ register.listing.map Production.id

/-- Nothing that the first register holds is missing, different or in another place in the second. -/
structure Extends (register later : Register) : Prop where
  start : later.start = register.start
  terminals : register.terminals <+: later.terminals
  nonTerminals : register.nonTerminals <+: later.nonTerminals
  symbols : ∀ (name : String) (symbol : Symbol),
    register.symbols[name]? = some symbol → later.symbols[name]? = some symbol
  productions : ∀ left, register.productionsOf left <+: later.productionsOf left
  ids : ∀ id ∈ register.ids, id ∈ later.ids

/-- Of the names, those before the refused one were added, and nothing else was done. -/
def StoppedAt (register : Register) (kind : Kind) (names : List String) (fault : Malformation) (after : Register) :
    Prop :=
  ∃ before name behind, names = before ++ name :: behind ∧
    register.answer (addNames kind before) = (.ok (), after) ∧
    after.answer (addName kind name) = (.error fault, after)

/-- What a refused call leaves behind: the register as it was, and of a list the names before the refused one. -/
def Leaves (register : Register) (request : Edit) (fault : Malformation) (after : Register) : Prop :=
  match request with
  | .terminals names => register.StoppedAt .terminal names fault after
  | .nonTerminals names => register.StoppedAt .nonTerminal names fault after
  | _ => after = register

/-- The stores are those of the grammar. -/
structure Records (register : Register) (g : Grammar) : Prop where
  start : register.start = g.start
  terminals : register.terminals = g.terminals
  nonTerminals : register.nonTerminals = g.nonTerminals
  symbols : ∀ name : String, register.symbols[name]? = g.symbol? name
  productions : ∀ left, register.productionsOf left = g.productionsOf left
  ids : ∀ id, id ∈ register.ids ↔ id ∈ g.productions.map Production.id

/-- The cause why a call was refused, if it was. -/
def refusal {α : Type} : Except Malformation α → Option Malformation
  | .ok _ => none
  | .error fault => some fault

section
variable {α β : Type} {register : Register}

/-! ### What calls answer and leave behind -/

@[simp] theorem answer_pure {value : α} : register.answer (pure value) = (.ok value, register) := rfl

@[simp] theorem answer_throw {fault : Malformation} :
    register.answer (throw fault : Call α) = (.error fault, register) := rfl

@[simp] theorem answer_get : register.answer get = (.ok register, register) := rfl

@[simp] theorem answer_modify {change : Register → Register} :
    register.answer (modify change) = (.ok (), change register) := rfl

theorem answer_bind {call : Call α} {next : α → Call β} :
    register.answer (call >>= next) = match register.answer call with
      | (.ok value, after) => after.answer (next value)
      | (.error fault, after) => (.error fault, after) := by
  simp only [answer, ExceptT.run_bind, StateT.run_bind]
  generalize call.run.run register = answered
  rcases answered with ⟨_ | _, after⟩ <;> rfl

theorem answer_bind_eq_error {call : Call α} {next : α → Call β} {fault : Malformation} {after : Register} :
    register.answer (call >>= next) = (.error fault, after) ↔ register.answer call = (.error fault, after) ∨
      ∃ value middle, register.answer call = (.ok value, middle) ∧
        middle.answer (next value) = (.error fault, after) := by
  rw [answer_bind]
  rcases register.answer call with ⟨_ | value, middle⟩
  · simp
  · simp

theorem answer_map {call : Call α} {change : α → β} :
    register.answer (change <$> call) = ((register.answer call).1.map change, (register.answer call).2) := by
  simp only [answer, ExceptT.run_map, StateT.run_map]
  generalize call.run.run register = answered
  rcases answered with ⟨_ | _, after⟩ <;> rfl

/-- The register with a declared name, also in the table of symbols. -/
def declare (kind : Kind) (name : String) (register : Register) : Register :=
  { enlist kind name register with symbols := (enlist kind name register).symbols.insert name (kind.symbol name) }

/-- The register with one more production, and its number among those in use. -/
def enter (production : Production) (register : Register) : Register :=
  { register with
    ids := register.ids.insert production.id
    rules := register.rules.alter production.left fun listed => some (listed.getD [] ++ [production]) }

theorem answer_lookUp {name : String} : register.answer (lookUp name) =
    if Reserved name then (.error (.reservedName name), register) else (.ok register.symbols[name]?, register) := by
  by_cases reserved : Reserved name
  · simp [lookUp, reserved]
  · simp [lookUp, reserved, answer_map, Except.map]

theorem answer_addName {kind : Kind} {name : String} : register.answer (addName kind name) =
    if Reserved name then (.error (.reservedName name), register) else
    match register.symbols[name]? with
    | some symbol =>
      if symbol.rank = (kind.symbol name).rank then (.ok symbol, register)
      else (.error (.vocabularyOverlap name), register)
    | none => (.ok (kind.symbol name), declare kind name register) := by
  unfold addName
  by_cases reserved : Reserved name
  · simp [answer_bind, answer_lookUp, reserved]
  · cases found : register.symbols[name]? with
    | none => simp [answer_bind, answer_lookUp, answer_map, reserved, found, Except.map, declare]
    | some symbol =>
      by_cases same : symbol.rank = (kind.symbol name).rank <;>
        simp [answer_bind, answer_lookUp, reserved, found, same]

theorem answer_rightSymbol {word : String} : register.answer (rightSymbol word) =
    if SpellsEpsilon word then (.ok .epsilon, register) else
    match register.symbols[word]? with
    | some symbol => (.ok symbol, register)
    | none => (.error (.undeclaredSymbol word), register) := by
  unfold rightSymbol
  by_cases empty : SpellsEpsilon word
  · simp [empty]
  · cases found : register.symbols[word]? <;> simp [empty, answer_bind, found]

/-- Reading a right side changes nothing. -/
theorem answer_rightSymbols {right : List String} : (register.answer (right.mapM rightSymbol)).2 = register := by
  induction right with
  | nil => rfl
  | cons word rest ih =>
    have reads : (register.answer (rightSymbol word)).2 = register := by
      rw [answer_rightSymbol]
      split
      · rfl
      · split <;> rfl
    rw [List.mapM_cons, answer_bind]
    generalize register.answer (rightSymbol word) = answered at reads
    obtain ⟨result, after⟩ := answered
    subst reads
    cases result with
    | error fault => rfl
    | ok symbol =>
      simp only [bind_pure_comp, answer_map]
      exact ih

theorem answer_addProduction {left : String} {right : List String} {id : Nat} :
    register.answer (addProduction left right id) =
      if ¬ register.isNonTerminal left then (.error (.undeclaredNonTerminal left), register)
      else if right = [] then (.error (.emptyRule id), register)
      else if id ∈ register.ids then (.error (.duplicateRule id), register)
      else match (register.answer (right.mapM rightSymbol)).1 with
        | .error fault => (.error fault, register)
        | .ok symbols =>
          if symbols.length > 1 ∧ Symbol.epsilon ∈ symbols then (.error (.misplacedEpsilon id), register)
          else (.ok (), enter { id, left, right := symbols } register) := by
  unfold addProduction
  by_cases declared : register.isNonTerminal left
  case neg => simp [answer_bind, declared]
  by_cases empty : right = []
  · simp [answer_bind, declared, empty]
  by_cases used : id ∈ register.ids
  · simp [answer_bind, declared, empty, used]
  obtain ⟨result, read⟩ : ∃ result, register.answer (right.mapM rightSymbol) = (result, register) :=
    ⟨_, Prod.ext rfl answer_rightSymbols⟩
  cases result with
  | error fault => simp [answer_bind, declared, empty, used, read]
  | ok symbols =>
    by_cases misplaced : symbols.length > 1 ∧ Symbol.epsilon ∈ symbols <;>
      simp [answer_bind, declared, empty, used, read, misplaced, enter]

/-! ### What a call can do, and what refused calls leave -/

/-- A single name changes nothing, or it is new and is declared. -/
theorem addName_cases (register : Register) (kind : Kind) (name : String) :
    (∃ result, register.answer (addName kind name) = (result, register)) ∨
    register.symbols[name]? = none ∧
      register.answer (addName kind name) = (.ok (kind.symbol name), declare kind name register) := by
  rw [answer_addName]
  split
  · exact .inl ⟨_, rfl⟩
  · split
    · split <;> exact .inl ⟨_, rfl⟩
    · next fresh => exact .inr ⟨fresh, rfl⟩

/-- A production changes nothing, or it is entered. -/
theorem addProduction_cases (register : Register) (left : String) (right : List String) (id : Nat) :
    (∃ result, register.answer (addProduction left right id) = (result, register)) ∨
    ∃ production, register.answer (addProduction left right id) = (.ok (), enter production register) := by
  rw [answer_addProduction]
  split
  · exact .inl ⟨_, rfl⟩
  split
  · exact .inl ⟨_, rfl⟩
  split
  · exact .inl ⟨_, rfl⟩
  split
  · exact .inl ⟨_, rfl⟩
  split
  · exact .inl ⟨_, rfl⟩
  · exact .inr ⟨_, rfl⟩

theorem unchanged_of_addName {kind : Kind} {name : String} {fault : Malformation} {after : Register}
    (refused : register.answer (addName kind name) = (.error fault, after)) : after = register := by
  rcases register.addName_cases kind name with ⟨_, same⟩ | ⟨_, declared⟩
  · exact congrArg Prod.snd (refused.symm.trans same)
  · cases refused.symm.trans declared

theorem unchanged_of_addProduction {left : String} {right : List String} {id : Nat} {fault : Malformation}
    {after : Register} (refused : register.answer (addProduction left right id) = (.error fault, after)) :
    after = register := by
  rcases register.addProduction_cases left right id with ⟨_, same⟩ | ⟨_, entered⟩
  · exact congrArg Prod.snd (refused.symm.trans same)
  · cases refused.symm.trans entered

theorem stoppedAt_of_addNames {kind : Kind} {names : List String} {fault : Malformation} {after : Register}
    (refused : register.answer (addNames kind names) = (.error fault, after)) :
    register.StoppedAt kind names fault after := by
  induction names generalizing register with
  | nil => cases refused
  | cons name rest ih =>
    rcases answer_bind_eq_error.mp refused with first | ⟨symbol, middle, first, later⟩
    · obtain rfl := unchanged_of_addName first
      exact ⟨[], name, rest, rfl, rfl, first⟩
    · obtain ⟨before, last, behind, rfl, added, stopped⟩ := ih later
      have addedAll : register.answer (addNames kind (name :: before)) = (.ok (), after) := by
        rw [addNames, answer_bind, first]
        exact added
      exact ⟨name :: before, last, behind, rfl, addedAll, stopped⟩

theorem leaves_of_call {request : Edit} {fault : Malformation} {after : Register}
    (refused : register.answer (call request) = (.error fault, after)) : register.Leaves request fault after := by
  have single : ∀ kind name, register.answer (do let _ ← addName kind name) = (.error fault, after) →
      after = register := by
    intro kind name refused
    rcases answer_bind_eq_error.mp refused with first | ⟨symbol, middle, _, later⟩
    · exact unchanged_of_addName first
    · cases later
  cases request with
  | terminal name => exact single .terminal name refused
  | nonTerminal name => exact single .nonTerminal name refused
  | terminals names => exact stoppedAt_of_addNames refused
  | nonTerminals names => exact stoppedAt_of_addNames refused
  | production left right id => exact unchanged_of_addProduction refused

/-! ### What every call keeps -/

theorem Extends.refl : register.Extends register :=
  ⟨rfl, List.prefix_refl _, List.prefix_refl _, fun _ _ => id, fun _ => List.prefix_refl _, fun _ => id⟩

theorem Extends.trans {middle later : Register} (first : register.Extends middle) (second : middle.Extends later) :
    register.Extends later where
  start := second.start.trans first.start
  terminals := first.terminals.trans second.terminals
  nonTerminals := first.nonTerminals.trans second.nonTerminals
  symbols name symbol found := second.symbols name symbol (first.symbols name symbol found)
  productions left := (first.productions left).trans (second.productions left)
  ids id member := second.ids id (first.ids id member)

theorem productionsOf_enter {production : Production} {left : String} :
    (enter production register).productionsOf left =
      register.productionsOf left ++ if production.left = left then [production] else [] := by
  unfold productionsOf enter
  rw [Std.HashMap.getD_alter]
  by_cases same : production.left = left
  · simp [same, Std.HashMap.getD_eq_getD_getElem?]
  · simp [same]

theorem extends_declare {kind : Kind} {name : String} (fresh : register.symbols[name]? = none) :
    register.Extends (declare kind name register) := by
  have symbols : ∀ (other : String) (symbol : Symbol), register.symbols[other]? = some symbol →
      (register.symbols.insert name (kind.symbol name))[other]? = some symbol := by
    intro other symbol found
    have different : name ≠ other := by
      rintro rfl
      rw [fresh] at found
      contradiction
    simpa [Std.HashMap.getElem?_insert, different] using found
  cases kind with
  | terminal =>
    exact ⟨rfl, List.prefix_append _ _, List.prefix_refl _, symbols, fun _ => List.prefix_refl _, fun _ => id⟩
  | nonTerminal =>
    exact ⟨rfl, List.prefix_refl _, List.prefix_append _ _, symbols, fun _ => List.prefix_refl _, fun _ => id⟩

theorem extends_enter {production : Production} : register.Extends (enter production register) where
  start := rfl
  terminals := List.prefix_refl _
  nonTerminals := List.prefix_refl _
  symbols _ _ := id
  productions _ := productionsOf_enter ▸ List.prefix_append _ _
  ids _ member := Std.HashSet.mem_insert.mpr (.inr member)

theorem extends_addName {kind : Kind} {name : String} :
    register.Extends (register.answer (addName kind name)).2 := by
  obtain ⟨_, same⟩ | ⟨fresh, declared⟩ := register.addName_cases kind name
  · exact same ▸ .refl
  · exact declared ▸ extends_declare fresh

theorem extends_bind {call : Call α} {next : α → Call β} (first : register.Extends (register.answer call).2)
    (second : ∀ value (middle : Register), middle.Extends (middle.answer (next value)).2) :
    register.Extends (register.answer (call >>= next)).2 := by
  rw [answer_bind]
  generalize register.answer call = answered at first ⊢
  rcases answered with ⟨_ | value, middle⟩
  · exact first
  · exact first.trans (second value middle)

theorem extends_addNames {kind : Kind} {names : List String} :
    register.Extends (register.answer (addNames kind names)).2 := by
  induction names generalizing register with
  | nil => exact .refl
  | cons name rest ih => exact extends_bind extends_addName fun _ _ => ih

theorem extends_addProduction {left : String} {right : List String} {id : Nat} :
    register.Extends (register.answer (addProduction left right id)).2 := by
  obtain ⟨_, same⟩ | ⟨_, entered⟩ := register.addProduction_cases left right id
  · exact same ▸ .refl
  · exact entered ▸ extends_enter

theorem extends_call {request : Edit} : register.Extends (register.answer (call request)).2 := by
  cases request with
  | terminal name => exact extends_bind extends_addName fun _ _ => .refl
  | nonTerminal name => exact extends_bind extends_addName fun _ _ => .refl
  | terminals names => exact extends_addNames
  | nonTerminals names => exact extends_addNames
  | production left right id => exact extends_addProduction

/-! ### Registers and grammars -/

/-- A call is answered as the grammar answers the edit, and leaves behind a register of the grammar that the edit
    leaves behind. -/
def InStep (answered : Except Malformation α × Register) (outcome : Grammar × Option Malformation) : Prop :=
  answered.2.Records outcome.1 ∧ refusal answered.1 = outcome.2

variable {g : Grammar}

theorem Records.declare (records : register.Records g) {kind : Kind} {name : String} (fresh : g.symbol? name = none) :
    (declare kind name register).Records (g.withNames kind (g.namesOf kind ++ [name])) := by
  have symbols : ∀ other : String, (register.symbols.insert name (kind.symbol name))[other]? =
      (g.withNames kind (g.namesOf kind ++ [name])).symbol? other := by
    intro other
    rw [Std.HashMap.getElem?_insert, records.symbols, Grammar.symbol?_withNames fresh]
    by_cases same : name = other <;> simp [same]
  cases kind with
  | terminal =>
    exact ⟨records.start, congrArg (· ++ [name]) records.terminals, records.nonTerminals, symbols, records.productions,
      records.ids⟩
  | nonTerminal =>
    exact ⟨records.start, records.terminals, congrArg (· ++ [name]) records.nonTerminals, symbols, records.productions,
      records.ids⟩

theorem Records.enter (records : register.Records g) {production : Production} :
    (enter production register).Records { g with productions := g.productions ++ [production] } where
  start := records.start
  terminals := records.terminals
  nonTerminals := records.nonTerminals
  symbols := records.symbols
  productions left := by
    rw [productionsOf_enter, records.productions, Grammar.productionsOf, Grammar.productionsOf, List.filter_append]
    by_cases same : production.left = left <;> simp [same]
  ids id := by
    have added : (production.id == id) = true ↔ id ∈ [production].map Production.id := by
      rw [beq_iff_eq, List.map_singleton, List.mem_singleton, eq_comm]
    show id ∈ register.ids.insert production.id ↔ _
    rw [Std.HashSet.mem_insert, added, records.ids, List.map_append, List.mem_append]
    exact or_comm

theorem Records.addName (records : register.Records g) {kind : Kind} {name : String} :
    InStep (register.answer (addName kind name)) (g.settle (g.addName kind name)) := by
  rw [answer_addName, Grammar.addName_eq, records.symbols]
  by_cases reserved : Reserved name
  · simp only [reserved, if_true]
    exact ⟨records, rfl⟩
  · simp only [reserved, if_false]
    cases known : g.symbol? name with
    | none => exact ⟨records.declare known, rfl⟩
    | some symbol =>
      by_cases same : symbol.rank = (kind.symbol name).rank
      · simp only [same, if_true]
        exact ⟨records, rfl⟩
      · simp only [same, if_false]
        exact ⟨records, rfl⟩

theorem Records.addNames (records : register.Records g) {kind : Kind} {names : List String} :
    InStep (register.answer (addNames kind names)) (Grammar.addEach (fun g => g.addName kind) g names) := by
  induction names generalizing register g with
  | nil => exact ⟨records, rfl⟩
  | cons name rest ih =>
    have first : InStep (register.answer (Register.addName kind name)) (g.settle (g.addName kind name)) :=
      records.addName
    rw [Register.addNames, answer_bind, Grammar.addEach]
    generalize register.answer (Register.addName kind name) = answered at first ⊢
    generalize g.addName kind name = outcome at first ⊢
    obtain ⟨recorded, refused⟩ := first
    rcases answered with ⟨fault | symbol, middle⟩
    · cases outcome with
      | ok next => cases refused
      | error other => exact ⟨recorded, refused⟩
    · cases outcome with
      | ok next => exact ih recorded
      | error other => cases refused

theorem Records.rightSymbols (records : register.Records g) {right : List String} :
    register.answer (right.mapM rightSymbol) = (g.rightSymbols right, register) := by
  induction right with
  | nil => rfl
  | cons word rest ih =>
    have first : register.answer (rightSymbol word) = match g.rightSymbol? word with
        | some symbol => (.ok symbol, register)
        | none => (.error (.undeclaredSymbol word), register) := by
      rw [answer_rightSymbol, records.symbols, Grammar.rightSymbol?]
      by_cases empty : SpellsEpsilon word <;> simp [empty]
    rw [List.mapM_cons, answer_bind, first, Grammar.rightSymbols]
    cases g.rightSymbol? word with
    | none => rfl
    | some symbol => simp [answer_map, ih]

theorem Records.isNonTerminal (records : register.Records g) (wellFormed : g.WellFormed) {name : String} :
    register.isNonTerminal name ↔ name ∈ g.nonTerminals := by
  rw [Register.isNonTerminal, records.symbols]
  by_cases terminal : name ∈ g.terminals
  · simp [Grammar.symbol?, terminal, wellFormed.kinds_disjoint name terminal, Symbol.nonTerminal?]
  · by_cases nonTerminal : name ∈ g.nonTerminals <;>
      simp [Grammar.symbol?, terminal, nonTerminal, Symbol.nonTerminal?]

theorem Records.addProduction (records : register.Records g) (wellFormed : g.WellFormed) {left : String}
    {right : List String} {id : Nat} :
    InStep (register.answer (addProduction left right id)) (g.settle (g.addProduction left right id)) := by
  rw [answer_addProduction, Grammar.addProduction]
  simp only [records.isNonTerminal wellFormed, records.ids, records.rightSymbols]
  split
  · exact ⟨records, rfl⟩
  split
  · exact ⟨records, rfl⟩
  split
  · exact ⟨records, rfl⟩
  cases g.rightSymbols right with
  | error fault => exact ⟨records, rfl⟩
  | ok symbols =>
    simp only
    split
    · exact ⟨records, rfl⟩
    · exact ⟨records.enter, rfl⟩

theorem Records.call (records : register.Records g) (wellFormed : g.WellFormed) {request : Edit} :
    InStep (register.answer (call request)) (g.edit request) := by
  have single : ∀ kind name, InStep (register.answer (do let _ ← Register.addName kind name))
      (g.settle (g.addName kind name)) := by
    intro kind name
    have first : InStep (register.answer (Register.addName kind name)) (g.settle (g.addName kind name)) :=
      records.addName
    rw [answer_bind]
    generalize register.answer (Register.addName kind name) = answered at first ⊢
    rcases answered with ⟨fault | symbol, middle⟩
    · exact first
    · exact first
  cases request with
  | terminal name => exact single .terminal name
  | nonTerminal name => exact single .nonTerminal name
  | terminals names => exact records.addNames
  | nonTerminals names => exact records.addNames
  | production left right id => exact records.addProduction wellFormed

theorem records_empty (start : String) : Records { start } { start } where
  start := rfl
  terminals := rfl
  nonTerminals := rfl
  symbols name := by simp [Grammar.symbol?]
  productions left := by simp [productionsOf, Grammar.productionsOf]
  ids id := by simp

theorem Records.afterCalls (records : register.Records g) (wellFormed : g.WellFormed) (edits : List Edit) :
    (register.afterCalls edits).Records (g.afterEdits edits) := by
  induction edits generalizing register g with
  | nil => exact records
  | cons request rest ih => exact ih (records.call wellFormed).1 (wellFormed.edit request)

/-! ### Consistent stores -/

theorem Records.listing_eq (records : register.Records g) : register.listing = g.groupedProductions := by
  unfold listing Grammar.groupedProductions
  rw [records.nonTerminals, funext records.productions]

theorem Records.mem_productionsOf (records : register.Records g) {left : String} {production : Production} :
    production ∈ register.productionsOf left ↔ production ∈ g.productions ∧ production.left = left := by
  rw [records.productions, Grammar.mem_productionsOf]

theorem Records.consistent (records : register.Records g) (wellFormed : g.WellFormed) : register.Consistent where
  terminals_nodup := records.terminals ▸ wellFormed.terminals_nodup
  nonTerminals_nodup := records.nonTerminals ▸ wellFormed.nonTerminals_nodup
  kinds_disjoint := by
    rw [records.terminals, records.nonTerminals]
    exact wellFormed.kinds_disjoint
  names_free := by
    rw [records.terminals, records.nonTerminals]
    intro name member
    have free := wellFormed.names_free name member
    simpa [Reserved, SpellsEpsilon, and_assoc] using free
  symbols_exact name symbol := by
    rw [records.symbols, records.terminals, records.nonTerminals]
    exact wellFormed.symbol?_eq_some
  left_declared left production member := by
    obtain ⟨listed, rfl⟩ := records.mem_productionsOf.mp member
    exact ⟨rfl, records.nonTerminals ▸ wellFormed.left_declared production listed⟩
  right_proper left production member := by
    refine (wellFormed.right_proper production (records.mem_productionsOf.mp member).1).imp_right ?_
    rintro ⟨nonempty, declared⟩
    exact ⟨nonempty, fun symbol inside => (records.symbols _).trans (wellFormed.symbol?_name (declared symbol inside))⟩
  right_unmarked left production member inside := by
    have known := wellFormed.right_declared (records.mem_productionsOf.mp member).1 inside
    simp [Grammar.Declared] at known
  ids_nodup := records.listing_eq ▸ wellFormed.grouped_ids_nodup
  ids_exact id := by
    rw [records.ids, records.listing_eq]
    simp [wellFormed.mem_groupedProductions]

/-- Through any calls, refused ones included, the stores of a register agree with each other, and they are those of
    the grammar that the same edits build. Whatever call comes next, it is refused for the same cause as the edit, all
    that was declared before stays as it was, and a refused call adds nothing but the accepted names of a list. -/
theorem register_consistent (start : String) (edits : List Edit) :
    let register := Register.afterCalls { start } edits
    let g := Grammar.afterEdits { start } edits
    register.Consistent ∧ register.Records g ∧
    ∀ request, register.Extends (register.answer (call request)).2 ∧
      refusal (register.answer (call request)).1 = (g.edit request).2 ∧
      ∀ fault after, register.answer (call request) = (.error fault, after) → register.Leaves request fault after := by
  intro register g
  have wellFormed : g.WellFormed := (Grammar.wellFormed_empty start).afterEdits edits
  have records : register.Records g := (records_empty start).afterCalls (Grammar.wellFormed_empty start) edits
  exact ⟨records.consistent wellFormed, records, fun request =>
    ⟨extends_call, (records.call wellFormed).2, fun _ _ => leaves_of_call⟩⟩

end

end Register

end Predictive
