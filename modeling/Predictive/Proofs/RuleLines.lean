import Predictive.Proofs.Declarations
import Predictive.Proofs.Reading

/-!
What rule lines declare. Their left sides are declared first, so no later declaration can meet a name of the other
kind, an undeclared symbol or a number in use. What remains can be said without any grammar under construction:
either the lines have a reserved name, or some alternative is faulty in itself, or the lines amount to a grammar that
can be read off them (`ofRules_eq`).
-/
namespace Predictive

namespace RuleLine

/-- The names that rule lines declare, in the order of the declarations. -/
def names (rules : List RuleLine) : List String := lefts rules ++ terminalWords rules

/-- The symbol that a word of a right side stands for. -/
def symbolOf (rules : List RuleLine) (word : String) : Symbol :=
  if SpellsEpsilon word then .epsilon else if word ∈ lefts rules then .nonTerminal word else .terminal word

/-- An alternative of a left side, with its number. -/
structure Alternative where
  id : Nat
  left : String
  words : List String
deriving DecidableEq, Repr

namespace Alternative

/-- The edit that declares an alternative. -/
def edit (alternative : Alternative) : Edit := .production alternative.left alternative.words alternative.id

/-- What an alternative is refused for, if its words are known. -/
def fault? (alternative : Alternative) : Option Malformation :=
  if alternative.words = [] then some (.emptyRule alternative.id) else
  if 1 < alternative.words.length ∧ ∃ word ∈ alternative.words, SpellsEpsilon word then
    some (.misplacedEpsilon alternative.id)
  else none

/-- The production that an alternative amounts to, next to the other lines. -/
def production (rules : List RuleLine) (alternative : Alternative) : Production :=
  { id := alternative.id, left := alternative.left, right := alternative.words.map (symbolOf rules) }

end Alternative

/-- Alternatives, numbered from the given number on. -/
def numberFrom (number : Nat) (alternatives : List (String × List String)) : List Alternative :=
  (alternatives.zipIdx number).map fun ((left, words), id) => { id, left, words }

/-- The alternatives of all lines, numbered as they are written. -/
def numbered (rules : List RuleLine) : List Alternative := numberFrom 1 (alternativesOf rules)

/-- The first reason why rule lines are refused. -/
def fault? (rules : List RuleLine) : Option Malformation :=
  match (names rules).find? fun name => Reserved name with
  | some name => some (.reservedName name)
  | none => (numbered rules).findSome? Alternative.fault?

/-- The grammar that rule lines amount to. -/
def grammar (start : String) (rules : List RuleLine) : Grammar where
  start
  terminals := firstUses (terminalWords rules)
  nonTerminals := firstUses (lefts rules)
  productions := (numbered rules).map (Alternative.production rules)

variable {rules : List RuleLine} {alternatives : List (String × List String)} {number : Nat}

/-! ### Alternatives in turn -/

theorem alternativesOf_cons {rule : RuleLine} : alternativesOf (rule :: rules) =
    rule.alternatives.map (rule.left, ·) ++ alternativesOf rules := List.flatMap_cons

theorem numberFrom_cons {left : String} {words : List String} :
    numberFrom number ((left, words) :: alternatives) =
      { id := number, left, words } :: numberFrom (number + 1) alternatives := rfl

theorem map_id_numberFrom :
    (numberFrom number alternatives).map Alternative.id = List.range' number alternatives.length := by
  induction alternatives generalizing number with
  | nil => rfl
  | cons first rest ih => rw [numberFrom_cons, List.map_cons, ih, List.length_cons, List.range'_succ]

theorem map_numberFrom (number : Nat) (alternatives : List (String × List String)) :
    (numberFrom number alternatives).map (fun alternative => (alternative.left, alternative.words)) = alternatives := by
  induction alternatives generalizing number with
  | nil => rfl
  | cons first rest ih => rw [numberFrom_cons, List.map_cons, ih]

theorem edits_eq : edits rules = (lefts rules).map Kind.nonTerminal.edit ++
    ((terminalWords rules).map Kind.terminal.edit ++ (numbered rules).map Alternative.edit) := by
  simp [edits, lefts, numbered, numberFrom, Alternative.edit, Kind.edit, Function.comp_def]

theorem symbolOf_eq_epsilon {word : String} : symbolOf rules word = .epsilon ↔ SpellsEpsilon word := by
  unfold symbolOf
  split
  · simpa
  · split <;> simpa

theorem edit_production {g : Grammar} {alternative : Alternative} (declared : alternative.left ∈ g.nonTerminals)
    (known : ∀ word ∈ alternative.words, g.rightSymbol? word = some (symbolOf rules word))
    (fresh : alternative.id ∉ g.productions.map Production.id) :
    g.edit alternative.edit = match alternative.fault? with
      | some fault => (g, some fault)
      | none => ({ g with productions := g.productions ++ [alternative.production rules] }, none) := by
  have read : g.rightSymbols alternative.words = .ok (alternative.words.map (symbolOf rules)) :=
    Grammar.rightSymbols_eq_ok.mpr (by simpa using List.map_congr_left known)
  have misplaced : Symbol.epsilon ∈ alternative.words.map (symbolOf rules) ↔
      ∃ word ∈ alternative.words, SpellsEpsilon word := by
    simp [symbolOf_eq_epsilon]
  simp only [Alternative.edit, Grammar.edit, Grammar.addProduction, declared, fresh, read, misplaced, List.length_map,
    not_true, if_false, Alternative.fault?, gt_iff_lt]
  split
  · rfl
  · split <;> rfl

/-- Alternatives of declared left sides with known words are added up to the first faulty one. -/
theorem editAll_productions {g : Grammar}
    (declared : ∀ alternative ∈ alternatives, alternative.1 ∈ g.nonTerminals)
    (known : ∀ alternative ∈ alternatives, ∀ word ∈ alternative.2,
      g.rightSymbol? word = some (symbolOf rules word))
    (earlier : ∀ id ∈ g.productions.map Production.id, id < number) :
    g.editAll ((numberFrom number alternatives).map Alternative.edit) =
      match (numberFrom number alternatives).findSome? Alternative.fault? with
      | some fault => .error fault
      | none => .ok { g with
        productions := g.productions ++ (numberFrom number alternatives).map (Alternative.production rules) } := by
  induction alternatives generalizing g number with
  | nil => simp [numberFrom, Grammar.editAll]
  | cons first rest ih =>
    obtain ⟨left, words⟩ := first
    have fresh : number ∉ g.productions.map Production.id := fun used => Nat.lt_irrefl number (earlier number used)
    rw [numberFrom_cons, List.map_cons, Grammar.editAll,
      edit_production (declared _ List.mem_cons_self) (known _ List.mem_cons_self) fresh, List.findSome?_cons]
    cases Alternative.fault? { id := number, left, words } with
    | some fault => rfl
    | none =>
      let next : Grammar :=
        { g with productions := g.productions ++ [Alternative.production rules { id := number, left, words }] }
      have earlierThanNext : ∀ id ∈ next.productions.map Production.id, id < number + 1 := by
        intro id used
        rw [List.map_append, List.mem_append] at used
        rcases used with old | new
        · exact Nat.lt_succ_of_lt (earlier id old)
        · exact List.mem_singleton.mp new ▸ Nat.lt_succ_self number
      have later := ih (g := next) (fun other member => declared other (List.mem_cons_of_mem _ member))
        (fun other member => known other (List.mem_cons_of_mem _ member)) earlierThanNext
      simpa only [List.append_assoc, List.singleton_append, List.map_cons, next] using later

/-! ### All declarations -/

theorem mem_terminalWords {word : String} : word ∈ terminalWords rules ↔
    (∃ alternative ∈ alternativesOf rules, word ∈ alternative.2) ∧ ¬ SpellsEpsilon word ∧ word ∉ lefts rules := by
  simp only [terminalWords, List.mem_flatMap, List.mem_filter, decide_eq_true_eq, lefts]
  constructor
  · rintro ⟨alternative, listed, inside, other⟩
    exact ⟨⟨alternative, listed, inside⟩, other⟩
  · rintro ⟨⟨alternative, listed, inside⟩, other⟩
    exact ⟨alternative, listed, inside, other⟩

theorem left_mem_lefts {alternative : String × List String} (listed : alternative ∈ alternativesOf rules) :
    alternative.1 ∈ lefts rules := by
  simp only [alternativesOf, List.mem_flatMap, List.mem_map] at listed
  obtain ⟨rule, written, words, _, rfl⟩ := listed
  exact List.mem_map_of_mem written

/-- A left side comes up at the same place whether its alternatives share a line or not. -/
theorem firstUses_fst_alternativesOf (filled : ∀ rule ∈ rules, rule.alternatives ≠ []) :
    firstUses ((alternativesOf rules).map Prod.fst) = firstUses (lefts rules) := by
  have enrolled : ∀ seen, ((alternativesOf rules).map Prod.fst).foldl enrol seen = (lefts rules).foldl enrol seen := by
    induction rules with
    | nil => exact fun _ => rfl
    | cons first rest ih =>
      intro seen
      obtain ⟨filledFirst, filledRest⟩ := List.forall_mem_cons.mp filled
      obtain ⟨words, others, split⟩ := List.exists_cons_of_ne_nil filledFirst
      have alternatives : (alternativesOf (first :: rest)).map Prod.fst =
          first.left :: (others.map fun _ => first.left) ++ (alternativesOf rest).map Prod.fst := by
        simp [alternativesOf_cons, split, Function.comp_def]
      -- Further alternatives repeat the left side, which enrols nothing new.
      have repeated : (others.map fun _ => first.left).foldl enrol (enrol seen first.left) = enrol seen first.left :=
        foldl_enrol_of_subset (by simp [mem_enrol])
      rw [alternatives, List.foldl_append, List.foldl_cons, repeated, ih filledRest]
      rfl
  exact enrolled []

/-- With all names declared, each word of a right side is read as the symbol that it stands for. -/
theorem rightSymbol?_grammar (start : String) {alternative : String × List String}
    (listed : alternative ∈ alternativesOf rules) {word : String} (inside : word ∈ alternative.2) :
    (grammar start rules).rightSymbol? word = some (symbolOf rules word) := by
  unfold Grammar.rightSymbol? symbolOf
  by_cases empty : SpellsEpsilon word
  · simp [empty]
  · by_cases left : word ∈ lefts rules
    · simp [empty, left, Grammar.symbol?, grammar, mem_firstUses, mem_terminalWords]
    · have terminal : word ∈ terminalWords rules := mem_terminalWords.mpr ⟨⟨alternative, listed, inside⟩, empty, left⟩
      simp [empty, left, Grammar.symbol?, grammar, mem_firstUses, terminal]

/-- Rules are numbered from 1 on, without a gap. -/
theorem ids_grammar (start : String) : (grammar start rules).productions.map Production.id =
    List.range' 1 (grammar start rules).productions.length := by
  have sameIds : (grammar start rules).productions.map Production.id = (numbered rules).map Alternative.id :=
    List.map_map
  rw [sameIds, numbered, map_id_numberFrom]
  simp [grammar, numbered, numberFrom]

/-- Rule lines are refused for the first reason that is found in them, or yield the grammar that they amount to. -/
theorem ofRules_eq {first : RuleLine} {rest : List RuleLine} : Grammar.ofRules first rest =
    match fault? (first :: rest) with
    | some fault => .error fault
    | none => .ok (grammar first.left (first :: rest)) := by
  unfold Grammar.ofRules Grammar.build fault?
  generalize first :: rest = rules
  rw [edits_eq, names, List.find?_append, Grammar.editAll_append,
    Grammar.editAll_names (by simp [Kind.other, Grammar.namesOf])]
  cases (lefts rules).find? fun name => Reserved name with
  | some name => rfl
  | none =>
    -- All left sides are declared by now, so no other word can become a non-terminal later on.
    have apart : ∀ word ∈ terminalWords rules, word ∉ firstUses (lefts rules) :=
      fun word member listed => (mem_terminalWords.mp member).2.2 (mem_firstUses.mp listed)
    simp only [Option.none_or]
    rw [Grammar.editAll_append, Grammar.editAll_names apart]
    cases (terminalWords rules).find? fun name => Reserved name with
    | some name => rfl
    | none =>
      refine editAll_productions (fun alternative listed => mem_firstUses.mpr (left_mem_lefts listed))
        (fun alternative listed word inside => ?_) (fun id used => absurd used List.not_mem_nil)
      exact rightSymbol?_grammar first.left listed inside

/-- A grammar is read from a text that has rule lines, if there is nothing wrong with them and they amount to it. -/
theorem ofText_eq_ok_iff {text : String} {g : Grammar} : Grammar.ofText text = .ok g ↔
    ∃ first rest, WrittenRules text (first :: rest) ∧ fault? (first :: rest) = none ∧
      grammar first.left (first :: rest) = g := by
  simp only [Grammar.ofText, WrittenRules, ofRules_eq]
  cases readAll 1 none (Text.lines text.toList) with
  | error fault => simp
  | ok rules =>
    cases rules with
    | nil => simp
    | cons first rest =>
      simp only [Except.ok.injEq, List.cons.injEq]
      constructor
      · intro built
        cases faulty : fault? (first :: rest) with
        | some fault => rw [faulty] at built; contradiction
        | none => rw [faulty] at built; exact ⟨first, rest, ⟨rfl, rfl⟩, faulty, Except.ok.inj built⟩
      · rintro ⟨_, _, ⟨rfl, rfl⟩, faultless, rfl⟩
        rw [faultless]

end RuleLine

end Predictive
