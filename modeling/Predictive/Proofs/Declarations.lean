import Mathlib.Data.List.Nodup
import Predictive.Proofs.NameKinds

/-!
What declarations keep. An addition that succeeds either finds the name there already or adds exactly
one name or one production (`addName_eq_ok`, `addProduction_eq_ok`), and each of these keeps a grammar
well formed. So every grammar that can be built is well formed, whether by declarations of which some
were refused or from a text (`Built.wellFormed`).
-/
namespace Predictive.Grammar

/-- The grammar comes from a start symbol by declarations, of which some may have been refused, or from
    a text. -/
inductive Built : Grammar → Prop where
  | declared (start : String) (edits : List Edit) : Built (afterEdits { start } edits)
  | written {text : String} {g : Grammar} : ofText text = .ok g → Built g

/-! ### Names -/

theorem WellFormed.symbol?_eq_some {g : Grammar} (wellFormed : g.WellFormed) {name : String} {symbol : Symbol} :
    g.symbol? name = some symbol ↔
      symbol = .terminal name ∧ name ∈ g.terminals ∨ symbol = .nonTerminal name ∧ name ∈ g.nonTerminals := by
  by_cases terminal : name ∈ g.terminals
  · simp [symbol?, terminal, wellFormed.kinds_disjoint name terminal, eq_comm]
  · by_cases nonTerminal : name ∈ g.nonTerminals <;> simp [symbol?, terminal, nonTerminal, eq_comm]

theorem WellFormed.symbol?_name {g : Grammar} (wellFormed : g.WellFormed) {symbol : Symbol}
    (declared : g.Declared symbol) : g.symbol? symbol.name = some symbol := by
  cases symbol with
  | terminal name => exact wellFormed.symbol?_eq_some.mpr (.inl ⟨rfl, declared⟩)
  | nonTerminal name => exact wellFormed.symbol?_eq_some.mpr (.inr ⟨rfl, declared⟩)
  | epsilon => exact absurd declared id
  | endMarker => exact absurd declared id

/-! ### Right sides -/

/-- Words are read as symbols one by one, and all of them must be known. -/
theorem rightSymbols_eq_ok {g : Grammar} {words : List String} {symbols : List Symbol} :
    g.rightSymbols words = .ok symbols ↔ words.map g.rightSymbol? = symbols.map some := by
  induction words generalizing symbols with
  | nil => cases symbols <;> simp [rightSymbols]
  | cons word rest ih =>
    unfold rightSymbols
    cases known : g.rightSymbol? word with
    | none => cases symbols <;> simp [known]
    | some symbol =>
      cases read : g.rightSymbols rest with
      | error fault =>
        have unread : ∀ others : List Symbol, rest.map g.rightSymbol? ≠ others.map some := by
          intro others same
          rw [ih.mpr same] at read
          contradiction
        cases symbols with
        | nil => simp [Except.map]
        | cons first others => simpa [Except.map, known] using fun _ => unread others
      | ok others =>
        have same := ih.mp read
        cases symbols with
        | nil => simp [Except.map]
        | cons first more =>
          have injective : others.map some = more.map some ↔ others = more :=
            (List.map_injective_iff.mpr fun _ _ => Option.some.inj).eq_iff
          simp [Except.map, known, same, injective]

theorem declared_of_rightSymbol? {g : Grammar} {word : String} {symbol : Symbol}
    (read : g.rightSymbol? word = some symbol) : symbol = .epsilon ∨ g.Declared symbol := by
  unfold rightSymbol? at read
  split at read
  · cases read; exact .inl rfl
  · exact .inr (declared_of_symbol? read).1

theorem declared_of_rightSymbols {g : Grammar} {words : List String} {symbols : List Symbol}
    (read : g.rightSymbols words = .ok symbols) : ∀ symbol ∈ symbols, symbol = .epsilon ∨ g.Declared symbol := by
  intro symbol member
  have inside : some symbol ∈ words.map g.rightSymbol? := by
    rw [rightSymbols_eq_ok.mp read]
    exact List.mem_map_of_mem member
  obtain ⟨word, _, known⟩ := List.mem_map.mp inside
  exact declared_of_rightSymbol? known

theorem addProduction_eq_ok {g next : Grammar} {left : String} {right : List String} {id : Nat}
    (added : g.addProduction left right id = .ok next) :
    ∃ symbols, g.rightSymbols right = .ok symbols ∧ left ∈ g.nonTerminals ∧ g.RightSide symbols ∧
      id ∉ g.productions.map Production.id ∧
      next = { g with productions := g.productions ++ [{ id, left, right := symbols }] } := by
  unfold addProduction at added
  split at added
  · contradiction
  split at added
  · contradiction
  split at added
  · contradiction
  next declared filled fresh =>
  split at added
  · contradiction
  next symbols read =>
  split at added
  · contradiction
  next alone =>
  cases added
  refine ⟨symbols, read, Decidable.not_not.mp declared, ?_, fresh, rfl⟩
  have lengths : right.length = symbols.length := by
    simpa using congrArg List.length (rightSymbols_eq_ok.mp read)
  have nonempty : symbols ≠ [] := by
    rintro rfl
    exact filled (List.length_eq_zero_iff.mp lengths)
  by_cases empties : Symbol.epsilon ∈ symbols
  · -- With the empty word inside, the right side is too short to hold anything else.
    have short : ¬ 1 < symbols.length := fun long => alone ⟨long, empties⟩
    obtain ⟨first, rest, rfl⟩ := List.exists_cons_of_ne_nil nonempty
    have single : rest = [] := by simpa using short
    subst single
    exact .inl (by rw [List.mem_singleton.mp empties])
  · refine .inr ⟨nonempty, fun symbol member => ?_⟩
    rcases declared_of_rightSymbols read symbol member with rfl | declared
    · exact absurd member empties
    · exact declared

/-! ### Well-formedness -/

theorem RightSide.mono {g next : Grammar} {right : List Symbol} (proper : g.RightSide right)
    (terminals : ∀ name ∈ g.terminals, name ∈ next.terminals)
    (nonTerminals : ∀ name ∈ g.nonTerminals, name ∈ next.nonTerminals) : next.RightSide right := by
  rcases proper with rfl | ⟨nonempty, declared⟩
  · exact .inl rfl
  · refine .inr ⟨nonempty, fun symbol member => ?_⟩
    have known := declared symbol member
    cases symbol with
    | terminal name => exact terminals name known
    | nonTerminal name => exact nonTerminals name known
    | epsilon => exact known
    | endMarker => exact known

theorem WellFormed.right_declared {g : Grammar} (wellFormed : g.WellFormed) {production : Production}
    (listed : production ∈ g.productions) {symbol : Symbol} (member : symbol ∈ production.right) :
    symbol = .epsilon ∨ g.Declared symbol := by
  rcases wellFormed.right_proper production listed with alone | ⟨_, declared⟩
  · rw [alone] at member
    exact .inl (List.mem_singleton.mp member)
  · exact .inr (declared symbol member)

theorem WellFormed.exists_head {g : Grammar} (wellFormed : g.WellFormed) {production : Production}
    (listed : production ∈ g.productions) :
    ∃ head rest, production.head? = some head ∧ production.right = head :: rest := by
  have nonempty : production.right ≠ [] := by
    rcases wellFormed.right_proper production listed with alone | ⟨nonempty, _⟩
    · simp [alone]
    · exact nonempty
  obtain ⟨head, rest, split⟩ := List.exists_cons_of_ne_nil nonempty
  exact ⟨head, rest, by simp [Production.head?, split], split⟩

theorem wellFormed_empty (start : String) : WellFormed { start } where
  terminals_nodup := .nil
  nonTerminals_nodup := .nil
  kinds_disjoint := by simp
  names_free := by simp
  left_declared := by simp
  right_proper := by simp
  ids_nodup := .nil

namespace WellFormed

variable {g next : Grammar}

/-- A grammar stays well formed when one more name is declared, of whichever kind: its productions do not
    change, and what they are made of stays declared. -/
theorem add_name {terminals nonTerminals : List String} {name : String} (wellFormed : g.WellFormed)
    (keepsTerminals : ∀ other ∈ g.terminals, other ∈ terminals)
    (keepsNonTerminals : ∀ other ∈ g.nonTerminals, other ∈ nonTerminals)
    (others : ∀ other ∈ terminals ++ nonTerminals, other = name ∨ other ∈ g.terminals ++ g.nonTerminals)
    (free : ¬ Reserved name) (terminals_nodup : terminals.Nodup) (nonTerminals_nodup : nonTerminals.Nodup)
    (kinds_disjoint : ∀ other ∈ terminals, other ∉ nonTerminals) : WellFormed { g with terminals, nonTerminals } where
  terminals_nodup := terminals_nodup
  nonTerminals_nodup := nonTerminals_nodup
  kinds_disjoint := kinds_disjoint
  names_free := by
    intro other member
    rcases others other member with rfl | old
    · exact free
    · exact wellFormed.names_free other old
  left_declared production member := keepsNonTerminals _ (wellFormed.left_declared production member)
  right_proper production member := (wellFormed.right_proper production member).mono keepsTerminals keepsNonTerminals
  ids_nodup := wellFormed.ids_nodup

theorem addName (wellFormed : g.WellFormed) (kind : Kind) {name : String} (added : g.addName kind name = .ok next) :
    next.WellFormed := by
  rcases addName_eq_ok added with rfl | ⟨free, fresh, rfl⟩
  · exact wellFormed
  obtain ⟨noTerminal, noNonTerminal⟩ := symbol?_eq_none.mp fresh
  cases kind with
  | terminal =>
    refine wellFormed.add_name (fun _ => List.mem_append_left _) (fun _ => id) ?_ free ?_
      wellFormed.nonTerminals_nodup ?_
    · intro other member
      simp only [List.mem_append, List.mem_singleton] at member ⊢
      tauto
    · simpa [namesOf] using wellFormed.terminals_nodup.concat noTerminal
    · intro other member
      rcases List.mem_append.mp member with old | new
      · exact wellFormed.kinds_disjoint other old
      · rw [List.mem_singleton.mp new]; exact noNonTerminal
  | nonTerminal =>
    refine wellFormed.add_name (fun _ => id) (fun _ => List.mem_append_left _) ?_ free
      wellFormed.terminals_nodup ?_ ?_
    · intro other member
      simp only [List.mem_append, List.mem_singleton] at member ⊢
      tauto
    · simpa [namesOf] using wellFormed.nonTerminals_nodup.concat noNonTerminal
    · intro other member inside
      rcases List.mem_append.mp inside with old | new
      · exact wellFormed.kinds_disjoint other member old
      · exact noTerminal (List.mem_singleton.mp new ▸ member)

theorem addProduction (wellFormed : g.WellFormed) {left : String} {right : List String} {id : Nat}
    (added : g.addProduction left right id = .ok next) : next.WellFormed := by
  obtain ⟨symbols, _, declared, proper, fresh, rfl⟩ := addProduction_eq_ok added
  refine { wellFormed with left_declared := ?_, right_proper := ?_, ids_nodup := ?_ }
  · intro production member
    rcases List.mem_append.mp member with old | new
    · exact wellFormed.left_declared production old
    · rw [List.mem_singleton.mp new]; exact declared
  · intro production member
    rcases List.mem_append.mp member with old | new
    · exact wellFormed.right_proper production old
    · rw [List.mem_singleton.mp new]; exact proper
  · simpa using wellFormed.ids_nodup.concat fresh

theorem addEach {add : Grammar → String → Except Malformation Grammar}
    (keeps : ∀ {g next : Grammar}, g.WellFormed → ∀ {name : String}, add g name = .ok next → next.WellFormed)
    (wellFormed : g.WellFormed) (names : List String) : (addEach add g names).1.WellFormed := by
  induction names generalizing g with
  | nil => exact wellFormed
  | cons name rest ih =>
    unfold Grammar.addEach
    split
    · next added => exact ih (keeps wellFormed added)
    · exact wellFormed

theorem settle (wellFormed : g.WellFormed) {result : Except Malformation Grammar}
    (keeps : ∀ next, result = .ok next → next.WellFormed) : (g.settle result).1.WellFormed := by
  cases result with
  | ok next => exact keeps next rfl
  | error fault => exact wellFormed

theorem edit (wellFormed : g.WellFormed) (request : Edit) : (g.edit request).1.WellFormed := by
  cases request with
  | terminal name => exact wellFormed.settle fun _ => wellFormed.addName .terminal
  | nonTerminal name => exact wellFormed.settle fun _ => wellFormed.addName .nonTerminal
  | terminals names => exact wellFormed.addEach (fun kept => kept.addName .terminal) names
  | nonTerminals names => exact wellFormed.addEach (fun kept => kept.addName .nonTerminal) names
  | production left right id => exact wellFormed.settle fun _ => wellFormed.addProduction

theorem afterEdits (wellFormed : g.WellFormed) (edits : List Edit) : (g.afterEdits edits).WellFormed := by
  induction edits generalizing g with
  | nil => exact wellFormed
  | cons request rest ih => exact ih (wellFormed.edit request)

/-! ### Productions by their left sides -/

theorem mem_groupedProductions (wellFormed : g.WellFormed) {production : Production} :
    production ∈ g.groupedProductions ↔ production ∈ g.productions := by
  unfold groupedProductions
  rw [List.mem_flatMap]
  constructor
  · rintro ⟨left, _, listed⟩
    exact (mem_productionsOf.mp listed).1
  · intro listed
    exact ⟨production.left, wellFormed.left_declared production listed, mem_productionsOf.mpr ⟨listed, rfl⟩⟩

theorem grouped_ids_nodup (wellFormed : g.WellFormed) :
    (g.groupedProductions.map Production.id).Nodup := by
  have within : ∀ left ∈ g.nonTerminals, ((g.productionsOf left).map Production.id).Nodup :=
    fun left _ => wellFormed.ids_nodup.sublist (List.filter_sublist.map _)
  have apart : g.nonTerminals.Pairwise fun one other =>
      ((g.productionsOf one).map Production.id).Disjoint ((g.productionsOf other).map Production.id) := by
    refine wellFormed.nonTerminals_nodup.imp fun {one other} different id memberOne memberOther => different ?_
    obtain ⟨first, listedFirst, rfl⟩ := List.mem_map.mp memberOne
    obtain ⟨second, listedSecond, sameId⟩ := List.mem_map.mp memberOther
    obtain ⟨storedFirst, rfl⟩ := mem_productionsOf.mp listedFirst
    obtain ⟨storedSecond, rfl⟩ := mem_productionsOf.mp listedSecond
    rw [List.inj_on_of_nodup_map wellFormed.ids_nodup storedSecond storedFirst sameId]
  unfold groupedProductions
  rw [List.map_flatMap]
  exact List.nodup_flatMap.mpr ⟨within, apart⟩

end WellFormed

/-- A grammar read from a text is what remains of some declarations. -/
theorem ofText_eq_ok {text : String} {g : Grammar} (read : ofText text = .ok g) :
    ∃ start edits, afterEdits { start } edits = g := by
  unfold ofText at read
  simp only at read
  split at read
  · contradiction
  · contradiction
  · next first rest _ => exact ⟨first.left, RuleLine.edits (first :: rest), editAll_eq_ok read⟩

theorem Built.of_build {start : String} {edits : List Edit} {g : Grammar} (build : Grammar.build start edits = .ok g) :
    g.Built :=
  editAll_eq_ok build ▸ .declared start edits

theorem Built.wellFormed {g : Grammar} (built : g.Built) : g.WellFormed := by
  cases built with
  | declared start edits => exact (wellFormed_empty start).afterEdits edits
  | written read =>
    obtain ⟨start, edits, rfl⟩ := ofText_eq_ok read
    exact (wellFormed_empty start).afterEdits edits

end Predictive.Grammar
