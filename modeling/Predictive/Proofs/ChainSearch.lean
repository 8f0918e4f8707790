import Predictive.Proofs.HeadCycles

/-!
Which chain of heads the search finds. The search follows the heads of alternatives in the order of declaration and
turns back where a name is closed to it or where no alternative leads on (`Grammar.Finds`). Nothing in it bounds how
deep it goes; it ends because heads that lead back to no name lead through each name at most once
(`Grammar.chain?_finds`). Whatever names are closed, the chain it ends with is the first one through open names in the
order of declaration at each step, and it ends without a chain only if there is none (`Grammar.Finds.isFirst`). With
the FIRST sets of the grammar itself, only names from which no chain leads to the symbol are closed, so closing them
changes nothing (`Grammar.passes_iff_headChain`).
-/
namespace Predictive

namespace Grammar

/-! ### The search without a bound -/

/-- What the search for a chain has to do at some point. -/
inductive Quest where
  /-- Find a chain from a name. -/
  | leave (name : String)
  /-- Find a chain that begins with one of the alternatives. -/
  | tryEach (alternatives : List Production)

/-- The search for a chain to a symbol ends with a result, where it leaves no name but the open ones. -/
inductive Finds (g : Grammar) (isOpen : String → Prop) (symbol : Symbol) : Quest → Option (List Production) → Prop where
  | closed {name : String} : ¬ isOpen name → Finds g isOpen symbol (.leave name) none
  | opened {name : String} {result : Option (List Production)} :
    isOpen name → Finds g isOpen symbol (.tryEach (g.productionsOf name)) result →
    Finds g isOpen symbol (.leave name) result
  | exhausted : Finds g isOpen symbol (.tryEach []) none
  /-- A chain from the head goes on behind the alternative. -/
  | behind {production : Production} {next : String} {chain rest : List Production} :
    production.head? = some (.nonTerminal next) → Finds g isOpen symbol (.leave next) (some chain) →
    Finds g isOpen symbol (.tryEach (production :: rest)) (some (production :: chain))
  /-- No chain leads from the head, so the later alternatives are tried. -/
  | turnBack {production : Production} {next : String} {rest : List Production} {result : Option (List Production)} :
    production.head? = some (.nonTerminal next) → Finds g isOpen symbol (.leave next) none →
    Finds g isOpen symbol (.tryEach rest) result → Finds g isOpen symbol (.tryEach (production :: rest)) result
  | here {production : Production} {rest : List Production} :
    symbol.nonTerminal? = none → production.head? = some symbol →
    Finds g isOpen symbol (.tryEach (production :: rest)) (some [production])
  | skip {production : Production} {rest : List Production} {result : Option (List Production)} :
    production.head? ≠ some symbol → (∀ next, production.head? ≠ some (.nonTerminal next)) →
    Finds g isOpen symbol (.tryEach rest) result → Finds g isOpen symbol (.tryEach (production :: rest)) result

/-- The chain that begins with an alternative, where the given search finds what its head leads to. -/
def chainFrom? (search : String → Option (List Production)) (symbol : Symbol) (production : Production) :
    Option (List Production) :=
  match production.head? with
  | some (.nonTerminal next) => (search next).map (production :: ·)
  | head => if head = some symbol then some [production] else none

/-- The search for a chain through open names, with a bound on its length. -/
def chainThrough? (g : Grammar) (isOpen : String → Prop) [DecidablePred isOpen] (symbol : Symbol) :
    (room : Nat) → (name : String) → Option (List Production)
  | 0, _ => none
  | room + 1, name =>
    if isOpen name then (g.productionsOf name).findSome? (chainFrom? (g.chainThrough? isOpen symbol room) symbol)
    else none

variable {g : Grammar} {isOpen : String → Prop} {symbol : Symbol} {name : String} {chain : List Production}

theorem chain?_eq_chainThrough? {first : FirstSets} {room : Nat} :
    g.chain? first symbol room name = g.chainThrough? (first.Contains · symbol) symbol room name := by
  induction room generalizing name with
  | zero => rfl
  | succ room ih =>
    have deeper : g.chain? first symbol room = g.chainThrough? (first.Contains · symbol) symbol room :=
      funext fun _ => ih
    unfold chain? chainThrough?
    rw [deeper]
    rfl

/-- A quest has one outcome. -/
theorem Finds.unique {quest : Quest} {result other : Option (List Production)}
    (finds : g.Finds isOpen symbol quest result) (again : g.Finds isOpen symbol quest other) : result = other := by
  induction finds generalizing other with
  | closed isClosed =>
    cases again with
    | closed _ => rfl
    | opened isOpen _ => contradiction
  | opened isOpen _ ih =>
    cases again with
    | closed isClosed => contradiction
    | opened _ tried => exact ih tried
  | exhausted => cases again; rfl
  | behind isHead _ ih =>
    cases again with
    | behind sameHead found => rw [isHead] at sameHead; cases sameHead; cases ih found; rfl
    | turnBack sameHead missing _ => rw [isHead] at sameHead; cases sameHead; cases ih missing
    | here noName atHead => rw [isHead] at atHead; cases atHead; cases noName
    | skip _ noHead _ => exact absurd isHead (noHead _)
  | turnBack isHead _ _ ihHead ihRest =>
    cases again with
    | behind sameHead found => rw [isHead] at sameHead; cases sameHead; cases ihHead found
    | turnBack _ _ tried => exact ihRest tried
    | here noName atHead => rw [isHead] at atHead; cases atHead; cases noName
    | skip _ noHead _ => exact absurd isHead (noHead _)
  | here noName atHead =>
    cases again with
    | behind isHead _ => rw [isHead] at atHead; cases atHead; cases noName
    | turnBack isHead _ _ => rw [isHead] at atHead; cases atHead; cases noName
    | here _ _ => rfl
    | skip elsewhere _ _ => contradiction
  | skip elsewhere noHead _ ih =>
    cases again with
    | behind isHead _ => exact absurd isHead (noHead _)
    | turnBack isHead _ _ => exact absurd isHead (noHead _)
    | here _ atHead => contradiction
    | skip _ _ tried => exact ih tried

/-! ### The search ends -/

theorem WellFormed.declared_of_mem_productionsOf (wellFormed : g.WellFormed) {production : Production}
    (listed : production ∈ g.productionsOf name) : name ∈ g.nonTerminals := by
  obtain ⟨member, rfl⟩ := mem_productionsOf.mp listed
  exact wellFormed.left_declared production member

/-- A name with an alternative at the end of a path of heads is new to the path, and there is room for it. -/
theorem HeadAcyclic.hasRoom (acyclic : g.HeadAcyclic) (wellFormed : g.WellFormed) {room : Nat} {trail : List String}
    (hasRoom : FirstSets.HasRoom g (room + 1) trail) (edges : g.HeadPath (trail ++ [name])) {production : Production}
    (listed : production ∈ g.productionsOf name) : FirstSets.HasRoom g room (trail ++ [name]) := by
  refine hasRoom.concat (wellFormed.declared_of_mem_productionsOf listed) fun onTrail => ?_
  exact (FirstSets.headCycle_cycleFrom edges hasRoom.distinct onTrail).not_headAcyclic acyclic

section
variable (noName : symbol.nonTerminal? = none)
include noName

/-- Trying alternatives in turn ends if the search does behind each of their heads. -/
theorem findSome?_finds {search : String → Option (List Production)} {alternatives : List Production}
    (finds : ∀ production ∈ alternatives, ∀ next, production.head? = some (.nonTerminal next) →
      g.Finds isOpen symbol (.leave next) (search next)) :
    g.Finds isOpen symbol (.tryEach alternatives) (alternatives.findSome? (chainFrom? search symbol)) := by
  induction alternatives with
  | nil => exact .exhausted
  | cons production rest ih =>
    have later := ih fun other member => finds other (List.mem_cons_of_mem _ member)
    rw [List.findSome?_cons]
    by_cases leads : ∃ next, production.head? = some (.nonTerminal next)
    · obtain ⟨next, isHead⟩ := leads
      have behind := finds production List.mem_cons_self next isHead
      cases found : search next with
      | some chain =>
        rw [found] at behind
        simpa [chainFrom?, isHead, found] using Finds.behind isHead behind
      | none =>
        rw [found] at behind
        simpa [chainFrom?, isHead, found] using Finds.turnBack isHead behind later
    · have noHead : ∀ next, production.head? ≠ some (.nonTerminal next) := not_exists.mp leads
      have ends : chainFrom? search symbol production =
          if production.head? = some symbol then some [production] else none := by
        unfold chainFrom?
        split
        · next next isHead => exact absurd isHead (noHead next)
        · rfl
      by_cases atHead : production.head? = some symbol
      · simpa [ends, atHead] using Finds.here noName atHead
      · simpa [ends, atHead] using Finds.skip atHead noHead later

variable (wellFormed : g.WellFormed) (acyclic : g.HeadAcyclic)
include wellFormed acyclic

/-- Along a path of heads there is room until no name is left, so the search with a bound goes as deep as the search
    without one. -/
theorem chainThrough?_finds [DecidablePred isOpen] {room : Nat} {trail : List String}
    (hasRoom : FirstSets.HasRoom g (room + 1) trail) (edges : g.HeadPath (trail ++ [name])) :
    g.Finds isOpen symbol (.leave name) (g.chainThrough? isOpen symbol room name) := by
  induction room generalizing trail name with
  | zero =>
    have unproductive : g.productionsOf name = [] := List.eq_nil_iff_forall_not_mem.mpr fun production listed =>
      (acyclic.hasRoom wellFormed hasRoom edges listed).not_zero
    by_cases entered : isOpen name
    · exact .opened entered (unproductive ▸ .exhausted)
    · exact .closed entered
  | succ room ih =>
    unfold chainThrough?
    by_cases entered : isOpen name
    · rw [if_pos entered]
      refine .opened entered (findSome?_finds noName fun production listed next isHead => ?_)
      have edge : g.HeadEdge name next := ⟨production, listed, isHead⟩
      exact ih (acyclic.hasRoom wellFormed hasRoom edges listed) (edges.concat edge)
    · rw [if_neg entered]
      exact .closed entered

end

/-! ### What the search finds -/

/-- A chain of heads to the symbol that leaves no name but the open ones. -/
def Passes (g : Grammar) (isOpen : String → Prop) (name : String) (chain : List Production) (symbol : Symbol) : Prop :=
  g.HeadChain name chain symbol ∧ ∀ production ∈ chain, isOpen production.left

/-- The first production was declared before the second one, for the same non-terminal. -/
def DeclaredBefore (g : Grammar) (one other : Production) : Prop :=
  one.left = other.left ∧ (g.productionsOf one.left).idxOf one < (g.productionsOf one.left).idxOf other

/-- Where two chains part, the first one goes on with the alternative that was declared before the other's. -/
def Precedes (g : Grammar) : List Production → List Production → Prop := List.Lex g.DeclaredBefore

/-- The chain begins with the production and goes on, through open names, as its head says. -/
def BeginsChain (g : Grammar) (isOpen : String → Prop) (symbol : Symbol) (production : Production)
    (chain : List Production) : Prop :=
  ∃ rest, chain = production :: rest ∧ (rest = [] ∧ production.head? = some symbol ∨
    ∃ next, production.head? = some (.nonTerminal next) ∧ g.Passes isOpen next rest symbol)

/-- The chains that answer a quest. -/
def Answers (g : Grammar) (isOpen : String → Prop) (symbol : Symbol) : Quest → List Production → Prop
  | .leave name, chain => g.Passes isOpen name chain symbol
  | .tryEach alternatives, chain => ∃ production ∈ alternatives, g.BeginsChain isOpen symbol production chain

/-- The result is the first of the chains in question, or nothing if there are none. -/
def IsFirst (g : Grammar) (chains : List Production → Prop) : Option (List Production) → Prop
  | none => ∀ chain, ¬ chains chain
  | some chain => chains chain ∧ ∀ other, chains other → other = chain ∨ g.Precedes chain other

theorem precedes_asymm {chain other : List Production} : g.Precedes chain other → ¬ g.Precedes other chain := by
  refine List.lex_asymm ?_
  rintro one other ⟨sameLeft, before⟩ ⟨_, after⟩
  rw [← sameLeft] at after
  exact Nat.lt_asymm before after

theorem IsFirst.unique {chains : List Production → Prop} {result other : Option (List Production)}
    (isFirst : g.IsFirst chains result) (again : g.IsFirst chains other) : result = other := by
  cases result with
  | none =>
    cases other with
    | none => rfl
    | some chain => exact absurd again.1 (isFirst chain)
  | some chain =>
    cases other with
    | none => exact absurd isFirst.1 (again chain)
    | some second =>
      rcases isFirst.2 second again.1 with same | before
      · rw [same]
      · rcases again.2 chain isFirst.1 with same | after
        · rw [same]
        · exact absurd after (precedes_asymm before)

theorem IsFirst.isSome_iff {chains : List Production → Prop} {result : Option (List Production)}
    (isFirst : g.IsFirst chains result) : result.isSome ↔ ∃ chain, chains chain := by
  cases result with
  | none =>
    have missing : ∀ chain, ¬ chains chain := isFirst
    simp [missing]
  | some chain => exact ⟨fun _ => ⟨chain, isFirst.1⟩, fun _ => rfl⟩

/-- An alternative was declared before those that stand behind it. -/
theorem WellFormed.declaredBefore (wellFormed : g.WellFormed) {production later : Production} {rest : List Production}
    (suffix : production :: rest <:+ g.productionsOf name) (member : later ∈ rest) :
    g.DeclaredBefore production later := by
  obtain ⟨front, split⟩ := suffix
  have own : ∀ other ∈ production :: rest, other.left = name := fun other listed =>
    (mem_productionsOf.mp (split ▸ List.mem_append_right front listed)).2
  have nodup : (front ++ production :: rest).Nodup := by
    rw [split]
    exact wellFormed.ids_nodup.of_map.sublist List.filter_sublist
  obtain ⟨_, nodupRest, apart⟩ := List.nodup_append.mp nodup
  have different : production ≠ later := fun same => (List.nodup_cons.mp nodupRest).1 (same ▸ member)
  have behindFront : ∀ other ∈ production :: rest, other ∉ front :=
    fun other listed inFront => apart other inFront other listed rfl
  refine ⟨(own production List.mem_cons_self).trans (own later (List.mem_cons_of_mem _ member)).symm, ?_⟩
  rw [own production List.mem_cons_self, ← split,
    List.idxOf_append_of_notMem (behindFront production List.mem_cons_self),
    List.idxOf_append_of_notMem (behindFront later (List.mem_cons_of_mem _ member)),
    List.idxOf_cons_self, List.idxOf_cons_ne _ different]
  omega

/-- A chain from an open name begins with one of its alternatives. -/
theorem passes_iff : g.Passes isOpen name chain symbol ↔
    isOpen name ∧ g.Answers isOpen symbol (.tryEach (g.productionsOf name)) chain := by
  constructor
  · rintro ⟨leads, through⟩
    cases leads with
    | @single _ production _ listed isHead =>
      have own : production.left = name := (mem_productionsOf.mp listed).2
      exact ⟨own ▸ through production List.mem_cons_self, production, listed, [], rfl, .inl ⟨rfl, isHead⟩⟩
    | @cons _ next production rest _ listed isHead behind =>
      have own : production.left = name := (mem_productionsOf.mp listed).2
      obtain ⟨entered, throughRest⟩ := List.forall_mem_cons.mp through
      exact ⟨own ▸ entered, production, listed, rest, rfl, .inr ⟨next, isHead, behind, throughRest⟩⟩
  · rintro ⟨entered, production, listed, rest, rfl, ends⟩
    have own : production.left = name := (mem_productionsOf.mp listed).2
    rcases ends with ⟨rfl, isHead⟩ | ⟨next, isHead, behind, throughRest⟩
    · exact ⟨.single listed isHead, List.forall_mem_singleton.mpr (own ▸ entered)⟩
    · exact ⟨.cons listed isHead behind, List.forall_mem_cons.mpr ⟨own ▸ entered, throughRest⟩⟩

section
variable {production : Production} {rest : List Production}

theorem beginsChain_of_isHead (noName : symbol.nonTerminal? = none) {next : String}
    (isHead : production.head? = some (.nonTerminal next)) : g.BeginsChain isOpen symbol production chain ↔
      ∃ rest, chain = production :: rest ∧ g.Passes isOpen next rest symbol := by
  have different : Symbol.nonTerminal next ≠ symbol := by
    rintro rfl
    cases noName
  simp [BeginsChain, isHead, different]

theorem beginsChain_of_atHead (noName : symbol.nonTerminal? = none) (atHead : production.head? = some symbol) :
    g.BeginsChain isOpen symbol production chain ↔ chain = [production] := by
  have different : ∀ next, symbol ≠ .nonTerminal next := by
    rintro next rfl
    cases noName
  simp [BeginsChain, atHead, different]

/-- The first chain that begins with an alternative comes before all that begin with later ones. -/
theorem WellFormed.isFirst_cons (wellFormed : g.WellFormed) (suffix : production :: rest <:+ g.productionsOf name)
    (isFirst : g.IsFirst (g.BeginsChain isOpen symbol production) (some chain)) :
    g.IsFirst (g.Answers isOpen symbol (.tryEach (production :: rest))) (some chain) := by
  obtain ⟨begins, first⟩ := isFirst
  refine ⟨⟨production, List.mem_cons_self, begins⟩, ?_⟩
  rintro other ⟨alternative, member, beginsOther⟩
  rcases List.mem_cons.mp member with rfl | later
  · exact first other beginsOther
  · obtain ⟨tail, rfl, _⟩ := begins
    obtain ⟨tailOther, rfl, _⟩ := beginsOther
    exact .inr (.rel (wellFormed.declaredBefore suffix later))

/-- Where no chain begins with an alternative, the first chain is that of the later alternatives. -/
theorem isFirst_cons_of_not_beginsChain (leadsNowhere : ∀ chain, ¬ g.BeginsChain isOpen symbol production chain)
    {result : Option (List Production)} (isFirst : g.IsFirst (g.Answers isOpen symbol (.tryEach rest)) result) :
    g.IsFirst (g.Answers isOpen symbol (.tryEach (production :: rest))) result := by
  have same : g.Answers isOpen symbol (.tryEach (production :: rest)) = g.Answers isOpen symbol (.tryEach rest) := by
    funext chain
    simp only [Answers, List.mem_cons, exists_eq_or_imp, leadsNowhere chain, false_or]
  rwa [same]

end

/-- The alternatives of a quest are those of a name, from some point on. -/
def Quest.Arises (g : Grammar) : Quest → Prop
  | leave _ => True
  | tryEach alternatives => ∃ name, alternatives <:+ g.productionsOf name

/-- The search ends with the first chain that answers its quest. -/
theorem Finds.isFirst (wellFormed : g.WellFormed) (noName : symbol.nonTerminal? = none) {quest : Quest}
    {result : Option (List Production)} (finds : g.Finds isOpen symbol quest result) (arises : quest.Arises g) :
    g.IsFirst (g.Answers isOpen symbol quest) result := by
  have later : ∀ {production : Production} {rest : List Production},
      (Quest.tryEach (production :: rest)).Arises g → (Quest.tryEach rest).Arises g :=
    fun ⟨name, suffix⟩ => ⟨name, (List.suffix_cons _ _).trans suffix⟩
  induction finds with
  | closed isClosed => exact fun chain passes => isClosed (passes_iff.mp passes).1
  | @opened name _ entered _ ih =>
    have same : g.Answers isOpen symbol (.leave name) = g.Answers isOpen symbol (.tryEach (g.productionsOf name)) :=
      funext fun chain => propext (passes_iff.trans (and_iff_right entered))
    rw [same]
    exact ih ⟨name, List.suffix_refl _⟩
  | exhausted => exact fun chain ⟨_, member, _⟩ => absurd member List.not_mem_nil
  | behind isHead _ ih =>
    obtain ⟨passes, first⟩ := ih trivial
    obtain ⟨name, suffix⟩ := arises
    refine wellFormed.isFirst_cons suffix ⟨(beginsChain_of_isHead noName isHead).mpr ⟨_, rfl, passes⟩, ?_⟩
    intro other begins
    obtain ⟨tail, rfl, passesToo⟩ := (beginsChain_of_isHead noName isHead).mp begins
    exact (first tail passesToo).imp (congrArg _) .cons
  | turnBack isHead _ _ ihHead ihRest =>
    refine isFirst_cons_of_not_beginsChain (fun chain begins => ?_) (ihRest (later arises))
    obtain ⟨tail, _, passes⟩ := (beginsChain_of_isHead noName isHead).mp begins
    exact ihHead trivial tail passes
  | here _ atHead =>
    obtain ⟨name, suffix⟩ := arises
    refine wellFormed.isFirst_cons suffix ⟨(beginsChain_of_atHead noName atHead).mpr rfl, fun other begins => ?_⟩
    exact .inl ((beginsChain_of_atHead noName atHead).mp begins)
  | skip elsewhere noHead _ ih =>
    refine isFirst_cons_of_not_beginsChain (fun chain begins => ?_) (ih (later arises))
    rcases begins with ⟨tail, _, ⟨_, atHead⟩ | ⟨next, isHead, _⟩⟩
    · exact elsewhere atHead
    · exact noHead next isHead

/-! ### With the FIRST sets of the grammar -/

/-- A chain leads to its symbol from each non-terminal that it leaves. -/
theorem HeadChain.exists_of_mem (leads : g.HeadChain name chain symbol) :
    ∀ production ∈ chain, ∃ rest, g.HeadChain production.left rest symbol := by
  induction leads with
  | single listed isHead =>
    obtain ⟨_, rfl⟩ := mem_productionsOf.mp listed
    exact List.forall_mem_singleton.mpr ⟨_, .single listed isHead⟩
  | cons listed isHead behind ih =>
    obtain ⟨_, rfl⟩ := mem_productionsOf.mp listed
    exact List.forall_mem_cons.mpr ⟨⟨_, .cons listed isHead behind⟩, ih⟩

section
variable (wellFormed : g.WellFormed) {first : FirstSets} (computed : g.firstSets = .ok first)
  (noName : symbol.nonTerminal? = none)
include wellFormed computed noName

/-- The FIRST set of a name holds the symbols that chains lead to, also if the name is not declared. -/
theorem contains_iff_headChain : first.Contains name symbol ↔ ∃ chain, g.HeadChain name chain symbol := by
  obtain ⟨layered, finished⟩ := FirstSets.of_firstSets wellFormed computed
  refine ⟨fun contained => (layered.exists_headChain contained).2, fun ⟨chain, leads⟩ => ?_⟩
  obtain ⟨production, rest, rfl⟩ := List.exists_cons_of_ne_nil leads.ne_nil
  have declared : name ∈ g.nonTerminals := wellFormed.declared_of_mem_productionsOf leads.left_of_head
  exact (layered.contains_iff_headChain ((finished name).mpr declared)).mpr ⟨noName, _, leads⟩

/-- The FIRST sets of the grammar close no name that a chain to the symbol leaves. -/
theorem passes_iff_headChain :
    g.Passes (first.Contains · symbol) name chain symbol ↔ g.HeadChain name chain symbol := by
  refine ⟨And.left, fun leads => ⟨leads, fun production member => ?_⟩⟩
  obtain ⟨rest, onwards⟩ := leads.exists_of_mem production member
  exact (contains_iff_headChain wellFormed computed noName).mpr ⟨rest, onwards⟩

end

/-- Without cycles of heads, the search without a bound ends in one way, which is that of the search with room for all
    names, and it ends with the first chain. -/
theorem WellFormed.finds_iff (wellFormed : g.WellFormed) (acyclic : g.HeadAcyclic) (noName : symbol.nonTerminal? = none)
    (isOpen : String → Prop) [DecidablePred isOpen] {result : Option (List Production)} :
    (g.Finds isOpen symbol (.leave name) result ↔ g.chainThrough? isOpen symbol g.nonTerminals.length name = result) ∧
      (g.chainThrough? isOpen symbol g.nonTerminals.length name = result ↔
        g.IsFirst (g.Passes isOpen name · symbol) result) := by
  have ends : g.Finds isOpen symbol (.leave name) (g.chainThrough? isOpen symbol g.nonTerminals.length name) :=
    chainThrough?_finds noName wellFormed acyclic .start trivial
  have isFirst := ends.isFirst wellFormed noName trivial
  exact ⟨⟨ends.unique, fun same => same ▸ ends⟩, ⟨fun same => same ▸ isFirst, isFirst.unique⟩⟩

end Grammar

/-- The search for a chain ends, whatever sets it is given, and there is one way it does. It finds the first chain, in
    the order of declaration at each step, among those that leave only non-terminals whose set has the symbol, and it
    finds nothing only if there is no such chain. With the FIRST sets of the grammar itself it finds what a search
    that looks at no sets finds, and it finds a chain exactly if the symbol is in the FIRST set. -/
theorem findChain?_first {g : Grammar} (built : g.Built) (acyclic : g.HeadAcyclic) {symbol : Symbol}
    (noName : symbol.nonTerminal? = none) (name : String) :
    (∀ (first : FirstSets) (result : Option (List Production)),
      (g.Finds (first.Contains · symbol) symbol (.leave name) result ↔ g.findChain? first name symbol = result) ∧
      (g.findChain? first name symbol = result ↔
        g.IsFirst (g.Passes (first.Contains · symbol) name · symbol) result)) ∧
    ∀ first, g.firstSets = .ok first →
      (∀ result, g.Finds (fun _ => True) symbol (.leave name) result ↔ g.findChain? first name symbol = result) ∧
      ((g.findChain? first name symbol).isSome ↔ first.Contains name symbol) := by
  have wellFormed := built.wellFormed
  have bounded : ∀ (first : FirstSets), g.findChain? first name symbol =
      g.chainThrough? (first.Contains · symbol) symbol g.nonTerminals.length name :=
    fun _ => Grammar.chain?_eq_chainThrough?
  refine ⟨fun first result => ?_, fun first computed => ⟨fun result => ?_, ?_⟩⟩
  · rw [bounded first]
    exact wellFormed.finds_iff acyclic noName _
  · -- Both searches end with the first of the same chains.
    have sameChains : (g.Passes (fun _ => True) name · symbol) =
        (g.Passes (first.Contains · symbol) name · symbol) := by
      funext chain
      rw [Grammar.passes_iff_headChain wellFormed computed noName]
      exact propext (and_iff_left fun _ _ => trivial)
    obtain ⟨finds, isFirst⟩ := wellFormed.finds_iff acyclic noName fun _ => True
    rw [finds, isFirst, sameChains, bounded first]
    exact (wellFormed.finds_iff acyclic noName _).2.symm
  · have isFirst := (wellFormed.finds_iff acyclic noName _).2.mp (bounded first).symm
    rw [isFirst.isSome_iff, Grammar.contains_iff_headChain wellFormed computed noName]
    exact exists_congr fun chain => Grammar.passes_iff_headChain wellFormed computed noName

/-- A grammar with two ways from its start symbol to one terminal. -/
def Grammar.twoWays : Grammar where
  start := "S"
  terminals := ["x"]
  nonTerminals := ["S", "A", "B", "C"]
  productions := [
    { id := 1, left := "S", right := [.nonTerminal "A"] },
    { id := 2, left := "S", right := [.nonTerminal "B"] },
    { id := 3, left := "A", right := [.nonTerminal "C"] },
    { id := 4, left := "C", right := [.terminal "x"] },
    { id := 5, left := "B", right := [.terminal "x"] },
    { id := 6, left := "B", right := [.epsilon] }]

/-- The declarations that build it. -/
def twoWaysEdits : List Edit := [
  .nonTerminals ["S", "A", "B", "C"], .terminals ["x"],
  .production "S" ["A"] 1, .production "S" ["B"] 2, .production "A" ["C"] 3, .production "C" ["x"] 4,
  .production "B" ["x"] 5, .production "B" ["e"] 6]

/-- Its own FIRST sets. -/
def twoWaysFirst : FirstSets := (FirstSets.searchAll .twoWays {} Grammar.twoWays.nonTerminals).toOption.getD {}

/-- Sets in which the first way is closed at its second non-terminal. -/
def closedWay : FirstSets where
  entries := ["S", "A", "B"].map (·, SymbolSet.empty.insert (.terminal "x"))

theorem findChain?_first_twoWays :
    Grammar.twoWays.Built ∧ Grammar.twoWays.HeadAcyclic ∧ (Symbol.terminal "x").nonTerminal? = none ∧
    Grammar.twoWays.firstSets = .ok twoWaysFirst ∧
    (Grammar.twoWays.findChain? twoWaysFirst "S" (.terminal "x")).map (·.map Production.id) = some [1, 3, 4] ∧
    (∀ result, Grammar.twoWays.Finds (fun _ => True) (.terminal "x") (.leave "S") result ↔
      Grammar.twoWays.findChain? twoWaysFirst "S" (.terminal "x") = result) ∧
    (Grammar.twoWays.findChain? closedWay "S" (.terminal "x")).map (·.map Production.id) = some [2, 5] ∧
    Grammar.twoWays.IsFirst (Grammar.twoWays.Passes (closedWay.Contains · (.terminal "x")) "S" · (.terminal "x"))
      (Grammar.twoWays.findChain? closedWay "S" (.terminal "x")) := by
  have build : Grammar.build "S" twoWaysEdits = .ok .twoWays := rfl
  have built : Grammar.twoWays.Built := .of_build build
  have computed : Grammar.twoWays.firstSets = .ok twoWaysFirst := rfl
  have acyclic := built.wellFormed.headAcyclic computed
  have noName : (Symbol.terminal "x").nonTerminal? = none := rfl
  obtain ⟨search, own⟩ := findChain?_first built acyclic noName "S"
  exact ⟨built, acyclic, noName, computed, rfl, (own _ computed).1, rfl, (search closedWay _).2.mp rfl⟩

end Predictive
