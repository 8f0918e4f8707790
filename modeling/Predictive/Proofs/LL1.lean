import Predictive.Grammar.Samples
import Predictive.Proofs.Rewriting

/-!
The LL(1) condition, and how to check it. The condition (`Grammar.LL1`) speaks of all derivations. It can be
checked by means of sets that are claimed to hold every non-terminal that vanishes, every terminal that a
non-terminal begins with and every terminal that follows it (`Lookahead`). If the claims are closed under the
productions, they are true of every derivation, because each expansion only narrows what they say about a form
(`Lookahead.Closed.begins`, `Lookahead.Closed.follows`); and if they also keep the alternatives apart, the
grammar is LL(1) (`Lookahead.Certifies.ll1`). The grammar of expressions passes this check.
-/
namespace Predictive

namespace Grammar

/-- Two distinct productions of one non-terminal. -/
def Alternatives (g : Grammar) (one other : Production) : Prop :=
  one ∈ g.productions ∧ other ∈ g.productions ∧ one.left = other.left ∧ one ≠ other

/-- The terminal can come directly behind the non-terminal in a form derived from the start symbol. -/
def FollowedBy (g : Grammar) (name terminal : String) : Prop :=
  ∃ before behind, g.Yields [g.startSymbol] (before ++ .nonTerminal name :: .terminal terminal :: behind)

/-- One token tells the alternatives of a non-terminal apart. What an alternative begins with and whether it
    vanishes is what its whole right side derives, for which the order of expansions makes no difference. -/
structure LL1 (g : Grammar) : Prop where
  begins_apart : ∀ one other, g.Alternatives one other → ∀ terminal,
    g.BeginsWith (eraseEpsilon one.right) terminal → ¬ g.BeginsWith (eraseEpsilon other.right) terminal
  vanishes_once : ∀ one other, g.Alternatives one other →
    g.Nullable (eraseEpsilon one.right) → ¬ g.Nullable (eraseEpsilon other.right)
  follow_apart : ∀ one other, g.Alternatives one other → g.Nullable (eraseEpsilon one.right) → ∀ terminal,
    g.BeginsWith (eraseEpsilon other.right) terminal → ¬ g.FollowedBy other.left terminal

end Grammar

/-- Claims about the non-terminals of a grammar. -/
structure Lookahead where
  /-- The non-terminals that may vanish. -/
  vanishing : List String
  /-- The terminals that a non-terminal may begin with. -/
  begins : String → List String
  /-- The terminals that may follow a non-terminal. -/
  follows : String → List String

namespace Lookahead

/-- The symbol may derive the empty word. -/
def MayVanish (claims : Lookahead) : Symbol → Prop
  | .nonTerminal name => name ∈ claims.vanishing
  | .epsilon => True
  | _ => False

instance (claims : Lookahead) : (symbol : Symbol) → Decidable (claims.MayVanish symbol)
  | .nonTerminal name => inferInstanceAs (Decidable (name ∈ claims.vanishing))
  | .epsilon => inferInstanceAs (Decidable True)
  | .terminal _ => inferInstanceAs (Decidable False)
  | .endMarker => inferInstanceAs (Decidable False)

/-- All symbols of the form may derive the empty word. -/
def Vanishes (claims : Lookahead) (form : List Symbol) : Prop := ∀ symbol ∈ form, claims.MayVanish symbol

instance (claims : Lookahead) (form : List Symbol) : Decidable (claims.Vanishes form) :=
  inferInstanceAs (Decidable (∀ symbol ∈ form, claims.MayVanish symbol))

/-- The terminals that a symbol may begin with. -/
def opensWith (claims : Lookahead) : Symbol → List String
  | .terminal name => [name]
  | .nonTerminal name => claims.begins name
  | _ => []

/-- The terminals that may come first in a form with one of the given terminals behind it. -/
def opening (claims : Lookahead) (after : List String) : List Symbol → List String
  | [] => after
  | symbol :: rest => claims.opensWith symbol ++ if claims.MayVanish symbol then claims.opening after rest else []

/-- Every non-terminal of the form is claimed to be followed by what comes behind it, where one of the given
    terminals is behind the form. -/
def Accounts (claims : Lookahead) (after : List String) : List Symbol → Prop
  | [] => True
  | symbol :: rest =>
    (∀ name ∈ symbol.nonTerminal?, ∀ terminal ∈ claims.opening after rest, terminal ∈ claims.follows name) ∧
      claims.Accounts after rest

instance (claims : Lookahead) (after : List String) : (form : List Symbol) → Decidable (claims.Accounts after form)
  | [] => inferInstanceAs (Decidable True)
  | _ :: rest =>
    have : Decidable (claims.Accounts after rest) := instDecidableAccounts claims after rest
    inferInstanceAs (Decidable (_ ∧ _))

/-- The claims are kept by a production. -/
structure Admits (claims : Lookahead) (production : Production) : Prop where
  vanish : claims.Vanishes production.right → production.left ∈ claims.vanishing
  begin : ∀ terminal ∈ claims.opening [] production.right, terminal ∈ claims.begins production.left
  follow : claims.Accounts (claims.follows production.left) production.right

instance (claims : Lookahead) (production : Production) : Decidable (claims.Admits production) :=
  decidable_of_iff (_ ∧ _ ∧ _) ⟨fun ⟨vanish, begin, follow⟩ => ⟨vanish, begin, follow⟩,
    fun ⟨vanish, begin, follow⟩ => ⟨vanish, begin, follow⟩⟩

/-- The claims keep two productions apart. -/
structure Separates (claims : Lookahead) (one other : Production) : Prop where
  begins_apart : ∀ terminal ∈ claims.opening [] one.right, terminal ∉ claims.opening [] other.right
  vanishes_once : claims.Vanishes one.right → ¬ claims.Vanishes other.right
  follow_apart : claims.Vanishes one.right →
    ∀ terminal ∈ claims.opening [] other.right, terminal ∉ claims.follows other.left

instance (claims : Lookahead) (one other : Production) : Decidable (claims.Separates one other) :=
  decidable_of_iff (_ ∧ _ ∧ _) ⟨fun ⟨begins, vanishes, follow⟩ => ⟨begins, vanishes, follow⟩,
    fun ⟨begins, vanishes, follow⟩ => ⟨begins, vanishes, follow⟩⟩

/-- The claims are kept by all productions. -/
def Closed (claims : Lookahead) (g : Grammar) : Prop := ∀ production ∈ g.productions, claims.Admits production

/-- The claims are kept by all productions and tell the alternatives of each non-terminal apart. -/
def Certifies (claims : Lookahead) (g : Grammar) : Prop :=
  claims.Closed g ∧ ∀ one ∈ g.productions, ∀ other ∈ g.productions, one.left = other.left → one ≠ other →
    claims.Separates one other

instance (claims : Lookahead) (g : Grammar) : Decidable (claims.Certifies g) :=
  inferInstanceAs (Decidable ((∀ production ∈ g.productions, claims.Admits production) ∧ _))

variable {claims : Lookahead} {g : Grammar} {form next front back : List Symbol} {terminal : String}
  {after later : List String}

/-! ### Claims about forms -/

theorem vanishes_append : claims.Vanishes (front ++ back) ↔ claims.Vanishes front ∧ claims.Vanishes back :=
  List.forall_mem_append

theorem opening_append : claims.opening after (front ++ back) = claims.opening (claims.opening after back) front := by
  induction front with
  | nil => rfl
  | cons symbol rest ih => rw [List.cons_append, opening, opening, ih]

/-- What comes first is in the form itself, or behind it if the form vanishes. -/
theorem mem_opening : terminal ∈ claims.opening after form ↔
    terminal ∈ claims.opening [] form ∨ claims.Vanishes form ∧ terminal ∈ after := by
  induction form with
  | nil => simp [opening, Vanishes]
  | cons symbol rest ih =>
    by_cases vanish : claims.MayVanish symbol
    · simp [opening, Vanishes, vanish, ih, or_assoc]
    · simp [opening, Vanishes, vanish]

theorem opening_mono (wider : after ⊆ later) : claims.opening after form ⊆ claims.opening later form := by
  intro terminal member
  rw [mem_opening] at member ⊢
  exact member.imp_right fun ⟨vanish, behind⟩ => ⟨vanish, wider behind⟩

theorem accounts_append : claims.Accounts after (front ++ back) ↔
    claims.Accounts (claims.opening after back) front ∧ claims.Accounts after back := by
  induction front with
  | nil => simp [Accounts]
  | cons symbol rest ih => rw [List.cons_append, Accounts, Accounts, ih, opening_append, and_assoc]

theorem Accounts.mono (accounts : claims.Accounts later form) (narrower : after ⊆ later) :
    claims.Accounts after form := by
  induction form with
  | nil => trivial
  | cons symbol rest ih =>
    obtain ⟨own, behind⟩ := accounts
    exact ⟨fun name named terminal member => own name named terminal (opening_mono narrower member), ih behind⟩

/-- The empty word makes no difference to any claim about a form. -/
theorem eraseEpsilon_claims (form : List Symbol) :
    (claims.Vanishes (eraseEpsilon form) ↔ claims.Vanishes form) ∧
    (∀ after, claims.opening after (eraseEpsilon form) = claims.opening after form) ∧
    ∀ after, claims.Accounts after form → claims.Accounts after (eraseEpsilon form) := by
  induction form with
  | nil => exact ⟨Iff.rfl, fun _ => rfl, fun _ => id⟩
  | cons symbol rest ih =>
    obtain ⟨vanish, opens, accounts⟩ := ih
    by_cases empty : symbol = .epsilon
    · subst empty
      rw [eraseEpsilon_epsilon_cons]
      refine ⟨?_, fun after => ?_, fun after => ?_⟩
      · simpa [Vanishes, MayVanish] using vanish
      · simpa [opening, opensWith, MayVanish] using opens after
      · intro holds
        exact accounts after holds.2
    · rw [eraseEpsilon_cons empty]
      refine ⟨?_, fun after => ?_, fun after => ?_⟩
      · simpa [Vanishes] using and_congr_right fun _ => vanish
      · rw [opening, opening, opens]
      · intro holds
        exact ⟨by simpa only [opens] using holds.1, accounts after holds.2⟩

/-! ### Claims along derivations -/

namespace Closed

variable (closed : claims.Closed g)
include closed

theorem vanishes_of_rewrites (rewrites : g.Rewrites form next) (vanish : claims.Vanishes next) :
    claims.Vanishes form := by
  cases rewrites with
  | @expand production before behind listed =>
    rw [List.append_assoc, vanishes_append, vanishes_append] at vanish
    obtain ⟨inFront, right, inBack⟩ := vanish
    have left := (closed production listed).vanish ((eraseEpsilon_claims _).1.mp right)
    refine vanishes_append.mpr ⟨inFront, fun symbol member => ?_⟩
    rcases List.mem_cons.mp member with rfl | later
    · exact left
    · exact inBack symbol later

/-- What can come first in the right side of a production, and behind it, can come first in its left side. -/
theorem opening_right {production : Production} (listed : production ∈ g.productions) :
    claims.opening after production.right ⊆ claims.opening after [.nonTerminal production.left] := by
  intro terminal member
  have admits := closed production listed
  rw [mem_opening] at member ⊢
  rcases member with own | ⟨vanish, behind⟩
  · exact .inl (by simpa [opening, opensWith] using admits.begin terminal own)
  · exact .inr ⟨by simpa [Vanishes, MayVanish] using admits.vanish vanish, behind⟩

theorem opening_of_rewrites (rewrites : g.Rewrites form next) :
    claims.opening after next ⊆ claims.opening after form := by
  cases rewrites with
  | @expand production before behind listed =>
    rw [List.append_assoc, opening_append, opening_append, (eraseEpsilon_claims _).2.1,
      ← List.singleton_append, opening_append, opening_append]
    exact opening_mono (closed.opening_right listed)

/-- What follows the non-terminals of a form is accounted for after an expansion if it was before. -/
theorem accounts_of_rewrites (rewrites : g.Rewrites form next) (accounts : claims.Accounts after form) :
    claims.Accounts after next := by
  cases rewrites with
  | @expand production before behind listed =>
    rw [List.append_assoc, accounts_append, accounts_append]
    obtain ⟨inFront, own, inBack⟩ := accounts_append.mp accounts
    refine ⟨inFront.mono ?_, ?_, inBack⟩
    · rw [opening_append, (eraseEpsilon_claims _).2.1, ← List.singleton_append, opening_append]
      exact closed.opening_right listed
    · have right := (eraseEpsilon_claims _).2.2 _ (closed production listed).follow
      exact right.mono fun terminal member => own production.left rfl terminal member

theorem vanishes (vanishes : g.Nullable form) : claims.Vanishes form := by
  obtain ⟨rules, derives⟩ := vanishes
  have yields := derives.yields
  clear derives
  induction yields using Relation.ReflTransGen.head_induction_on with
  | refl => simp [Vanishes]
  | head rewrites _ ih => exact closed.vanishes_of_rewrites rewrites ih

theorem begins (begins : g.BeginsWith form terminal) : terminal ∈ claims.opening [] form := by
  obtain ⟨rules, rest, derives⟩ := begins
  have yields := derives.yields
  clear derives
  induction yields using Relation.ReflTransGen.head_induction_on with
  | refl => simp [opening, opensWith]
  | head rewrites _ ih => exact closed.opening_of_rewrites rewrites ih

theorem accounts_of_yields {symbol : Symbol} (yields : g.Yields [symbol] form) : claims.Accounts [] form := by
  induction yields with
  | refl => simp [Accounts, opening]
  | tail _ rewrites ih => exact closed.accounts_of_rewrites rewrites ih

theorem follows {name : String} (followed : g.FollowedBy name terminal) : terminal ∈ claims.follows name := by
  obtain ⟨before, behind, yields⟩ := followed
  have accounts := closed.accounts_of_yields yields
  exact (accounts_append.mp accounts).2.1 name rfl terminal (by simp [opening, opensWith])

end Closed

/-- A grammar is LL(1) if some claims about it are kept by its productions and tell its alternatives apart. -/
theorem Certifies.ll1 (certified : claims.Certifies g) : g.LL1 := by
  obtain ⟨closed, apart⟩ := certified
  have separated : ∀ {one other : Production}, g.Alternatives one other → claims.Separates one other :=
    fun ⟨listed, listedOther, same, different⟩ => apart _ listed _ listedOther same different
  have vanishes : ∀ {production : Production}, g.Nullable (eraseEpsilon production.right) →
      claims.Vanishes production.right :=
    fun nullable => (eraseEpsilon_claims _).1.mp (closed.vanishes nullable)
  have begins : ∀ {production : Production} {terminal : String},
      g.BeginsWith (eraseEpsilon production.right) terminal → terminal ∈ claims.opening [] production.right :=
    fun beginsWith => (eraseEpsilon_claims _).2.1 [] ▸ closed.begins beginsWith
  exact {
    begins_apart := fun one other alternatives terminal first second =>
      (separated alternatives).begins_apart terminal (begins first) (begins second)
    vanishes_once := fun one other alternatives first second =>
      (separated alternatives).vanishes_once (vanishes first) (vanishes second)
    follow_apart := fun one other alternatives first terminal second followed =>
      (separated alternatives).follow_apart (vanishes first) terminal (begins second) (closed.follows followed) }

end Lookahead

/-- What the non-terminals of the grammar of expressions begin with and are followed by. -/
def expressionLookahead : Lookahead where
  vanishing := ["E'", "T'"]
  begins
    | "E'" => ["+", "-"]
    | "T'" => ["*", "/"]
    | _ => ["(", "a"]
  follows
    | "E" => [")"]
    | "E'" => [")"]
    | "F" => ["*", "/", "+", "-", ")"]
    | _ => ["+", "-", ")"]

theorem expression_ll1 : Grammar.expression.LL1 := by
  have certified : expressionLookahead.Certifies .expression := by decide
  exact certified.ll1

end Predictive
