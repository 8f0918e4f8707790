import Mathlib.Algebra.Group.Nat.Defs
import Predictive.Proofs.Lexemes

/-!
Placeholders and what they stand for. The placeholders of one kind are numbered in the order of tokens
(`texts_number`), and their digits are those of their indices as long as the counter does not wrap around
(`placeholder_ofNat`). So if neither name is the other one with digits behind it, no two tokens share a
placeholder, be they of one kind or of two (`placeholder_inj`), no source text displaces another one, and tokens
and substitutions together give back the lexemes (`map_lexeme?_number`).
-/
namespace Predictive

/-- The kind of a token and the place where it stands. -/
def Token.place (token : Token) : TokenKind × Nat := (token.kind, token.position)

/-- The kind of a lexeme and the place where it stands. -/
def Lexeme.place (lexeme : Lexeme) : TokenKind × Nat := (lexeme.kind, lexeme.position)

/-- The source text of a token: what its placeholder stands for, or the text of an operator. -/
def Token.source? (token : Token) (substitutions : Std.TreeMap String String) : Option String :=
  match token.kind with
  | .operator => some token.text
  | _ => substitutions[token.text]?

/-- The lexeme of a token, if its placeholder stands for something. -/
def Token.lexeme? (token : Token) (substitutions : Std.TreeMap String String) : Option Lexeme :=
  (token.source? substitutions).map fun source =>
    { kind := token.kind, source := source.toList, position := token.position }

namespace Lexer

/-- What the placeholders of a kind are named after. Operators have none. -/
def placeholderName? (lexer : Lexer) : TokenKind → Option String
  | .number => some lexer.numberName
  | .identifier => some lexer.identifierName
  | .operator => none

/-- Neither name of placeholders is the other one with any digits behind it. -/
def NamesApart (lexer : Lexer) : Prop :=
  ∀ digits : List Char, (∀ c ∈ digits, c.isDigit) →
    lexer.numberName.toList ≠ lexer.identifierName.toList ++ digits ∧
      lexer.identifierName.toList ≠ lexer.numberName.toList ++ digits

/-- The index of the next placeholder of a kind, after so many numbers and identifiers. -/
def nextIndex (numbers identifiers : Nat) : TokenKind → Nat
  | .number => numbers
  | .identifier => identifiers
  | .operator => 0

theorem nextIndex_zero (kind : TokenKind) : nextIndex 0 0 kind = 0 := by
  cases kind <;> rfl

variable {lexer : Lexer}

/-! ### Different placeholders -/

/-- A counter that has not wrapped around shows the digits of its index, and no sign. -/
theorem placeholder_ofNat {name : String} {index : Nat} (small : index < 2 ^ 31) :
    placeholder name (.ofNat index) = name ++ toString index := by
  have shown : toString (Int32.ofNat index) = toString index := by
    show toString (Int32.ofNat index).toInt = toString index
    rw [Int32.toInt_ofNat_of_lt small]
    rfl
  rw [placeholder, shown]

theorem toList_placeholder {name : String} {index : Nat} (small : index < 2 ^ 31) :
    (placeholder name (.ofNat index)).toList = name.toList ++ Nat.toDigits 10 index := by
  simp [placeholder_ofNat small]

/-- A number and an identifier have different placeholders, as long as the digits are those of the indices. -/
theorem NamesApart.placeholder_ne (apart : lexer.NamesApart) {index other : Nat} (small : index < 2 ^ 31)
    (smallOther : other < 2 ^ 31) :
    placeholder lexer.numberName (.ofNat index) ≠ placeholder lexer.identifierName (.ofNat other) := by
  intro same
  have texts := congrArg String.toList same
  rw [toList_placeholder small, toList_placeholder smallOther] at texts
  -- The longer name would be the shorter one with the first of its digits.
  rcases List.append_eq_append_iff.mp texts with ⟨digits, longer, split⟩ | ⟨digits, longer, split⟩
  · have inside : ∀ c ∈ digits, c.isDigit := by
      intro c member
      exact Text.isDigit_of_mem_toDigits c (by rw [split]; exact List.mem_append_left _ member)
    exact (apart digits inside).2 longer
  · have inside : ∀ c ∈ digits, c.isDigit := by
      intro c member
      exact Text.isDigit_of_mem_toDigits c (by rw [split]; exact List.mem_append_left _ member)
    exact (apart digits inside).1 longer

/-- A placeholder tells its kind and its index, if its counter has not wrapped around. -/
theorem NamesApart.placeholder_inj (apart : lexer.NamesApart) {kind otherKind : TokenKind} {name otherName : String}
    (named : lexer.placeholderName? kind = some name) (namedOther : lexer.placeholderName? otherKind = some otherName)
    {index other : Nat} (small : index < 2 ^ 31) (smallOther : other < 2 ^ 31)
    (same : placeholder name (.ofNat index) = placeholder otherName (.ofNat other)) :
    kind = otherKind ∧ index = other := by
  have sameIndex : name = otherName → index = other := by
    rintro rfl
    have texts := congrArg String.toList same
    rw [toList_placeholder small, toList_placeholder smallOther] at texts
    exact Text.toDigits_inj (List.append_cancel_left texts)
  cases kind with
  | number =>
    cases named
    cases otherKind with
    | number => cases namedOther; exact ⟨rfl, sameIndex rfl⟩
    | identifier => cases namedOther; exact absurd same (apart.placeholder_ne small smallOther)
    | operator => cases namedOther
  | identifier =>
    cases named
    cases otherKind with
    | number => cases namedOther; exact absurd same.symm (apart.placeholder_ne smallOther small)
    | identifier => cases namedOther; exact ⟨rfl, sameIndex rfl⟩
    | operator => cases namedOther
  | operator => cases named

variable {numbers identifiers : Nat} {found : List Lexeme}

theorem kind_eq_operator_or_named (lexer : Lexer) (kind : TokenKind) :
    kind = .operator ∨ ∃ name, lexer.placeholderName? kind = some name := by
  cases kind with
  | number => exact .inr ⟨_, rfl⟩
  | identifier => exact .inr ⟨_, rfl⟩
  | operator => exact .inl rfl

theorem ne_operator_of_named {kind : TokenKind} {name : String} (named : lexer.placeholderName? kind = some name) :
    kind ≠ .operator := by
  rintro rfl
  cases named

/-- An operator takes no index. -/
theorem number_operator {source : List Char} {position : Nat} :
    lexer.number (.ofNat numbers) (.ofNat identifiers) ({ kind := .operator, source, position } :: found) =
      ({ kind := .operator, text := String.ofList source, position } ::
          (lexer.number (.ofNat numbers) (.ofNat identifiers) found).1,
        (lexer.number (.ofNat numbers) (.ofNat identifiers) found).2) := rfl

/-- A lexeme of another kind takes the next index of its kind. -/
theorem number_named {kind : TokenKind} {name : String} (named : lexer.placeholderName? kind = some name)
    (source : List Char) (position : Nat) :
    ∃ moreNumbers moreIdentifiers,
      (∀ other, nextIndex moreNumbers moreIdentifiers other =
        nextIndex numbers identifiers other + if other = kind then 1 else 0) ∧
      lexer.number (.ofNat numbers) (.ofNat identifiers) ({ kind, source, position } :: found) =
        ({ kind, text := placeholder name (.ofNat (nextIndex numbers identifiers kind)), position } ::
            (lexer.number (.ofNat moreNumbers) (.ofNat moreIdentifiers) found).1,
          (placeholder name (.ofNat (nextIndex numbers identifiers kind)), String.ofList source) ::
            (lexer.number (.ofNat moreNumbers) (.ofNat moreIdentifiers) found).2) := by
  cases kind with
  | number =>
    cases named
    refine ⟨numbers + 1, identifiers, by intro other; cases other <;> rfl, ?_⟩
    rw [Int32.ofNat_add]
    rfl
  | identifier =>
    cases named
    refine ⟨numbers, identifiers + 1, by intro other; cases other <;> rfl, ?_⟩
    rw [Int32.ofNat_add]
    rfl
  | operator => cases named

/-- The placeholders of a kind are numbered one by one. -/
theorem texts_number {kind : TokenKind} {name : String} (named : lexer.placeholderName? kind = some name) :
    ((lexer.number (.ofNat numbers) (.ofNat identifiers) found).1.filter (·.kind = kind)).map Token.text =
      (List.range' (nextIndex numbers identifiers kind)
        ((lexer.number (.ofNat numbers) (.ofNat identifiers) found).1.countP (·.kind = kind))).map
          fun index => placeholder name (.ofNat index) := by
  induction found generalizing numbers identifiers with
  | nil => rfl
  | cons lexeme rest ih =>
    obtain ⟨own, source, position⟩ := lexeme
    rcases kind_eq_operator_or_named lexer own with rfl | ⟨ownName, namedOwn⟩
    · have other : TokenKind.operator ≠ kind := (ne_operator_of_named named).symm
      rw [number_operator]
      simp [other, ih]
    · obtain ⟨moreNumbers, moreIdentifiers, next, numbered⟩ := number_named namedOwn source position
      rw [numbered]
      by_cases same : own = kind
      · subst same
        obtain rfl := Option.some.inj (named.symm.trans namedOwn)
        simp [ih, next, List.range'_succ]
      · simp [same, Ne.symm same, ih, next]

/-- Each number and each identifier has a source text, and nothing else has. -/
theorem sources_number : (lexer.number (.ofNat numbers) (.ofNat identifiers) found).2.map Prod.fst =
    ((lexer.number (.ofNat numbers) (.ofNat identifiers) found).1.filter (·.kind ≠ .operator)).map Token.text := by
  induction found generalizing numbers identifiers with
  | nil => rfl
  | cons lexeme rest ih =>
    obtain ⟨kind, source, position⟩ := lexeme
    rcases kind_eq_operator_or_named lexer kind with rfl | ⟨name, named⟩
    · rw [number_operator]
      simpa using ih
    · obtain ⟨moreNumbers, moreIdentifiers, _, numbered⟩ := number_named named source position
      rw [numbered]
      simp [ne_operator_of_named named, ih]

/-- The placeholders in use have an index that their counter has run through. -/
theorem exists_placeholder_of_mem {key : String}
    (member : key ∈ (lexer.number (.ofNat numbers) (.ofNat identifiers) found).2.map Prod.fst) :
    ∃ kind name index, lexer.placeholderName? kind = some name ∧ key = placeholder name (.ofNat index) ∧
      nextIndex numbers identifiers kind ≤ index ∧
      index < nextIndex numbers identifiers kind +
        (lexer.number (.ofNat numbers) (.ofNat identifiers) found).1.countP (·.kind = kind) := by
  rw [sources_number] at member
  obtain ⟨token, inside, rfl⟩ := List.mem_map.mp member
  obtain ⟨written, noOperator⟩ := List.mem_filter.mp inside
  rcases kind_eq_operator_or_named lexer token.kind with operator | ⟨name, named⟩
  · exact absurd operator (of_decide_eq_true noOperator)
  · have texts : token.text ∈ ((lexer.number (.ofNat numbers) (.ofNat identifiers) found).1.filter
        (·.kind = token.kind)).map Token.text :=
      List.mem_map_of_mem (List.mem_filter.mpr ⟨written, decide_eq_true rfl⟩)
    rw [texts_number named] at texts
    obtain ⟨index, within, same⟩ := List.mem_map.mp texts
    exact ⟨token.kind, name, index, named, same.symm, List.mem_range'_1.mp within⟩

/-- No placeholder comes up twice, unless a counter wraps around. -/
theorem NamesApart.nodup_sources (apart : lexer.NamesApart)
    (fits : ∀ kind, kind ≠ .operator → nextIndex numbers identifiers kind +
      (lexer.number (.ofNat numbers) (.ofNat identifiers) found).1.countP (·.kind = kind) < 2 ^ 31) :
    ((lexer.number (.ofNat numbers) (.ofNat identifiers) found).2.map Prod.fst).Nodup := by
  induction found generalizing numbers identifiers with
  | nil => exact List.nodup_nil
  | cons lexeme rest ih =>
    obtain ⟨own, source, position⟩ := lexeme
    rcases kind_eq_operator_or_named lexer own with rfl | ⟨ownName, namedOwn⟩
    · refine ih fun kind noOperator => ?_
      simpa [number_operator, Ne.symm noOperator] using fits kind noOperator
    · obtain ⟨moreNumbers, moreIdentifiers, next, numbered⟩ := number_named namedOwn source position
      rw [numbered] at fits ⊢
      have fitsRest : ∀ kind, kind ≠ .operator → nextIndex moreNumbers moreIdentifiers kind +
          (lexer.number (.ofNat moreNumbers) (.ofNat moreIdentifiers) rest).1.countP (·.kind = kind) < 2 ^ 31 := by
        intro kind noOperator
        have all := fits kind noOperator
        simp only [List.countP_cons, decide_eq_true_eq, eq_comm (a := own)] at all
        rw [next]
        omega
      have small := fits own (ne_operator_of_named namedOwn)
      refine List.nodup_cons.mpr ⟨fun later => ?_, ih fitsRest⟩
      obtain ⟨kind, name, index, named, same, free, used⟩ := exists_placeholder_of_mem later
      have smallOther := fitsRest kind (ne_operator_of_named named)
      obtain ⟨rfl, rfl⟩ := apart.placeholder_inj namedOwn named (by omega) (by omega) same
      rw [next, if_pos rfl] at free
      omega

/-! ### Substitutions -/

/-- The entries that are stored for a list of placeholders with their source texts. -/
def substituted (sources : List (String × String)) (map : Std.TreeMap String String) : Std.TreeMap String String :=
  sources.foldl (fun map (key, source) => map.insert key source) map

theorem mem_substituted {sources : List (String × String)} {map : Std.TreeMap String String} {key : String} :
    key ∈ substituted sources map ↔ key ∈ sources.map Prod.fst ∨ key ∈ map := by
  induction sources generalizing map with
  | nil => simp [substituted]
  | cons first rest ih =>
    rw [substituted, List.foldl_cons, ← substituted, ih, Std.TreeMap.mem_insert, Std.LawfulEqCmp.compare_eq_iff_eq,
      List.map_cons, List.mem_cons, eq_comm (a := first.1)]
    rw [or_left_comm, or_assoc]

theorem getElem?_substituted_of_notMem {sources : List (String × String)} {map : Std.TreeMap String String}
    {key : String} (missing : key ∉ sources.map Prod.fst) : (substituted sources map)[key]? = map[key]? := by
  induction sources generalizing map with
  | nil => rfl
  | cons first rest ih =>
    obtain ⟨different, later⟩ := not_or.mp (List.mem_cons.not.mp missing)
    have other : compare first.1 key ≠ .eq := fun same => different (Std.LawfulEqOrd.eq_of_compare same).symm
    rw [substituted, List.foldl_cons, ← substituted, ih later, Std.TreeMap.getElem?_insert, if_neg other]

/-- Among different placeholders, each keeps its source text. -/
theorem getElem?_substituted {sources : List (String × String)} {map : Std.TreeMap String String}
    (nodup : (sources.map Prod.fst).Nodup) {key source : String} (member : (key, source) ∈ sources) :
    (substituted sources map)[key]? = some source := by
  induction sources generalizing map with
  | nil => cases member
  | cons first rest ih =>
    obtain ⟨fresh, nodupRest⟩ := List.nodup_cons.mp nodup
    rw [substituted, List.foldl_cons, ← substituted]
    rcases List.mem_cons.mp member with rfl | later
    · rw [getElem?_substituted_of_notMem fresh, Std.TreeMap.getElem?_insert_self]
    · exact ih nodupRest later

theorem lexeme?_operator {source : List Char} {position : Nat} {substitutions : Std.TreeMap String String} :
    Token.lexeme? { kind := .operator, text := String.ofList source, position } substitutions =
      some { kind := .operator, source, position } := by
  simp [Token.lexeme?, Token.source?]

theorem lexeme?_named {kind : TokenKind} {name : String} (named : lexer.placeholderName? kind = some name)
    {text : String} {source : List Char} {position : Nat} {substitutions : Std.TreeMap String String}
    (known : substitutions[text]? = some (String.ofList source)) :
    Token.lexeme? { kind, text, position } substitutions = some { kind, source, position } := by
  cases kind with
  | number => simp [Token.lexeme?, Token.source?, known]
  | identifier => simp [Token.lexeme?, Token.source?, known]
  | operator => cases named

/-- Tokens give back the lexemes that they were made of, where all their placeholders are known. -/
theorem map_lexeme?_number {substitutions : Std.TreeMap String String}
    (known : ∀ entry ∈ (lexer.number (.ofNat numbers) (.ofNat identifiers) found).2,
      substitutions[entry.1]? = some entry.2) :
    (lexer.number (.ofNat numbers) (.ofNat identifiers) found).1.map (·.lexeme? substitutions) = found.map some := by
  induction found generalizing numbers identifiers with
  | nil => rfl
  | cons lexeme rest ih =>
    obtain ⟨kind, source, position⟩ := lexeme
    rcases kind_eq_operator_or_named lexer kind with rfl | ⟨name, named⟩
    · rw [number_operator] at known ⊢
      rw [List.map_cons, lexeme?_operator, ih known, List.map_cons]
    · obtain ⟨moreNumbers, moreIdentifiers, _, numbered⟩ := number_named named source position
      rw [numbered] at known ⊢
      obtain ⟨own, others⟩ := List.forall_mem_cons.mp known
      rw [List.map_cons, lexeme?_named named own, ih others, List.map_cons]

end Lexer

end Predictive
