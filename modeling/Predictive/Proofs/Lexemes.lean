import Predictive.Lexer
import Predictive.Proofs.Words

/-!
How an expression is cut into lexemes, piece by piece. Blanks only move the position on, a run of letters or of digits
is taken whole if nothing of its class follows, and an operator is taken by itself: one equation each, so that no
proof about expressions has to look into the scanner. Placeholders do not survive normalization, so what an expression
is read as can be told from its lexemes alone (`read_eq`).
-/
namespace Predictive

/-- There are finitely many characters, but to decide what those of a list have in common, these are looked at, not
    all. -/
instance (priority := 2000) decidableForallMem {p : Char → Prop} [DecidablePred p] (text : List Char) :
    Decidable (∀ c ∈ text, p c) :=
  List.decidableBAll p text

/-- The classes of characters of which lexemes are runs. -/
inductive RunClass where
  | letter
  | digit
deriving DecidableEq, Repr

namespace RunClass

/-- The character belongs to the class. -/
def holds : RunClass → Char → Bool
  | letter => Char.isAlpha
  | digit => Char.isDigit

variable {c : Char}

theorem isAlpha_iff : c.isAlpha ↔ 65 ≤ c.toNat ∧ c.toNat ≤ 90 ∨ 97 ≤ c.toNat ∧ c.toNat ≤ 122 := by
  show (decide (c.val ≥ 65 ∧ c.val ≤ 90) || (decide (c.val ≥ 97) && decide (c.val ≤ 122))) = true ↔ _
  simp only [Bool.or_eq_true, Bool.and_eq_true, decide_eq_true_eq, UInt32.le_iff_toNat_le, ge_iff_le]
  rfl

theorem isDigit_iff : c.isDigit ↔ 48 ≤ c.toNat ∧ c.toNat ≤ 57 := by
  simp only [Char.isDigit, Bool.and_eq_true, decide_eq_true_eq, UInt32.le_iff_toNat_le, ge_iff_le]
  rfl

/-- No character belongs to two classes. -/
theorem eq_of_holds {run other : RunClass} (one : run.holds c) (two : other.holds c) : run = other := by
  have apart : ¬ (c.isAlpha ∧ c.isDigit) := by
    rintro ⟨letter, digit⟩
    rw [isAlpha_iff] at letter
    rw [isDigit_iff] at digit
    omega
  cases run <;> cases other
  · rfl
  · exact absurd ⟨one, two⟩ apart
  · exact absurd ⟨two, one⟩ apart
  · rfl

theorem not_isBlank_of_holds {run : RunClass} (member : run.holds c) : Text.isBlank c = false := by
  have outside : ¬ ∃ range ∈ Text.blankRanges, range.1 ≤ c.toNat ∧ c.toNat ≤ range.2 := by
    cases run with
    | letter =>
      have code := isAlpha_iff.mp member
      simp [Text.blankRanges]
      omega
    | digit =>
      have code := isDigit_iff.mp member
      simp [Text.blankRanges]
      omega
  simpa [Text.isBlank] using outside

end RunClass

namespace Lexer

/-- The kind of a run that is read as a lexeme. -/
def runKind (lexer : Lexer) : RunClass → List Char → TokenKind
  | .letter, source => lexer.wordKind source
  | .digit, _ => .number

variable {lexer : Lexer} {position : Nat} {rest : List Char}

theorem lexemes_blanks {gap : List Char} (blank : ∀ c ∈ gap, Text.isBlank c) :
    lexer.lexemes position (gap ++ rest) = lexer.lexemes (position + gap.length) rest := by
  induction gap generalizing position with
  | nil => rfl
  | cons c gap ih =>
    obtain ⟨first, others⟩ := List.forall_mem_cons.mp blank
    rw [List.cons_append, lexemes, if_pos first, ih others, List.length_cons]
    congr 1
    omega

theorem lexemes_run {run : RunClass} {source : List Char} (nonempty : source ≠ []) (inside : ∀ c ∈ source, run.holds c)
    (ends : ∀ c ∈ rest.head?, run.holds c = false) :
    lexer.lexemes position (source ++ rest) = (lexer.lexemes (position + source.length) rest).map
      ({ kind := lexer.runKind run source, source, position } :: ·) := by
  obtain ⟨c, source, rfl⟩ := List.exists_cons_of_ne_nil nonempty
  obtain ⟨first, others⟩ := List.forall_mem_cons.mp inside
  have visible : ¬ Text.isBlank c := by simp [RunClass.not_isBlank_of_holds first]
  obtain ⟨taken, dropped⟩ := Text.takeWhile_run others ends
  rw [List.cons_append, lexemes, if_neg visible]
  cases run with
  | letter =>
    have letter : c.isAlpha := first
    simp only [RunClass.holds] at taken dropped
    rw [if_pos letter, taken, dropped]
    rfl
  | digit =>
    have digit : c.isDigit := first
    have noLetter : ¬ c.isAlpha := by
      intro letter
      have member : RunClass.letter.holds c := letter
      cases RunClass.eq_of_holds member first
    simp only [RunClass.holds] at taken dropped
    rw [if_neg noLetter, if_pos digit, taken, dropped]
    rfl

theorem lexemes_operator {c : Char} (declared : c ∈ lexer.operators) (visible : Text.isBlank c = false)
    (single : ∀ run : RunClass, run.holds c = false) :
    lexer.lexemes position (c :: rest) =
      (lexer.lexemes (position + 1) rest).map ({ kind := .operator, source := [c], position } :: ·) := by
  have noLetter : c.isAlpha = false := single .letter
  have noDigit : c.isDigit = false := single .digit
  rw [lexemes]
  simp [visible, noLetter, noDigit, declared]

/-! ### Terminals -/

/-- The terminal that a lexeme stands for. -/
def terminalOf (lexer : Lexer) (lexeme : Lexeme) : String :=
  match lexeme.kind with
  | .number => lexer.numberName
  | .identifier => lexer.identifierName
  | .operator => String.ofList lexeme.source

/-- Tokens stand for the terminals of their lexemes, however their placeholders are numbered. -/
theorem normalize_number {numbers identifiers : Int32} {found : List Lexeme} :
    lexer.normalize (lexer.number numbers identifiers found).1 = found.map lexer.terminalOf := by
  induction found generalizing numbers identifiers with
  | nil => rfl
  | cons lexeme rest ih =>
    obtain ⟨kind, source, position⟩ := lexeme
    cases kind with
    | number => exact congrArg (lexer.numberName :: ·) ih
    | identifier => exact congrArg (lexer.identifierName :: ·) ih
    | operator => exact congrArg (String.ofList source :: ·) ih

theorem read_eq {expression : String} :
    lexer.read expression = (lexer.lexemes 0 expression.toList).map fun found => found.map lexer.terminalOf := by
  unfold read tokenize
  cases lexer.lexemes 0 expression.toList with
  | error fault => rfl
  | ok found => exact congrArg Except.ok normalize_number

/-- What is read as terminals was split into tokens that stand for them. -/
theorem exists_tokenize {expression : String} {terminals : List String} (read : lexer.read expression = .ok terminals) :
    ∃ tokenization, lexer.tokenize expression = .ok tokenization ∧
      lexer.normalize tokenization.tokens = terminals := by
  unfold Lexer.read at read
  cases split : lexer.tokenize expression with
  | error fault => rw [split] at read; cases read
  | ok tokenization => rw [split] at read; exact ⟨tokenization, rfl, Except.ok.inj read⟩

theorem tokenize_eq_error {expression : String} {fault : Error} (unread : lexer.read expression = .error fault) :
    lexer.tokenize expression = .error fault := by
  unfold Lexer.read at unread
  cases split : lexer.tokenize expression with
  | error other => rw [split] at unread; cases unread; rfl
  | ok tokenization => rw [split] at unread; cases unread

end Lexer

end Predictive
