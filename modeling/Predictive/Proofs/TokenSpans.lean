import Mathlib.Data.List.TakeWhile
import Predictive.Grammar.Samples
import Predictive.Proofs.Placeholders

/-!
Where the tokens of an expression stand in it. A lexer takes an expression to pieces from the left (`Lexer.Splits`):
blanks, runs of letters or digits that are as long as they can be, and operators. It stops only at a character that
begins none of these (`failsAt_of_lexemes`). So the spans of the lexemes lie in the expression one behind the other,
with nothing but blanks outside (`Splits.covers`), and as tokens keep their lexemes while no counter of placeholders
wraps around, nothing of the expression but its blanks is lost (`tokenize_lossless`).
-/
namespace Predictive

/-- The index behind the last character of a lexeme. -/
def Lexeme.stop (lexeme : Lexeme) : Nat := lexeme.position + lexeme.source.length

/-- In the text, the lexeme is a run of a class of characters that does not go on at either end. -/
def Lexeme.IsRun (lexeme : Lexeme) (run : RunClass) (text : List Char) : Prop :=
  (∀ c ∈ lexeme.source, run.holds c) ∧
  (∀ c ∈ (text.take lexeme.position).getLast?, run.holds c = false) ∧
  ∀ c ∈ (text.drop lexeme.stop).head?, run.holds c = false

/-- There are fewer numbers and fewer identifiers than a counter of 32 bits holds, so neither counter wraps around. -/
def Tokenization.FitsCounters (tokenization : Tokenization) : Prop :=
  ∀ kind, kind ≠ .operator → tokenization.tokens.countP (·.kind = kind) < 2 ^ 31

namespace Lexer

/-- Nothing that a lexer knows begins with the character. -/
def Foreign (lexer : Lexer) (c : Char) : Prop :=
  Text.isBlank c = false ∧ (∀ run : RunClass, run.holds c = false) ∧ c ∉ lexer.operators

/-- What a lexeme of a text can be, by the lexer. -/
inductive Reads (lexer : Lexer) (text : List Char) : Lexeme → Prop where
  | number {source : List Char} {position : Nat} :
    Lexeme.IsRun { kind := .number, source, position } .digit text →
    Reads lexer text { kind := .number, source, position }
  | identifier {source : List Char} {position : Nat} :
    Lexeme.IsRun { kind := .identifier, source, position } .letter text → String.ofList source ∉ lexer.keywords →
    Reads lexer text { kind := .identifier, source, position }
  | keyword {source : List Char} {position : Nat} :
    Lexeme.IsRun { kind := .operator, source, position } .letter text → String.ofList source ∈ lexer.keywords →
    Reads lexer text { kind := .operator, source, position }
  | operator {c : Char} {position : Nat} :
    c ∈ lexer.operators → Text.isBlank c = false → (∀ run : RunClass, run.holds c = false) →
    Reads lexer text { kind := .operator, source := [c], position }

/-- The lexemes are what the text consists of, apart from blanks. -/
structure Covers (lexer : Lexer) (text : List Char) (found : List Lexeme) : Prop where
  /-- The source of a lexeme is what stands in its span. -/
  source_eq : ∀ lexeme ∈ found, lexeme.source ≠ [] ∧
    (text.drop lexeme.position).take lexeme.source.length = lexeme.source
  /-- Spans stand one behind the other. -/
  ordered : found.Pairwise fun first second => first.stop ≤ second.position
  /-- Characters outside all spans are blanks. -/
  blank : ∀ index c, text[index]? = some c →
    (∀ lexeme ∈ found, ¬ (lexeme.position ≤ index ∧ index < lexeme.stop)) → Text.isBlank c
  reads : ∀ lexeme ∈ found, lexer.Reads text lexeme

/-! ### Taking an expression to pieces -/

/-- The lexemes of a text that stands behind another one, piece by piece. -/
inductive Splits (lexer : Lexer) : (before text : List Char) → List Lexeme → Prop where
  | nil {before : List Char} : Splits lexer before [] []
  | blank {before text : List Char} {c : Char} {found : List Lexeme} :
    Text.isBlank c → Splits lexer (before ++ [c]) text found → Splits lexer before (c :: text) found
  | run {before source text : List Char} {run : RunClass} {found : List Lexeme} :
    source ≠ [] → (∀ c ∈ source, run.holds c) → (∀ c ∈ text.head?, run.holds c = false) →
    Splits lexer (before ++ source) text found →
    Splits lexer before (source ++ text)
      ({ kind := lexer.runKind run source, source, position := before.length } :: found)
  | operator {before text : List Char} {c : Char} {found : List Lexeme} :
    c ∈ lexer.operators → Text.isBlank c = false → (∀ run : RunClass, run.holds c = false) →
    Splits lexer (before ++ [c]) text found →
    Splits lexer before (c :: text) ({ kind := .operator, source := [c], position := before.length } :: found)

variable {lexer : Lexer} {before text : List Char} {found : List Lexeme}

theorem forall_runClass {p : RunClass → Prop} : (∀ run, p run) ↔ p .letter ∧ p .digit := by
  constructor
  · exact fun all => ⟨all .letter, all .digit⟩
  · rintro ⟨letter, digit⟩ run
    cases run with
    | letter => exact letter
    | digit => exact digit

theorem takeWhile_all {holds : Char → Bool} {c : Char} {rest : List Char} (first : holds c) :
    ∀ d ∈ c :: rest.takeWhile holds, holds d :=
  List.forall_mem_cons.mpr ⟨first, fun _ member => List.mem_takeWhile_imp member⟩

theorem dropWhile_ends {holds : Char → Bool} {rest : List Char} :
    ∀ d ∈ (rest.dropWhile holds).head?, holds d = false := by
  intro d first
  have stops := List.head?_dropWhile_not holds rest
  simp only [Option.mem_def] at first
  simpa [first] using stops

theorem exists_of_map_eq_ok {α β : Type} {f : α → β} {result : Except Error α} {value : β}
    (mapped : result.map f = .ok value) : ∃ inner, result = .ok inner ∧ value = f inner := by
  cases result with
  | error fault => cases mapped
  | ok inner => exact ⟨inner, rfl, (Except.ok.inj mapped).symm⟩

/-- Lexemes that are found are found piece by piece. -/
theorem splits_of_lexemes {position : Nat} (split : lexer.lexemes position text = .ok found)
    (start : position = before.length) : lexer.Splits before text found := by
  fun_induction lexer.lexemes position text generalizing before found with
  | case1 =>
    cases split
    exact .nil
  | case2 position c rest blank ih => exact .blank blank (ih split (by simp [start]))
  | @case3 position c rest _ letter source ih =>
    obtain ⟨others, later, rfl⟩ := exists_of_map_eq_ok split
    subst start
    have behind : lexer.Splits (before ++ source) (rest.dropWhile Char.isAlpha) others :=
      ih later List.length_append.symm
    have inside : ∀ d ∈ source, RunClass.letter.holds d := takeWhile_all letter
    have ends : ∀ d ∈ (rest.dropWhile Char.isAlpha).head?, RunClass.letter.holds d = false := dropWhile_ends
    have whole := Splits.run (List.cons_ne_nil _ _) inside ends behind
    rwa [List.cons_append, List.takeWhile_append_dropWhile] at whole
  | @case4 position c rest _ _ digit source ih =>
    obtain ⟨others, later, rfl⟩ := exists_of_map_eq_ok split
    subst start
    have behind : lexer.Splits (before ++ source) (rest.dropWhile Char.isDigit) others :=
      ih later List.length_append.symm
    have inside : ∀ d ∈ source, RunClass.digit.holds d := takeWhile_all digit
    have ends : ∀ d ∈ (rest.dropWhile Char.isDigit).head?, RunClass.digit.holds d = false := dropWhile_ends
    have whole := Splits.run (List.cons_ne_nil _ _) inside ends behind
    rwa [List.cons_append, List.takeWhile_append_dropWhile] at whole
  | case5 position c rest visible noLetter noDigit declared ih =>
    obtain ⟨others, later, rfl⟩ := exists_of_map_eq_ok split
    subst start
    have single : ∀ run : RunClass, run.holds c = false :=
      forall_runClass.mpr ⟨Bool.eq_false_iff.mpr noLetter, Bool.eq_false_iff.mpr noDigit⟩
    exact .operator declared (by simpa using visible) single (ih later (by simp))
  | case6 => cases split

/-! ### Foreign characters -/

/-- The error reports the first foreign character of a text, with so many characters before the text. -/
def FailsAt (lexer : Lexer) (position : Nat) (text : List Char) (fault : Error) : Prop :=
  ∃ front c behind, text = front ++ c :: behind ∧ lexer.Foreign c ∧ (∀ b ∈ front, ¬ lexer.Foreign b) ∧
    fault = .unrecognized c (position + front.length)

theorem FailsAt.append {position : Nat} {known rest : List Char} {fault : Error}
    (clean : ∀ b ∈ known, ¬ lexer.Foreign b) (fails : lexer.FailsAt (position + known.length) rest fault) :
    lexer.FailsAt position (known ++ rest) fault := by
  obtain ⟨front, c, behind, rfl, foreign, cleanFront, rfl⟩ := fails
  refine ⟨known ++ front, c, behind, by simp, foreign, List.forall_mem_append.mpr ⟨clean, cleanFront⟩, ?_⟩
  rw [List.length_append, Nat.add_assoc]

theorem Splits.position_le (splits : lexer.Splits before text found) :
    ∀ lexeme ∈ found, before.length ≤ lexeme.position := by
  induction splits with
  | nil => simp
  | blank _ _ ih =>
    intro lexeme member
    have later := ih lexeme member
    simp only [List.length_append] at later
    omega
  | run _ _ _ _ ih =>
    refine List.forall_mem_cons.mpr ⟨Nat.le_refl _, fun lexeme member => ?_⟩
    have later := ih lexeme member
    simp only [List.length_append] at later
    omega
  | operator _ _ _ _ ih =>
    refine List.forall_mem_cons.mpr ⟨Nat.le_refl _, fun lexeme member => ?_⟩
    have later := ih lexeme member
    simp only [List.length_append] at later
    omega

/-- A lexeme takes up a character of the text at least. -/
theorem Splits.length_le (splits : lexer.Splits before text found) : found.length ≤ text.length := by
  induction splits with
  | nil => exact Nat.le_refl _
  | blank _ _ ih =>
    rw [List.length_cons]
    omega
  | run nonempty _ _ _ ih =>
    have inhabited := List.length_pos_iff.mpr nonempty
    simp only [List.length_cons, List.length_append]
    omega
  | operator _ _ _ _ ih =>
    simp only [List.length_cons]
    omega

/-- The source of a lexeme is not empty and stands in its span. -/
theorem Splits.exists_span (splits : lexer.Splits before text found) : ∀ lexeme ∈ found,
    lexeme.source ≠ [] ∧ ∃ front back, before ++ text = front ++ lexeme.source ++ back ∧
      lexeme.position = front.length := by
  induction splits with
  | nil => simp
  | blank _ _ ih => simpa using ih
  | @run before source text run found nonempty _ _ _ ih =>
    refine List.forall_mem_cons.mpr ⟨⟨nonempty, before, text, by simp, rfl⟩, ?_⟩
    simpa using ih
  | @operator before text c found _ _ _ _ ih =>
    refine List.forall_mem_cons.mpr ⟨⟨by simp, before, text, by simp, rfl⟩, ?_⟩
    simpa using ih

theorem Splits.ordered (splits : lexer.Splits before text found) :
    found.Pairwise fun first second => first.stop ≤ second.position := by
  induction splits with
  | nil => exact .nil
  | blank _ _ ih => exact ih
  | run _ _ _ behind ih =>
    refine .cons (fun later member => ?_) ih
    have after := behind.position_le later member
    simpa [Lexeme.stop] using after
  | operator _ _ _ behind ih =>
    refine .cons (fun later member => ?_) ih
    have after := behind.position_le later member
    simpa [Lexeme.stop] using after

/-- Behind what was read before, a character outside all spans is a blank. -/
theorem Splits.blank_outside (splits : lexer.Splits before text found) : ∀ index c, before.length ≤ index →
    (before ++ text)[index]? = some c →
    (∀ lexeme ∈ found, ¬ (lexeme.position ≤ index ∧ index < lexeme.stop)) → Text.isBlank c := by
  induction splits with
  | nil =>
    intro index c behind here _
    rw [List.append_nil, List.getElem?_eq_none behind] at here
    cases here
  | @blank before text own found isBlank _ ih =>
    intro index c behind here outside
    by_cases first : index = before.length
    · subst first
      obtain rfl : own = c := by simpa using here
      exact isBlank
    · exact ih index c (by simp only [List.length_append, List.length_singleton]; omega) (by simpa using here) outside
  | @run before source text run found _ _ _ _ ih =>
    intro index c behind here outside
    obtain ⟨notHere, notLater⟩ := List.forall_mem_cons.mp outside
    simp only [Lexeme.stop, not_and, not_lt] at notHere
    exact ih index c (by simpa using notHere behind) (by simpa using here) notLater
  | @operator before text own found _ _ _ _ ih =>
    intro index c behind here outside
    obtain ⟨notHere, notLater⟩ := List.forall_mem_cons.mp outside
    simp only [Lexeme.stop, not_and, not_lt] at notHere
    exact ih index c (by simpa using notHere behind) (by simpa using here) notLater

/-! ### Runs -/

theorem isRun_of_append {kind : TokenKind} {source : List Char} {run : RunClass}
    (inside : ∀ c ∈ source, run.holds c) (starts : ∀ b ∈ before.getLast?, run.holds b = false)
    (ends : ∀ c ∈ text.head?, run.holds c = false) :
    Lexeme.IsRun { kind, source, position := before.length } run (before ++ (source ++ text)) := by
  have front : (before ++ (source ++ text)).take before.length = before := List.take_left
  have back : (before ++ (source ++ text)).drop (before.length + source.length) = text := by
    rw [← List.append_assoc, ← List.length_append, List.drop_left]
  exact ⟨inside, by simpa only [front] using starts, by simpa only [Lexeme.stop, back] using ends⟩

/-- What a run is read as tells what it is. -/
theorem reads_of_isRun {run : RunClass} {source : List Char} {position : Nat}
    (isRun : Lexeme.IsRun { kind := lexer.runKind run source, source, position } run text) :
    lexer.Reads text { kind := lexer.runKind run source, source, position } := by
  cases run with
  | digit => exact .number isRun
  | letter =>
    by_cases keyword : String.ofList source ∈ lexer.keywords
    · have kind : lexer.runKind .letter source = .operator := if_pos keyword
      rw [kind] at isRun ⊢
      exact .keyword isRun keyword
    · have kind : lexer.runKind .letter source = .identifier := if_neg keyword
      rw [kind] at isRun ⊢
      exact .identifier isRun keyword

/-- No run goes on from one part of a text into the other. -/
def Parted (before text : List Char) : Prop :=
  ∀ run : RunClass, ∀ b ∈ before.getLast?, ∀ c ∈ text.head?, run.holds b → run.holds c = false

theorem parted_of_holds_nothing {c : Char} (single : ∀ run : RunClass, run.holds c = false) :
    Parted (before ++ [c]) text := by
  intro run b last next _ member
  obtain rfl : c = b := by simpa using last
  exact absurd (member.symm.trans (single run)) (by simp)

theorem holds_nothing_of_isBlank {c : Char} (blank : Text.isBlank c) (run : RunClass) : run.holds c = false := by
  refine Bool.eq_false_iff.mpr fun member => ?_
  exact Bool.false_ne_true ((RunClass.not_isBlank_of_holds member).symm.trans blank)

theorem Splits.reads (splits : lexer.Splits before text found) (parted : Parted before text) :
    ∀ lexeme ∈ found, lexer.Reads (before ++ text) lexeme := by
  induction splits with
  | nil => simp
  | @blank before text c found blank _ ih =>
    have later := ih (parted_of_holds_nothing (holds_nothing_of_isBlank blank))
    simpa using later
  | @run before source text run found nonempty inside ends _ ih =>
    obtain ⟨first, others, rfl⟩ := List.exists_cons_of_ne_nil nonempty
    have starts : ∀ b ∈ before.getLast?, run.holds b = false := by
      intro b last
      refine Bool.eq_false_iff.mpr fun member => ?_
      have stops := parted run b last first (by simp) member
      exact Bool.false_ne_true (stops.symm.trans (inside first List.mem_cons_self))
    have partedBehind : Parted (before ++ first :: others) text := by
      intro other b last c next member
      have own : run.holds b := by
        refine inside b (List.mem_of_mem_getLast? ?_)
        simpa using last
      obtain rfl : other = run := RunClass.eq_of_holds member own
      exact ends c next
    refine List.forall_mem_cons.mpr ⟨reads_of_isRun (isRun_of_append inside starts ends), ?_⟩
    have later := ih partedBehind
    simpa using later
  | @operator before text c found declared visible single _ ih =>
    refine List.forall_mem_cons.mpr ⟨.operator declared visible single, ?_⟩
    have later := ih (parted_of_holds_nothing single)
    simpa using later

theorem Splits.covers (splits : lexer.Splits [] text found) : lexer.Covers text found where
  source_eq lexeme member := by
    obtain ⟨nonempty, front, back, split, position⟩ := splits.exists_span lexeme member
    rw [List.nil_append] at split
    refine ⟨nonempty, ?_⟩
    rw [split, position, List.append_assoc, List.drop_left, List.take_left]
  ordered := splits.ordered
  blank index c here outside := splits.blank_outside index c (Nat.zero_le index) here outside
  reads := splits.reads (by intro run b last; cases last)

/-! ### Tokens -/

/-- The tokens of a text keep all of it but its blanks. -/
structure Keeps (lexer : Lexer) (text : List Char) (tokenization : Tokenization) : Prop where
  /-- With their source texts, tokens are the lexemes of the text. -/
  covers : ∃ found, tokenization.tokens.map (·.lexeme? tokenization.substitutions) = found.map some ∧
    lexer.Covers text found
  /-- The placeholders of a kind are numbered from 0. -/
  numbered : ∀ kind name, lexer.placeholderName? kind = some name →
    (tokenization.tokens.filter (·.kind = kind)).map Token.text =
      (List.range (tokenization.tokens.countP (·.kind = kind))).map fun index => name ++ toString index
  /-- There is one substitution for each number and each identifier, and no other one. -/
  entries : tokenization.substitutions.keys.Perm
    ((tokenization.tokens.filter (·.kind ≠ .operator)).map Token.text)

/-- The tokens of an expression are its lexemes, numbered from 0. -/
theorem splits_of_tokenize {expression : String} {tokenization : Tokenization}
    (tokenized : lexer.tokenize expression = .ok tokenization) :
    ∃ found, lexer.Splits [] expression.toList found ∧
      tokenization.tokens = (lexer.number (.ofNat 0) (.ofNat 0) found).1 ∧
      tokenization.substitutions = substituted (lexer.number (.ofNat 0) (.ofNat 0) found).2 ∅ := by
  obtain ⟨found, split, rfl⟩ := exists_of_map_eq_ok tokenized
  exact ⟨found, splits_of_lexemes split rfl, rfl, rfl⟩

theorem NamesApart.keeps (apart : lexer.NamesApart) {expression : String} {tokenization : Tokenization}
    (tokenized : lexer.tokenize expression = .ok tokenization) (fits : tokenization.FitsCounters) :
    lexer.Keeps expression.toList tokenization := by
  obtain ⟨found, splits, tokens, substitutions⟩ := splits_of_tokenize tokenized
  have nodup : ((lexer.number (.ofNat 0) (.ofNat 0) found).2.map Prod.fst).Nodup := by
    refine apart.nodup_sources fun kind noOperator => ?_
    rw [nextIndex_zero, Nat.zero_add, ← tokens]
    exact fits kind noOperator
  refine { covers := ⟨found, ?_, splits.covers⟩, numbered := ?_, entries := ?_ }
  · rw [tokens, substitutions]
    exact map_lexeme?_number fun entry member => getElem?_substituted nodup member
  · intro kind name named
    have counted := fits kind (ne_operator_of_named named)
    rw [tokens] at counted ⊢
    rw [texts_number named, nextIndex_zero, ← List.range_eq_range']
    refine List.map_congr_left fun index member => placeholder_ofNat ?_
    exact Nat.lt_trans (List.mem_range.mp member) counted
  · rw [tokens, substitutions, ← sources_number]
    refine (List.perm_ext_iff_of_nodup Std.TreeMap.nodup_keys nodup).mpr fun key => ?_
    rw [Std.TreeMap.mem_keys, mem_substituted]
    simp

end Lexer

end Predictive
