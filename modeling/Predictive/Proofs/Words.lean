import Mathlib.Data.List.Basic
import Predictive.Grammar.Reader

/-!
Texts taken apart and put together. Whatever a text is split at, its pieces are parts of it that do not contain what
it was split at: words have no blanks, texts between bars no bars, texts between arrows no arrows. The other way
round, words come back from the text that they make with blanks between them (`words_intercalate`), lines from the
text that they make with line feeds (`lines_intercalate`), and an arrow is found where one was put
(`splitArrows_append_arrow`).
-/
namespace Predictive

/-- The first piece of a split begins the list, every piece is a part of it, and none has an element at which the
    list was split. -/
theorem splitOnP_eq_cons {α : Type} (separates : α → Bool) (list : List α) :
    ∃ first rest, list.splitOnP separates = first :: rest ∧ first <+: list ∧
      ∀ piece ∈ first :: rest, piece <:+: list ∧ ∀ x ∈ piece, separates x = false := by
  induction list with
  | nil => exact ⟨[], [], List.splitOnP_nil, List.prefix_refl _, by simp⟩
  | cons head tail ih =>
    obtain ⟨first, rest, split, opens, inside⟩ := ih
    -- An element that separates nothing joins the first piece, which is why that piece must begin the tail.
    by_cases separator : separates head = true
    · refine ⟨[], first :: rest, by rw [List.splitOnP_cons_eq_if_modifyHead, if_pos separator, split],
        List.nil_prefix, ?_⟩
      intro piece member
      rcases List.mem_cons.mp member with rfl | later
      · exact ⟨List.nil_infix, by simp⟩
      · exact (inside piece later).imp_left List.infix_cons
    · refine ⟨head :: first, rest, by rw [List.splitOnP_cons_eq_if_modifyHead, if_neg separator, split]; rfl,
        List.cons_prefix_cons.mpr ⟨rfl, opens⟩, ?_⟩
      intro piece member
      rcases List.mem_cons.mp member with rfl | later
      · refine ⟨(List.cons_prefix_cons.mpr ⟨rfl, opens⟩).isInfix, ?_⟩
        exact List.forall_mem_cons.mpr ⟨Bool.eq_false_iff.mpr separator, (inside first List.mem_cons_self).2⟩
      · exact (inside piece (List.mem_cons_of_mem first later)).imp_left List.infix_cons

theorem mem_splitOnP {α : Type} {separates : α → Bool} {list piece : List α}
    (member : piece ∈ list.splitOnP separates) : piece <:+: list ∧ ∀ x ∈ piece, separates x = false := by
  obtain ⟨first, rest, split, _, inside⟩ := splitOnP_eq_cons separates list
  exact inside piece (split ▸ member)

theorem mem_splitOn {list piece : List Char} {separator : Char} (member : piece ∈ list.splitOn separator) :
    piece <:+: list ∧ separator ∉ piece := by
  rw [List.splitOn_eq_splitOnP] at member
  obtain ⟨inside, free⟩ := mem_splitOnP member
  exact ⟨inside, fun contained => by simpa using free separator contained⟩

namespace Text

/-! ### Words -/

/-- A text without blanks that is not empty. -/
structure IsWord (word : List Char) : Prop where
  ne_nil : word ≠ []
  not_blank : ∀ c ∈ word, isBlank c = false

theorem isWord_of_mem_words {text word : List Char} (member : word ∈ words text) : IsWord word ∧ word <:+: text := by
  obtain ⟨piece, nonempty⟩ := List.mem_filter.mp member
  obtain ⟨inside, solid⟩ := mem_splitOnP piece
  exact ⟨⟨by simpa using nonempty, solid⟩, inside⟩

theorem words_append_blank {front back : List Char} {c : Char} (blank : isBlank c) :
    words (front ++ c :: back) = words front ++ words back := by
  unfold words
  rw [List.splitOnP_append_cons front back blank, List.filter_append]

theorem IsWord.words_eq {word : List Char} (isWord : IsWord word) : words word = [word] := by
  unfold words
  rw [List.splitOnP_eq_singleton isWord.not_blank]
  simp [isWord.ne_nil]

theorem mem_intercalate {c : Char} {separator : List Char} {list : List (List Char)}
    (member : c ∈ separator.intercalate list) : c ∈ separator ∨ ∃ part ∈ list, c ∈ part := by
  induction list with
  | nil => contradiction
  | cons first rest ih =>
    cases rest with
    | nil =>
      rw [List.intercalate_singleton] at member
      exact .inr ⟨first, List.mem_singleton_self first, member⟩
    | cons second others =>
      rw [List.intercalate_cons_cons, List.append_assoc, List.mem_append, List.mem_append] at member
      rcases member with here | between | later
      · exact .inr ⟨first, List.mem_cons_self, here⟩
      · exact .inl between
      · obtain same | ⟨part, listed, inside⟩ := ih later
        · exact .inl same
        · exact .inr ⟨part, List.mem_cons_of_mem first listed, inside⟩

theorem words_intercalate {list : List (List Char)} (areWords : ∀ word ∈ list, IsWord word) :
    words ([' '].intercalate list) = list := by
  induction list with
  | nil => rfl
  | cons first rest ih =>
    have isWord : IsWord first := areWords first List.mem_cons_self
    cases rest with
    | nil => rw [List.intercalate_singleton, isWord.words_eq]
    | cons second others =>
      have later := ih fun word member => areWords word (List.mem_cons_of_mem first member)
      rw [List.intercalate_cons_cons, List.append_assoc, List.singleton_append, words_append_blank (by decide),
        isWord.words_eq, later, List.singleton_append]

/-! ### Runs -/

/-- A run ends where its class of characters does. -/
theorem takeWhile_run {holds : Char → Bool} {source rest : List Char} (inside : ∀ c ∈ source, holds c)
    (ends : ∀ c ∈ rest.head?, holds c = false) :
    (source ++ rest).takeWhile holds = source ∧ (source ++ rest).dropWhile holds = rest := by
  rw [List.takeWhile_append_of_pos inside, List.dropWhile_append_of_pos inside]
  cases rest with
  | nil => simp
  | cons c rest => simp [ends c rfl]

/-! ### Digits -/

theorem toDigits_inj {one other : Nat} (same : Nat.toDigits 10 one = Nat.toDigits 10 other) : one = other := by
  have value := congrArg (fun digits => Nat.ofDigitChars 10 digits 0) same
  simpa using value

theorem isDigit_of_mem_toDigits {value : Nat} : ∀ c ∈ Nat.toDigits 10 value, c.isDigit :=
  fun _ => Nat.isDigit_of_mem_toDigits (by decide) (by decide)

/-! ### Lines -/

/-- A text that is read as a line wherever it stands on a line. -/
structure IsLine (line : List Char) : Prop where
  ne_nil : line ≠ []
  unbroken : '\n' ∉ line
  no_return : line.getLast? ≠ some '\r'

theorem IsLine.withoutReturn_eq {line : List Char} (isLine : IsLine line) : withoutReturn '\r' line = line :=
  if_neg isLine.no_return

theorem linesOfPieces_append {pieces : List (List Char)} {last : List Char} :
    linesOfPieces '\r' (pieces ++ [last]) = pieces.map (withoutReturn '\r') ++ linesOfPieces '\r' [last] := by
  induction pieces with
  | nil => rfl
  | cons first rest ih =>
    have more : rest ++ [last] ≠ [] := by simp
    obtain ⟨second, others, split⟩ := List.exists_cons_of_ne_nil more
    rw [List.cons_append, split, List.map_cons, List.cons_append, ← ih, split]
    rfl

/-- Lines that are each ended by a line feed are read back. -/
theorem lines_intercalate_ended {list : List (List Char)} (areLines : ∀ line ∈ list, IsLine line) :
    lines (['\n'].intercalate (list ++ [[]])) = list := by
  have unbroken : ∀ line ∈ list ++ [[]], '\n' ∉ line := by
    intro line member
    rcases List.mem_append.mp member with listed | empty
    · exact (areLines line listed).unbroken
    · simp [List.mem_singleton.mp empty]
  unfold lines linesEndedBy
  rw [List.splitOn_intercalate '\n' unbroken (by simp), linesOfPieces_append,
    List.map_congr_left fun line member => (areLines line member).withoutReturn_eq]
  simp [linesOfPieces]

/-- Lines with line feeds between them are read back. -/
theorem lines_intercalate {list : List (List Char)} (areLines : ∀ line ∈ list, IsLine line) :
    lines (['\n'].intercalate list) = list := by
  rcases List.eq_nil_or_concat list with rfl | ⟨front, last, rfl⟩
  · rfl
  · have isLine : IsLine last := areLines last (by simp)
    unfold lines linesEndedBy
    rw [List.splitOn_intercalate '\n' (fun line member => (areLines line member).unbroken) (by simp),
      List.concat_eq_append, linesOfPieces_append,
      List.map_congr_left fun line member => (areLines line (by simp [member])).withoutReturn_eq]
    simp [linesOfPieces, isLine.ne_nil]

end Text

namespace RuleLine

/-! ### Arrows -/

/-- The text has no arrow. -/
def ArrowFree (text : List Char) : Prop := ¬ ['-', '>'] <:+: text

theorem arrowFree_nil : ArrowFree [] := fun arrow => absurd (List.infix_nil.mp arrow) (List.cons_ne_nil _ _)

theorem ArrowFree.part {text part : List Char} (free : ArrowFree text) (inside : part <:+: text) : ArrowFree part :=
  fun arrow => free (arrow.trans inside)

/-- A character that is no half of an arrow makes none between texts. -/
theorem ArrowFree.join {front back : List Char} {c : Char} (freeFront : ArrowFree front) (freeBack : ArrowFree back)
    (noDash : c ≠ '-') (noTip : c ≠ '>') : ArrowFree (front ++ c :: back) := by
  induction front with
  | nil =>
    intro arrow
    rcases List.infix_cons_iff.mp arrow with opens | later
    · exact noDash (List.cons_prefix_cons.mp opens).1.symm
    · exact freeBack later
  | cons first rest ih =>
    intro arrow
    rcases List.infix_cons_iff.mp arrow with opens | later
    · obtain ⟨rfl, tip⟩ := List.cons_prefix_cons.mp opens
      cases rest with
      | nil => exact noTip (List.cons_prefix_cons.mp tip).1.symm
      | cons second others =>
        obtain ⟨rfl, _⟩ := List.cons_prefix_cons.mp tip
        exact freeFront ⟨[], others, rfl⟩
    · exact ih (freeFront.part (List.suffix_cons first rest).isInfix) later

theorem arrowFree_intercalate {separator : Char} (noDash : separator ≠ '-') (noTip : separator ≠ '>')
    {list : List (List Char)} (free : ∀ part ∈ list, ArrowFree part) : ArrowFree ([separator].intercalate list) := by
  induction list with
  | nil => exact arrowFree_nil
  | cons first rest ih =>
    cases rest with
    | nil =>
      rw [List.intercalate_singleton]
      exact free first List.mem_cons_self
    | cons second others =>
      rw [List.intercalate_cons_cons, List.append_assoc, List.singleton_append]
      have later := ih fun part listed => free part (List.mem_cons_of_mem first listed)
      exact (free first List.mem_cons_self).join later noDash noTip

theorem splitArrows_cons {c : Char} {rest : List Char} (noArrow : ¬ ['-', '>'] <+: c :: rest) :
    splitArrows (c :: rest) = (splitArrows rest).modifyHead (c :: ·) := by
  rw [splitArrows]
  rintro others rfl rfl
  exact noArrow ⟨others, rfl⟩

theorem splitArrows_of_arrowFree {text : List Char} (free : ArrowFree text) : splitArrows text = [text] := by
  induction text with
  | nil => rfl
  | cons c rest ih =>
    rw [splitArrows_cons fun opens => free opens.isInfix, ih (free.part (List.suffix_cons c rest).isInfix)]
    rfl

theorem splitArrows_eq_cons (text : List Char) :
    ∃ first rest, splitArrows text = first :: rest ∧ first <+: text ∧ ∀ piece ∈ first :: rest, ArrowFree piece := by
  fun_induction splitArrows text with
  | case1 => exact ⟨[], [], rfl, List.prefix_refl _, by simpa using arrowFree_nil⟩
  | case2 others ih =>
    obtain ⟨first, rest, split, _, free⟩ := ih
    exact ⟨[], first :: rest, by rw [split], List.nil_prefix, List.forall_mem_cons.mpr ⟨arrowFree_nil, free⟩⟩
  | case3 c others noArrow ih =>
    obtain ⟨first, rest, split, opens, free⟩ := ih
    refine ⟨c :: first, rest, by rw [split]; rfl, List.cons_prefix_cons.mpr ⟨rfl, opens⟩, ?_⟩
    refine List.forall_mem_cons.mpr ⟨fun arrow => ?_, (List.forall_mem_cons.mp free).2⟩
    -- A dash cannot meet a tip at the front of the piece, for the piece begins what stands behind the dash.
    rcases List.infix_cons_iff.mp arrow with arrowFirst | later
    · obtain ⟨rfl, tip⟩ := List.cons_prefix_cons.mp arrowFirst
      obtain ⟨behind, rfl⟩ := tip.trans opens
      exact noArrow behind rfl rfl
    · exact free first List.mem_cons_self later

theorem arrowFree_of_mem_splitArrows {text piece : List Char} (member : piece ∈ splitArrows text) :
    ArrowFree piece := by
  obtain ⟨first, rest, split, _, free⟩ := splitArrows_eq_cons text
  exact free piece (split ▸ member)

/-- An arrow that was put between two texts is one that they are split at. -/
theorem splitArrows_append (front back : List Char) :
    splitArrows (front ++ '-' :: '>' :: back) = splitArrows front ++ splitArrows back := by
  fun_induction splitArrows front with
  | case1 => rfl
  | case2 others ih => rw [List.cons_append, List.cons_append, splitArrows, ih, List.cons_append]
  | case3 c others noArrow ih =>
    have stillNone : ¬ ['-', '>'] <+: c :: (others ++ '-' :: '>' :: back) := by
      intro opens
      obtain ⟨rfl, tip⟩ := List.cons_prefix_cons.mp opens
      cases others with
      | nil => exact absurd (List.cons_prefix_cons.mp tip).1 (by decide)
      | cons second more =>
        obtain ⟨rfl, _⟩ := List.cons_prefix_cons.mp tip
        exact noArrow more rfl rfl
    obtain ⟨first, rest, split, _⟩ := splitArrows_eq_cons others
    rw [List.cons_append, splitArrows_cons stillNone, ih, split]
    rfl

/-- The first arrow behind a text without arrows is the one that was put there. -/
theorem splitArrows_append_arrow {left right : List Char} (free : ArrowFree left) :
    splitArrows (left ++ '-' :: '>' :: right) = left :: splitArrows right := by
  rw [splitArrows_append, splitArrows_of_arrowFree free, List.singleton_append]

/-- The pieces with arrows between them make up the text. -/
theorem intercalate_splitArrows (text : List Char) : ['-', '>'].intercalate (splitArrows text) = text := by
  fun_induction splitArrows text with
  | case1 => rfl
  | case2 others ih =>
    obtain ⟨first, rest, split, _⟩ := splitArrows_eq_cons others
    rw [split] at ih ⊢
    rw [List.intercalate_cons_cons, ih]
    rfl
  | case3 c others _ ih =>
    obtain ⟨first, rest, split, _⟩ := splitArrows_eq_cons others
    rw [split] at ih ⊢
    cases rest with
    | nil => rw [← ih, List.modifyHead_cons, List.intercalate_singleton, List.intercalate_singleton]
    | cons second more =>
      rw [← ih, List.modifyHead_cons, List.intercalate_cons_cons, List.intercalate_cons_cons]
      rfl

end RuleLine

end Predictive
