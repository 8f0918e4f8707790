import Predictive.Proofs.RuleDeclarations
import Predictive.Proofs.TextFormat

/-!
The ways to write rules down. Words have blanks around them (`Text.Spaced`), alternatives have bars between them, and
the alternatives of a rule may be divided among several lines, with blank lines anywhere (`RuleLine.Lays`); lines may
end in different ways (`Text.Ended`). Whichever way is taken, the same alternatives are read with the same left sides
(`RuleLine.LaysAll.reads`), so a text depends on its rules alone: it is read as the additions of their left sides, of
the unknown words of their right sides, and of their numbered alternatives (`Grammar.ofText_layout`).
-/
namespace Predictive

namespace Text

/-- Blanks that do not end a line. -/
def Gap (gap : List Char) : Prop := ∀ c ∈ gap, isBlank c ∧ c ≠ '\n'

/-- The words in a row. There may be gaps before and behind them, and there is one between any two. -/
inductive Spaced : (words : List String) → (text : List Char) → Prop where
  | nil {gap : List Char} : Gap gap → Spaced [] gap
  | cons {gap text : List Char} {word : String} {words : List String} : Gap gap → Spaced words text →
    (∀ c ∈ text.head?, isBlank c) → Spaced (word :: words) (gap ++ (word.toList ++ text))

/-- The lines below each other. Each ends in a line feed, with or without a carriage return before it, but the last one
    need not have an end. -/
inductive Ended : (lines : List (List Char)) → (text : List Char) → Prop where
  | nil : Ended [] []
  | unended {line : List Char} : Ended [line] line
  | feed {line text : List Char} {lines : List (List Char)} :
    Ended lines text → Ended (line :: lines) (line ++ '\n' :: text)
  | returnFeed {line text : List Char} {lines : List (List Char)} :
    Ended lines text → Ended (line :: lines) (line ++ '\r' :: '\n' :: text)

variable {text gap line : List Char} {words : List String}

theorem ne_of_isBlank {c other : Char} (blank : isBlank c) (solid : ¬ isBlank other) : c ≠ other := by
  rintro rfl
  exact solid blank

theorem words_gap_append (blank : Gap gap) : Text.words (gap ++ text) = Text.words text := by
  induction gap with
  | nil => rfl
  | cons c rest ih =>
    obtain ⟨blankFirst, blankRest⟩ := List.forall_mem_cons.mp blank
    rw [List.cons_append, ← List.nil_append (c :: _), words_append_blank blankFirst.1, ih blankRest]
    rfl

theorem Spaced.words_eq (spaced : Spaced words text) (areWords : ∀ word ∈ words, IsWord word.toList) :
    Text.words text = words.map String.toList := by
  induction spaced with
  | @nil gap blank =>
    rw [← List.append_nil gap, words_gap_append blank]
    rfl
  | @cons gap text word words blank _ apart ih =>
    obtain ⟨isWord, others⟩ := List.forall_mem_cons.mp areWords
    rw [words_gap_append blank, List.map_cons, ← ih others]
    cases text with
    | nil =>
      rw [List.append_nil, isWord.words_eq]
      rfl
    | cons c rest =>
      have blankFirst : isBlank c := apart c rfl
      have skipped : Text.words ([] ++ c :: rest) = Text.words [] ++ Text.words rest := words_append_blank blankFirst
      rw [words_append_blank blankFirst, isWord.words_eq]
      exact congrArg (word.toList :: ·) skipped.symm

theorem Spaced.mem (spaced : Spaced words text) {c : Char} (member : c ∈ text) :
    (isBlank c ∧ c ≠ '\n') ∨ ∃ word ∈ words, c ∈ word.toList := by
  induction spaced with
  | nil blank => exact .inl (blank c member)
  | @cons gap text word words blank _ _ ih =>
    rcases List.mem_append.mp member with inGap | later
    · exact .inl (blank c inGap)
    · rcases List.mem_append.mp later with inWord | behind
      · exact .inr ⟨word, List.mem_cons_self, inWord⟩
      · exact (ih behind).imp_right fun ⟨other, listed, inside⟩ => ⟨other, List.mem_cons_of_mem word listed, inside⟩

theorem Spaced.unbroken (spaced : Spaced words text) (areWords : ∀ word ∈ words, IsWord word.toList) :
    '\n' ∉ text := by
  intro feed
  rcases spaced.mem feed with ⟨_, other⟩ | ⟨word, listed, inside⟩
  · exact other rfl
  · exact absurd ((areWords word listed).not_blank '\n' inside) (by decide)

theorem lines_append_feed (unbroken : '\n' ∉ line) :
    lines (line ++ '\n' :: text) = withoutReturn '\r' line :: lines text := by
  have pieces : (line ++ '\n' :: text).splitOn '\n' = line :: text.splitOn '\n' := by
    rw [List.splitOn_eq_splitOnP, List.splitOnP_append_cons line text (by simp), ← List.splitOn_eq_splitOnP,
      ← List.splitOn_eq_splitOnP, List.splitOn_eq_singleton unbroken, List.singleton_append]
  obtain ⟨second, more, split⟩ := List.exists_cons_of_ne_nil (List.splitOn_ne_nil '\n' text)
  unfold lines linesEndedBy
  rw [pieces, split]
  rfl

theorem lines_of_unbroken (unbroken : '\n' ∉ line) : lines line = if line = [] then [] else [line] := by
  unfold lines linesEndedBy
  rw [List.splitOn_eq_singleton unbroken]
  rfl

end Text

namespace RuleLine

/-- The alternatives in a row, one or more, with bars between them. -/
inductive Barred : (alternatives : List (List String)) → (text : List Char) → Prop where
  | last {words : List String} {text : List Char} : Text.Spaced words text → Barred [words] text
  | cons {words : List String} {alternatives : List (List String)} {text behind : List Char} :
    Text.Spaced words text → Barred alternatives behind → Barred (words :: alternatives) (text ++ '|' :: behind)

/-- The lines give the alternatives to the left side, one or more on each line but for blank lines. The first line has
    an arrow behind the left side; the others have so too, or begin with a bar. -/
inductive Lays (left : String) : (begun : Bool) → (alternatives : List (List String)) →
    (lines : List (List Char)) → Prop where
  | done : Lays left true [] []
  | blank {begun : Bool} {alternatives : List (List String)} {line : List Char} {lines : List (List Char)} :
    Text.Gap line → Lays left begun alternatives lines → Lays left begun alternatives (line :: lines)
  | arrow {begun : Bool} {own others : List (List String)} {before behind : List Char} {lines : List (List Char)} :
    Text.Spaced [left] before → Barred own behind → Lays left true others lines →
    Lays left begun (own ++ others) ((before ++ '-' :: '>' :: behind) :: lines)
  | bar {own others : List (List String)} {gap behind : List Char} {lines : List (List Char)} :
    Text.Gap gap → Barred own behind → Lays left true others lines →
    Lays left true (own ++ others) ((gap ++ '|' :: behind) :: lines)

/-- The lines are those of the rules, one rule after another. -/
inductive LaysAll : (rules : List RuleLine) → (lines : List (List Char)) → Prop where
  | nil : LaysAll [] []
  | cons {rule : RuleLine} {rules : List RuleLine} {lines more : List (List Char)} :
    Lays rule.left false rule.alternatives lines → LaysAll rules more → LaysAll (rule :: rules) (lines ++ more)

variable {above : Option String} {left : String} {own alternatives : List (List String)} {rule : RuleLine}
  {rules others : List RuleLine} {line text gap before behind front back : List Char} {lines more : List (List Char)}
  {words : List String}

/-! ### Readable lines -/

theorem arrowFree_gap_append (blank : Text.Gap gap) (free : ArrowFree text) : ArrowFree (gap ++ text) := by
  induction gap with
  | nil => exact free
  | cons c rest ih =>
    obtain ⟨blankFirst, blankRest⟩ := List.forall_mem_cons.mp blank
    exact arrowFree_nil.join (ih blankRest) (Text.ne_of_isBlank blankFirst.1 (by decide))
      (Text.ne_of_isBlank blankFirst.1 (by decide))

theorem arrowFree_of_gap (blank : Text.Gap gap) : ArrowFree gap := by
  simpa using arrowFree_gap_append blank arrowFree_nil

theorem arrowFree_of_spaced (spaced : Text.Spaced words text) (writable : ∀ word ∈ words, Writable word) :
    ArrowFree text := by
  induction spaced with
  | nil blank => exact arrowFree_of_gap blank
  | @cons gap text word words blank _ apart ih =>
    obtain ⟨writableFirst, writableRest⟩ := List.forall_mem_cons.mp writable
    refine arrowFree_gap_append blank ?_
    cases text with
    | nil => simpa using writableFirst.arrowFree
    | cons c rest =>
      have blankFirst : Text.isBlank c := apart c rfl
      have freeRest : ArrowFree rest := (ih writableRest).part (List.suffix_cons c rest).isInfix
      exact writableFirst.arrowFree.join freeRest (Text.ne_of_isBlank blankFirst (by decide))
        (Text.ne_of_isBlank blankFirst (by decide))

theorem barFree_of_spaced (spaced : Text.Spaced words text) (writable : ∀ word ∈ words, WritableRight word) :
    '|' ∉ text := by
  intro bar
  rcases spaced.mem bar with ⟨blank, _⟩ | ⟨word, listed, inside⟩
  · exact absurd blank (by decide)
  · exact (writable word listed).barFree inside

theorem readAlternatives_append_bar :
    readAlternatives (front ++ '|' :: back) = readAlternatives front ++ readAlternatives back := by
  simp only [readAlternatives, List.splitOn_eq_splitOnP]
  rw [List.splitOnP_append_cons front back (by simp), List.map_append]

theorem readAlternatives_of_barFree (barFree : '|' ∉ text) :
    readAlternatives text = [(Text.words text).map String.ofList] := by
  rw [readAlternatives, List.splitOn_eq_singleton barFree, List.map_singleton]

theorem readAlternatives_of_spaced (spaced : Text.Spaced words text)
    (writable : ∀ word ∈ words, WritableRight word) : readAlternatives text = [words] := by
  rw [readAlternatives_of_barFree (barFree_of_spaced spaced writable),
    spaced.words_eq fun word listed => (writable word listed).isWord, List.map_map]
  simp

section
variable (barred : Barred own text) (writable : ∀ words ∈ own, ∀ word ∈ words, WritableRight word)
include barred writable

theorem Barred.arrowFree : ArrowFree text := by
  induction barred with
  | @last words text spaced =>
    exact arrowFree_of_spaced spaced fun word listed => (writable words List.mem_cons_self word listed).toWritable
  | cons spaced _ ih =>
    obtain ⟨writableFirst, writableRest⟩ := List.forall_mem_cons.mp writable
    have free := arrowFree_of_spaced spaced fun word listed => (writableFirst word listed).toWritable
    exact free.join (ih writableRest) (by decide) (by decide)

theorem Barred.unbroken : '\n' ∉ text := by
  induction barred with
  | @last words text spaced =>
    exact spaced.unbroken fun word listed => (writable words List.mem_cons_self word listed).isWord
  | cons spaced _ ih =>
    obtain ⟨writableFirst, writableRest⟩ := List.forall_mem_cons.mp writable
    have unbroken := spaced.unbroken fun word listed => (writableFirst word listed).isWord
    simpa [unbroken] using ih writableRest

theorem Barred.readAlternatives_eq : readAlternatives text = own := by
  induction barred with
  | last spaced => exact readAlternatives_of_spaced spaced (writable _ List.mem_cons_self)
  | cons spaced _ ih =>
    obtain ⟨writableFirst, writableRest⟩ := List.forall_mem_cons.mp writable
    rw [readAlternatives_append_bar, readAlternatives_of_spaced spaced writableFirst, ih writableRest,
      List.singleton_append]

theorem read_arrow (spaced : Text.Spaced [left] before) (writableLeft : Writable left) :
    read above (before ++ '-' :: '>' :: text) = .ok { left, alternatives := own } := by
  have writableLefts : ∀ word ∈ [left], Writable word := List.forall_mem_singleton.mpr writableLeft
  have pieces : splitArrows (before ++ '-' :: '>' :: text) = [before, text] :=
    splitArrows_eq_pair.mpr ⟨rfl, arrowFree_of_spaced spaced writableLefts, barred.arrowFree writable⟩
  have leftWords : Text.words before = [left.toList] :=
    spaced.words_eq fun word listed => (writableLefts word listed).isWord
  simp only [read, pieces, leftWords, barred.readAlternatives_eq writable, String.ofList_toList]

theorem read_bar (blank : Text.Gap gap) :
    read (some left) (gap ++ '|' :: text) = .ok { left, alternatives := own } := by
  have free : ArrowFree (gap ++ '|' :: text) :=
    (arrowFree_of_gap blank).join (barred.arrowFree writable) (by decide) (by decide)
  have bar : afterBar? (gap ++ '|' :: text) = some text :=
    afterBar?_eq_some.mpr ⟨gap, rfl, List.all_eq_true.mpr fun c member => (blank c member).1⟩
  simp only [read, splitArrows_of_arrowFree free, bar, barred.readAlternatives_eq writable]

end

/-! ### Lines in turn -/

theorem Reads.append (reads : Reads above lines rules) (readsMore : Reads (leftBehind above rules) more others) :
    Reads above (lines ++ more) (rules ++ others) := by
  induction reads with
  | nil => simpa [leftBehind] using readsMore
  | blank blank _ ih => exact .blank blank (ih readsMore)
  | rule readable _ ih => exact .rule readable (ih (leftBehind_cons ▸ readsMore))

theorem readAll_of_reads (reads : Reads above lines rules) (number : Nat) : readAll number above lines = .ok rules := by
  induction reads generalizing number with
  | nil => rfl
  | blank blank _ ih => rw [readAll, if_pos blank, ih]
  | rule readable _ ih =>
    rw [readAll, if_neg (not_blank_of_read readable), readable]
    simp only [ih]
    rfl

theorem readAlternatives_append_blank {c : Char} (blank : Text.isBlank c) :
    readAlternatives (text ++ [c]) = readAlternatives text := by
  have noBar : c ≠ '|' := Text.ne_of_isBlank blank (by decide)
  have last : ∀ {piece : List Char}, '|' ∉ piece → readAlternatives (piece ++ [c]) = readAlternatives piece := by
    intro piece barFree
    have barFreeLonger : '|' ∉ piece ++ [c] := by simpa [barFree] using noBar.symm
    rw [readAlternatives_of_barFree barFree, readAlternatives_of_barFree barFreeLonger, Text.words_append_blank blank]
    exact congrArg (fun list => [List.map String.ofList list]) (List.append_nil _)
  by_cases bar : '|' ∈ text
  · -- Only the piece behind the last bar changes.
    obtain ⟨behind, front, split, barFree⟩ := List.eq_append_cons_of_mem (List.mem_reverse.mpr bar)
    have whole : text = front.reverse ++ '|' :: behind.reverse := by
      rw [← List.reverse_reverse text, split]
      simp
    rw [whole, List.append_assoc, List.cons_append, readAlternatives_append_bar, readAlternatives_append_bar,
      last (by simpa using barFree)]
  · exact last bar

/-- What stands behind a character that is not blank keeps a blank at its end. -/
theorem exists_of_append_blank {c other : Char} (blank : Text.isBlank c) (solid : ¬ Text.isBlank other)
    (whole : line ++ [c] = front ++ other :: back) : ∃ kept, back = kept ++ [c] ∧ line = front ++ other :: kept := by
  rcases List.eq_nil_or_concat back with rfl | ⟨kept, last, rfl⟩
  · obtain ⟨_, same⟩ := List.append_inj' whole rfl
    exact absurd (List.head_eq_of_cons_eq same) (Text.ne_of_isBlank blank solid)
  · rw [List.concat_eq_append, ← List.cons_append, ← List.append_assoc] at whole
    obtain ⟨rfl, same⟩ := List.append_inj' whole rfl
    rw [List.concat_eq_append, List.head_eq_of_cons_eq same]
    exact ⟨kept, rfl, rfl⟩

/-- A blank at the end of a line makes no difference. -/
theorem read_of_append_blank {c : Char} (blank : Text.isBlank c) (readable : read above (line ++ [c]) = .ok rule) :
    read above line = .ok rule := by
  rcases read_eq_ok readable with ⟨left, right, word, pieces, single, rfl⟩ | ⟨text, left, right, piece, rfl, bar, rfl⟩
  · obtain ⟨whole, freeLeft, freeRight⟩ := splitArrows_eq_pair.mp pieces
    have regrouped : line ++ [c] = (left ++ ['-']) ++ '>' :: right := by simpa using whole
    obtain ⟨kept, rfl, rfl⟩ := exists_of_append_blank blank (by decide) regrouped
    have piecesKept : splitArrows (left ++ ['-'] ++ '>' :: kept) = [left, kept] :=
      splitArrows_eq_pair.mpr ⟨by simp, freeLeft, freeRight.part (List.prefix_append kept [c]).isInfix⟩
    simp only [read, piecesKept, single, readAlternatives_append_blank blank]
  · obtain ⟨whole, free⟩ := splitArrows_eq_singleton.mp piece
    obtain ⟨blanks, split, allBlank⟩ := afterBar?_eq_some.mp bar
    obtain ⟨kept, rfl, rfl⟩ := exists_of_append_blank blank (by decide) (whole.trans split)
    have freeKept := free.part (List.prefix_append (blanks ++ '|' :: kept) [c]).isInfix
    have barKept : afterBar? (blanks ++ '|' :: kept) = some kept := afterBar?_eq_some.mpr ⟨blanks, rfl, allBlank⟩
    simp only [read, splitArrows_of_arrowFree freeKept, barKept, readAlternatives_append_blank blank]

/-- Without its carriage return, a line is read as with it. -/
theorem read_withoutReturn (readable : read above line = .ok rule) :
    read above (Text.withoutReturn '\r' line) = .ok rule := by
  unfold Text.withoutReturn
  split
  · next last =>
    rw [← List.dropLast_append_getLast? '\r' last] at readable
    exact read_of_append_blank (by decide) readable
  · exact readable

theorem Reads.withoutReturn (reads : Reads above (line :: lines) rules)
    (behind : ∀ {above : Option String} {rules : List RuleLine}, Reads above lines rules → Reads above more rules) :
    Reads above (Text.withoutReturn '\r' line :: more) rules := by
  cases reads with
  | blank blank rest =>
    have allBlank := List.all_eq_true.mp blank
    refine .blank (List.all_eq_true.mpr fun c member => allBlank c ?_) (behind rest)
    unfold Text.withoutReturn at member
    split at member
    · exact List.dropLast_subset line member
    · exact member
  | rule readable rest => exact .rule (read_withoutReturn readable) (behind rest)

/-- However lines end, they are read as they are. -/
theorem Reads.of_ended (ended : Text.Ended lines text) (unbroken : ∀ line ∈ lines, '\n' ∉ line)
    (reads : Reads above lines rules) : Reads above (Text.lines text) rules := by
  induction ended generalizing above rules with
  | nil => exact reads
  | @unended line =>
    rw [Text.lines_of_unbroken (unbroken line List.mem_cons_self)]
    split
    · next empty =>
      subst empty
      cases reads with
      | blank _ rest => exact rest
      | rule readable _ => exact absurd rfl (not_blank_of_read readable)
    · exact reads
  | feed _ ih =>
    obtain ⟨unbrokenFirst, unbrokenRest⟩ := List.forall_mem_cons.mp unbroken
    rw [Text.lines_append_feed unbrokenFirst]
    exact reads.withoutReturn (ih unbrokenRest)
  | @returnFeed line text lines _ ih =>
    obtain ⟨unbrokenFirst, unbrokenRest⟩ := List.forall_mem_cons.mp unbroken
    have unbrokenReturn : '\n' ∉ line ++ ['\r'] := by simpa using unbrokenFirst
    have split : Text.lines (line ++ '\r' :: '\n' :: text) = line :: Text.lines text := by
      have grouped : Text.lines (line ++ ['\r'] ++ '\n' :: text) =
          Text.withoutReturn '\r' (line ++ ['\r']) :: Text.lines text := Text.lines_append_feed unbrokenReturn
      simpa [Text.withoutReturn] using grouped
    rw [split]
    cases reads with
    | blank blank rest => exact .blank blank (ih unbrokenRest rest)
    | rule readable rest => exact .rule readable (ih unbrokenRest rest)

theorem Lays.reads {begun : Bool} (lays : Lays left begun alternatives lines) (writableLeft : Writable left)
    (writable : ∀ words ∈ alternatives, ∀ word ∈ words, WritableRight word) (continued : begun → above = some left) :
    ∃ parts, Reads above lines parts ∧ alternativesOf parts = alternatives.map (left, ·) := by
  induction lays generalizing above with
  | done => exact ⟨[], .nil, rfl⟩
  | blank blank _ ih =>
    obtain ⟨parts, reads, same⟩ := ih writable continued
    exact ⟨parts, .blank (List.all_eq_true.mpr fun c member => (blank c member).1) reads, same⟩
  | @arrow begun own others before behind lines spaced barred _ ih =>
    obtain ⟨writableOwn, writableOthers⟩ := List.forall_mem_append.mp writable
    obtain ⟨parts, reads, same⟩ := ih writableOthers fun _ => (rfl : some left = some left)
    refine ⟨{ left, alternatives := own } :: parts, .rule (read_arrow barred writableOwn spaced writableLeft) reads, ?_⟩
    rw [alternativesOf_cons, same, List.map_append]
  | @bar own others gap behind lines blank barred _ ih =>
    obtain rfl := continued rfl
    obtain ⟨writableOwn, writableOthers⟩ := List.forall_mem_append.mp writable
    obtain ⟨parts, reads, same⟩ := ih writableOthers fun _ => rfl
    refine ⟨{ left, alternatives := own } :: parts, .rule (read_bar barred writableOwn blank) reads, ?_⟩
    rw [alternativesOf_cons, same, List.map_append]

theorem Lays.unbroken {begun : Bool} (lays : Lays left begun alternatives lines) (writableLeft : Writable left)
    (writable : ∀ words ∈ alternatives, ∀ word ∈ words, WritableRight word) : ∀ line ∈ lines, '\n' ∉ line := by
  induction lays with
  | done => simp
  | blank blank _ ih => exact List.forall_mem_cons.mpr ⟨fun feed => (blank '\n' feed).2 rfl, ih writable⟩
  | arrow spaced barred _ ih =>
    obtain ⟨writableOwn, writableOthers⟩ := List.forall_mem_append.mp writable
    have unbrokenLeft := spaced.unbroken (List.forall_mem_singleton.mpr writableLeft.isWord)
    refine List.forall_mem_cons.mpr ⟨?_, ih writableOthers⟩
    simpa [unbrokenLeft] using barred.unbroken writableOwn
  | bar blank barred _ ih =>
    obtain ⟨writableOwn, writableOthers⟩ := List.forall_mem_append.mp writable
    refine List.forall_mem_cons.mpr ⟨?_, ih writableOthers⟩
    have unbrokenGap : '\n' ∉ _ := fun feed => (blank '\n' feed).2 rfl
    simpa [unbrokenGap] using barred.unbroken writableOwn

/-- The lines of rules are read as lines with the same alternatives of the same left sides. -/
theorem LaysAll.reads (lays : LaysAll rules lines) (legible : ∀ rule ∈ rules, rule.Legible) (above : Option String) :
    ∃ parts, Reads above lines parts ∧ alternativesOf parts = alternativesOf rules := by
  induction lays generalizing above with
  | nil => exact ⟨[], .nil, rfl⟩
  | cons lays _ ih =>
    obtain ⟨legibleFirst, legibleRest⟩ := List.forall_mem_cons.mp legible
    obtain ⟨parts, reads, same⟩ := lays.reads legibleFirst.left legibleFirst.words (by simp)
    obtain ⟨more, readsMore, sameMore⟩ := ih legibleRest (leftBehind above parts)
    refine ⟨parts ++ more, reads.append readsMore, ?_⟩
    rw [alternativesOf_cons, ← same, ← sameMore, alternativesOf, List.flatMap_append]
    rfl

theorem LaysAll.unbroken (lays : LaysAll rules lines) (legible : ∀ rule ∈ rules, rule.Legible) :
    ∀ line ∈ lines, '\n' ∉ line := by
  induction lays with
  | nil => simp
  | cons lays _ ih =>
    obtain ⟨legibleFirst, legibleRest⟩ := List.forall_mem_cons.mp legible
    exact List.forall_mem_append.mpr ⟨lays.unbroken legibleFirst.left legibleFirst.words, ih legibleRest⟩

end RuleLine

/-- Every text that lays out the same rules is read with the same result, be it a grammar or an error: the one of adding
    the left sides of the rules, the words of right sides that are not declared yet, and the alternatives, numbered from
    1 in their order. -/
theorem Grammar.ofText_layout {first : RuleLine} {rest : List RuleLine}
    (legible : ∀ rule ∈ first :: rest, rule.Legible) (filled : ∀ rule ∈ first :: rest, rule.alternatives ≠ [])
    {lines : List (List Char)} (lays : RuleLine.LaysAll (first :: rest) lines) {text : String}
    (ended : Text.Ended lines text.toList) : ofText text = declareRules first rest := by
  obtain ⟨parts, reads, same⟩ := lays.reads legible none
  have readsText : RuleLine.Reads none (Text.lines text.toList) parts := reads.of_ended ended (lays.unbroken legible)
  have nonempty : parts ≠ [] := by
    rintro rfl
    obtain ⟨words, others, split⟩ := List.exists_cons_of_ne_nil (filled first List.mem_cons_self)
    rw [RuleLine.alternativesOf_cons, split] at same
    contradiction
  obtain ⟨part, others, rfl⟩ := List.exists_cons_of_ne_nil nonempty
  calc ofText text = ofRules part others := by simp only [ofText, RuleLine.readAll_of_reads readsText]
    _ = ofRules first rest := RuleLine.ofRules_congr readsText.alternatives_ne_nil filled same
    _ = declareRules first rest := declareRules_eq.symm

namespace RuleLine

/-- The first left side opens with a bar and ends in a dash, the second one opens with the tip of an arrow. -/
def glued : List RuleLine := [
  { left := "|a-", alternatives := [["b-", ">c"], ["e"], ["y"]] },
  { left := ">c", alternatives := [["x"]] }]

/-- The rules without a blank where none is needed, one of them continued below a blank line. -/
def gluedLines : List (List Char) := ["|a-->b-\t>c|e", " ", "|y\r", ">c->x "].map String.toList

theorem legible_glued : ∀ rule ∈ glued, rule.Legible := by
  have written : WrittenRules "|a- -> b- >c | e | y\n>c -> x" glued := rfl
  exact (reads_of_readAll written).legible (by simp)

theorem laysAll_glued : LaysAll glued gluedLines := by
  have none : Text.Gap [] := by simp [Text.Gap]
  have one : ∀ c, Text.isBlank c → c ≠ '\n' → Text.Gap [c] := fun c blank noFeed =>
    List.forall_mem_singleton.mpr ⟨blank, noFeed⟩
  have word : ∀ word, Text.Spaced [word] ([] ++ (word.toList ++ [])) := fun word => .cons none (.nil none) (by simp)
  have ended : ∀ word c, Text.isBlank c → c ≠ '\n' → Text.Spaced [word] ([] ++ (word.toList ++ [c])) :=
    fun word c blank noFeed => .cons none (.nil (one c blank noFeed)) (by simpa using blank)
  have spaced : Text.Spaced ["b-", ">c"] ([] ++ ("b-".toList ++ (['\t'] ++ (">c".toList ++ [])))) :=
    .cons none (.cons (one '\t' (by decide) (by decide)) (.nil none) (by simp)) (by rintro c ⟨⟩; decide)
  have continued : Lays "|a-" true ([["y"]] ++ []) [[] ++ '|' :: ([] ++ ("y".toList ++ ['\r']))] :=
    .bar none (.last (ended "y" '\r' (by decide) (by decide))) .done
  have first : Lays "|a-" false ([["b-", ">c"], ["e"]] ++ [["y"]]) _ :=
    .arrow (word "|a-") (.cons spaced (.last (word "e"))) (.blank (one ' ' (by decide) (by decide)) continued)
  have second : Lays ">c" false ([["x"]] ++ []) _ :=
    .arrow (word ">c") (.last (ended "x" ' ' (by decide) (by decide))) .done
  have rest : LaysAll [{ left := ">c", alternatives := [["x"]] }] (_ ++ []) := .cons second .nil
  have both : LaysAll glued (_ ++ (_ ++ [])) := .cons first rest
  exact both

end RuleLine

theorem Grammar.ofText_layout_glued :
    (∀ rule ∈ RuleLine.glued, rule.Legible) ∧ (∀ rule ∈ RuleLine.glued, rule.alternatives ≠ []) ∧
    RuleLine.LaysAll RuleLine.glued RuleLine.gluedLines ∧
    Text.Ended RuleLine.gluedLines "|a-->b-\t>c|e\r\n \n|y\r\n>c->x ".toList ∧
    ofText "|a-->b-\t>c|e\r\n \n|y\r\n>c->x " =
      declareRules { left := "|a-", alternatives := [["b-", ">c"], ["e"], ["y"]] }
        [{ left := ">c", alternatives := [["x"]] }] := by
  have filled : ∀ rule ∈ RuleLine.glued, rule.alternatives ≠ [] := by decide
  have ended : Text.Ended RuleLine.gluedLines "|a-->b-\t>c|e\r\n \n|y\r\n>c->x ".toList :=
    .returnFeed (.feed (.feed .unended))
  exact ⟨RuleLine.legible_glued, filled, RuleLine.laysAll_glued, ended,
    ofText_layout RuleLine.legible_glued filled RuleLine.laysAll_glued ended⟩

end Predictive
