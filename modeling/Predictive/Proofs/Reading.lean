import Predictive.Proofs.NameKinds
import Predictive.Proofs.Words

/-!
How lines are read as rules. A line depends on the lines above it only by the last left side, and its number matters
to faults alone, so what holds of the rule lines of a text is shown by induction on how they were read (`Reads`). Their
left sides are those that are written before arrows (`Reads.enrol_lefts`). The words in them can stand in a text
again: they have no blank and no arrow in them, and those of right sides no bar (`Reads.legible`).
-/
namespace Predictive

/-- The rule lines are those of the text. -/
def WrittenRules (text : String) (rules : List RuleLine) : Prop :=
  RuleLine.readAll 1 none (Text.lines text.toList) = .ok rules

namespace RuleLine

/-- The left sides of rule lines. -/
def lefts (rules : List RuleLine) : List String := rules.map RuleLine.left

/-- The left side that a line has before its arrow. -/
def writtenLeft? (line : List Char) : Option String :=
  match splitArrows line with
  | [left, _] => (Text.words left).head?.map String.ofList
  | _ => none

/-- A word that can stand in a text again. -/
structure Writable (word : String) : Prop where
  isWord : Text.IsWord word.toList
  arrowFree : ArrowFree word.toList

/-- A word that can stand on a right side again. -/
structure WritableRight (word : String) : Prop extends Writable word where
  barFree : '|' ∉ word.toList

/-- The rule line is made of words that can stand in their places again. -/
structure Legible (rule : RuleLine) : Prop where
  left : Writable rule.left
  words : ∀ words ∈ rule.alternatives, ∀ word ∈ words, WritableRight word

/-- The rule lines are what is read from the lines, after a line with the given left side. -/
inductive Reads : Option String → List (List Char) → List RuleLine → Prop where
  | nil {above : Option String} : Reads above [] []
  | blank {above : Option String} {line : List Char} {rest : List (List Char)} {rules : List RuleLine} :
    line.all Text.isBlank → Reads above rest rules → Reads above (line :: rest) rules
  | rule {above : Option String} {line : List Char} {rest : List (List Char)} {rule : RuleLine}
      {rules : List RuleLine} :
    read above line = .ok rule → Reads (some rule.left) rest rules → Reads above (line :: rest) (rule :: rules)

variable {above : Option String} {line : List Char} {lines : List (List Char)} {rule : RuleLine}
  {rules : List RuleLine}

theorem reads_of_readAll {number : Nat} (read : readAll number above lines = .ok rules) : Reads above lines rules := by
  induction lines generalizing number above rules with
  | nil => cases read; exact .nil
  | cons line rest ih =>
    unfold readAll at read
    split at read
    · next blank => exact .blank blank (ih read)
    · split at read
      · contradiction
      · next first readable =>
        cases later : readAll (number + 1) (some first.left) rest with
        | error fault => rw [later] at read; contradiction
        | ok others =>
          rw [later] at read
          cases read
          exact .rule readable (ih later)

theorem readAll_eq_error {number : Nat} {fault : Malformation} (refused : readAll number above lines = .error fault) :
    ∃ position cause, fault = .line position cause := by
  induction lines generalizing number above with
  | nil => contradiction
  | cons line rest ih =>
    unfold readAll at refused
    split at refused
    · exact ih refused
    · split at refused
      · next cause _ => cases refused; exact ⟨number, cause, rfl⟩
      · next first _ =>
        cases later : readAll (number + 1) (some first.left) rest with
        | error fault => rw [later] at refused; cases refused; exact ih later
        | ok others => rw [later] at refused; contradiction

/-- A line has an arrow behind its left side, or begins with a bar and takes over the left side above it. -/
theorem read_eq_ok (readable : read above line = .ok rule) :
    (∃ left right word, splitArrows line = [left, right] ∧ Text.words left = [word] ∧
      rule = { left := String.ofList word, alternatives := readAlternatives right }) ∨
    (∃ text left right, splitArrows line = [text] ∧ above = some left ∧ afterBar? text = some right ∧
      rule = { left, alternatives := readAlternatives right }) := by
  unfold read at readable
  split at readable
  · next left right pieces =>
    split at readable
    · contradiction
    · next word single => cases readable; exact .inl ⟨left, right, word, pieces, single, rfl⟩
    · contradiction
  · next text piece =>
    split at readable
    · contradiction
    · next left right bar => cases readable; exact .inr ⟨text, left, right, piece, rfl, bar, rfl⟩
    · contradiction
  · contradiction

theorem writtenLeft?_of_read (readable : read above line = .ok rule) :
    writtenLeft? line = some rule.left ∨ writtenLeft? line = none ∧ above = some rule.left := by
  rcases read_eq_ok readable with ⟨left, right, word, pieces, single, rfl⟩ | ⟨text, left, right, piece, rfl, _, rfl⟩
  · exact .inl (by simp [writtenLeft?, pieces, single])
  · exact .inr ⟨by simp [writtenLeft?, piece], rfl⟩

theorem writtenLeft?_of_blank (blank : line.all Text.isBlank) : writtenLeft? line = none := by
  have arrowFree : ArrowFree line := fun arrow =>
    absurd (List.all_eq_true.mp blank '-' (arrow.subset List.mem_cons_self)) (by decide)
  simp [writtenLeft?, splitArrows_of_arrowFree arrowFree]

theorem alternatives_ne_nil_of_read (readable : read above line = .ok rule) : rule.alternatives ≠ [] := by
  have split : ∀ text, readAlternatives text ≠ [] := fun text =>
    List.map_eq_nil_iff.not.mpr (List.splitOn_ne_nil '|' text)
  rcases read_eq_ok readable with ⟨_, right, _, _, _, rfl⟩ | ⟨_, _, right, _, _, _, rfl⟩
  · exact split right
  · exact split right

theorem Reads.alternatives_ne_nil (reads : Reads above lines rules) : ∀ rule ∈ rules, rule.alternatives ≠ [] := by
  induction reads with
  | nil => simp
  | blank _ _ ih => exact ih
  | rule readable _ ih => exact List.forall_mem_cons.mpr ⟨alternatives_ne_nil_of_read readable, ih⟩

theorem writable_of_mem_words {text : List Char} (free : ArrowFree text) {word : List Char}
    (member : word ∈ Text.words text) : Writable (String.ofList word) := by
  obtain ⟨isWord, inside⟩ := Text.isWord_of_mem_words member
  exact ⟨by rwa [String.toList_ofList], by rw [String.toList_ofList]; exact free.part inside⟩

theorem legible_alternatives {text : List Char} (free : ArrowFree text) :
    ∀ words ∈ readAlternatives text, ∀ word ∈ words, WritableRight word := by
  intro words listed word member
  obtain ⟨piece, between, rfl⟩ := List.mem_map.mp listed
  obtain ⟨characters, isWord, rfl⟩ := List.mem_map.mp member
  obtain ⟨part, barFree⟩ := mem_splitOn between
  refine ⟨writable_of_mem_words (free.part part) isWord, fun bar => barFree ?_⟩
  rw [String.toList_ofList] at bar
  exact (Text.isWord_of_mem_words isWord).2.subset bar

theorem afterBar?_suffix {text right : List Char} (bar : afterBar? text = some right) : right <:+ text := by
  unfold afterBar? at bar
  split at bar
  · next rest opens =>
    cases bar
    exact ((opens ▸ List.suffix_cons '|' right : right <:+ text.dropWhile Text.isBlank)).trans
      (List.dropWhile_suffix Text.isBlank)
  · contradiction

theorem legible_of_read (readable : read above line = .ok rule) (writable : ∀ left ∈ above, Writable left) :
    rule.Legible := by
  have free : ∀ piece ∈ splitArrows line, ArrowFree piece := fun _ => arrowFree_of_mem_splitArrows
  rcases read_eq_ok readable with ⟨left, right, word, pieces, single, rfl⟩ | ⟨text, left, right, piece, rfl, bar, rfl⟩
  · exact ⟨writable_of_mem_words (free left (by simp [pieces])) (by simp [single]),
      legible_alternatives (free right (by simp [pieces]))⟩
  · exact ⟨writable left rfl,
      legible_alternatives ((free text (by simp [piece])).part (afterBar?_suffix bar).isInfix)⟩

theorem Reads.legible (reads : Reads above lines rules) (writable : ∀ left ∈ above, Writable left) :
    ∀ rule ∈ rules, rule.Legible := by
  induction reads with
  | nil => simp
  | blank _ _ ih => exact ih writable
  | rule readable _ ih =>
    have legible := legible_of_read readable writable
    exact List.forall_mem_cons.mpr ⟨legible, ih (by rintro left ⟨⟩; exact legible.left)⟩

/-- The left sides of rule lines are those written before arrows: a line without one repeats a name. -/
theorem Reads.enrol_lefts (reads : Reads above lines rules) {seen : List String} (known : ∀ left ∈ above, left ∈ seen) :
    (lefts rules).foldl enrol seen = (lines.filterMap writtenLeft?).foldl enrol seen := by
  induction reads generalizing seen with
  | nil => rfl
  | blank blank _ ih => rw [List.filterMap_cons_none (writtenLeft?_of_blank blank), ih known]
  | @rule above line rest rule rules readable _ ih =>
    have knownNext : ∀ left ∈ some rule.left, left ∈ enrol seen rule.left := by
      rintro left ⟨⟩
      exact mem_enrol.mpr (.inr rfl)
    have later := ih knownNext
    rcases writtenLeft?_of_read readable with written | ⟨unwritten, same⟩
    · rw [List.filterMap_cons_some written]
      exact later
    · have repeated : enrol seen rule.left = seen := enrol_of_mem (known rule.left same)
      rw [List.filterMap_cons_none unwritten, lefts, List.map_cons, List.foldl_cons, repeated]
      rwa [repeated] at later

/-- The first rule line has its own left side, since none stands above it. -/
theorem Reads.head?_lefts (reads : Reads above lines rules) (fresh : above = none) :
    (lines.filterMap writtenLeft?).head? = (lefts rules).head? := by
  induction reads with
  | nil => rfl
  | blank blank _ ih => rw [List.filterMap_cons_none (writtenLeft?_of_blank blank), ih fresh]
  | rule readable _ _ =>
    rcases writtenLeft?_of_read readable with written | ⟨_, same⟩
    · rw [List.filterMap_cons_some written]
      rfl
    · rw [fresh] at same
      contradiction

end RuleLine

end Predictive
