import Predictive.Proofs.TextOutcomes

/-!
The texts that are grammars, and the first fault of those that are not. Below other lines, a line obeys the rules for
lines (`RuleLine.Readable`) or has one of five faults (`LineFault.FoundIn`); both are said of its characters alone, and
reading a line finds out which of them is the case (`RuleLine.readable_of_read`, `RuleLine.foundIn_of_read`). Lines are
read on behind others with nothing from these but the last left side (`RuleLine.readAll_append`), so the first line
that breaks a rule is the one that is reported, before all faults in what the lines declare
(`Grammar.ofText_eq_error_line`). Of these faults, reserved names come first, and then the first alternative that
cannot be a right side (`Grammar.ofText_format`).
-/
namespace Predictive

namespace RuleLine

/-- The rules for a line that is not blank and stands below the given lines. -/
structure Readable (front : List (List Char)) (line : List Char) : Prop where
  one_arrow : ∀ left middle right, line ≠ left ++ '-' :: '>' :: (middle ++ '-' :: '>' :: right)
  left_word : ∀ left right, line = left ++ '-' :: '>' :: right → ∃ word, Text.words left = [word]
  /-- A line without an arrow begins with a bar and continues a line above it. -/
  continues : ArrowFree line → (∃ blanks right, line = blanks ++ '|' :: right ∧ blanks.all Text.isBlank) ∧
    ∃ above ∈ front, ¬ above.all Text.isBlank

/-- All lines that are not blank obey the rules for lines. -/
def ReadableLines (lines : List (List Char)) : Prop :=
  ∀ front line behind, lines = front ++ line :: behind → ¬ line.all Text.isBlank → Readable front line

/-- The right side that a line has behind its arrow, or behind the bar that it begins with. -/
def writtenRight? (line : List Char) : Option (List Char) :=
  match splitArrows line with
  | [_, right] => some right
  | [text] => afterBar? text
  | _ => none

/-- The words of an alternative can be a right side: the empty word stands alone, if it is spelled out. -/
def Proper (words : List String) : Prop := words ≠ [] ∧ ∀ word ∈ words, SpellsEpsilon word → words = [word]

instance (words : List String) : Decidable (Proper words) := inferInstanceAs (Decidable (_ ∧ _))

end RuleLine

/-- The alternatives that are written in a text, each as its words, from top to bottom and from left to right. -/
def writtenAlternatives (text : String) : List (List String) :=
  ((Text.lines text.toList).filterMap RuleLine.writtenRight?).flatMap RuleLine.readAlternatives

/-- What is wrong with a line below the given lines. -/
inductive LineFault.FoundIn (front : List (List Char)) : (line : List Char) → LineFault → Prop where
  | tooManyArrows {left middle right : List Char} :
    FoundIn front (left ++ '-' :: '>' :: (middle ++ '-' :: '>' :: right)) .tooManyArrows
  | emptyLeftSide {left right : List Char} : RuleLine.ArrowFree left → RuleLine.ArrowFree right →
    Text.words left = [] → FoundIn front (left ++ '-' :: '>' :: right) .emptyLeftSide
  | spacedLeftSide {left right : List Char} : RuleLine.ArrowFree left → RuleLine.ArrowFree right →
    1 < (Text.words left).length → FoundIn front (left ++ '-' :: '>' :: right) .spacedLeftSide
  | noLeftSide {line : List Char} : RuleLine.ArrowFree line → (∀ above ∈ front, above.all Text.isBlank) →
    FoundIn front line .noLeftSide
  | noArrow {line : List Char} : RuleLine.ArrowFree line → (∃ above ∈ front, ¬ above.all Text.isBlank) →
    (∀ blanks right, blanks.all Text.isBlank → line ≠ blanks ++ '|' :: right) → FoundIn front line .noArrow

namespace RuleLine

variable {front lines : List (List Char)} {line text left right : List Char} {above : Option String}
  {rules : List RuleLine}

/-! ### Pieces of a line -/

theorem splitArrows_eq_singleton {piece : List Char} :
    splitArrows text = [piece] ↔ text = piece ∧ ArrowFree text := by
  constructor
  · intro split
    have inside : piece ∈ splitArrows text := by simp [split]
    have free := arrowFree_of_mem_splitArrows inside
    have whole := intercalate_splitArrows text
    rw [split, List.intercalate_singleton] at whole
    exact ⟨whole.symm, whole ▸ free⟩
  · rintro ⟨rfl, free⟩
    exact splitArrows_of_arrowFree free

theorem splitArrows_eq_pair : splitArrows line = [left, right] ↔
    line = left ++ '-' :: '>' :: right ∧ ArrowFree left ∧ ArrowFree right := by
  constructor
  · intro split
    have inside : left ∈ splitArrows line ∧ right ∈ splitArrows line := by simp [split]
    have whole := intercalate_splitArrows line
    rw [split, List.intercalate_cons_cons, List.intercalate_singleton, List.append_assoc] at whole
    exact ⟨whole.symm, arrowFree_of_mem_splitArrows inside.1, arrowFree_of_mem_splitArrows inside.2⟩
  · rintro ⟨rfl, freeLeft, freeRight⟩
    rw [splitArrows_append_arrow freeLeft, splitArrows_of_arrowFree freeRight]

theorem afterBar?_eq_some : afterBar? text = some right ↔
    ∃ blanks, text = blanks ++ '|' :: right ∧ blanks.all Text.isBlank := by
  have solid : ¬ Text.isBlank '|' := by decide
  constructor
  · intro bar
    unfold afterBar? at bar
    split at bar
    · next rest opens =>
      cases bar
      refine ⟨text.takeWhile Text.isBlank, ?_, List.all_takeWhile⟩
      rw [← opens, List.takeWhile_append_dropWhile]
    · contradiction
  · rintro ⟨blanks, rfl, blank⟩
    have dropped : (blanks ++ '|' :: right).dropWhile Text.isBlank = '|' :: right := by
      rw [List.dropWhile_append_of_pos (List.all_eq_true.mp blank), List.dropWhile_cons_of_neg solid]
    simp [afterBar?, dropped]

theorem length_splitArrows_pos (text : List Char) : 0 < (splitArrows text).length := by
  obtain ⟨first, rest, split, _⟩ := splitArrows_eq_cons text
  simp [split]

theorem not_arrowFree : ¬ ArrowFree (left ++ '-' :: '>' :: right) :=
  fun free => free ⟨left, right, by simp⟩

theorem writtenRight?_eq_some : writtenRight? line = some right ↔
    (∃ left, line = left ++ '-' :: '>' :: right ∧ ArrowFree left ∧ ArrowFree right) ∨
      ArrowFree line ∧ ∃ blanks, line = blanks ++ '|' :: right ∧ blanks.all Text.isBlank := by
  constructor
  · intro written
    unfold writtenRight? at written
    split at written
    · next left _ pieces =>
      cases written
      exact .inl ⟨left, splitArrows_eq_pair.mp pieces⟩
    · next text piece =>
      obtain ⟨rfl, free⟩ := splitArrows_eq_singleton.mp piece
      exact .inr ⟨free, afterBar?_eq_some.mp written⟩
    · contradiction
  · rintro (⟨left, whole⟩ | ⟨free, bar⟩)
    · simp [writtenRight?, splitArrows_eq_pair.mpr whole]
    · simp [writtenRight?, splitArrows_of_arrowFree free, afterBar?_eq_some.mpr bar]

/-- A blank line has neither an arrow nor a bar. -/
theorem writtenRight?_of_blank (blank : line.all Text.isBlank) : writtenRight? line = none := by
  have allBlank := List.all_eq_true.mp blank
  refine Option.eq_none_iff_forall_ne_some.mpr fun right written => ?_
  rcases writtenRight?_eq_some.mp written with ⟨left, rfl, _⟩ | ⟨_, blanks, rfl, _⟩
  · exact absurd (allBlank '-' (by simp)) (by decide)
  · exact absurd (allBlank '|' (by simp)) (by decide)

theorem writtenRight?_of_read {rule : RuleLine} (readable : read above line = .ok rule) :
    ∃ right, writtenRight? line = some right ∧ rule.alternatives = readAlternatives right := by
  rcases read_eq_ok readable with ⟨left, right, word, pieces, _, rfl⟩ | ⟨text, left, right, piece, _, bar, rfl⟩
  · exact ⟨right, by simp [writtenRight?, pieces], rfl⟩
  · exact ⟨right, by simp [writtenRight?, piece, bar], rfl⟩

theorem not_blank_of_read {rule : RuleLine} (readable : read above line = .ok rule) : ¬ line.all Text.isBlank := by
  intro blank
  obtain ⟨right, written, _⟩ := writtenRight?_of_read readable
  rw [writtenRight?_of_blank blank] at written
  contradiction

/-! ### One line -/

theorem readable_of_read (continued : above.isSome → ∃ above ∈ front, ¬ above.all Text.isBlank) {rule : RuleLine}
    (readable : read above line = .ok rule) : Readable front line := by
  rcases read_eq_ok readable with ⟨left, right, word, pieces, single, _⟩ | ⟨text, _, right, piece, rfl, bar, _⟩
  · refine ⟨fun first second third same => ?_, fun before behind same => ?_, fun free => ?_⟩
    · have lengths := congrArg List.length pieces
      have filledFirst := length_splitArrows_pos first
      have filledSecond := length_splitArrows_pos second
      have filledThird := length_splitArrows_pos third
      simp only [same, splitArrows_append, List.length_append, List.length_cons, List.length_nil] at lengths
      omega
    · obtain ⟨first, rest, splitBefore, _⟩ := splitArrows_eq_cons before
      obtain ⟨second, more, splitBehind, _⟩ := splitArrows_eq_cons behind
      rw [same, splitArrows_append, splitBefore, splitBehind] at pieces
      obtain ⟨rfl, tail⟩ := List.cons.inj pieces
      obtain rfl : rest = [] := by
        cases rest with
        | nil => rfl
        | cons => simp at tail
      exact ⟨word, (splitArrows_eq_singleton.mp splitBefore).1 ▸ single⟩
    · rw [splitArrows_of_arrowFree free] at pieces
      simp at pieces
  · obtain ⟨rfl, free⟩ := splitArrows_eq_singleton.mp piece
    exact {
      one_arrow _ _ _ same := not_arrowFree (same ▸ free)
      left_word _ _ same := absurd (same ▸ free) not_arrowFree
      continues _ := ⟨⟨_, right, (afterBar?_eq_some.mp bar).choose_spec⟩, continued rfl⟩ }

theorem foundIn_of_read (continued : above.isSome ↔ ∃ above ∈ front, ¬ above.all Text.isBlank) {fault : LineFault}
    (refused : read above line = .error fault) : fault.FoundIn front line := by
  unfold read at refused
  split at refused
  · next left right pieces =>
    obtain ⟨rfl, freeLeft, freeRight⟩ := splitArrows_eq_pair.mp pieces
    split at refused
    · next empty =>
      cases refused
      exact .emptyLeftSide freeLeft freeRight empty
    · contradiction
    · next filled several =>
      cases refused
      refine .spacedLeftSide freeLeft freeRight ?_
      match count : Text.words left with
      | [] => exact absurd count filled
      | [word] => exact absurd count (several word)
      | first :: second :: others => simp
  · next text piece =>
    obtain ⟨rfl, free⟩ := splitArrows_eq_singleton.mp piece
    split at refused
    · next nothing =>
      cases refused
      refine .noLeftSide free fun above inFront => ?_
      by_contra filled
      simpa using continued.mpr ⟨above, inFront, filled⟩
    · contradiction
    · next missing =>
      cases refused
      refine .noArrow free (continued.mp rfl) fun blanks right blank same => ?_
      rw [afterBar?_eq_some.mpr ⟨blanks, same, blank⟩] at missing
      contradiction
  · next two one =>
    cases refused
    have whole := intercalate_splitArrows line
    match pieces : splitArrows line with
    | [] => exact absurd (length_splitArrows_pos line) (by simp [pieces])
    | [text] => exact absurd pieces (one text)
    | [left, right] => exact absurd pieces (two left right)
    | left :: middle :: third :: others =>
      rw [pieces, List.intercalate_cons_cons, List.intercalate_cons_cons, List.append_assoc, List.append_assoc] at whole
      rw [← whole]
      exact .tooManyArrows

theorem not_readable_of_foundIn {fault : LineFault} (found : fault.FoundIn front line) : ¬ Readable front line := by
  intro readable
  cases found with
  | tooManyArrows => exact readable.one_arrow _ _ _ rfl
  | emptyLeftSide _ _ empty =>
    obtain ⟨word, single⟩ := readable.left_word _ _ rfl
    simp [empty] at single
  | spacedLeftSide _ _ several =>
    obtain ⟨word, single⟩ := readable.left_word _ _ rfl
    simp [single] at several
  | noLeftSide free blank =>
    obtain ⟨_, above, inFront, filled⟩ := readable.continues free
    exact filled (blank above inFront)
  | noArrow free _ missing =>
    obtain ⟨⟨blanks, right, whole, blank⟩, _⟩ := readable.continues free
    exact missing blanks right blank whole

/-! ### All lines -/

/-- The left side above the line that comes behind the rule lines. -/
def leftBehind (above : Option String) (rules : List RuleLine) : Option String :=
  (rules.getLast?.map RuleLine.left).or above

theorem leftBehind_cons {rule : RuleLine} :
    leftBehind above (rule :: rules) = leftBehind (some rule.left) rules := by
  cases last : rules.getLast? <;> simp [leftBehind, List.getLast?_cons, last]

/-- Lines are read on behind others with nothing from these but their number and the last left side. -/
theorem readAll_append {number : Nat} {behind : List (List Char)} : readAll number above (front ++ behind) =
    match readAll number above front with
    | .error fault => .error fault
    | .ok rules => (readAll (number + front.length) (leftBehind above rules) behind).map (rules ++ ·) := by
  induction front generalizing number above with
  | nil => cases found : readAll number above behind <;> simp [readAll, leftBehind, found, Except.map]
  | cons line rest ih =>
    have counted : number + 1 + rest.length = number + (line :: rest).length := by simp; omega
    rw [List.cons_append, readAll, readAll]
    split
    · rw [ih, counted]
    · cases read above line with
      | error fault => rfl
      | ok rule =>
        simp only [ih, counted]
        cases readAll (number + 1) (some rule.left) rest with
        | error fault => rfl
        | ok rules =>
          simp only [Except.map, leftBehind_cons]
          cases readAll (number + (line :: rest).length) (leftBehind (some rule.left) rules) behind <;> rfl

theorem Reads.ne_nil_iff (reads : Reads above lines rules) : rules ≠ [] ↔ ∃ line ∈ lines, ¬ line.all Text.isBlank := by
  induction reads with
  | nil => simp
  | blank blank _ ih => simp only [ih, List.mem_cons, exists_eq_or_imp, blank, not_true, false_or]
  | @rule above line rest rule rules readable _ _ =>
    exact iff_of_true (List.cons_ne_nil rule rules) ⟨line, List.mem_cons_self, not_blank_of_read readable⟩

theorem isSome_leftBehind (reads : Reads none lines rules) :
    (leftBehind none rules).isSome ↔ ∃ line ∈ lines, ¬ line.all Text.isBlank := by
  rw [← reads.ne_nil_iff]
  cases rules <;> simp [leftBehind, List.getLast?_cons]

theorem exists_readAll (readable : ReadableLines lines) : ∃ rules, readAll 1 none lines = .ok rules := by
  induction lines using List.reverseRecOn with
  | nil => exact ⟨[], rfl⟩
  | append_singleton front line ih =>
    obtain ⟨rules, readFront⟩ := ih fun before other between split =>
      readable before other (between ++ [line]) (by simp [split])
    have continued := isSome_leftBehind (reads_of_readAll readFront)
    rw [readAll_append, readFront]
    by_cases blank : line.all Text.isBlank
    · simp [readAll, blank, Except.map]
    · cases found : read (leftBehind none rules) line with
      | error fault =>
        exact absurd (readable front line [] rfl blank) (not_readable_of_foundIn (foundIn_of_read continued found))
      | ok rule => simp [readAll, blank, found, Except.map]

/-- The first line that breaks a rule for lines is the one that is reported. -/
theorem readAll_eq_error_line (readable : ReadableLines front) (filled : ¬ line.all Text.isBlank)
    (unreadable : ¬ Readable front line) (behind : List (List Char)) :
    ∃ fault, fault.FoundIn front line ∧
      readAll 1 none (front ++ line :: behind) = .error (.line (front.length + 1) fault) := by
  obtain ⟨rules, readFront⟩ := exists_readAll readable
  have continued := isSome_leftBehind (reads_of_readAll readFront)
  cases found : read (leftBehind none rules) line with
  | error fault =>
    refine ⟨fault, foundIn_of_read continued found, ?_⟩
    simp only [readAll_append, readFront, readAll, filled, found, Except.map, Nat.add_comm]
    rfl
  | ok rule => exact absurd (readable_of_read continued.mp found) unreadable

theorem readableLines_of_readAll (allRead : readAll 1 none lines = .ok rules) : ReadableLines lines := by
  rintro front line behind rfl filled
  rw [readAll_append] at allRead
  split at allRead
  · contradiction
  · next rulesFront readFront =>
    have continued := isSome_leftBehind (reads_of_readAll readFront)
    rw [readAll, if_neg filled] at allRead
    cases found : read (leftBehind none rulesFront) line with
    | error fault => simp [found, Except.map] at allRead
    | ok rule => exact readable_of_read continued.mp found

/-! ### What lines declare -/

theorem Reads.map_alternativesOf (reads : Reads above lines rules) :
    (alternativesOf rules).map Prod.snd = (lines.filterMap writtenRight?).flatMap readAlternatives := by
  induction reads with
  | nil => rfl
  | blank blank _ ih => rw [ih, List.filterMap_cons_none (writtenRight?_of_blank blank)]
  | @rule above line rest rule rules readable _ ih =>
    obtain ⟨right, written, same⟩ := writtenRight?_of_read readable
    rw [List.filterMap_cons_some written, List.flatMap_cons, ← ih, ← same, alternativesOf_cons, List.map_append,
      List.map_map]
    exact congrArg (· ++ _) (List.map_id _)

/-- Of the reserved names, only the end marker can be taken for a terminal. -/
theorem forall_names_free : (∀ name ∈ names rules, ¬ Reserved name) ↔
    (∀ left ∈ lefts rules, ¬ Reserved left) ∧ ∀ words ∈ (alternativesOf rules).map Prod.snd, "$" ∉ words := by
  simp only [names, List.mem_append, or_imp, forall_and]
  refine and_congr_right fun freeLefts => ⟨fun freeTerminals words listed dollar => ?_, fun noDollar name member => ?_⟩
  · obtain ⟨alternative, written, rfl⟩ := List.mem_map.mp listed
    have declared : "$" ∈ terminalWords rules :=
      mem_terminalWords.mpr ⟨⟨alternative, written, dollar⟩, by decide, fun left => freeLefts "$" left (.inr rfl)⟩
    exact freeTerminals "$" declared (.inr rfl)
  · obtain ⟨⟨alternative, listed, inside⟩, filled, _⟩ := mem_terminalWords.mp member
    rintro (empty | rfl)
    · exact filled empty
    · exact noDollar alternative.2 (List.mem_map_of_mem listed) inside

theorem proper_iff {words : List String} : Proper words ↔
    words ≠ [] ∧ ¬ (1 < words.length ∧ ∃ word ∈ words, SpellsEpsilon word) := by
  refine and_congr_right fun _ => ⟨?_, fun single word inside empty => ?_⟩
  · rintro alone ⟨long, word, inside, empty⟩
    rw [alone word inside empty] at long
    simp at long
  · by_contra several
    refine single ⟨?_, word, inside, empty⟩
    match words with
    | [] => contradiction
    | [only] => exact absurd (congrArg (List.cons · []) (List.mem_singleton.mp inside).symm) several
    | first :: second :: rest => simp

theorem Alternative.fault?_eq (alternative : Alternative) : alternative.fault? =
    if Proper alternative.words then none
    else some (if alternative.words = [] then .emptyRule alternative.id else .misplacedEpsilon alternative.id) := by
  unfold Alternative.fault?
  by_cases unfilled : alternative.words = []
  · simp [proper_iff, unfilled]
  · by_cases misplaced : 1 < alternative.words.length ∧ ∃ word ∈ alternative.words, SpellsEpsilon word
    · rw [if_neg unfilled, if_pos misplaced, if_neg fun proper => (proper_iff.mp proper).2 misplaced, if_neg unfilled]
    · rw [if_neg unfilled, if_neg misplaced, if_pos (proper_iff.mpr ⟨unfilled, misplaced⟩)]

theorem fault?_eq_none : fault? rules = none ↔
    (∀ name ∈ names rules, ¬ Reserved name) ∧ (numbered rules).findSome? Alternative.fault? = none := by
  unfold fault?
  cases found : (names rules).find? fun name => Reserved name with
  | some name =>
    have reserved : Reserved name := by simpa using List.find?_some found
    simpa using fun free => absurd reserved (free name (List.mem_of_find?_eq_some found))
  | none => simpa using fun _ => List.find?_eq_none.mp found

variable {alternatives : List (String × List String)}

theorem findSome?_fault?_eq_none (number : Nat) :
    (numberFrom number alternatives).findSome? Alternative.fault? = none ↔
      ∀ words ∈ alternatives.map Prod.snd, Proper words := by
  induction alternatives generalizing number with
  | nil => simp [numberFrom]
  | cons first rest ih =>
    rw [numberFrom_cons, List.findSome?_cons, Alternative.fault?_eq, List.map_cons, List.forall_mem_cons,
      ← ih (number + 1)]
    by_cases proper : Proper first.2 <;> simp [proper]

/-- The first alternative that cannot be a right side is the one that is reported. -/
theorem findSome?_fault?_eq_some (number : Nat) {before behind : List (List String)} {words : List String}
    (split : alternatives.map Prod.snd = before ++ words :: behind) (fine : ∀ earlier ∈ before, Proper earlier)
    (faulty : ¬ Proper words) : (numberFrom number alternatives).findSome? Alternative.fault? =
      some (if words = [] then .emptyRule (number + before.length)
        else .misplacedEpsilon (number + before.length)) := by
  induction before generalizing alternatives number with
  | nil =>
    obtain ⟨first, rest, rfl, rfl, _⟩ := List.map_eq_cons_iff.mp split
    rw [numberFrom_cons, List.findSome?_cons, Alternative.fault?_eq, if_neg faulty]
    rfl
  | cons earlier before ih =>
    obtain ⟨first, rest, rfl, rfl, later⟩ := List.map_eq_cons_iff.mp split
    obtain ⟨proper, fineBefore⟩ := List.forall_mem_cons.mp fine
    rw [numberFrom_cons, List.findSome?_cons, Alternative.fault?_eq, if_pos proper, ih (number + 1) later fineBefore,
      List.length_cons, Nat.add_right_comm, Nat.add_assoc]

end RuleLine

section
variable {text : String} {rules : List RuleLine}

theorem WrittenRules.mem_writtenLefts (written : WrittenRules text rules) {left : String} :
    left ∈ writtenLefts text ↔ left ∈ RuleLine.lefts rules := by
  have enrolled : firstUses (RuleLine.lefts rules) = firstUses (writtenLefts text) :=
    (RuleLine.reads_of_readAll written).enrol_lefts (by simp)
  rw [← mem_firstUses, ← enrolled, mem_firstUses]

theorem WrittenRules.map_alternativesOf (written : WrittenRules text rules) :
    (RuleLine.alternativesOf rules).map Prod.snd = writtenAlternatives text :=
  (RuleLine.reads_of_readAll written).map_alternativesOf

theorem WrittenRules.ofText_eq_error (written : WrittenRules text rules) (nonempty : rules ≠ []) {fault : Malformation}
    (faulty : RuleLine.fault? rules = some fault) : Grammar.ofText text = .error fault := by
  obtain ⟨first, rest, rfl⟩ := List.exists_cons_of_ne_nil nonempty
  unfold WrittenRules at written
  simp only [Grammar.ofText, written, RuleLine.ofRules_eq, faulty]

end

namespace Grammar

variable {text : String}

theorem ofText_isOk_iff : (∃ g, ofText text = .ok g) ↔
    (∃ line ∈ Text.lines text.toList, ¬ line.all Text.isBlank) ∧
    RuleLine.ReadableLines (Text.lines text.toList) ∧
    (∀ left ∈ writtenLefts text, ¬ Reserved left) ∧
    ∀ words ∈ writtenAlternatives text, "$" ∉ words ∧ RuleLine.Proper words := by
  constructor
  · rintro ⟨g, read⟩
    obtain ⟨first, rest, written, faultless, _⟩ := RuleLine.ofText_eq_ok_iff.mp read
    obtain ⟨free, fine⟩ := RuleLine.fault?_eq_none.mp faultless
    obtain ⟨freeLefts, noDollar⟩ := RuleLine.forall_names_free.mp free
    have proper := (RuleLine.findSome?_fault?_eq_none 1).mp fine
    rw [written.map_alternativesOf] at noDollar proper
    exact ⟨(RuleLine.reads_of_readAll written).ne_nil_iff.mp (List.cons_ne_nil first rest),
      RuleLine.readableLines_of_readAll written, fun left member => freeLefts left (written.mem_writtenLefts.mp member),
      fun words listed => ⟨noDollar words listed, proper words listed⟩⟩
  · rintro ⟨filled, readable, freeLefts, proper⟩
    obtain ⟨rules, read⟩ := RuleLine.exists_readAll readable
    have written : WrittenRules text rules := read
    obtain ⟨first, rest, rfl⟩ :=
      List.exists_cons_of_ne_nil ((RuleLine.reads_of_readAll written).ne_nil_iff.mpr filled)
    simp only [written.mem_writtenLefts, ← written.map_alternativesOf] at freeLefts proper
    have free := RuleLine.forall_names_free.mpr ⟨freeLefts, fun words listed => (proper words listed).1⟩
    have fine := (RuleLine.findSome?_fault?_eq_none 1).mpr fun words listed => (proper words listed).2
    exact ⟨_, RuleLine.ofText_eq_ok_iff.mpr ⟨first, rest, written, RuleLine.fault?_eq_none.mpr ⟨free, fine⟩, rfl⟩⟩

theorem ofText_eq_error_line {front behind : List (List Char)} {line : List Char}
    (split : Text.lines text.toList = front ++ line :: behind) (readable : RuleLine.ReadableLines front)
    (filled : ¬ line.all Text.isBlank) (unreadable : ¬ RuleLine.Readable front line) :
    ∃ fault, fault.FoundIn front line ∧ ofText text = .error (.line (front.length + 1) fault) := by
  obtain ⟨fault, found, read⟩ := RuleLine.readAll_eq_error_line readable filled unreadable behind
  exact ⟨fault, found, by simp only [ofText, split, read]⟩

theorem ofText_eq_error_reservedName (readable : RuleLine.ReadableLines (Text.lines text.toList))
    (reserved : (∃ left ∈ writtenLefts text, Reserved left) ∨ ∃ words ∈ writtenAlternatives text, "$" ∈ words) :
    ∃ name, ofText text = .error (.reservedName name) ∧
      (name ∈ writtenLefts text ∧ Reserved name ∨ name = "$" ∧ ∃ words ∈ writtenAlternatives text, name ∈ words) := by
  obtain ⟨rules, read⟩ := RuleLine.exists_readAll readable
  have written : WrittenRules text rules := read
  simp only [written.mem_writtenLefts, ← written.map_alternativesOf] at reserved ⊢
  have notFree : ¬ ∀ name ∈ RuleLine.names rules, ¬ Reserved name := by
    intro free
    obtain ⟨freeLefts, noDollar⟩ := RuleLine.forall_names_free.mp free
    rcases reserved with ⟨left, listed, isReserved⟩ | ⟨words, listed, dollar⟩
    · exact freeLefts left listed isReserved
    · exact noDollar words listed dollar
  cases found : (RuleLine.names rules).find? fun name => Reserved name with
  | none => exact absurd (by simpa using found) notFree
  | some name =>
    have listed := List.mem_of_find?_eq_some found
    have isReserved : Reserved name := by simpa using List.find?_some found
    have nonempty : rules ≠ [] := by
      rintro rfl
      contradiction
    refine ⟨name, written.ofText_eq_error nonempty (by rw [RuleLine.fault?, found]), ?_⟩
    rcases List.mem_append.mp listed with left | terminal
    · exact .inl ⟨left, isReserved⟩
    · obtain ⟨⟨alternative, member, inside⟩, filled, _⟩ := RuleLine.mem_terminalWords.mp terminal
      exact .inr ⟨isReserved.resolve_left filled, alternative.2, List.mem_map_of_mem member, inside⟩

theorem ofText_eq_error_alternative (readable : RuleLine.ReadableLines (Text.lines text.toList))
    (freeLefts : ∀ left ∈ writtenLefts text, ¬ Reserved left)
    (noDollar : ∀ words ∈ writtenAlternatives text, "$" ∉ words) {before behind : List (List String)}
    {words : List String} (split : writtenAlternatives text = before ++ words :: behind)
    (fine : ∀ earlier ∈ before, RuleLine.Proper earlier) (faulty : ¬ RuleLine.Proper words) :
    ofText text = .error (if words = [] then .emptyRule (before.length + 1)
      else .misplacedEpsilon (before.length + 1)) := by
  obtain ⟨rules, read⟩ := RuleLine.exists_readAll readable
  have written : WrittenRules text rules := read
  simp only [written.mem_writtenLefts, ← written.map_alternativesOf] at freeLefts noDollar split
  have nonempty : rules ≠ [] := by
    rintro rfl
    simp [RuleLine.alternativesOf] at split
  refine written.ofText_eq_error nonempty ?_
  have free : (RuleLine.names rules).find? (fun name => Reserved name) = none := by
    simpa using RuleLine.forall_names_free.mpr ⟨freeLefts, noDollar⟩
  rw [RuleLine.fault?, free, Nat.add_comm]
  exact RuleLine.findSome?_fault?_eq_some 1 split fine faulty

/-- The texts that are grammars, and what the others are refused for. A text is a grammar if it has a line that is not
    blank, all these lines obey the rules for lines, no reserved name is declared, and every alternative can be a right
    side. A line that breaks a rule for lines is reported before all else, and the first such line. If there is none, a
    reserved name is reported before alternatives that cannot be a right side, and of these the first one. -/
theorem ofText_format (text : String) :
    ((∃ g, ofText text = .ok g) ↔
      (∃ line ∈ Text.lines text.toList, ¬ line.all Text.isBlank) ∧
      RuleLine.ReadableLines (Text.lines text.toList) ∧
      (∀ left ∈ writtenLefts text, ¬ Reserved left) ∧
      ∀ words ∈ writtenAlternatives text, "$" ∉ words ∧ RuleLine.Proper words) ∧
    (∀ front line behind, Text.lines text.toList = front ++ line :: behind → RuleLine.ReadableLines front →
      ¬ line.all Text.isBlank → ¬ RuleLine.Readable front line →
      ∃ fault, fault.FoundIn front line ∧ ofText text = .error (.line (front.length + 1) fault)) ∧
    (RuleLine.ReadableLines (Text.lines text.toList) →
      ((∃ left ∈ writtenLefts text, Reserved left) ∨ (∃ words ∈ writtenAlternatives text, "$" ∈ words) →
        ∃ name, ofText text = .error (.reservedName name) ∧
          (name ∈ writtenLefts text ∧ Reserved name ∨ name = "$" ∧ ∃ words ∈ writtenAlternatives text, name ∈ words)) ∧
      ((∀ left ∈ writtenLefts text, ¬ Reserved left) → (∀ words ∈ writtenAlternatives text, "$" ∉ words) →
        ∀ before words behind, writtenAlternatives text = before ++ words :: behind →
          (∀ earlier ∈ before, RuleLine.Proper earlier) → ¬ RuleLine.Proper words →
          ofText text = .error (if words = [] then .emptyRule (before.length + 1)
            else .misplacedEpsilon (before.length + 1)))) :=
  ⟨ofText_isOk_iff, fun _ _ _ => ofText_eq_error_line, fun readable => ⟨ofText_eq_error_reservedName readable,
    fun freeLefts noDollar _ _ _ => ofText_eq_error_alternative readable freeLefts noDollar⟩⟩

/-- The third line is reported, although the first declares a reserved name and the last has no left side. -/
example : ofText "a -> $ | b e\n\nx y -> z\n-> a" = .error (.line 3 .spacedLeftSide) := rfl

end Grammar

end Predictive
