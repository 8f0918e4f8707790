import Mathlib.Data.List.Chain
import Predictive.Report.Actions
import Predictive.Report.Trace

/-!
Tables in LaTeX keep their shape, whatever texts stand in their cells. A row ends in two backslashes and a line break,
cells are separated by an ampersand between spaces, and neither can be found where it was not put: in an escaped text
no two backslashes stand together and none stands last, and no ampersand stands behind a space (`safe_escapeChars`). So
a reader that knows nothing of escapes and cuts a table at these marks finds its rows and cells (`cells?_rows`), for the
table of actions as for a trace (`latex_keeps_shape`). Escaped texts are the same if the letter for the empty word is
replaced in a second pass (`escapeChars_eq_withFormulas`).
-/
namespace Predictive.Text

/-! ### Cutting at a mark -/

/-- The pieces of a text between the places where a mark stands, from the left. -/
def cut (mark : List Char) : List Char → List (List Char)
  | [] => [[]]
  | c :: rest =>
    if mark <+: c :: rest then [] :: cut mark (rest.drop (mark.length - 1))
    else (cut mark rest).modifyHead (c :: ·)
termination_by text => text.length
decreasing_by
  all_goals simp only [List.length_cons, List.length_drop]; omega

/-- The text behind the first place where a mark stands. -/
def behind? (mark : List Char) : List Char → Option (List Char)
  | [] => none
  | c :: rest => if mark <+: c :: rest then some ((c :: rest).drop mark.length) else behind? mark rest

/-- The text between the first place of a mark and another mark at the end. -/
def between? (above below text : List Char) : Option (List Char) :=
  (behind? above text).bind fun rest =>
    if below <:+ rest then some (rest.take (rest.length - below.length)) else none

/-- Behind the text a mark stands for the first time. -/
def FirstBehind (mark text : List Char) : Prop :=
  ∀ front back, text ++ mark = front ++ (mark ++ back) → back = []

section
variable {mark text : List Char}

theorem firstBehind_nil : FirstBehind mark [] := by
  intro front back same
  have lengths := congrArg List.length same
  simp only [List.length_append, List.length_nil] at lengths
  exact List.eq_nil_of_length_eq_zero (by omega)

theorem FirstBehind.of_cons {c : Char} (first : FirstBehind mark (c :: text)) : FirstBehind mark text :=
  fun front back same => first (c :: front) back (congrArg (c :: ·) same)

theorem FirstBehind.not_prefix {c : Char} (first : FirstBehind mark (c :: text)) (rest : List Char) :
    ¬ mark <+: c :: (text ++ (mark ++ rest)) := by
  intro opens
  have whole : c :: text ++ mark <+: c :: (text ++ (mark ++ rest)) := by simp
  obtain ⟨back, same⟩ := List.prefix_of_prefix_length_le opens whole (by simp; omega)
  obtain rfl := first [] back same.symm
  have lengths := congrArg List.length same
  simp only [List.append_nil, List.length_append, List.length_cons] at lengths
  omega

theorem FirstBehind.not_prefix_self {c : Char} (first : FirstBehind mark (c :: text)) : ¬ mark <+: c :: text := by
  intro opens
  have whole : c :: text <+: c :: (text ++ (mark ++ [])) := by simp
  exact first.not_prefix [] (opens.trans whole)

theorem cut_append (first : FirstBehind mark text) (visible : mark ≠ []) (rest : List Char) :
    cut mark (text ++ (mark ++ rest)) = text :: cut mark rest := by
  induction text with
  | nil =>
    obtain ⟨c, others, rfl⟩ := List.exists_cons_of_ne_nil visible
    have opens : c :: others <+: c :: (others ++ rest) := by simp
    rw [List.nil_append, List.cons_append, cut, if_pos opens, List.length_cons, Nat.add_sub_cancel, List.drop_left]
  | cons c text ih =>
    rw [List.cons_append, cut, if_neg (first.not_prefix rest), ih first.of_cons]
    rfl

theorem cut_of_firstBehind (first : FirstBehind mark text) : cut mark text = [text] := by
  induction text with
  | nil => rw [cut]
  | cons c text ih =>
    rw [cut, if_neg first.not_prefix_self, ih first.of_cons]
    rfl

/-- The pieces between which a mark was put are those that a text is cut to. -/
theorem cut_intercalate (visible : mark ≠ []) {pieces : List (List Char)} (nonempty : pieces ≠ [])
    (first : ∀ piece ∈ pieces, FirstBehind mark piece) : cut mark (mark.intercalate pieces) = pieces := by
  induction pieces with
  | nil => exact absurd rfl nonempty
  | cons piece rest ih =>
    have firstPiece := first piece List.mem_cons_self
    cases rest with
    | nil => rw [List.intercalate_singleton, cut_of_firstBehind firstPiece]
    | cons second others =>
      have later := ih (List.cons_ne_nil _ _) fun other member => first other (List.mem_cons_of_mem piece member)
      rw [List.intercalate_cons_cons, List.append_assoc, cut_append firstPiece visible, later]

theorem behind?_append (first : FirstBehind mark text) (visible : mark ≠ []) (rest : List Char) :
    behind? mark (text ++ (mark ++ rest)) = some rest := by
  induction text with
  | nil =>
    obtain ⟨c, others, rfl⟩ := List.exists_cons_of_ne_nil visible
    have opens : c :: others <+: c :: (others ++ rest) := by simp
    rw [List.nil_append, List.cons_append, behind?, if_pos opens, ← List.cons_append, List.drop_left]
  | cons c text ih => rw [List.cons_append, behind?, if_neg (first.not_prefix rest), ih first.of_cons]

theorem between?_append {below : List Char} (first : FirstBehind mark text) (visible : mark ≠ [])
    (body : List Char) : between? mark below (text ++ (mark ++ (body ++ below))) = some body := by
  rw [between?, behind?_append first visible, Option.bind_some, if_pos (List.suffix_append body below),
    List.length_append, Nat.add_sub_cancel, List.take_left]

/-- Where the first two characters of a mark are not neighbours, the mark does not stand. -/
theorem firstBehind_of_isChain {a b : Char} {more : List Char}
    (apart : (text ++ [a]).IsChain fun c d => ¬ (c = a ∧ d = b)) : FirstBehind (a :: b :: more) text := by
  intro front back same
  rcases List.append_eq_append_iff.mp same with ⟨later, rfl, rest⟩ | ⟨later, rfl, rest⟩
  · have lengths := congrArg List.length rest
    simp only [List.length_append] at lengths
    exact List.eq_nil_of_length_eq_zero (by omega)
  · cases later with
    | nil => simpa using rest.symm
    | cons c later =>
      obtain ⟨rfl, behind⟩ : a = c ∧ b :: (more ++ back) = later ++ a :: b :: more := by simpa using rest
      -- Behind the first character of the mark stands its second one, be it in the text or in the mark behind it.
      obtain ⟨others, next⟩ : ∃ others, later ++ [a] = b :: others := by
        cases later with
        | nil => exact ⟨[], by rw [List.nil_append, (List.cons.inj behind).1]⟩
        | cons d later => exact ⟨later ++ [a], by rw [List.cons_append, (List.cons.inj behind).1]⟩
      rw [List.append_assoc, List.cons_append, next] at apart
      exact absurd ⟨rfl, rfl⟩ (List.isChain_append_cons_cons.mp apart).2.1

end

/-! ### Escaped texts -/

namespace Latex

/-- No two backslashes stand together, and none stands last. -/
structure RowSafe (text : List Char) : Prop where
  apart : text.IsChain fun c d => ¬ (c = '\\' ∧ d = '\\')
  last : '\\' ∉ text.getLast?

/-- No ampersand stands behind a space, and none stands first. -/
structure CellSafe (text : List Char) : Prop where
  apart : text.IsChain fun c d => ¬ (c = ' ' ∧ d = '&')
  first : '&' ∉ text.head?

instance (text : List Char) : Decidable (RowSafe text) :=
  decidable_of_iff (text.IsChain (fun c d => ¬ (c = '\\' ∧ d = '\\')) ∧ '\\' ∉ text.getLast?)
    ⟨fun both => ⟨both.1, both.2⟩, fun safe => ⟨safe.apart, safe.last⟩⟩

instance (text : List Char) : Decidable (CellSafe text) :=
  decidable_of_iff (text.IsChain (fun c d => ¬ (c = ' ' ∧ d = '&')) ∧ '&' ∉ text.head?)
    ⟨fun both => ⟨both.1, both.2⟩, fun safe => ⟨safe.apart, safe.first⟩⟩

section
variable {front back : List Char}

theorem RowSafe.append (safe : RowSafe front) (safeBack : RowSafe back) : RowSafe (front ++ back) where
  apart := List.isChain_append.mpr
    ⟨safe.apart, safeBack.apart, fun _ isLast _ _ both => safe.last (both.1 ▸ isLast)⟩
  last := by
    intro isLast
    rw [List.getLast?_append] at isLast
    rcases Option.or_eq_some_iff.mp isLast with inBack | ⟨_, inFront⟩
    · exact safeBack.last inBack
    · exact safe.last inFront

theorem CellSafe.append (safe : CellSafe front) (safeBack : CellSafe back) : CellSafe (front ++ back) where
  apart := List.isChain_append.mpr
    ⟨safe.apart, safeBack.apart, fun _ _ _ isFirst both => safeBack.first (both.2 ▸ isFirst)⟩
  first := by
    intro isFirst
    rw [List.head?_append] at isFirst
    rcases Option.or_eq_some_iff.mp isFirst with inFront | ⟨_, inBack⟩
    · exact safe.first inFront
    · exact safeBack.first inBack

theorem RowSafe.intercalate {mark : List Char} (safeMark : RowSafe mark) {pieces : List (List Char)}
    (safe : ∀ piece ∈ pieces, RowSafe piece) : RowSafe (mark.intercalate pieces) := by
  induction pieces with
  | nil => exact ⟨by simp, by simp⟩
  | cons piece rest ih =>
    have safePiece := safe piece List.mem_cons_self
    cases rest with
    | nil => rwa [List.intercalate_singleton]
    | cons second others =>
      rw [List.intercalate_cons_cons]
      exact (safePiece.append safeMark).append (ih fun other member => safe other (List.mem_cons_of_mem piece member))

/-- No row ends within a text in which no two backslashes stand together. -/
theorem RowSafe.firstBehind (safe : RowSafe front) (more : List Char) : FirstBehind ('\\' :: '\\' :: more) front :=
  firstBehind_of_isChain <| List.isChain_append.mpr
    ⟨safe.apart, .singleton _, fun _ isLast _ _ both => safe.last (both.1 ▸ isLast)⟩

/-- No cell ends within a text in which no ampersand stands behind a space. -/
theorem CellSafe.firstBehind (safe : CellSafe front) : FirstBehind [' ', '&', ' '] front :=
  firstBehind_of_isChain <| List.isChain_append.mpr ⟨safe.apart, .singleton _, by simp⟩

end

/-- Neither a row nor a cell ends in the text or where it meets another such text. -/
def Safe (text : List Char) : Prop := RowSafe text ∧ CellSafe text

instance (text : List Char) : Decidable (Safe text) := inferInstanceAs (Decidable (_ ∧ _))

/-- A character is written as itself, or by one of a few texts that are safe. -/
theorem safe_escapeChar (c : Char) : Safe (escapeChar c).toList := by
  unfold escapeChar
  split
  case h_17 =>
    rw [String.toList_singleton]
    exact ⟨⟨.singleton _, by simp_all⟩, ⟨.singleton _, by simp_all⟩⟩
  all_goals decide

theorem safe_escapeChars (text : List Char) : Safe (escapeChars text) := by
  induction text with
  | nil => decide
  | cons c rest ih =>
    have safe : Safe (if c = '-' ∧ rest.head? = some '-' then "-" ++ braced "" else escapeChar c).toList := by
      split
      · decide
      · exact safe_escapeChar c
    exact ⟨safe.1.append ih.1, safe.2.append ih.2⟩

theorem safe_escape (text : String) : Safe (escape text).toList := by
  rw [escape, String.toList_ofList]
  exact safe_escapeChars text.toList

/-- The characters of a text as they are written by commands alone, the letter for the empty word as itself. -/
def commands : List Char → List Char
  | [] => []
  | c :: rest =>
    (if c = '-' ∧ rest.head? = some '-' then "-" ++ braced ""
      else if c = 'ε' then String.singleton c else escapeChar c).toList ++ commands rest

/-- A text with a formula for every letter that stands for the empty word. -/
def withFormulas (text : List Char) : List Char :=
  text.flatMap fun c => if c = 'ε' then "$\\epsilon$".toList else [c]

theorem withFormulas_escapeChar {c : Char} (other : c ≠ 'ε') :
    withFormulas (escapeChar c).toList = (escapeChar c).toList := by
  unfold escapeChar
  split
  case h_17 => rw [String.toList_singleton, withFormulas, List.flatMap_singleton, if_neg other]
  case h_16 => exact absurd rfl other
  all_goals rfl

/-- It makes no difference that the letter for the empty word is written as a formula only when all else is escaped. -/
theorem escapeChars_eq_withFormulas (text : List Char) : escapeChars text = withFormulas (commands text) := by
  induction text with
  | nil => rfl
  | cons c rest ih =>
    rw [escapeChars, commands, withFormulas, List.flatMap_append, ← withFormulas, ← withFormulas, ← ih]
    congr 1
    split
    · rfl
    · split
      · next epsilon =>
        subst epsilon
        rfl
      · next other => exact (withFormulas_escapeChar other).symm

/-! ### Reading a table -/

/-- The rows of cells that stand between two marks, for a reader that cuts at every end of a row and at every
    ampersand between spaces. -/
def cells? (above below text : String) : Option (List (List String)) :=
  (between? above.toList below.toList text.toList).map fun body =>
    (cut rowEnd.toList body).map fun line => (cut " & ".toList line).map String.ofList

theorem rowSafe_braced {text : String} (safe : RowSafe text.toList) : RowSafe (braced text).toList := by
  rw [braced, String.toList_append, String.toList_append]
  exact (RowSafe.append (by decide) safe).append (by decide)

theorem toList_row (cells : List String) :
    (row cells).toList = " & ".toList.intercalate (cells.map fun cell => (escape cell).toList) := by
  rw [row, String.toList_intercalate, List.map_map]
  rfl

theorem rowSafe_row (cells : List String) : RowSafe (row cells).toList := by
  rw [toList_row]
  refine .intercalate (by decide) fun piece member => ?_
  obtain ⟨cell, _, rfl⟩ := List.mem_map.mp member
  exact (safe_escape cell).1

theorem cut_row {cells : List String} (nonempty : cells ≠ []) :
    (cut " & ".toList (row cells).toList).map String.ofList = cells.map escape := by
  have first : ∀ piece ∈ cells.map fun cell => (escape cell).toList, FirstBehind " & ".toList piece := by
    intro piece member
    obtain ⟨cell, _, rfl⟩ := List.mem_map.mp member
    exact (safe_escape cell).2.firstBehind
  rw [toList_row, cut_intercalate (by decide) (List.map_eq_nil_iff.not.mpr nonempty) first, List.map_map]
  exact List.map_congr_left fun cell _ => String.ofList_toList

theorem cut_rows {cells : List (List String)} (nonempty : cells ≠ []) :
    cut rowEnd.toList (rows cells).toList = cells.map fun line => (row line).toList := by
  have first : ∀ piece ∈ cells.map fun line => (row line).toList, FirstBehind rowEnd.toList piece := by
    intro piece member
    obtain ⟨line, _, rfl⟩ := List.mem_map.mp member
    exact (rowSafe_row line).firstBehind _
  have joined : (rows cells).toList = rowEnd.toList.intercalate (cells.map fun line => (row line).toList) := by
    rw [rows, String.toList_intercalate, List.map_map]
    rfl
  rw [joined, cut_intercalate (by decide) (List.map_eq_nil_iff.not.mpr nonempty) first]

/-- Between its marks, a table has the rows and cells that were written. -/
theorem cells?_rows {front above below : String} {cells : List (List String)} (visible : above.toList ≠ [])
    (first : FirstBehind above.toList front.toList) (nonempty : cells ≠ []) (filled : ∀ line ∈ cells, line ≠ []) :
    cells? above below (front ++ above ++ rows cells ++ below) = some (cells.map fun line => line.map escape) := by
  have body : between? above.toList below.toList (front ++ above ++ rows cells ++ below).toList =
      some (rows cells).toList := by
    simp only [String.toList_append, List.append_assoc]
    exact between?_append first visible _
  rw [cells?, body, Option.map_some, cut_rows nonempty, List.map_map]
  exact congrArg _ (List.map_congr_left fun line member => cut_row (filled line member))

end Latex

end Predictive.Text

namespace Predictive

open Text.Latex

/-! ### Reports -/

theorem Report.Actions.rowSafe_latexHeader (table : Table) : RowSafe (latexHeader table).toList := by
  have shape : RowSafe ("c" ++ String.join (table.lookaheads.map fun _ => "|l")).toList := by
    rw [String.toList_append]
    refine .append (by decide) ?_
    induction table.lookaheads with
    | nil => decide
    | cons lookahead rest ih =>
      rw [List.map_cons, String.join_cons, String.toList_append]
      exact .append (by decide) ih
  rw [latexHeader, String.toList_intercalate, List.map_cons]
  refine .intercalate (by decide) fun piece member => ?_
  rcases List.mem_cons.mp member with rfl | named
  · simp only [String.toList_append]
    exact ((RowSafe.append (by decide) (by decide)).append (rowSafe_braced shape)).append (by decide)
  · obtain ⟨_, column, rfl⟩ := List.mem_map.mp named
    obtain ⟨name, _, rfl⟩ := List.mem_map.mp column
    rw [String.toList_append]
    exact .append (by decide) (rowSafe_braced (safe_escape name).1)

/-- A LaTeX table that is cut at every end of a row and every ampersand between spaces shows the texts of its cells as
    they are written, row by row: the table of actions with a row for each of its own and one cell more than it has
    lookaheads in each, a trace with a row for the header and for each state and four cells in each. -/
theorem latex_keeps_shape :
    (∀ table : Table,
      cells? "\\\\\\hline\n" "\n\\end\x7barray\x7d\\]" (Report.Actions.latex table) =
        some ((Report.Actions.rows table).map fun row => row.map escape) ∧
      (Report.Actions.rows table).length = table.rows.length ∧
      ∀ row ∈ Report.Actions.rows table, row.length = table.lookaheads.length + 1) ∧
    ∀ trace : Trace,
      cells? "\\begin\x7btabular\x7d\x7br|l|l|l\x7d\n" "\\\\\n\\end\x7btabular\x7d" (Report.Trace.latex trace) =
        some ((Report.Trace.cells trace).map fun row => row.map escape) ∧
      (Report.Trace.cells trace).length = trace.states.length + 1 ∧
      ∀ row ∈ Report.Trace.cells trace, row.length = 4 := by
  refine ⟨fun table => ⟨?_, Report.Actions.length_rows, fun row => Report.Actions.length_of_mem_rows⟩,
    fun trace => ⟨?_, Report.Trace.length_cells, fun row => Report.Trace.length_of_mem_cells⟩⟩
  · have first : Text.FirstBehind "\\\\\\hline\n".toList (Report.Actions.latexHeader table).toList :=
      (Report.Actions.rowSafe_latexHeader table).firstBehind _
    have filled : ∀ row ∈ Report.Actions.rows table, row ≠ [] := by
      rintro row member rfl
      exact absurd (Report.Actions.length_of_mem_rows member) (by simp)
    have written : Report.Actions.latex table = Report.Actions.latexHeader table ++ "\\\\\\hline\n" ++
        rows (Report.Actions.rows table) ++ "\n\\end\x7barray\x7d\\]" := by
      simp only [Report.Actions.latex, String.append_assoc]
      rfl
    have nonempty : Report.Actions.rows table ≠ [] := by simp [Report.Actions.rows, Table.rows]
    rw [written, cells?_rows (by decide) first nonempty filled]
  · have first : Text.FirstBehind "\\begin\x7btabular\x7d\x7br|l|l|l\x7d\n".toList "".toList :=
      Text.firstBehind_nil
    have filled : ∀ row ∈ Report.Trace.cells trace, row ≠ [] := by
      rintro row member rfl
      exact absurd (Report.Trace.length_of_mem_cells member) (by simp)
    have written : Report.Trace.latex trace = "" ++ "\\begin\x7btabular\x7d\x7br|l|l|l\x7d\n" ++
        rows (Report.Trace.cells trace) ++ "\\\\\n\\end\x7btabular\x7d" := by
      simp only [Report.Trace.latex, String.append_assoc]
      rfl
    have nonempty : Report.Trace.cells trace ≠ [] := List.cons_ne_nil _ _
    rw [written, cells?_rows (by decide) first nonempty filled]

end Predictive
