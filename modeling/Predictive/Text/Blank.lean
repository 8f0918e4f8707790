/-!
Blanks, words and lines of a text. Blank characters are those of the Unicode property White_Space, so
a no-break space separates words and a zero-width space does not. Lines end at a line feed; a carriage
return before it belongs to the line end, and a text that ends in a line feed has no empty last line.
-/
namespace Predictive.Text

/-- The closed ranges of code points with the property White_Space. -/
def blankRanges : List (Nat × Nat) :=
  [(0x09, 0x0D), (0x20, 0x20), (0x85, 0x85), (0xA0, 0xA0), (0x1680, 0x1680), (0x2000, 0x200A),
    (0x2028, 0x2029), (0x202F, 0x202F), (0x205F, 0x205F), (0x3000, 0x3000)]

/-- The character is white space. -/
def isBlank (c : Char) : Bool :=
  blankRanges.any fun range => range.1 ≤ c.toNat && c.toNat ≤ range.2

/-- The maximal runs of characters that are not blank, in order. -/
def words (text : List Char) : List (List Char) :=
  (text.splitOnP isBlank).filter (· ≠ [])

/-- A line without the carriage return that ends it, if there is one. -/
def withoutReturn {α : Type} [DecidableEq α] (carriageReturn : α) (line : List α) : List α :=
  if line.getLast? = some carriageReturn then line.dropLast else line

/-- The lines among pieces that were separated by line feeds: every piece but the last was ended by
    one, and an empty last piece is no line. -/
def linesOfPieces {α : Type} [DecidableEq α] (carriageReturn : α) : List (List α) → List (List α)
  | [] => []
  | [last] => if last = [] then [] else [last]
  | piece :: rest => withoutReturn carriageReturn piece :: linesOfPieces carriageReturn rest

/-- The lines of characters or bytes, without their ends. -/
def linesEndedBy {α : Type} [DecidableEq α] (lineFeed carriageReturn : α) (text : List α) : List (List α) :=
  linesOfPieces carriageReturn (text.splitOn lineFeed)

/-- The lines of a text, without their ends. -/
def lines (text : List Char) : List (List Char) := linesEndedBy '\n' '\r' text

end Predictive.Text
