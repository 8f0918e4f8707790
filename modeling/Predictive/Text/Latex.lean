/-!
Text inside LaTeX. Characters with a meaning of their own are written as commands or between braces, a
hyphen before another one is kept from joining it, and the letter that stands for the empty word is
written as a formula. Rows of a table end in two backslashes and cells are separated by an ampersand.
-/
namespace Predictive.Text.Latex

/-- A text in braces. -/
def braced (text : String) : String := "\x7b" ++ text ++ "\x7d"

/-- How a character is written on its own. -/
def escapeChar (c : Char) : String :=
  match c with
  | '&' => "\\&"
  | '%' => "\\%"
  | '$' => "\\$"
  | '#' => "\\#"
  | '_' => "\\_"
  | '\x7b' => "\\\x7b"
  | '\x7d' => "\\\x7d"
  | '[' => braced "["
  | ']' => braced "]"
  | '~' => "\\textasciitilde" ++ braced ""
  | '^' => "\\textasciicircum" ++ braced ""
  | '<' => "\\textless" ++ braced ""
  | '>' => "\\textgreater" ++ braced ""
  | '!' => "!" ++ braced ""
  | '\\' => "\\textbackslash" ++ braced ""
  | 'ε' => "$\\epsilon$"
  | c => String.singleton c

/-- The characters of a text as they are written. -/
def escapeChars : List Char → List Char
  | [] => []
  | c :: rest =>
    (if c = '-' ∧ rest.head? = some '-' then "-" ++ braced "" else escapeChar c).toList ++ escapeChars rest

/-- A text as it is written. -/
def escape (text : String) : String := String.ofList (escapeChars text.toList)

/-- The command that begins a part of a document. -/
def opening (environment : String) : String := "\\begin" ++ braced environment

/-- The command that ends a part of a document. -/
def closing (environment : String) : String := "\\end" ++ braced environment

/-- What ends a row. -/
def rowEnd : String := "\\\\\n"

/-- The cells of a row as they are written. -/
def row (cells : List String) : String := " & ".intercalate (cells.map escape)

/-- Rows, each but the last one with its end. -/
def rows (cells : List (List String)) : String := rowEnd.intercalate (cells.map row)

end Predictive.Text.Latex
