import Predictive.Text.CombiningMark
import Predictive.Text.Printable

/-!
Quoted forms for messages. Between the quotes every character that would not show is written as an
escape: the usual short escapes, and braced hexadecimal code points for characters without a visible
form. A combining mark is escaped as well unless it follows a character that was written as itself,
since only then does it show as part of that character.
-/
namespace Predictive.Text

/-- The escape that gives a code point in braced hexadecimal. -/
def codePointEscape (c : Char) : List Char :=
  '\\' :: 'u' :: '\x7b' :: Nat.toDigits 16 c.toNat ++ ['\x7d']

/-- The escape for a character between two quotes, or nothing if the character is written as itself.
    The flag tells whether the character before it, if any, was written as itself. -/
def escape? (quote : Char) (joins : Bool) (c : Char) : Option (List Char) :=
  if c = '\x00' then some ['\\', '0'] else
  if c = '\t' then some ['\\', 't'] else
  if c = '\r' then some ['\\', 'r'] else
  if c = '\n' then some ['\\', 'n'] else
  if c = '\\' ∨ c = quote then some ['\\', c] else
  if isPrintable c ∧ (joins ∨ ¬ isCombiningMark c) then none else
  some (codePointEscape c)

/-- The characters between two quotes, each as itself or escaped. -/
def escapeAll (quote : Char) : (joins : Bool) → List Char → List Char
  | _, [] => []
  | joins, c :: rest => match escape? quote joins c with
    | some written => written ++ escapeAll quote false rest
    | none => c :: escapeAll quote true rest

/-- A text between two quotes. -/
def enclose (quote : Char) (text : List Char) : String :=
  String.ofList (quote :: escapeAll quote false text ++ [quote])

/-- A character in single quotes. -/
def quoteChar (c : Char) : String := enclose '\x27' [c]

/-- A text in double quotes. -/
def quote (text : String) : String := enclose '\x22' text.toList

/-- Quoted texts in square brackets, separated by commas. -/
def quoteList (texts : List String) : String :=
  "[" ++ ", ".intercalate (texts.map quote) ++ "]"

/-- Quoted keys with their quoted values in braces, separated by commas. -/
def quoteMap (entries : List (String × String)) : String :=
  "\x7b" ++ ", ".intercalate (entries.map fun entry => quote entry.1 ++ ": " ++ quote entry.2) ++ "\x7d"

end Predictive.Text
