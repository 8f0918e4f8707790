import Predictive.Grammar.Basic
import Predictive.Text.Blank
import Std.Data.TreeMap

/-!
Tokens of expressions. A first pass splits an expression at blanks into lexemes: maximal runs of letters,
maximal runs of digits, and single operator characters; letters and digits are those of ASCII. A second
pass gives every number and every identifier a placeholder, counted from 0 within its kind, and remembers
what each placeholder stands for, so that a grammar over a finite vocabulary can describe the tokens. The
counters have 32 bits and wrap around; a build that checks for overflow stops there instead, and up to there
it numbers alike. Letter runs that are keywords stand for themselves.
-/
namespace Predictive

/-- The kinds of tokens. Keywords are operators. -/
inductive TokenKind where
  | number
  | identifier
  | operator
deriving DecidableEq, Repr

/-- A piece of an expression and the number of characters before it. -/
structure Lexeme where
  kind : TokenKind
  source : List Char
  position : Nat
deriving DecidableEq, Repr

/-- A lexeme whose text is a placeholder unless it is an operator. -/
structure Token where
  kind : TokenKind
  text : String
  position : Nat
deriving DecidableEq, Repr

/-- What an expression consists of. -/
structure Tokenization where
  tokens : List Token
  /-- The source text of every placeholder, in the order of placeholders. -/
  substitutions : Std.TreeMap String String

/-- What counts as a token, and what placeholders are named after. -/
structure Lexer where
  numberName : String
  identifierName : String
  operators : List Char
  keywords : List String := []
deriving DecidableEq, Repr

namespace Lexer

/-- The one character of a text that has no more and no less. -/
def single? (text : String) : Option Char :=
  match text.toList with
  | [c] => some c
  | _ => none

/-- The terminals that an expression spells in letters: all that have no other characters, except the
    two that stand for numbers and identifiers. -/
def keywordsOf (g : Grammar) : List String :=
  g.terminals.filter fun name =>
    name.toList.all Char.isAlpha ∧ name ≠ numberTerminal ∧ name ≠ identifierTerminal

/-- The lexer whose operators and keywords are terminals of a grammar. -/
def ofGrammar (g : Grammar) : Lexer where
  numberName := numberTerminal
  identifierName := identifierTerminal
  operators := g.terminals.filterMap single?
  keywords := keywordsOf g

/-- The kind of a letter run. -/
def wordKind (lexer : Lexer) (source : List Char) : TokenKind :=
  if String.ofList source ∈ lexer.keywords then .operator else .identifier

/-- Splits an expression into lexemes, where the given number of characters stands before it. A
    character that no lexeme begins with is an error, the first such character winning. -/
def lexemes (lexer : Lexer) (position : Nat) : (expression : List Char) → Except Error (List Lexeme)
  | [] => .ok []
  | c :: rest =>
    if Text.isBlank c then lexer.lexemes (position + 1) rest else
    if c.isAlpha then
      let source := c :: rest.takeWhile Char.isAlpha
      (lexer.lexemes (position + source.length) (rest.dropWhile Char.isAlpha)).map
        ({ kind := lexer.wordKind source, source, position } :: ·)
    else if c.isDigit then
      let source := c :: rest.takeWhile Char.isDigit
      (lexer.lexemes (position + source.length) (rest.dropWhile Char.isDigit)).map
        ({ kind := .number, source, position } :: ·)
    else if c ∈ lexer.operators then
      (lexer.lexemes (position + 1) rest).map ({ kind := .operator, source := [c], position } :: ·)
    else .error (.unrecognized c position)
termination_by expression => expression.length
decreasing_by
  all_goals simp only [List.length_cons]
  · omega
  · exact Nat.lt_succ_of_le (List.dropWhile_sublist _).length_le
  · exact Nat.lt_succ_of_le (List.dropWhile_sublist _).length_le
  · omega

/-- The placeholder for a number or identifier, where its counter stands at an index. -/
def placeholder (name : String) (index : Int32) : String := name ++ toString index

/-- Turns lexemes into tokens, where the counters of numbers and identifiers start as given. Behind the
    largest index a counter goes on with the smallest, which is negative. Also lists every placeholder with
    its source text, in the order of tokens. -/
def number (lexer : Lexer) (numbers identifiers : Int32) : List Lexeme → List Token × List (String × String)
  | [] => ([], [])
  | { kind, source, position } :: rest => match kind with
    | .number =>
      let text := placeholder lexer.numberName numbers
      let (tokens, sources) := lexer.number (numbers + 1) identifiers rest
      ({ kind, text, position } :: tokens, (text, String.ofList source) :: sources)
    | .identifier =>
      let text := placeholder lexer.identifierName identifiers
      let (tokens, sources) := lexer.number numbers (identifiers + 1) rest
      ({ kind, text, position } :: tokens, (text, String.ofList source) :: sources)
    | .operator =>
      let (tokens, sources) := lexer.number numbers identifiers rest
      ({ kind, text := String.ofList source, position } :: tokens, sources)

/-- Splits an expression into tokens. Of two sources for one placeholder the later one is kept. -/
def tokenize (lexer : Lexer) (expression : String) : Except Error Tokenization :=
  (lexer.lexemes 0 expression.toList).map fun found =>
    let (tokens, sources) := lexer.number 0 0 found
    { tokens, substitutions := sources.foldl (fun map (key, source) => map.insert key source) ∅ }

/-- The terminal that a token stands for. -/
def normalizeToken (lexer : Lexer) (token : Token) : String :=
  match token.kind with
  | .number => lexer.numberName
  | .identifier => lexer.identifierName
  | .operator => token.text

/-- The terminals that tokens stand for. -/
def normalize (lexer : Lexer) (tokens : List Token) : List String := tokens.map lexer.normalizeToken

/-- The terminals that an expression stands for. -/
def read (lexer : Lexer) (expression : String) : Except Error (List String) :=
  (lexer.tokenize expression).map fun tokenization => lexer.normalize tokenization.tokens

end Lexer

end Predictive
