import Predictive.Grammar.Build
import Predictive.Text.Blank

/-!
Grammars written as text, one non-terminal with its alternatives to a line: `A -> x y | z`. A line
that starts with a bar adds alternatives to the left side above it. The words on left sides are the
non-terminals, and the first of them is the start symbol; every other word but the spellings of the
empty word is a terminal. Rules are numbered from 1 as they are written. Reading first takes the text
apart into rule lines, where the first unreadable line is reported, and then declares left sides,
terminals and rules in this order, where the first refused declaration is reported.
-/
namespace Predictive

/-- A left side with the alternatives that one line gives it, each a list of words. -/
structure RuleLine where
  left : String
  alternatives : List (List String)
deriving DecidableEq, Repr

namespace RuleLine

/-- The pieces of a line between its arrows. -/
def splitArrows : List Char → List (List Char)
  | [] => [[]]
  | '-' :: '>' :: rest => [] :: splitArrows rest
  | c :: rest => (splitArrows rest).modifyHead (c :: ·)

/-- The words of each piece between bars. -/
def readAlternatives (text : List Char) : List (List String) :=
  (text.splitOn '|').map fun piece => (Text.words piece).map String.ofList

/-- The text behind a bar that only blanks stand before. -/
def afterBar? (text : List Char) : Option (List Char) :=
  match text.dropWhile Text.isBlank with
  | '|' :: rest => some rest
  | _ => none

/-- Reads a line that is not blank, after a line with the given left side. -/
def read (above : Option String) (line : List Char) : Except LineFault RuleLine :=
  match splitArrows line with
  | [left, right] => match Text.words left with
    | [] => .error .emptyLeftSide
    | [word] => .ok { left := String.ofList word, alternatives := readAlternatives right }
    | _ => .error .spacedLeftSide
  | [text] => match above, afterBar? text with
    | none, _ => .error .noLeftSide
    | some left, some right => .ok { left, alternatives := readAlternatives right }
    | some _, none => .error .noArrow
  | _ => .error .tooManyArrows

/-- Reads the lines that are not blank. Lines are counted from the given number, blank ones too. -/
def readAll (number : Nat) (above : Option String) : List (List Char) → Except Malformation (List RuleLine)
  | [] => .ok []
  | line :: rest =>
    if line.all Text.isBlank then readAll (number + 1) above rest else
    match read above line with
    | .error fault => .error (.line number fault)
    | .ok rule => (readAll (number + 1) (some rule.left) rest).map (rule :: ·)

/-- The alternatives of all lines, each with its left side. -/
def alternativesOf (rules : List RuleLine) : List (String × List String) :=
  rules.flatMap fun rule => rule.alternatives.map (rule.left, ·)

/-- The words of all right sides that name neither a left side nor the empty word. -/
def terminalWords (rules : List RuleLine) : List String :=
  (alternativesOf rules).flatMap fun alternative => alternative.2.filter fun word =>
    ¬ SpellsEpsilon word ∧ word ∉ rules.map RuleLine.left

/-- The declarations that rule lines stand for: left sides, terminals, then numbered rules. -/
def edits (rules : List RuleLine) : List Edit :=
  rules.map (.nonTerminal ·.left) ++ (terminalWords rules).map .terminal ++
    ((alternativesOf rules).zipIdx 1).map fun (alternative, id) => .production alternative.1 alternative.2 id

end RuleLine

namespace Grammar

/-- The grammar of a first rule line and the ones after it. -/
def ofRules (first : RuleLine) (rest : List RuleLine) : Except Malformation Grammar :=
  build first.left (RuleLine.edits (first :: rest))

/-- Reads a grammar. A text without rules is reported at its last line. -/
def ofText (text : String) : Except Malformation Grammar :=
  let lines := Text.lines text.toList
  match RuleLine.readAll 1 none lines with
  | .error fault => .error fault
  | .ok [] => .error (.line (max lines.length 1) .noProductions)
  | .ok (first :: rest) => ofRules first rest

/-- The productions of a grammar as text, one to a line. -/
def toText (g : Grammar) : String := "\n".intercalate (g.productions.map Production.text)

end Grammar

end Predictive
