import Predictive.Report.Format

/-!
What the command line asks for. Arguments come in three groups: outputs, options, and at most one file
with a grammar. An argument list that does not fit, or that asks for it, is answered by the help text.
-/
namespace Predictive.Command

/-- One thing to print. -/
inductive Output where
  | productions
  | firstSets
  | table
  /-- The outcome of each expression of the input. -/
  | outcomes
  /-- Every step of translating each expression of the input. -/
  | traces
deriving DecidableEq, Repr

/-- The output that an argument names. -/
def Output.ofArg? (arg : String) : Option Output :=
  match arg with
  | "prod" => some productions
  | "first" => some firstSets
  | "ll1" => some table
  | "parse" => some outcomes
  | "trace" => some traces
  | _ => none

/-- The output needs the lines of the input. -/
def Output.ReadsInput (output : Output) : Prop := output = .outcomes ∨ output = .traces

instance (output : Output) : Decidable output.ReadsInput := inferInstanceAs (Decidable (_ ∨ _))

/-- What to print, how, and from which file the grammar comes, if not the built-in one. -/
structure Request where
  outputs : List Output
  format : Report.Format
  grammarFile : Option String
deriving DecidableEq, Repr

namespace Request

/-- Takes the outputs that the arguments begin with. -/
def takeOutputs : List String → List Output × List String
  | [] => ([], [])
  | arg :: rest => match Output.ofArg? arg with
    | some output => let (outputs, others) := takeOutputs rest; (output :: outputs, others)
    | none => ([], arg :: rest)

/-- Takes the format options that the arguments begin with, of which the last one counts, or finds that
    help is asked for. -/
def takeFormat? (format : Report.Format) : List String → Option (Report.Format × List String)
  | [] => some (format, [])
  | arg :: rest => match arg with
    | "-h" => none
    | "--help" => none
    | "-l" => takeFormat? .latex rest
    | "-j" => takeFormat? .json rest
    | _ => some (format, arg :: rest)

/-- The request of a list of arguments, or nothing if help is to be printed. -/
def ofArgs? (args : List String) : Option Request :=
  let (outputs, afterOutputs) := takeOutputs args
  match takeFormat? .plain afterOutputs with
  | none => none
  | some (format, files) => match outputs, files with
    | [], _ => none
    | outputs, [] => some { outputs, format, grammarFile := none }
    | outputs, [file] => some { outputs, format, grammarFile := some file }
    | _, _ => none

end Request

/-- What the command line accepts. -/
def helpText : String := "Usage: ll1-translator outputs [options] [grammar file]
outputs:
  prod: Productions
  first: First sets
  ll1: LL(1) parsing table
  parse: Translate expressions read from stdin, one per line
  trace: Like parse, printing every parser step
options:
  -h: Print this help
  -l: Print in LaTeX format
  -j: Print in JSON format
Without a grammar file the built-in assignment grammar is used,
accepting expressions like 'x=y + 7; y=2+2; w=x+y;'.
"

end Predictive.Command
