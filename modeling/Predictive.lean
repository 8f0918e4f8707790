import Predictive.Main
import Predictive.Proofs.NameKinds
import Predictive.Proofs.Declarations
import Predictive.Proofs.FirstSearch
import Predictive.Proofs.HeadCycles
import Predictive.Proofs.CycleDetection
import Predictive.Proofs.ChainSearch
import Predictive.Proofs.Alternatives
import Predictive.Proofs.MachineSteps
import Predictive.Proofs.PlainMachine
import Predictive.Proofs.Lockstep
import Predictive.Proofs.ReachableStates
import Predictive.Proofs.Spelling
import Predictive.Proofs.Soundness
import Predictive.Proofs.Rewriting
import Predictive.Proofs.FirstMeaning
import Predictive.Proofs.LL1
import Predictive.Proofs.Completeness
import Predictive.Proofs.MatchedTokens
import Predictive.Proofs.ViablePrefix
import Predictive.Proofs.RejectionLookahead
import Predictive.Proofs.LeftRecursion
import Predictive.Proofs.LinearRuns
import Predictive.Proofs.SampleGrammars
import Predictive.Proofs.StepCounts
import Predictive.Proofs.EmptyInput
import Predictive.Proofs.Register
import Predictive.Proofs.Words
import Predictive.Proofs.Reading
import Predictive.Proofs.RuleLines
import Predictive.Proofs.TextOutcomes
import Predictive.Proofs.TextFormat
import Predictive.Proofs.RoundTrip
import Predictive.Proofs.RuleDeclarations
import Predictive.Proofs.Layouts
import Predictive.Proofs.Lexemes
import Predictive.Proofs.Items
import Predictive.Proofs.ReadTerminals
import Predictive.Proofs.DeclarationOrder
import Predictive.Proofs.TableEntries
import Predictive.Proofs.LeastSets
import Predictive.Proofs.FirstExactness
import Predictive.Proofs.CommandLines
import Predictive.Proofs.Placeholders
import Predictive.Proofs.TokenSpans
import Predictive.Proofs.JsonText
import Predictive.Proofs.DistinctOutcomes
import Predictive.Proofs.LatexTables
import Predictive.Proofs.AlignedColumns
import Predictive.Proofs.ReportColumns
