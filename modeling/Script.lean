import Script.Text
import Script.Assoc
import Script.Token.Basic
import Script.Token.Lexer
import Script.Token.Scanner
import Script.Operator
import Script.Syntax.Basic
import Script.Syntax.Error
import Script.Syntax.Printer
import Script.Syntax.Parser
import Script.Builtin
import Script.Sink
import Script.Error
import Script.Value.Kind
import Script.Value.Key
import Script.Value.Basic
import Script.Value.Printer
import Script.Scope
import Script.Machine
import Script.Eval.Operator
import Script.Eval.Builtin
import Script.Eval.Basic
import Script.Eval.Program
import Script.Source
import Script.Repl
import Script.CommandLine
import Script.Main
import Script.Proofs.Grammar
import Script.Proofs.LeadingTokens
import Script.Proofs.ParserSoundness
import Script.Proofs.ParserCompleteness
import Script.Proofs.TokenSpelling
import Script.Proofs.Coherence
import Script.Proofs.CanonicalText
import Script.Proofs.Activity
import Script.Proofs.RelatedValues
import Script.Proofs.Simulations
import Script.Proofs.SimulatedRuns
import Script.Proofs.DataInvariants
import Script.Proofs.Markers
import Script.Proofs.Effects
import Script.Proofs.Unwinding
import Script.Proofs.EvaluationRules
import Script.Proofs.Termination
import Script.Proofs.MatchingValues
import Script.Proofs.Correspondence
import Script.Proofs.HeldEnvironments
import Script.Proofs.OuterLinks
import Script.Proofs.LexicalScope
import Script.Proofs.CallDepth
import Script.Proofs.EarlyStops
import Script.Proofs.CallLimits
import Script.Proofs.LimitedOutput
import Script.Proofs.SourceCoverage
import Script.Proofs.Readings
import Script.Proofs.ParserTermination
import Script.Proofs.Concatenation
import Script.Proofs.Juxtaposition
import Script.Proofs.TextStability
import Script.Proofs.SessionComposition
import Script.Proofs.TokenSpacing
import Script.Proofs.MapLiterals
import Script.Proofs.ListSequences
import Script.Proofs.CommandLineRuns
import Script.Proofs.HostStates
import Script.Proofs.RepeatedCalls
import Script.Proofs.IntegerArithmetic
import Script.Proofs.FunctionBodies
import Script.Proofs.CodeParts
import Script.Proofs.ReadableValues
import Script.Proofs.RecursionLimit
import Script.Proofs.FittingTokens
import Script.Proofs.ScopeChains
import Script.Proofs.ScannerPlaces
import Script.Proofs.Histories
import Script.Proofs.FreshValues
import Script.Proofs.IdentityEquality
