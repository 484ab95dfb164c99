import MiniPascal.Main
import MiniPascal.Scope.Tree
import MiniPascal.Session
import MiniPascal.Syntax.Dump
import MiniPascal.Syntax.Outline
import MiniPascal.Proofs.Parser.Language
import MiniPascal.Proofs.Resolution
import MiniPascal.Proofs.CallStack
import MiniPascal.Proofs.Execution.Frame
import MiniPascal.Proofs.Nesting
import MiniPascal.Proofs.Execution.StaticChain
import MiniPascal.Proofs.Semantics
import MiniPascal.Proofs.Semantics.Representation
import MiniPascal.Proofs.Semantics.Elaboration
import MiniPascal.Proofs.Semantics.Simulation
import MiniPascal.Proofs.Token.Splice
import MiniPascal.Proofs.Grammar.Completion
import MiniPascal.Proofs.Parser.Tracks
import MiniPascal.Proofs.Token.Spelling
import MiniPascal.Proofs.Parser.Failure
import MiniPascal.Proofs.Syntax.Relabel
import MiniPascal.Proofs.Repl.Entry
import MiniPascal.Proofs.Parser.Layout
import MiniPascal.Proofs.Repl.Lines
import MiniPascal.Proofs.Syntax.Names
import MiniPascal.Proofs.Resolution.WellScoped
import MiniPascal.Proofs.Resolution.Tables
import MiniPascal.Proofs.Parser.Relabel
import MiniPascal.Proofs.Token.Writing
import MiniPascal.Proofs.Parser.Agreement
import MiniPascal.Proofs.Resolution.Relabel
import MiniPascal.Proofs.Semantics.Bare
import MiniPascal.Proofs.Pipeline
import MiniPascal.Proofs.Rendering
import MiniPascal.Proofs.Rendering.Program
import MiniPascal.Proofs.Rendering.RoundTrip
import MiniPascal.Proofs.Execution.Steps
import MiniPascal.Proofs.Execution.Depth
import MiniPascal.Proofs.Execution.Recursion
import MiniPascal.Proofs.Execution.Environment
import MiniPascal.Proofs.Execution.MostRecent
import MiniPascal.Proofs.Parser.Earliest
import MiniPascal.Proofs.Session
import MiniPascal.Proofs.Execution.Returns
import MiniPascal.Proofs.Arithmetic
import MiniPascal.Proofs.Token.Tiling
import MiniPascal.Proofs.Execution.Members
import MiniPascal.Proofs.Syntax.Alike
import MiniPascal.Proofs.Resolution.Alike
import MiniPascal.Proofs.Execution.Alike
import MiniPascal.Proofs.Parser.Comments
import MiniPascal.Proofs.Syntax.SExpression
import MiniPascal.Proofs.Syntax.Dump
import MiniPascal.Proofs.Resolution.Thorough
import MiniPascal.Proofs.Resolution.Bodies
import MiniPascal.Proofs.Resolution.Clashes
import MiniPascal.Proofs.Resolution.Reliance
import MiniPascal.Proofs.Scope.Tree
import MiniPascal.Proofs.Rendering.Tags
