import ModelFinder.Digits
import ModelFinder.Text.Blank
import ModelFinder.Text.Hidden
import ModelFinder.Text.Numeral
import ModelFinder.Text.Quoted
import ModelFinder.Text.Utf8
import ModelFinder.Syntax.Basic
import ModelFinder.Syntax.Symbols
import ModelFinder.Syntax.Outline
import ModelFinder.Syntax.Alike
import ModelFinder.Syntax.Formation
import ModelFinder.Error
import ModelFinder.Grouping
import ModelFinder.Index
import ModelFinder.IntRange
import ModelFinder.Universe
import ModelFinder.Tuple
import ModelFinder.TupleSet
import ModelFinder.Bounds
import ModelFinder.Instance
import ModelFinder.Scope
import ModelFinder.Circuit.Bit
import ModelFinder.Circuit.Gates
import ModelFinder.Circuit.Reachable
import ModelFinder.Circuit.Word.Basic
import ModelFinder.Circuit.Word.Comparison
import ModelFinder.Circuit.Word.Arithmetic
import ModelFinder.Circuit.Word.Shift
import ModelFinder.Circuit.Matrix
import ModelFinder.Cnf.Basic
import ModelFinder.Cnf.Encoding
import ModelFinder.Allocation
import ModelFinder.Leaves
import ModelFinder.Compile
import ModelFinder.Evaluate
import ModelFinder.Backend.Basic
import ModelFinder.Backend.Search.Splitting
import ModelFinder.Backend.Search.Knowledge
import ModelFinder.Backend.Search.Trail
import ModelFinder.Backend.Search.Propagation
import ModelFinder.Backend.Search.Explanation
import ModelFinder.Backend.Search.Guidance
import ModelFinder.Backend.Search.Learning
import ModelFinder.Backend.Search
import ModelFinder.Backend.InProcess
import ModelFinder.Backend.Scripted
import ModelFinder.Backend.Disk
import ModelFinder.Backend.External
import ModelFinder.Solution
import ModelFinder.Solve
import ModelFinder.Proofs.Circuit.Gates
import ModelFinder.Proofs.Circuit.Soundness
import ModelFinder.Proofs.Cnf.Clauses
import ModelFinder.Proofs.Cnf.Encoding
import ModelFinder.Proofs.Cnf.Roots
import ModelFinder.Proofs.Circuit.Word.Basic
import ModelFinder.Proofs.Circuit.Word.Addition
import ModelFinder.Proofs.Circuit.Word.Comparison
import ModelFinder.Proofs.Circuit.Word.Multiplication
import ModelFinder.Proofs.Circuit.Word.Division
import ModelFinder.Proofs.Circuit.Word.Shift
import ModelFinder.Proofs.Circuit.Word.Sum
import ModelFinder.Proofs.IntRange
import ModelFinder.Proofs.Circuit.Word.Constant
import ModelFinder.Proofs.Compile.Operators
import ModelFinder.Proofs.Outcomes
import ModelFinder.Proofs.Index
import ModelFinder.Proofs.TupleSet
import ModelFinder.Proofs.Circuit.Matrix.Basic
import ModelFinder.Proofs.Circuit.Matrix.Operations
import ModelFinder.Proofs.Circuit.Matrix.Join
import ModelFinder.Proofs.Entries
import ModelFinder.Proofs.Bounds
import ModelFinder.Proofs.Requests
import ModelFinder.Proofs.Circuit.Matrix.Counting
import ModelFinder.Proofs.Allocation
import ModelFinder.Proofs.Leaves
import ModelFinder.Proofs.Compile.Judgement
import ModelFinder.Proofs.Compile.Sets
import ModelFinder.Proofs.Decoding
import ModelFinder.Proofs.Compile.Casts
import ModelFinder.Proofs.Compile.Ground
import ModelFinder.Proofs.Compile.Agreement
import ModelFinder.Proofs.Solving.Backend
import ModelFinder.Proofs.Solving.Problem
import ModelFinder.Proofs.Solving.Verdict
import ModelFinder.Proofs.Circuit.Operations
import ModelFinder.Proofs.Circuit.Closure.Basic
import ModelFinder.Proofs.Correspondence
import ModelFinder.Proofs.Circuit.Closure.Words
import ModelFinder.Proofs.Circuit.Closure.Matrices
import ModelFinder.Proofs.Compile.Closure
import ModelFinder.Proofs.Solving.Enumeration
import ModelFinder.Proofs.Circuit.Success
import ModelFinder.Proofs.Compile.Folding.Judgement
import ModelFinder.Proofs.Compile.Folding.Formulas
import ModelFinder.Proofs.Compile.Folding.Expressions
import ModelFinder.Proofs.Compile.Folding.Integers
import ModelFinder.Proofs.Compile.Folding.Terms
import ModelFinder.Proofs.Solving.Folding
import ModelFinder.Proofs.Semantics.Sequences
import ModelFinder.Proofs.Semantics.Interpretation
import ModelFinder.Proofs.Semantics.Denotation
import ModelFinder.Proofs.Semantics.Judgement
import ModelFinder.Proofs.Semantics.Sets
import ModelFinder.Proofs.Semantics.Integers
import ModelFinder.Proofs.Semantics.Expressions
import ModelFinder.Proofs.Semantics.Formulas
import ModelFinder.Proofs.Semantics.Terms
import ModelFinder.Proofs.Semantics.Evaluation
import ModelFinder.Proofs.Tuple
import ModelFinder.Proofs.Circuit.History
import ModelFinder.Proofs.Circuit.Arithmetic
import ModelFinder.Proofs.Circuit.Regularity
import ModelFinder.Proofs.Cnf.Gates
import ModelFinder.Proofs.Cnf.Listing
import ModelFinder.Proofs.Cnf.Layout
import ModelFinder.Proofs.Cnf.Shape
import ModelFinder.Proofs.Circuit.Repetition
import ModelFinder.Proofs.Compile.Repetition
import ModelFinder.Proofs.Circuit.Sharing
import ModelFinder.Proofs.Safety
import ModelFinder.Proofs.Circuit.Dimensions.Words
import ModelFinder.Proofs.Circuit.Dimensions.Matrices
import ModelFinder.Proofs.Compile.Dimensions
import ModelFinder.Proofs.Semantics.Dimensions
import ModelFinder.Proofs.Arities
import ModelFinder.Proofs.Relational
import ModelFinder.Proofs.Solving.Loading
import ModelFinder.Proofs.Solving.Closing
import ModelFinder.Proofs.Solving.Refusal
import ModelFinder.Proofs.Solving.Failure
import ModelFinder.Proofs.Solving.Contradiction
import ModelFinder.Proofs.Scoping.Grounding
import ModelFinder.Proofs.Casts.Evaluation
import ModelFinder.Proofs.Compile.Widths
import ModelFinder.Proofs.Casts.RoundTrip
import ModelFinder.Proofs.Circuit.Relations
import ModelFinder.Proofs.Circuit.Division
import ModelFinder.Cnf.Reader
import ModelFinder.Proofs.Backend.Printing
import ModelFinder.Proofs.Cnf.Dimacs
import ModelFinder.Proofs.Backend.InProcess
import ModelFinder.Proofs.Syntax.Normal
import ModelFinder.Proofs.Scoping.Errors
import ModelFinder.Proofs.Semantics.Alike
