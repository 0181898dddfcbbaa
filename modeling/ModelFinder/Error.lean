import ModelFinder.Syntax.Outline
import ModelFinder.Text.Quoted
import ModelFinder.Text.Report
/-!
Everything that can go wrong, by cause, and the wording of each cause.

An `Error` is either reported, to be handled by a caller, or a `violation`: a step that
was asked for although its precondition does not hold. Reported errors always have a
wording; a violation may have none.
-/

namespace ModelFinder

inductive ArgumentError where
  | emptyUniverse
  | repeatedAtom (atom : String)
  | emptyTuple
  | unknownAtom (atom : String)
  | emptyTupleList
  | mixedArities
  | indexOutOfRange (index arity : Nat)
  | foreignTuple
  | foreignTupleSets
  | foreignBounds
  | foreignIntBound
  | foreignRelationValue
  | unexpectedArity (expected found : Nat)
  | relationArity (found expected : Nat)
  | lowerNotWithinUpper (relation : String)
  | boundNotSingleAtom (value : Int) (tuples : String)
  | valueNotSingleAtom (value : Int)
  | tupleJoinEmpty (left right : Nat)
  | arityMismatch (left : Expr) (leftArity : Nat) (right : Expr) (rightArity : Nat)
  | notNary (op : Connective)
  | joinEmpty (left right : Nat)
  | unionOperand (operand : Expr) (expected : Nat)
  | nonUnarySum (operand : Expr)

inductive BackendFailure where
  | refusedClause (backend : String) (clause : List Int)
  | invalidLiteral (clause : List Int)
  | stoppedWithoutAnswer
  | scripted (text : String)
  | couldNotCreate (path : String)
  | couldNotWrite (path : String)
  | couldNotRun (executable : String)
  | unknownStatus (executable : String) (status : String)
  | unreadableValue (executable : String) (token : String)
  | noAnswer (executable : String) (exitCode : Option Int)
  | noModel (executable : String)

inductive Violation where
  | relationArity (arity : Nat)
  | variableArity
  | incompatibleArities (op : SetOp) (left right : Nat)
  | joinArity (left right : Nat)
  | emptyUnion
  | unionArities
  | branchArities (thenExpr : Expr) (elseExpr : Expr)
  | declarationArity (declared : Variable) (domain : Nat)
  | emptyDeclarations
  | emptySum
  | emptyWord
  | nonPositiveLabel
  | labelOutOfRange (count : Nat)
  | unrepresentableVariable
  | crash (text : String)
  | dimensionMismatch
  | outOfBounds
  | overflow

inductive Error where
  | unboundRelation (name : String)
  | unboundVariable (name : String)
  | invalidBitwidth (bitwidth : Nat)
  | divisionByZero (dividend : IntExpr) (op : IntOp) (divisor : IntExpr)
  | aborted (failure : BackendFailure)
  | invalidArgument (cause : ArgumentError)
  | violation (cause : Violation)

def showInts (values : List Int) : String := Outline.list (values.map toString)

def ArgumentError.message : ArgumentError → String
  | .emptyUniverse => "Cannot create an empty universe"
  | .repeatedAtom atom => s!"{atom} appears multiple times"
  | .emptyTuple => "Cannot create empty tuple"
  | .unknownAtom atom => s!"Atom {atom} not in universe"
  | .emptyTupleList => "Cannot create tuple set from empty array"
  | .mixedArities => "All tuples must have the same arity"
  | .indexOutOfRange index arity => s!"Index {index} out of range for arity {arity}"
  | .foreignTuple => "Tuple from different universe"
  | .foreignTupleSets => "Tuple sets from different universes"
  | .foreignBounds => "Tuple sets must be from the same universe"
  | .foreignIntBound => "Tuple set must be from the same universe"
  | .foreignRelationValue => "Tuple set from different universe"
  | .unexpectedArity expected found => s!"Expected arity {expected}, got {found}"
  | .relationArity found expected =>
    s!"Tuple set arity {found} does not match relation arity {expected}"
  | .lowerNotWithinUpper relation =>
    s!"Lower bound of {relation} is not a subset of its upper bound"
  | .boundNotSingleAtom value tuples =>
    s!"Integer {value} must be bound to a single unary tuple, got {tuples}"
  | .valueNotSingleAtom value => s!"Integer {value} must be bound to a single unary tuple"
  | .tupleJoinEmpty left right => s!"Join of arities {left} and {right} has arity < 1"
  | .arityMismatch left leftArity right rightArity =>
    "arity mismatch: " ++ left.outline ++ s!" has arity {leftArity} but " ++ right.outline
      ++ s!" has arity {rightArity}"
  | .notNary op => op.outline ++ " is not an n-ary operator"
  | .joinEmpty left right => s!"join of arities {left} and {right} is empty"
  | .unionOperand operand expected =>
    "union operand " ++ operand.outline ++ " has arity " ++ toString operand.arity
      ++ s!", expected {expected}"
  | .nonUnarySum operand => "sum of non-unary expression " ++ operand.outline

/-- Names of files and programs end at a null character, so a name that contains one is
rejected before the operating system sees it, and the message says so. -/
def rejection (name text : String) : String :=
  if name.toList.contains '\x00' then ": " ++ text else ""

/-- The wording of a failure. Where the operating system failed, its report is left out. -/
def BackendFailure.message : BackendFailure → String
  | .refusedClause backend clause => backend ++ " refused clause " ++ showInts clause
  | .invalidLiteral clause => "invalid literal in clause " ++ showInts clause
  | .stoppedWithoutAnswer => "solver stopped without an answer"
  | .scripted text => text
  | .couldNotCreate path =>
    "could not create " ++ path ++ rejection path "file name contained an unexpected NUL byte"
  | .couldNotWrite path => "could not write " ++ path
  | .couldNotRun executable =>
    "could not run " ++ executable ++ rejection executable "nul byte found in provided data"
  | .unknownStatus executable status => executable ++ " answered " ++ status
  | .unreadableValue executable token =>
    "unparseable value " ++ Text.quote token ++ " from " ++ executable
  | .noAnswer executable exitCode =>
    let shown := match exitCode with
      | some code => Outline.wrap "Some" (toString code)
      | none => "None"
    executable ++ " gave no answer (exit code " ++ shown ++ ")"
  | .noModel executable => executable ++ " reported SATISFIABLE without a model"

/-- Whether a failure is one of the operating system, whose report is left out already. -/
def BackendFailure.hasReport : BackendFailure → Bool
  | .couldNotCreate name | .couldNotRun name => !name.toList.contains '\x00'
  | .couldNotWrite _ => true
  | _ => false

/-- The wording of a violation; broken limits of machine arithmetic and of matrix
dimensions have none. -/
def Violation.message? : Violation → Option String
  | .relationArity arity => some s!"arity must be at least 1, got {arity}"
  | .variableArity => some "arity must be at least 1"
  | .incompatibleArities op left right =>
    some ("Incompatible arities for " ++ op.outline ++ s!": {left} and {right}")
  | .joinArity left right => some s!"Join would result in arity < 1: {left} + {right} - 2"
  | .emptyUnion => some "Cannot create empty union"
  | .unionArities => some "All expressions in union must have same arity"
  | .branchArities thenExpr elseExpr =>
    some ("Arity mismatch: " ++ thenExpr.outline ++ "::" ++ toString thenExpr.arity ++ " and "
      ++ elseExpr.outline ++ "::" ++ toString elseExpr.arity)
  | .declarationArity declared domain =>
    some ("declaration of " ++ declared.name ++ " has arity " ++ toString declared.arity
      ++ s!" but its expression has arity {domain}")
  | .emptyDeclarations => some "Cannot create empty Decls"
  | .emptySum => some "Cannot create empty sum"
  | .emptyWord => some "Int must have at least one bit"
  | .nonPositiveLabel => some "Variable labels must be positive"
  | .labelOutOfRange count => some s!"Variable label must be in range 1..={count}"
  | .unrepresentableVariable => some "variable index too high"
  | .crash text => some text
  | .dimensionMismatch | .outOfBounds | .overflow => none

namespace Error

def kind? : Error → Option String
  | .unboundRelation _ | .unboundVariable _ => some "UnboundLeaf"
  | .invalidBitwidth _ => some "InvalidBitwidth"
  | .divisionByZero _ _ _ => some "DivisionByZero"
  | .aborted _ => some "Aborted"
  | .invalidArgument _ => some "InvalidArgument"
  | .violation _ => none

def message? : Error → Option String
  | .unboundRelation name => some ("unbound leaf: relation " ++ name)
  | .unboundVariable name => some ("unbound leaf: variable " ++ name)
  | .invalidBitwidth bitwidth =>
    some s!"invalid bitwidth {bitwidth}: must be between 1 and 32"
  | .divisionByZero dividend op divisor =>
    some ("division by zero: divisor of " ++ dividend.outline ++ " " ++ op.symbol ++ " "
      ++ divisor.outline ++ " is 0")
  | .aborted failure => some ("solving aborted: " ++ failure.message)
  | .invalidArgument cause => some ("invalid argument: " ++ cause.message)
  | .violation cause => cause.message?

def freeOfReport : Error → Bool
  | .aborted failure => failure.hasReport
  | .violation _ => true
  | _ => false

/-- The wording of an error as it is shown: without the report of the operating system. -/
def summary? (error : Error) : Option String :=
  error.message?.map fun message =>
    if error.freeOfReport then message
    else String.ofList (Text.withoutReport message.toList)

end Error

end ModelFinder
