import ModelFinder.Backend.Basic
import ModelFinder.Backend.Disk
import ModelFinder.Text.Blank
import ModelFinder.Text.Numeral
import Std.Data.ExtTreeSet
/-!
Backends that are programs of their own. The clauses are written to a file in DIMACS format,
the program is run on it, and its answer is read from what it prints, in the format of
solver competitions: an `s` line with the status and `v` lines with the literals of a model.
Without an `s` line the exit codes 10 and 20 count as the status.

What the program prints and how it ends is given as a `Transcript`.
-/

namespace ModelFinder

/-- What a program printed, and its exit code unless it was killed. -/
structure Transcript where
  output : List Char
  exitCode : Option Int

abbrev TrueVariables := Std.ExtTreeSet Nat

/-- What the lines read so far say: the status, the values of the variables and whether
there were any values. -/
structure Reading where
  status : Option Bool
  model : TrueVariables
  sawValues : Bool

namespace Reading

def empty : Reading := ⟨none, ∅, false⟩

def setValue (variableCount : Nat) (model : TrueVariables) (literal : Int) : TrueVariables :=
  if variableCount < literal.natAbs then model
  else if literal < 0 then model.erase literal.natAbs
  else model.insert literal.natAbs

def readValues? (executable : String) (variableCount : Nat) (model : TrueVariables) :
    List (List Char) → Except BackendFailure TrueVariables
  | [] => .ok model
  | token :: rest =>
    match Text.readInt32 token with
    | none => .error (.unreadableValue executable (String.ofList token))
    | some literal =>
      if literal = 0 then .ok model
      else readValues? executable variableCount (setValue variableCount model literal) rest

/-- Reads one line. Lines that give neither a status nor values are passed over. -/
def readLine? (executable : String) (variableCount : Nat) (reading : Reading)
    (line : List Char) : Except BackendFailure Reading :=
  match Text.trim line with
  | 's' :: ' ' :: rest =>
    let answer := String.ofList (Text.trim rest)
    if answer == "SATISFIABLE" then .ok { reading with status := some true }
    else if answer == "UNSATISFIABLE" then .ok { reading with status := some false }
    else .error (.unknownStatus executable answer)
  | 'v' :: ' ' :: rest =>
    (readValues? executable variableCount reading.model (Text.words rest)).map fun model =>
      { reading with model := model, sawValues := true }
  | _ => .ok reading

end Reading

/-- The answer of a transcript: a model, or none if the clauses are unsatisfiable. A positive
answer about at least one variable needs values. -/
def Transcript.answer? (transcript : Transcript) (executable : String) (variableCount : Nat) :
    Except BackendFailure (Option TrueVariables) := do
  let reading ← (Text.lines transcript.output).foldlM
    (Reading.readLine? executable variableCount) Reading.empty
  let satisfiable ←
    match reading.status, transcript.exitCode with
    | some status, _ => Except.ok status
    | none, some 10 => Except.ok true
    | none, some 20 => Except.ok false
    | none, code => Except.error (BackendFailure.noAnswer executable code)
  if satisfiable then
    if !reading.sawValues && 0 < variableCount then throw (.noModel executable)
    return some reading.model
  else return none

/-- A program with its clause file. An `owned` file is the backend's own: it is `created`
under a name that leads nowhere yet, and removed in the end. -/
structure External where
  executable : String
  path : String
  owned : Bool
  created : Bool
  cnf : Cnf
  model : TrueVariables

structure ExternalState where
  disk : Disk
  program : External

namespace ExternalState

def start (disk : Disk) (executable : String) (path : Option String) : ExternalState :=
  match path with
  | some path => ⟨disk, ⟨executable, path, false, false, Cnf.empty, ∅⟩⟩
  | none =>
    let (path, disk) := disk.temporary
    ⟨disk, ⟨executable, path, true, false, Cnf.empty, ∅⟩⟩

def addVariables (state : ExternalState) (count : Nat) : Except Error ExternalState :=
  (addVariableCount state.program.cnf.variableCount count).map fun total =>
    { state with program :=
      { state.program with cnf := { state.program.cnf with variableCount := total } } }

/-- Keeps a clause; only the empty one counts as refused. -/
def addClause (state : ExternalState) (clause : Clause) : Bool × ExternalState :=
  (!clause.isEmpty,
    { state with program := { state.program with cnf := state.program.cnf.add clause } })

/-- Creates the program's own file, under further temporary names while something is already
at the current one and there are attempts left. -/
def claim? : Nat → ExternalState → Except Error Unit × ExternalState
  | attempts, state =>
    match state.disk.createNew? state.program.path with
    | some disk =>
      (.ok (), { disk := disk, program := { state.program with created := true } })
    | none =>
      match attempts with
      | 0 => (.error (.aborted (.couldNotCreate state.program.path)), state)
      | rest + 1 =>
        if state.disk.contains state.program.path then
          let (path, disk) := state.disk.temporary
          claim? rest { disk := disk, program := { state.program with path := path } }
        else (.error (.aborted (.couldNotCreate state.program.path)), state)

def claimAttempts : Nat := 100

def openFile? (state : ExternalState) : Except Error Unit × ExternalState :=
  if state.program.owned && !state.program.created then claim? claimAttempts state
  else
    match state.disk.openEmpty? state.program.path with
    | some disk => (.ok (), { state with disk := disk })
    | none => (.error (.aborted (.couldNotCreate state.program.path)), state)

def writeClauses? (state : ExternalState) : Except Error Unit × ExternalState :=
  match state.openFile? with
  | (.error error, state) => (.error error, state)
  | (.ok _, state) =>
    match state.disk.write? state.program.path state.program.cnf.dimacs with
    | some disk => (.ok (), { state with disk := disk })
    | none => (.error (.aborted (.couldNotWrite state.program.path)), state)

/-- Reads an answer. A failure leaves the clauses and the last model as they were; a negative
answer leaves no model. -/
def readAnswer (state : ExternalState) (transcript : Transcript) :
    Except Error Bool × ExternalState :=
  let program := state.program
  match transcript.answer? program.executable program.cnf.variableCount with
  | .error failure => (.error (.aborted failure), state)
  | .ok (some model) => (.ok true, { state with program := { program with model := model } })
  | .ok none => (.ok false, { state with program := { program with model := ∅ } })

/-- Writes the clauses, runs the program and reads its answer. Without a transcript the
program cannot be run. -/
def solve (state : ExternalState) (transcript : Option Transcript) :
    Except Error Bool × ExternalState :=
  match state.writeClauses? with
  | (.error error, state) => (.error error, state)
  | (.ok _, state) =>
    match transcript with
    | none => (.error (.aborted (.couldNotRun state.program.executable)), state)
    | some transcript => state.readAnswer transcript

def value (state : ExternalState) (name : Nat) : Bool := state.program.model.contains name

def finish (state : ExternalState) : Disk :=
  if state.program.owned && state.program.created then
    (state.disk.removeFile? state.program.path).getD state.disk
  else state.disk

end ExternalState

/-- The backend of a program that answers every question with the same transcript. -/
def Backend.external (executable : String) (path : Option String)
    (transcript : Option Transcript) : Backend ExternalState where
  name := "external:" ++ executable
  incremental := false
  create := modify fun state => ExternalState.start state.finish executable path
  addVariables count := do
    match (← get).addVariables count with
    | .ok state => set state
    | .error error => throw error
  addClause clause := modifyGet fun state => state.addClause clause
  solve := ExceptT.mk (modifyGet fun state => state.solve transcript)
  value state name := state.value name
  variableCount state := state.program.cnf.variableCount
  clauseCount state := state.program.cnf.clauseCount

end ModelFinder
