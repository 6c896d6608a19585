import PhpCheck.Settings.Basic
import PhpCheck.Sources
import PhpCheck.SymbolTable.Edit
import PhpCheck.Typing.Infer

/-!
# The state of a run

A run changes the symbol table and adds to the log of diagnostics. While the body of a callee is tried
out with the types of a call's arguments, a `Trial` remembers the parameters that it is declared with.
A `Change` is all that can happen to the state at a time, and an `Analysis` says which changes follow
one another, so that every state that a run passes through can be spoken of. The arrival of a walk at a
declaration is told in the same way, though the state stays as it is.
-/

namespace PhpCheck

/-- Why a run cannot go on. -/
inductive Fault where
  /-- A value is assigned to something on the given line that cannot hold one. -/
  | notAssignable (line : Line)
  /-- The body of a callable is entered from inside itself without end. -/
  | endlessNesting (key : CallableKey)
  deriving DecidableEq

/-- A callable whose body is being tried out, with the parameters that it is declared with. -/
structure Trial where
  callee : CallableKey
  parameters : List Parameter
  deriving DecidableEq

/-- The state of a run. -/
structure Session where
  symbols : SymbolTable
  log : DiagnosticLog := ∅
  /-- The trials in progress, the latest first. -/
  trials : List Trial := []
  /-- The callables whose bodies have been walked. -/
  walked : List CallableKey := []
  /-- Whether a body is being walked that has been walked before. -/
  revisiting : Bool := false

/-- What is given for a run. -/
structure Setup where
  settings : Settings := {}
  sources : Sources := ∅

/-- A change of the state. -/
inductive Change where
  | edit (edit : Edit)
  /-- A finding is recorded at a line of a file. -/
  | record (file : String) (line : Line) (finding : Finding)
  /-- A walk has come to the declaration of a callable, which has the given key in its context. A method
  that is declared outside of a class has none. -/
  | arrive (context : Context) (node : Node) (key : Option CallableKey)
  | beginTrial (trial : Trial)
  | endTrial
  /-- The body of a callable is entered. -/
  | beginWalk (key : CallableKey)
  /-- A body is left for one that was `revisiting` or not. -/
  | endWalk (revisiting : Bool)

namespace Session

/-- The state after a change. In a body that has been walked before, only what is new is recorded. -/
def apply (session : Session) : Change → Session
  | .edit edit => { session with symbols := session.symbols.edit edit }
  | .record file line finding =>
    let d := finding.diagnosticAt file line
    { session with log := if session.revisiting then session.log.pushOnce d else session.log.push d }
  | .arrive _ _ _ => session
  | .beginTrial trial => { session with trials := trial :: session.trials }
  | .endTrial => { session with trials := session.trials.tail }
  | .beginWalk key =>
    let again := session.walked.contains key
    { session with
      walked := if again then session.walked else key :: session.walked
      revisiting := again }
  | .endWalk revisiting => { session with revisiting }

/-- The parameters that a callable is declared with, whatever trial of it is in progress. -/
def declaredParameters (session : Session) (callee : CallableKey) : List Parameter :=
  match session.trials.find? fun trial => trial.callee == callee with
  | some trial => trial.parameters
  | none => ((session.symbols.callable? callee).map Callable.parameters).getD []

def isOnTrial (session : Session) (callee : CallableKey) : Bool :=
  session.trials.any fun trial => trial.callee == callee

end Session

/-- An action of a run, step by step. -/
inductive Analysis (α : Type) where
  | done (result : α)
  | fault (fault : Fault)
  /-- What follows depends on the state. -/
  | look (rest : Session → Analysis α)
  | change (change : Change) (rest : Unit → Analysis α)
  /-- The declared parameters of a callable are asked for. -/
  | ask (callee : CallableKey) (rest : List Parameter → Analysis α)

namespace Analysis

protected def bind {α β : Type} : Analysis α → (α → Analysis β) → Analysis β
  | done result, next => next result
  | fault f, _ => fault f
  | look rest, next => look fun session => (rest session).bind next
  | change c rest, next => change c fun _ => (rest ()).bind next
  | ask callee rest, next => ask callee fun parameters => (rest parameters).bind next

instance : Monad Analysis where
  pure := done
  bind := Analysis.bind

instance : MonadLift (Except Fault) Analysis where
  monadLift
    | .ok result => done result
    | .error f => fault f

/-- The result of an action and the state after it. -/
def run {α : Type} : Analysis α → Session → Except Fault (α × Session)
  | done result, session => .ok (result, session)
  | fault f, _ => .error f
  | look rest, session => (rest session).run session
  | change c rest, session => (rest ()).run (session.apply c)
  | ask callee rest, session => (rest (session.declaredParameters callee)).run session

def perform (c : Change) : Analysis Unit := change c done

def edit (e : Edit) : Analysis Unit := perform (.edit e)

def symbols : Analysis SymbolTable := look fun session => done session.symbols

def declaredParameters (callee : CallableKey) : Analysis (List Parameter) := ask callee done

def isOnTrial (callee : CallableKey) : Analysis Bool :=
  look fun session => done (session.isOnTrial callee)

def reportAt (file : String) (line : Line) (finding : Finding) : Analysis Unit :=
  perform (.record file line finding)

/-- Records a finding at the place of a context. -/
def report (context : Context) (finding : Finding) : Analysis Unit :=
  reportAt context.file context.line finding

/-- Records a failed look-up, if it is of something undefined. -/
def reportUndefined (context : Context) (error : LookupError) : Analysis Unit :=
  if error.isUndefined then report context (.undefinedReference error) else pure ()

/-- Runs an action as part of a trial of a callable. -/
def onTrial {α : Type} (trial : Trial) (action : Analysis α) : Analysis α := do
  perform (.beginTrial trial)
  let result ← action
  perform .endTrial
  return result

/-- Runs an action as the walk of a callable's body. -/
def asWalkOf {α : Type} (key : CallableKey) (action : Analysis α) : Analysis α :=
  look fun before => do
    perform (.beginWalk key)
    let result ← action
    perform (.endWalk before.revisiting)
    return result

end Analysis

end PhpCheck
