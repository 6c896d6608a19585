import PhpCheck.Analysis.Assignment

/-!
# Calls

A call is checked against the signature that the callee is declared with. Outside quick mode the callee
is then tried out: its untyped parameters get the types of the arguments, and its body is walked with
them. Afterwards it has the parameters and the scope that it had before; the types that reference
parameters got in the body flow back to the caller's variables.
-/

namespace PhpCheck

/-! ### Arguments against parameters -/

/-- What is wrong with the number of arguments of a call. -/
def arityFinding? (name : String) (parameters : List Parameter) (count : Nat) : Option Finding :=
  let required := Parameter.requiredCount parameters
  if count < required then some (.tooFewArguments count name required)
  else if parameters.length < count && !Parameter.endsVariadic parameters then
    some (.tooManyArguments count name parameters.length)
  else none

/-- What is wrong with the argument at an index of a call. -/
def argumentFinding? (symbols : SymbolTable) (name : String) (parameters : List Parameter)
    (index : Nat) (found : TypeSet) : Option Finding :=
  match Parameter.receiving? parameters index with
  | some p =>
    if p.type.isEmpty || symbols.castsTo found p.type then none
    else some (.argumentMismatch (index + 1) name p.type found)
  | none => none

/-- What is wrong with the arguments of a call, given their types. -/
def callFindings (symbols : SymbolTable) (name : String) (parameters : List Parameter)
    (types : List TypeSet) : List Finding :=
  (arityFinding? name parameters types.length).toList ++
    types.zipIdx.filterMap fun (type, index) => argumentFinding? symbols name parameters index type

/-! ### Trying a callee out -/

/-- A callee with the arguments of a call bound to its untyped parameters. -/
structure Speculation where
  parameters : List Parameter
  scope : Scope
  /-- Whether some parameter has got a type that it did not have. -/
  changed : Bool := false
  /-- The reference parameters that stand for variables of the caller, with those variables. -/
  references : List (String × String) := []

def plainVariable? (argument : Node) : Option String :=
  match argument.kind with
  | .var (.literal name) => some name
  | _ => none

/-- Binds the argument at an index, unless its parameter is declared with a type. -/
def Speculation.bindArgument (site : Site) (declared : List Parameter) (state : Speculation)
    (argument : Node) (type : TypeSet) (index : Nat) : Speculation :=
  match Parameter.position? declared index with
  | none => state
  | some i =>
    match declared[i]?, state.parameters[i]? with
    | some d, some p =>
      if !d.type.isEmpty then state
      else
        let p' := { p with type := p.type.merge type }
        let caller := if p.byReference then plainVariable? argument else none
        { parameters := state.parameters.set i p'
          scope := state.scope.bind {
            name := p.name
            type := if caller.isSome then type else p'.boundType
            site
            referenceTo := caller }
          changed := state.changed || p.type.grows type
          references := state.references ++ caller.toList.map fun name => (p.name, name) }
    | _, _ => state

def Speculation.bindAll (site : Site) (declared : List Parameter) (arguments : List Node)
    (types : List TypeSet) (start : Speculation) : Speculation :=
  (arguments.zip types).zipIdx.foldl
    (fun state ((argument, type), index) => state.bindArgument site declared argument type index)
    start

/-- Walking the body of a callable from a context: the context at its end, or none if there is no
body. -/
abbrev Enter := CallableKey → Context → Analysis (Option Context)

namespace Analysis

/-- Gives an argument for a reference parameter the types that the parameter is declared with: a
variable or property of the caller, which is declared if it is new. -/
def bindReference (context : Context) (argument : Node) (types : TypeSet) : Analysis Context :=
  match argument.kind with
  | .var (.literal name) => return context.assign name types
  | .prop object (.literal name) => do
    match (← symbols).resolveClasses context object with
    | .ok owners =>
      owners.forM fun owner => edit (.widenProperty owner name context.site types)
      return context
    | .error error =>
      reportUndefined context error
      return context
  | _ => return context

/-- Binds the arguments for reference parameters, with what `types` takes from each parameter. -/
def bindReferences (parameters : List Parameter) (types : Parameter → TypeSet)
    (context : Context) (arguments : List Node) : Analysis Context :=
  arguments.zipIdx.foldlM
    (fun context (argument, index) =>
      match Parameter.receiving? parameters index with
      | some p => if p.byReference then bindReference context argument (types p) else return context
      | none => return context)
    context

def checkArguments (context : Context) (callee : CallableKey) (types : List TypeSet) :
    Analysis Unit := do
  let s ← symbols
  match s.callable? callee with
  | none => return
  | some c =>
    let parameters ← declaredParameters callee
    (callFindings s c.name parameters types).forM (report context)

/-- Walks the body of a callee with the arguments of a call bound to its untyped parameters, unless
that tells nothing new or the body is being walked. The result is the types that the variables of the
caller get through reference parameters. -/
def speculate (enter : Enter) (context : Context) (callee : CallableKey) (arguments : List Node)
    (declared : List Parameter) (types : List TypeSet) : Analysis (List (String × TypeSet)) := do
  match (← symbols).callable? callee with
  | none => return []
  | some c =>
    let state := Speculation.bindAll context.site declared arguments types
      { parameters := c.parameters, scope := c.scope }
    edit (.rebind callee state.parameters state.scope)
    if !state.changed then return []
    if context.callable == some callee || (← isOnTrial callee) then return []
    match ← onTrial ⟨callee, declared⟩ (enter callee context) with
    | none => return []
    | some final =>
      return state.references.filterMap fun (parameter, caller) =>
        (final.find? parameter).map fun v => (caller, v.type)

/-- Tries a callee out with the arguments of a call, and puts it back as it was. -/
def tryOut (enter : Enter) (context : Context) (callee : CallableKey) (arguments : List Node)
    (declared : List Parameter) (types : List TypeSet) : Analysis Context := do
  match (← symbols).callable? callee with
  | none => return context
  | some before =>
    if before.isInternal then return context
    let results ← speculate enter context callee arguments declared types
    edit (.rebind callee before.parameters before.scope)
    return results.foldl (fun context (name, type) => context.widen name type) context

/-- Checks a call of a known callable and, outside quick mode, tries the callee out. -/
def call (setup : Setup) (enter : Enter) (context : Context) (callee : CallableKey)
    (arguments : List Node) : Analysis Context := do
  match (← symbols).callable? callee with
  | none => return context
  | some _ =>
    edit (.useCallable callee)
    let parameters ← declaredParameters callee
    let types ← arguments.mapM (typing context)
    let context ← bindReferences parameters (fun _ => ∅) context arguments
    checkArguments context callee types
    let context ← bindReferences parameters Parameter.type context arguments
    if setup.settings.quick then return context
    tryOut enter context callee arguments parameters types

end Analysis

end PhpCheck
