import PhpCheck.Analysis.Invocation
import PhpCheck.Grouping

/-!
# The check of a single node

`Analysis.check` looks at a node after all its parts have been walked. It reports what is wrong with the
node itself, records what it uses, and gives the context for what follows.
-/

namespace PhpCheck.Analysis

/-- Reports an index access that versions of the language group differently. -/
def checkGrouping (setup : Setup) (context : Context) (node : Node) : Analysis Unit :=
  if setup.settings.groupingChecks then
    match groupingRisk? setup.sources context.file node with
    | some expression => reportAt context.file node.line (.groupingRisk expression)
    | none => pure ()
  else pure ()

/-- Reports an expression that stands as a statement. -/
def checkNoOp (context : Context) (parent : Option Node) (node : Node) : Analysis Unit :=
  match parent with
  | some parent =>
    if parent.isStatementList then report context (.noOp node.describe) else pure ()
  | none => pure ()

/-- An assignment, by reference or by value. -/
def checkAssign (setup : Setup) (context : Context) (target value : Node) (byReference : Bool) :
    Analysis Context := do
  let type ← typing context value
  let context ← assign context target type
  let context := if byReference then context.declareSource value else context
  checkGrouping setup context target
  checkGrouping setup context value
  return context

def isInTrait (symbols : SymbolTable) (context : Context) : Bool :=
  match context.owner >>= symbols.class? with
  | some c => c.isTrait
  | none => false

/-- A return statement: it is checked against the declared return type, or its type is gathered if
there is none. -/
def checkReturn (context : Context) (value : Option Node) : Analysis Unit := do
  match context.callable with
  | none => return
  | some key =>
    if isInTrait (← symbols) context then return
    let returned ← match value with
      | some value => typing context value
      | none => pure ∅
    let s ← symbols
    match s.callable? key with
    | none => return
    | some c =>
      if c.returnInferred || c.returnType.isEmpty then
        edit (.gatherReturn key returned)
      else if s.castsTo returned c.returnType then return
      else report context (.returnMismatch c.name c.returnType returned)

/-- A call of a function or of a closure. -/
def checkCall (setup : Setup) (enter : Enter) (context : Context) (callee : Node)
    (arguments : List Node) : Analysis Context := do
  checkGrouping setup context callee
  arguments.forM (checkGrouping setup context)
  let s ← symbols
  match callee.kind with
  | .identifier name =>
    match s.resolveFunction name with
    | .ok key => call setup enter context key arguments
    | .error error =>
      report context (.undefinedReference error)
      return context
  | .var _ | .closure _ =>
    match s.calleesOf context callee (typeOf s context callee) with
    | key :: _ => call setup enter context key arguments
    | [] => return context
  | _ => return context

def checkNew (setup : Setup) (enter : Enter) (context : Context) (reference : Node)
    (arguments : List Node) : Analysis Context := do
  match (← symbols).resolveClass context reference with
  | .error error =>
    reportUndefined context error
    return context
  | .ok owner =>
    edit (.useClass owner)
    match (← symbols).findMethod owner "__construct" with
    | some constructor => call setup enter context constructor arguments
    | none => return context

def isParentReference (reference : Node) : Bool :=
  match reference.kind with
  | .identifier name => Text.sameIgnoringCase name "parent"
  | _ => false

def referenceText (reference : Node) : String :=
  match reference.kind with
  | .identifier name => name
  | _ => "(expression)"

/-- Reports a static call of a method that needs an object, unless it is made through `parent`. -/
def checkStaticTarget (context : Context) (reference : Node) (key : CallableKey) :
    Analysis Unit := do
  match (← symbols).callable? key with
  | some c =>
    if c.isStatic || isParentReference reference then return
    else report context (.staticCall c.name c.site)
  | none => return

/-- A static call. A constructor is only called through `parent`. -/
def checkStaticCall (setup : Setup) (enter : Enter) (context : Context) (reference : Node)
    (method : String) (arguments : List Node) : Analysis Context := do
  if Text.sameIgnoringCase method "__construct" && !isParentReference reference then
    report context (.undefinedReference (.undefinedMethod (referenceText reference) method))
    return context
  let s ← symbols
  match s.resolveClass context reference >>= fun owner => s.resolveMethod owner method with
  | .error error =>
    reportUndefined context error
    return context
  | .ok key =>
    checkStaticTarget context reference key
    call setup enter context key arguments

def checkMethodCall (setup : Setup) (enter : Enter) (context : Context) (receiver : Node)
    (method : String) (arguments : List Node) : Analysis Context := do
  let s ← symbols
  match s.resolveClasses context receiver with
  | .error error =>
    reportUndefined context error
    return context
  | .ok owners =>
    match owners.findSome? fun owner => s.findMethod owner method with
    | some key => call setup enter context key arguments
    | none =>
      report context (.undefinedReference (.undefinedMethod (owners.headD "") method))
      return context

/-- Counts a use of the properties that an expression is asked for. -/
def useProperty (context : Context) (object : Node) (name : Name) : Analysis Unit := do
  match (← symbols).resolveProperty context object name with
  | .ok (holders, property) =>
    holders.forM fun holder => edit (.useProperty holder property)
  | .error _ => return

def useStaticProperty (context : Context) (reference : Node) (name : Name) : Analysis Unit := do
  match (← symbols).resolveStaticProperty context reference name with
  | .ok (holder, property) => edit (.useProperty holder property)
  | .error _ => return

/-- Counts a use of a global constant; those of the language are not counted. -/
def useConstant (name : String) : Analysis Unit := do
  if (languageConstant? name).isSome then return
  match (← symbols).resolveConstant name with
  | .ok constant => edit (.useConstant constant.name)
  | .error _ => return

/-- Counts a use of a class constant; the name of the class itself is not counted. -/
def useClassConstant (context : Context) (reference : Node) (name : String) : Analysis Unit := do
  if Text.sameIgnoringCase name "class" then return
  match (← symbols).resolveClassConstant context reference name with
  | .ok holder => edit (.useClassConstant holder name)
  | .error _ => return

/-- Whether an index access is checked together with the node that it is a part of. -/
def checksParts (parent : Node) : Bool :=
  match parent.kind with
  | .dim .. | .assign .. | .assignRef .. | .call .. => true
  | _ => false

/-- Checks a node whose parts have been walked; the result is the context for what follows. -/
def check (setup : Setup) (enter : Enter) (context : Context) (parent : Option Node)
    (node : Node) : Analysis Context := do
  match node.kind with
  | .assign target value => checkAssign setup context target value false
  | .assignRef target value => checkAssign setup context target value true
  | .ifElement (some condition) _ | .switchCase (some condition) _ | .whileLoop condition _
  | .doWhile _ condition | .switch condition _ =>
    discard (typing context condition)
    return context
  | .expressionList expressions =>
    expressions.forM fun expression => discard (typing context expression)
    return context
  | .foreach subject _ _ _ _ =>
    let type ← typing context subject
    if type.isScalar then report context (.scalarForeach type)
    return context
  | .globalVar name => return context.assign name (context.scope.globals.typeOf name)
  | .staticVar name default =>
    let type ← match default with
      | some default => typing context default
      | none => pure ∅
    return context.assign name type
  | .echo value | .print value =>
    let type ← typing context value
    if type.isArrayOnly then report context .arrayToString
    return context
  | .var _ | .array _ =>
    checkNoOp context parent node
    return context
  | .staticProp reference name =>
    useStaticProperty context reference name
    checkNoOp context parent node
    return context
  | .const name =>
    useConstant name
    checkNoOp context parent node
    return context
  | .classConst reference name =>
    useClassConstant context reference name
    checkNoOp context parent node
    return context
  | .prop object name =>
    useProperty context object name
    checkNoOp context parent node
    return context
  | .closure _ =>
    checkNoOp context parent node
    return { context with callable := some (.ofClosure context.file node.line) }
  | .returnValue value =>
    checkReturn context value
    return context
  | .call callee arguments => checkCall setup enter context callee arguments
  | .new reference arguments => checkNew setup enter context reference arguments
  | .instanceOf _ reference =>
    match (← symbols).resolveClass context reference with
    | .error error => reportUndefined context error
    | .ok _ => pure ()
    return context
  | .staticCall reference (.literal method) arguments =>
    checkStaticCall setup enter context reference method arguments
  | .methodCall receiver (.literal method) arguments =>
    checkMethodCall setup enter context receiver method arguments
  | .dim _ _ =>
    if !(parent.map checksParts).getD false then checkGrouping setup context node
    return context
  | _ => return context

end PhpCheck.Analysis
