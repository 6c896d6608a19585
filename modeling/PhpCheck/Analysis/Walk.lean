import PhpCheck.Analysis.Checks

/-!
# Walking a program

Nodes are walked after their parts, each part in the context that the part before it left. The bodies
of functions, methods and closures are walked in the scope that the symbol table holds for them: where
they are declared, and again where a call tries them out. Only such an entry into a body leaves the
tree at hand, so a bound on how deep bodies are entered from bodies makes every run end.
-/

namespace PhpCheck

namespace Analysis

/-- Adds the types that the variables taken over by a closure have where it is written. -/
def captureUses (context : Context) (key : CallableKey) (uses : List ClosureUse) : Analysis Unit :=
  uses.forM fun captured =>
    edit (.capture key captured.name context.site (context.typeOf captured.name))

/-- Tells that a walk has come to a declaration. -/
def arrive (context : Context) (node : Node) (key : Option CallableKey) : Analysis Unit :=
  perform (.arrive context node key)

/-- Walks a node: its parts, then the node itself. The result is the context for what follows. A
declaration leaves the context as it is, but for the line. -/
def walk (setup : Setup) (enter : Enter) (outer : Context) (parent : Option Node) (node : Node) :
    Analysis Context :=
  let context := outer.atLine node.line
  match node with
  | ⟨_, .classDecl decl⟩ => do
    discard (walk setup enter (context.inClass decl.name) (some node) decl.body)
    discard (check setup enter context parent node)
    return context
  | ⟨_, .functionDecl decl⟩ => do
    let key := CallableKey.ofFunction decl.name
    arrive context node (some key)
    discard (enter key context)
    discard (check setup enter context parent node)
    return context
  | ⟨_, .methodDecl decl⟩ => do
    match context.owner with
    | some owner =>
      let key := CallableKey.ofMethod owner decl.name
      arrive context node (some key)
      discard (enter key context)
    | none => arrive context node none
    discard (check setup enter context parent node)
    return context
  | ⟨line, .closure decl⟩ => do
    let key := CallableKey.ofClosure context.file line
    captureUses context key decl.uses
    arrive context node (some key)
    discard (enter key context)
    discard (check setup enter context parent node)
    return context
  | ⟨line, .foreach subject none value body _⟩ => do
    let context ← walk setup enter context (some node) subject
    let type ← inferQuietly context subject
    let context ← assign context value type.elementTypes
    let context ← walk setup enter context (some node) value
    let context ← walk setup enter context (some node) body
    check setup enter (context.atLine line) parent node
  | ⟨line, .foreach subject (some key) value body _⟩ => do
    let context ← walk setup enter context (some node) subject
    let type ← inferQuietly context subject
    let context ← assign context key (.ofList [.int, .string])
    let context ← walk setup enter context (some node) key
    let context ← assign context value type.elementTypes
    let context ← walk setup enter context (some node) value
    let context ← walk setup enter context (some node) body
    check setup enter (context.atLine line) parent node
  | node => do
    let context ← node.children.attach.foldlM
      (fun context child => walk setup enter context (some node) child.val) context
    check setup enter (context.atLine node.line) parent node
termination_by sizeOf node
decreasing_by
  all_goals first
    | exact Node.sizeOf_children_mem child.property
    | (apply Node.sizeOf_children_mem; simp [Node.children, Kind.children])

/-- The context in which the body of a callable is entered. The globals are those of the outer context
if it is in the file of the callable. -/
def entryContext (outer : Context) (key : CallableKey) (c : Callable) (body : Node) : Context :=
  let globals : Context := if outer.file = c.site.file then outer else { file := c.site.file }
  ({ globals with owner := c.owner }.enter key c.scope).atLine body.line

/-- Walks the body of a callable in the file, class and scope that it is declared in. Bodies are
entered from bodies at most `fuel` deep. -/
def enterBody (setup : Setup) : Nat → Enter
  | 0, key, _ => fault (.endlessNesting key)
  | fuel + 1, key, outer => do
    match (← symbols).callable? key with
    | none => return none
    | some c =>
      match c.body with
      | none => return none
      | some body =>
        let context := entryContext outer key c body
        some <$> asWalkOf key (walk setup (enterBody setup fuel) context none body)

end Analysis

def SymbolTable.bodyCount (symbols : SymbolTable) : Nat :=
  symbols.callables.countP (·.body.isSome)

/-- How deep bodies may be entered from bodies, as long as no body holds its own declaration: each of
`n` bodies is tried out at most once at a time, and from each of these trials, as from the top level,
declarations lead through at most `n` bodies one inside the other. -/
def SymbolTable.nestingBound (symbols : SymbolTable) : Nat :=
  (symbols.bodyCount + 1) * (symbols.bodyCount + 1)

end PhpCheck
