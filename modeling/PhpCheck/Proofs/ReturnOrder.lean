import PhpCheck.Proofs.LogGrowth
import PhpCheck.Proofs.ReturnTypes

/-!
# Return types do not depend on the order of statements

A body that does nothing but return constants, from whatever blocks, branches and loops, adds the types of
these constants to the return type of its function, and nothing else. So it does not matter in which order
its statements stand.
-/

namespace PhpCheck

/-- The forms of constant expressions. -/
def Kind.isConstantForm : Kind → Bool
  | .literal _ | .array _ | .unary .. | .binary .. | .cast .. | .conditional .. => true
  | _ => false

/-- The forms of lists, branches and loops. -/
def Kind.isBlockForm : Kind → Bool
  | .statementList _ | .expressionList _ | .ifChain _ | .ifElement .. | .whileLoop .. | .doWhile ..
  | .forLoop .. | .switch .. | .switchCase .. => true
  | _ => false

/-- Whether a node is walked by walking its parts in turn and checking it then. -/
def Kind.isWalkedByParts : Kind → Bool
  | .classDecl _ | .functionDecl _ | .methodDecl _ | .closure _ | .foreach .. => false
  | _ => true

namespace Node

/-- The expression that the node returns, if it is a return statement with one. -/
def returned? (node : Node) : Option Node :=
  match node.kind with
  | .returnValue value => value
  | _ => none

/-- The expressions that are returned somewhere in the node. -/
def returned (node : Node) : List Node := node.nodes.filterMap returned?

/-- An expression of literals, array literals, operators, casts and conditionals. -/
def IsConstant (node : Node) : Prop := ∀ part ∈ node.nodes, part.kind.isConstantForm = true

instance (node : Node) : Decidable node.IsConstant :=
  inferInstanceAs (Decidable (∀ part ∈ node.nodes, part.kind.isConstantForm = true))

/-- All that there is in the node are constants, lists, branches, loops, and return statements with
constants. -/
def OnlyReturns (node : Node) : Prop := ∀ part ∈ node.nodes,
  part.IsConstant ∨ part.kind.isBlockForm = true ∨ ∃ value ∈ part.returned?, value.IsConstant

instance (node : Node) : Decidable node.OnlyReturns :=
  inferInstanceAs (Decidable (∀ part ∈ node.nodes,
    part.IsConstant ∨ part.kind.isBlockForm = true ∨ ∃ value ∈ part.returned?, value.IsConstant))

lemma IsConstant.child {node child : Node} (h : node.IsConstant) (hchild : child ∈ node.children) :
    child.IsConstant :=
  fun part hpart => h part (mem_nodes_of_child hchild hpart)

lemma OnlyReturns.child {node child : Node} (h : node.OnlyReturns) (hchild : child ∈ node.children) :
    child.OnlyReturns :=
  fun part hpart => h part (mem_nodes_of_child hchild hpart)

lemma IsConstant.form {node : Node} (h : node.IsConstant) : node.kind.isConstantForm = true :=
  h node node.self_mem_nodes

lemma eq_of_returned? {node value : Node} (h : node.returned? = some value) :
    node = ⟨node.line, .returnValue (some value)⟩ := by
  obtain ⟨line, kind⟩ := node
  cases kind with
  | returnValue returned =>
    cases h
    rfl
  | _ => cases h

lemma isWalkedByParts_of_form {node : Node}
    (h : node.kind.isConstantForm = true ∨ node.kind.isBlockForm = true) :
    node.kind.isWalkedByParts = true := by
  obtain ⟨line, kind⟩ := node
  cases kind with
  | classDecl | functionDecl | methodDecl | closure | foreach =>
    simp [Kind.isConstantForm, Kind.isBlockForm] at h
  | _ => rfl

lemma returned_eq (node : Node) :
    node.returned = node.returned?.toList ++ node.children.flatMap returned := by
  rw [returned, nodes_eq, List.filterMap_cons, List.filterMap_flatMap]
  cases node.returned? <;> rfl

lemma returned?_eq_none {node : Node}
    (h : node.kind.isConstantForm = true ∨ node.kind.isBlockForm = true) : node.returned? = none := by
  obtain ⟨line, kind⟩ := node
  cases kind with
  | returnValue value => simp [Kind.isConstantForm, Kind.isBlockForm] at h
  | _ => rfl

lemma IsConstant.returned_eq_nil {node : Node} (h : node.IsConstant) : node.returned = [] :=
  List.filterMap_eq_nil_iff.mpr fun part hpart => returned?_eq_none (.inl (h part hpart))

lemma inferItems_congr {s t : SymbolTable} {a b : Context} {items : List ArrayItem}
    (h : ∀ item ∈ items, infer s a item.value = infer t b item.value) :
    inferItems s a items = inferItems t b items := by
  induction items with
  | nil => rfl
  | cons item items ih =>
    obtain ⟨key, value⟩ := item
    rw [List.forall_mem_cons] at h
    rw [inferItems, inferItems, h.1, ih h.2]

/-- Nothing of the program counts for the type of a constant. -/
lemma IsConstant.infer_eq {node : Node} (h : node.IsConstant) (s t : SymbolTable) (a b : Context) :
    infer s a node = infer t b node := by
  induction node using Node.induction_on_children with
  | step node ih =>
    have ih : ∀ child ∈ node.children, infer s a child = infer t b child :=
      fun child hchild => ih child hchild (h.child hchild)
    have hkind := h.form
    obtain ⟨line, kind⟩ := node
    cases kind with
    | literal value => rfl
    | array items =>
      have hvalues : ∀ item ∈ items, infer s a item.value = infer t b item.value := by
        intro item hitem
        have hvalue : item.value ∈ item.parts := by simp [ArrayItem.parts]
        exact ih _ (List.mem_flatMap.mpr ⟨item, hitem, hvalue⟩)
      rw [infer, infer, inferItems_congr hvalues]
    | unary operator operand =>
      rw [infer, infer, ih operand (by simp [children, Kind.children])]
    | binary operator left right =>
      rw [infer, infer, ih left (by simp [children, Kind.children]),
        ih right (by simp [children, Kind.children])]
    | cast target subject => rfl
    | conditional condition consequent otherwise =>
      have hotherwise := ih otherwise (by simp [children, Kind.children])
      cases consequent with
      | none =>
        rw [infer, infer, ih condition (by simp [children, Kind.children]), hotherwise]
      | some consequent =>
        rw [infer, infer, ih consequent (by simp [children, Kind.children]), hotherwise]
    | _ => cases hkind

lemma IsConstant.typeOf_eq {node : Node} (h : node.IsConstant) (s t : SymbolTable) (a b : Context) :
    typeOf s a node = typeOf t b node :=
  congrArg Typing.type (h.infer_eq s t a b)

end Node

/-! ### Types gathered in turn -/

namespace Callable

variable {c : Callable} {gathered : List TypeSet}

lemma mem_returnType_foldl_gatherReturn {u : Ty} :
    u ∈ (gathered.foldl gatherReturn c).returnType ↔
      u ∈ c.returnType ∨ ∃ types ∈ gathered, u ∈ types := by
  induction gathered generalizing c with
  | nil => simp
  | cons types gathered ih =>
    have hmerge : u ∈ (c.gatherReturn types).returnType ↔ u ∈ c.returnType ∨ u ∈ types :=
      TypeSet.mem_merge
    rw [List.foldl_cons, ih, hmerge, List.exists_mem_cons_iff, or_assoc]

lemma returnInferred_foldl_gatherReturn :
    (gathered.foldl gatherReturn c).returnInferred = true ↔
      c.returnInferred = true ∨ gathered ≠ [] := by
  induction gathered generalizing c with
  | nil => simp
  | cons types gathered ih => simp [ih, gatherReturn]

lemma GathersReturn.foldl_gatherReturn (h : c.GathersReturn) (gathered : List TypeSet) :
    (gathered.foldl gatherReturn c).GathersReturn := by
  by_cases hnil : gathered = []
  · rwa [hnil]
  · exact .inl (returnInferred_foldl_gatherReturn.mpr (.inr hnil))

end Callable

namespace SymbolTable

/-- The table after types have been gathered in turn for the return type of a callable. -/
def gatherAll (s : SymbolTable) (key : CallableKey) (gathered : List TypeSet) : SymbolTable :=
  gathered.foldl (fun s types => s.edit (.gatherReturn key types)) s

lemma gatherAll_append (s : SymbolTable) (key : CallableKey) (first rest : List TypeSet) :
    s.gatherAll key (first ++ rest) = (s.gatherAll key first).gatherAll key rest :=
  List.foldl_append

lemma callable?_gatherAll (s : SymbolTable) (key : CallableKey) (gathered : List TypeSet) :
    (s.gatherAll key gathered).callable? key =
      (s.callable? key).map fun c => gathered.foldl Callable.gatherReturn c := by
  induction gathered generalizing s with
  | nil => exact Option.map_id'.symm
  | cons types gathered ih =>
    rw [gatherAll, List.foldl_cons, ← gatherAll, ih, callable?_edit, Option.map_map]
    congr 1
    funext c
    simp [Edit.onCallable]

/-- The callable is known, and its return type is not declared. -/
def ReturnUndeclared (s : SymbolTable) (key : CallableKey) : Prop :=
  ∃ c, s.callable? key = some c ∧ c.GathersReturn

lemma ReturnUndeclared.gatherAll {s : SymbolTable} {key : CallableKey} (h : s.ReturnUndeclared key)
    (gathered : List TypeSet) : (s.gatherAll key gathered).ReturnUndeclared key := by
  obtain ⟨c, hc, hgathers⟩ := h
  refine ⟨gathered.foldl Callable.gatherReturn c, ?_, hgathers.foldl_gatherReturn gathered⟩
  rw [callable?_gatherAll, hc]
  rfl

end SymbolTable

namespace Analysis

variable {setup : Setup} {enter : Enter} {key : CallableKey} {context : Context} {s : Session}

/-! ### Steps that only report -/

lemma run_discard_typing (context : Context) (node : Node) (s : Session) :
    ∃ log, (Functor.discard (typing context node)).run s = .ok (PUnit.unit, { s with log }) := by
  obtain ⟨log, hrun⟩ := run_typing context node s
  exact ⟨log, by rw [run_discard, hrun]; rfl⟩

lemma run_forM_typing (context : Context) (nodes : List Node) (s : Session) :
    ∃ log, (nodes.forM fun node => Functor.discard (typing context node)).run s =
      .ok (PUnit.unit, { s with log }) := by
  induction nodes generalizing s with
  | nil => exact ⟨s.log, rfl⟩
  | cons node nodes ih =>
    obtain ⟨first, hfirst⟩ := run_discard_typing context node s
    obtain ⟨log, hrest⟩ := ih { s with log := first }
    exact ⟨log, (run_bind_of_run hfirst).trans hrest⟩

lemma run_checkNoOp (context : Context) (parent : Option Node) (node : Node) (s : Session) :
    ∃ log, (checkNoOp context parent node).run s = .ok ((), { s with log }) := by
  cases parent with
  | none => exact ⟨s.log, rfl⟩
  | some parent =>
    by_cases hlist : parent.isStatementList = true
    · rw [checkNoOp, if_pos hlist]
      exact ⟨_, rfl⟩
    · rw [checkNoOp, if_neg hlist]
      exact ⟨s.log, rfl⟩

/-- The check of a constant, list, branch or loop may report something, and that is all. -/
lemma run_check_of_form (setup : Setup) (enter : Enter) {node : Node}
    (h : node.kind.isConstantForm = true ∨ node.kind.isBlockForm = true) (context : Context)
    (parent : Option Node) (s : Session) :
    ∃ log, (check setup enter context parent node).run s = .ok (context, { s with log }) := by
  have hcondition : ∀ condition : Node, ∃ log,
      (Functor.discard (typing context condition) >>= fun _ => pure context).run s =
        .ok (context, { s with log }) := by
    intro condition
    obtain ⟨log, hrun⟩ := run_discard_typing context condition s
    exact ⟨log, run_bind_of_run hrun⟩
  obtain ⟨line, kind⟩ := node
  cases kind with
  | array items =>
    obtain ⟨log, hrun⟩ := run_checkNoOp context parent ⟨line, .array items⟩ s
    exact ⟨log, run_bind_of_run hrun⟩
  | expressionList expressions =>
    obtain ⟨log, hrun⟩ := run_forM_typing context expressions s
    exact ⟨log, run_bind_of_run hrun⟩
  | ifElement condition body =>
    cases condition with
    | none => exact ⟨s.log, rfl⟩
    | some condition => exact hcondition condition
  | switchCase condition body =>
    cases condition with
    | none => exact ⟨s.log, rfl⟩
    | some condition => exact hcondition condition
  | whileLoop condition body => exact hcondition condition
  | doWhile body condition => exact hcondition condition
  | switch subject cases => exact hcondition subject
  | literal | unary | binary | cast | conditional | statementList | ifChain | forLoop =>
    exact ⟨s.log, rfl⟩
  | _ => simp [Kind.isConstantForm, Kind.isBlockForm] at h

/-! ### Walks that only gather -/

/-- The action returns and leaves the context alone but for the line. All that it does to the symbol table
is to gather the types in turn for the return type of the callable. -/
def Gathers (key : CallableKey) (gathered : List TypeSet) (context : Context) (s : Session)
    (m : Analysis Context) : Prop :=
  ∃ after t, m.run s = .ok (after, t) ∧ (∀ line, after.atLine line = context.atLine line) ∧
    t.symbols = s.symbols.gatherAll key gathered

/-- The context is in the body of the callable and outside of every class. -/
structure Inside (key : CallableKey) (context : Context) : Prop where
  callable : context.callable = some key
  owner : context.owner = none

lemma Inside.of_atLine_eq {after : Context} (h : Inside key context)
    (hafter : ∀ line, after.atLine line = context.atLine line) : Inside key after where
  callable := (congrArg Context.callable (hafter 0)).trans h.callable
  owner := (congrArg Context.owner (hafter 0)).trans h.owner

lemma Gathers.bind {first rest : List TypeSet} {m : Analysis Context} {f : Context → Analysis Context}
    (hm : Gathers key first context s m)
    (hf : ∀ after t, (∀ line, after.atLine line = context.atLine line) →
      t.symbols = s.symbols.gatherAll key first → Gathers key rest after t (f after)) :
    Gathers key (first ++ rest) context s (m >>= f) := by
  obtain ⟨inner, t, hrun, hinner, ht⟩ := hm
  obtain ⟨after, u, hrest, hafter, hu⟩ := hf inner t hinner ht
  refine ⟨after, u, (run_bind_of_run hrun).trans hrest, fun line => ?_, ?_⟩
  · rw [hafter, hinner]
  · rw [hu, ht, SymbolTable.gatherAll_append]

lemma gathers_foldlM {f : Context → Node → Analysis Context} {types : Node → List TypeSet}
    {nodes : List Node} (h : ∀ node ∈ nodes, ∀ context s, Inside key context →
      s.symbols.ReturnUndeclared key → Gathers key (types node) context s (f context node))
    (hinside : Inside key context) (hs : s.symbols.ReturnUndeclared key) :
    Gathers key (nodes.flatMap types) context s (nodes.foldlM f context) := by
  induction nodes generalizing context s with
  | nil => exact ⟨context, s, rfl, fun _ => rfl, rfl⟩
  | cons node nodes ih =>
    rw [List.forall_mem_cons] at h
    rw [List.foldlM_cons, List.flatMap_cons]
    refine (h.1 context s hinside hs).bind fun after t hafter ht => ?_
    exact ih h.2 (hinside.of_atLine_eq hafter) (ht ▸ hs.gatherAll _)

lemma walk_eq_foldlM {node : Node} (h : node.kind.isWalkedByParts = true) (context : Context)
    (parent : Option Node) : walk setup enter context parent node =
      node.children.foldlM (fun context child => walk setup enter context (some node) child)
        (context.atLine node.line) >>=
          fun context => check setup enter (context.atLine node.line) parent node := by
  rw [walk]
  · simp only [List.foldlM_subtype, List.unattach_attach]
  all_goals
    intros
    rename_i hnode
    rw [hnode] at h
    cases h

/-- A node gathers what its parts gather, and then what its check does. -/
lemma gathers_walk_by_parts {node : Node} {parent : Option Node}
    (hparts : node.kind.isWalkedByParts = true) (types : Node → List TypeSet) {last : List TypeSet}
    (hchildren : ∀ child ∈ node.children, ∀ context s, Inside key context →
      s.symbols.ReturnUndeclared key →
        Gathers key (types child) context s (walk setup enter context (some node) child))
    (hcheck : ∀ context s, Inside key context → s.symbols.ReturnUndeclared key →
      Gathers key last context s (check setup enter context parent node))
    (hinside : Inside key context) (hs : s.symbols.ReturnUndeclared key) :
    Gathers key (node.children.flatMap types ++ last) context s
      (walk setup enter context parent node) := by
  have hline : ∀ {context}, Inside key context → Inside key (context.atLine node.line) :=
    fun h => ⟨h.callable, h.owner⟩
  have hfold : Gathers key (node.children.flatMap types) context s
      (node.children.foldlM (fun context child => walk setup enter context (some node) child)
        (context.atLine node.line)) :=
    gathers_foldlM hchildren (hline hinside) hs
  rw [walk_eq_foldlM hparts]
  refine hfold.bind fun after t hafter ht => ?_
  exact hcheck (after.atLine node.line) t (hline (hinside.of_atLine_eq hafter)) (ht ▸ hs.gatherAll _)

lemma gathers_check_of_form {node : Node}
    (h : node.kind.isConstantForm = true ∨ node.kind.isBlockForm = true) (context : Context)
    (parent : Option Node) (s : Session) :
    Gathers key [] context s (check setup enter context parent node) := by
  obtain ⟨log, hrun⟩ := run_check_of_form setup enter h context parent s
  exact ⟨context, _, hrun, fun _ => rfl, rfl⟩

lemma gathers_walk_constant {node : Node} (h : node.IsConstant) (hinside : Inside key context)
    (hs : s.symbols.ReturnUndeclared key) (parent : Option Node) :
    Gathers key [] context s (walk setup enter context parent node) := by
  induction node using Node.induction_on_children generalizing context s parent with
  | step node ih =>
    have hwalk := gathers_walk_by_parts (Node.isWalkedByParts_of_form (.inl h.form)) (fun _ => [])
      (fun child hchild context s hcontext hs => ih child hchild (h.child hchild) hcontext hs (some node))
      (fun context s _ _ => gathers_check_of_form (.inl h.form) context parent s) hinside hs
    rwa [List.flatMap_eq_nil_iff.mpr fun _ _ => rfl] at hwalk

/-- A return statement gathers the type of what it returns, which is the same everywhere. -/
lemma gathers_checkReturn {value : Node} (h : value.IsConstant) (table : SymbolTable) (place : Context)
    (hinside : Inside key context) (hs : s.symbols.ReturnUndeclared key) :
    Gathers key [typeOf table place value] context s
      (checkReturn context (some value) >>= fun _ => pure context) := by
  obtain ⟨c, hc, hgathers⟩ := hs
  have htrait : isInTrait s.symbols context = false := by
    rw [isInTrait, hinside.owner]
    rfl
  have hundeclared : (c.returnInferred || c.returnType.isEmpty) = true := by
    rw [Bool.or_eq_true, TypeSet.isEmpty_iff]
    exact hgathers
  obtain ⟨log, htyping⟩ := run_typing context value s
  let t : Session := { s with log }
  have hrun : (checkReturn context (some value)).run s =
      .ok ((), t.apply (.edit (.gatherReturn key (typeOf s.symbols context value)))) := by
    simp only [checkReturn, hinside.callable, run_symbols_bind, htrait]
    refine (run_bind_of_run htyping).trans ?_
    simp only [run_symbols_bind, hc, hundeclared]
    rfl
  refine ⟨context, _, run_bind_of_run hrun, fun _ => rfl, ?_⟩
  rw [h.typeOf_eq table s.symbols place context]
  rfl

lemma gathers_walk_return {value : Node} (h : value.IsConstant) (line : Line) (table : SymbolTable)
    (place : Context) (hinside : Inside key context) (hs : s.symbols.ReturnUndeclared key)
    (parent : Option Node) :
    Gathers key [typeOf table place value] context s
      (walk setup enter context parent ⟨line, .returnValue (some value)⟩) := by
  let node : Node := ⟨line, .returnValue (some value)⟩
  have hwalk : Gathers key (node.children.flatMap (fun _ => []) ++ [typeOf table place value]) context s
      (walk setup enter context parent node) := by
    refine gathers_walk_by_parts rfl _ (fun child hchild context s hcontext hs => ?_) ?_ hinside hs
    · rw [List.mem_singleton.mp (show child ∈ [value] from hchild)]
      exact gathers_walk_constant h hcontext hs (some node)
    · exact fun context s hcontext hs => gathers_checkReturn h table place hcontext hs
  exact hwalk

/-- A walk gathers the types of what is returned, in the order in which it comes to the returns. -/
lemma gathers_walk {node : Node} (h : node.OnlyReturns) (table : SymbolTable) (place : Context)
    (hinside : Inside key context) (hs : s.symbols.ReturnUndeclared key) (parent : Option Node) :
    Gathers key (node.returned.map (typeOf table place)) context s
      (walk setup enter context parent node) := by
  induction node using Node.induction_on_children generalizing context s parent with
  | step node ih =>
    rcases h node node.self_mem_nodes with hconstant | hblock | ⟨value, hvalue, hconstant⟩
    · rw [hconstant.returned_eq_nil]
      exact gathers_walk_constant hconstant hinside hs parent
    · have hreturned : node.returned.map (typeOf table place) =
          node.children.flatMap fun child => child.returned.map (typeOf table place) := by
        rw [Node.returned_eq, Node.returned?_eq_none (.inr hblock), List.map_append, List.map_flatMap]
        rfl
      rw [hreturned, ← List.append_nil (node.children.flatMap _)]
      exact gathers_walk_by_parts (Node.isWalkedByParts_of_form (.inr hblock)) _
        (fun child hchild context s hcontext hs =>
          ih child hchild (h.child hchild) hcontext hs (some node))
        (fun context s _ _ => gathers_check_of_form (.inr hblock) context parent s) hinside hs
    · have hreturned : node.returned = [value] := by
        have hchildren : node.children = [value] := by
          rw [Node.eq_of_returned? hvalue]
          rfl
        rw [Node.returned_eq, hvalue, hchildren, List.flatMap_singleton, hconstant.returned_eq_nil]
        rfl
      rw [hreturned, Node.eq_of_returned? hvalue]
      exact gathers_walk_return hconstant node.line table place hinside hs parent

lemma run_asWalkOf {α : Type} {m : Analysis α} {a : α} {t : Session}
    (h : m.run (s.apply (.beginWalk key)) = .ok (a, t)) :
    (asWalkOf key m).run s = .ok (a, t.apply (.endWalk s.revisiting)) :=
  run_bind_of_run (m := change (.beginWalk key) fun _ => m) h

/-- The body of the function is a list of these statements, which only return constants. The function is
outside of every class, and its return type is not declared. -/
structure ReturnsFrom (s : Session) (key : CallableKey) (c : Callable) (statements : List Node) : Prop where
  known : s.symbols.callable? key = some c
  owner : c.owner = none
  undeclared : c.GathersReturn
  body : ∃ line, c.body = some ⟨line, .statementList statements⟩
  returns : ∀ statement ∈ statements, statement.OnlyReturns

/-- The walk of the body of the callable returns and leaves the callable as `d`. -/
def BodyLeaves (setup : Setup) (fuel : Nat) (key : CallableKey) (outer : Context) (s : Session)
    (d : Callable) : Prop :=
  ∃ after t, (enterBody setup fuel key outer).run s = .ok (some after, t) ∧
    t.symbols.callable? key = some d

lemma BodyLeaves.unique {fuel : Nat} {outer : Context} {d e : Callable}
    (hd : BodyLeaves setup fuel key outer s d) (he : BodyLeaves setup fuel key outer s e) : d = e := by
  obtain ⟨after, t, hrun, hd⟩ := hd
  obtain ⟨after', t', hrun', he⟩ := he
  rw [hrun] at hrun'
  cases hrun'
  exact Option.some.inj (hd.symm.trans he)

/-- All that a walk of the body does to the function is to gather the types of what is returned. -/
lemma ReturnsFrom.bodyLeaves {c : Callable} {statements : List Node} (h : ReturnsFrom s key c statements)
    (setup : Setup) (fuel : Nat) (outer : Context) (table : SymbolTable) (place : Context) :
    BodyLeaves setup (fuel + 1) key outer s
      (((statements.flatMap Node.returned).map (typeOf table place)).foldl Callable.gatherReturn c) := by
  obtain ⟨line, hbody⟩ := h.body
  let body : Node := ⟨line, .statementList statements⟩
  have hreturned : body.returned = statements.flatMap Node.returned := Node.returned_eq body
  have honly : body.OnlyReturns := by
    intro part hpart
    rcases Node.mem_nodes_iff.mp hpart with rfl | ⟨statement, hstatement, hpart⟩
    · exact .inr (.inl rfl)
    · exact h.returns statement hstatement part hpart
  have hinside : Inside key (entryContext outer key c body) := ⟨rfl, h.owner⟩
  have hundeclared : (s.apply (.beginWalk key)).symbols.ReturnUndeclared key :=
    ⟨c, h.known, h.undeclared⟩
  obtain ⟨after, t, hrun, -, ht⟩ := gathers_walk honly table place hinside hundeclared none
  refine ⟨after, t.apply (.endWalk s.revisiting), ?_, ?_⟩
  · simp only [enterBody, run_symbols_bind, h.known, hbody]
    exact run_bind_of_run (run_asWalkOf hrun)
  · have hcallable := (s.symbols.callable?_gatherAll key (body.returned.map (typeOf table place)))
    rw [h.known, hreturned] at hcallable
    rw [hreturned] at ht
    exact (congrArg (SymbolTable.callable? · key) ht).trans hcallable

/-- The walk of the body adds to the return type the types of all that is returned, wherever they are
inferred, and marks it as gathered if and only if something is returned. With the statements in another
order it comes to the same return type. -/
theorem gathered_types_ignore_order {s : Session} {key : CallableKey} {c : Callable}
    {statements : List Node} (h : ReturnsFrom s key c statements) (setup : Setup) (fuel : Nat)
    (outer : Context) :
    ∃ d, BodyLeaves setup (fuel + 1) key outer s d ∧
      (∀ (table : SymbolTable) (place : Context) (u : Ty), u ∈ d.returnType ↔ u ∈ c.returnType ∨
        ∃ value ∈ statements.flatMap Node.returned, u ∈ typeOf table place value) ∧
      (d.returnInferred = true ↔
        c.returnInferred = true ∨ statements.flatMap Node.returned ≠ []) ∧
      ∀ {s' : Session} {key' : CallableKey} {c' : Callable} {statements' : List Node},
        ReturnsFrom s' key' c' statements' → statements.Perm statements' →
        c'.returnType = c.returnType → ∀ (setup' : Setup) (fuel' : Nat) (outer' : Context),
          ∃ d', BodyLeaves setup' (fuel' + 1) key' outer' s' d' ∧ d'.returnType = d.returnType := by
  have hleaves := h.bodyLeaves setup fuel outer
  refine ⟨_, hleaves {} outer, fun table place u => ?_, ?_, ?_⟩
  · rw [(hleaves {} outer).unique (hleaves table place), Callable.mem_returnType_foldl_gatherReturn]
    simp only [List.mem_map, exists_exists_and_eq_and]
  · rw [Callable.returnInferred_foldl_gatherReturn, Ne, List.map_eq_nil_iff]
  · intro s' key' c' statements' h' hperm htype setup' fuel' outer'
    refine ⟨_, h'.bodyLeaves setup' fuel' outer' {} outer, TypeSet.ext_members fun u => ?_⟩
    have hgathered := (hperm.flatMap_right Node.returned).map (typeOf {} outer)
    have hmem := fun types => @List.Perm.mem_iff _ types _ _ hgathered
    have hleft := @Callable.mem_returnType_foldl_gatherReturn c'
      ((statements'.flatMap Node.returned).map (typeOf {} outer)) u
    have hright := @Callable.mem_returnType_foldl_gatherReturn c
      ((statements.flatMap Node.returned).map (typeOf {} outer)) u
    refine hleft.trans (Iff.trans ?_ hright.symm)
    rw [htype]
    simp only [hmem]

/-- Returns in a loop, in the branches of a chain and in the cases of a switch, in two orders. -/
theorem gathered_types_ignore_order_nested :
    let int (n : Int64) : Node := ⟨1, .literal (.int n)⟩
    let text : Node := ⟨2, .literal (.string "s")⟩
    let yes : Node := ⟨1, .literal (.bool true)⟩
    let returns (value : Node) : Node := ⟨2, .returnValue (some value)⟩
    let loop : Node := ⟨1, .whileLoop yes ⟨1, .statementList [⟨1, .ifChain [
      ⟨1, .ifElement (some yes) (returns ⟨2, .array [⟨none, int 1⟩, ⟨some text, int 2⟩]⟩)⟩,
      ⟨2, .ifElement none (returns ⟨2, .binary .concat text (int 3)⟩)⟩]⟩]⟩⟩
    let switch : Node := ⟨3, .switch (int 1) [
      ⟨3, .switchCase (some (int 2)) (returns ⟨3, .conditional yes none (int 4)⟩)⟩,
      ⟨4, .switchCase none ⟨4, .doWhile (returns ⟨4, .cast .float text⟩) yes⟩⟩]⟩
    let last : Node := ⟨5, .forLoop none (some ⟨5, .expressionList [yes]⟩) none
      (returns ⟨5, .unary .negate (int 5)⟩)⟩
    let function (statements : List Node) : Callable :=
      { key := .ofFunction "f", name := "f", site := ⟨"a.php", 1⟩
        body := some ⟨1, .statementList statements⟩ }
    let start (statements : List Node) : Session :=
      { symbols := SymbolTable.addFunction {} (function statements) }
    let here : Context := { file := "a.php" }
    ReturnsFrom (start [loop, switch, last]) (.ofFunction "f") (function [loop, switch, last])
        [loop, switch, last] ∧
      ReturnsFrom (start [last, loop, switch]) (.ofFunction "f") (function [last, loop, switch])
        [last, loop, switch] ∧
      ∃ d, BodyLeaves {} 1 (.ofFunction "f") here (start [loop, switch, last]) d ∧
        d.returnInferred = true ∧
        d.returnType = .ofList [.arrayOf .int, .string, .bool, .int, .float] ∧
        ∃ e, BodyLeaves {} 1 (.ofFunction "f") here (start [last, loop, switch]) e ∧
          e.returnType = d.returnType := by
  intro int text yes returns loop switch last function start here
  have hfirst : ReturnsFrom (start [loop, switch, last]) (.ofFunction "f")
      (function [loop, switch, last]) [loop, switch, last] :=
    ⟨by rfl, rfl, .inr rfl, ⟨1, rfl⟩, by decide +kernel⟩
  have hsecond : ReturnsFrom (start [last, loop, switch]) (.ofFunction "f")
      (function [last, loop, switch]) [last, loop, switch] :=
    ⟨by rfl, rfl, .inr rfl, ⟨1, rfl⟩, by decide +kernel⟩
  have hperm : [loop, switch, last].Perm [last, loop, switch] :=
    List.perm_append_singleton last [loop, switch]
  have hreturned : ([loop, switch, last].flatMap Node.returned).flatMap
      (fun value => (typeOf {} here value).members) =
        [.arrayOf .int, .string, .int, .bool, .float, .int] := by
    decide +kernel
  obtain ⟨d, hd, htypes, hmark, horder⟩ := gathered_types_ignore_order hfirst {} 0 here
  obtain ⟨e, he, hsame⟩ := horder hsecond hperm rfl {} 0 here
  refine ⟨hfirst, hsecond, d, hd, hmark.mpr (.inr (by decide +kernel)), ?_, e, he, hsame⟩
  apply TypeSet.ext_members
  intro u
  have hgathered : u ∈ d.returnType ↔ u ∈ ([loop, switch, last].flatMap Node.returned).flatMap
      fun value => (typeOf {} here value).members := by
    rw [htypes {} here u, List.mem_flatMap]
    exact or_iff_right List.not_mem_nil
  refine hgathered.trans ?_
  rw [hreturned, TypeSet.mem_ofList]
  grind

end Analysis

end PhpCheck
