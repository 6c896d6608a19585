import PhpCheck.Analysis.Run
import PhpCheck.Proofs.Inference
import PhpCheck.Proofs.Parts
import PhpCheck.Proofs.ScopeGrowth

/-!
# What the check of a single node does

Everything that the check of a node does by itself is local to the node and leaves the context where it
is, but for assignments, calls, return statements and statements without effect. `Analysis.check_form`
says so once for all kinds of nodes.
-/

namespace PhpCheck

/-- The context is at the same place, and its scope has grown. -/
structure Context.Stays (a b : Context) : Prop where
  continues : a.Continues b
  line : b.line = a.line

namespace Context.Stays

variable {a b c : Context}

lemma refl (a : Context) : a.Stays a := ⟨.refl a, rfl⟩

lemma trans (hab : a.Stays b) (hbc : b.Stays c) : a.Stays c :=
  ⟨hab.continues.trans hbc.continues, hbc.line.trans hab.line⟩

end Context.Stays

/-- The place of the context is one of the lines of the file. -/
structure Context.At (file : String) (lines : Line → Prop) (context : Context) : Prop where
  file : context.file = file
  line : lines context.line

lemma Context.At.stays {file : String} {lines : Line → Prop} {a b : Context} (ha : a.At file lines)
    (h : a.Stays b) : b.At file lines :=
  ⟨h.continues.file.trans ha.file, h.line.symm ▸ ha.line⟩

lemma Context.at_file (context : Context) : context.At context.file fun _ => True := ⟨rfl, trivial⟩

/-- The parts of a node that get a value. -/
def Node.targets (node : Node) : List Node :=
  match node.kind with
  | .assign target _ | .assignRef target _ => [target]
  | .foreach _ key value _ _ => key.toList ++ [value]
  | _ => []

lemma Node.mem_children_of_mem_targets {node target : Node} (h : target ∈ node.targets) :
    target ∈ node.children := by
  unfold targets at h
  split at h
  case h_1 hkind | h_2 hkind =>
    rw [List.mem_singleton.mp h, children, hkind]
    exact List.mem_cons_self ..
  case h_3 hkind =>
    rw [children, hkind]
    simp only [Kind.children, List.cons_append, List.mem_cons, List.mem_append] at h ⊢
    grind
  case h_4 => cases h

/-- Whether the value of the node is thrown away if it stands as a statement. -/
def Node.isIdle (node : Node) : Bool :=
  match node.kind with
  | .var _ | .array _ | .staticProp .. | .const _ | .classConst .. | .prop .. | .closure _ => true
  | _ => false

/-- A change that the check of a node makes by itself: a use is counted, types are added to a property,
or a finding other than a statement without effect is recorded at one of the lines of the file. -/
def Change.IsLocal (file : String) (lines : Line → Prop) : Change → Prop
  | .edit (.useCallable _) | .edit (.useClass _) | .edit (.useProperty ..) | .edit (.useConstant _)
  | .edit (.useClassConstant ..) | .edit (.widenProperty ..) => True
  | .record f line finding => f = file ∧ lines line ∧ finding.kind ≠ .noOp
  | _ => False

lemma Change.IsLocal.isPlain {file : String} {lines : Line → Prop} {c : Change}
    (h : c.IsLocal file lines) : c.IsPlain := by
  cases c with
  | edit e =>
    cases e with
    | capture => cases h
    | rebind => cases h
    | _ => trivial
  | record => trivial
  | arrive => trivial
  | beginWalk => trivial
  | endWalk => trivial
  | beginTrial => cases h
  | endTrial => cases h

lemma kind_of_mem_callFindings {s : SymbolTable} {name : String} {parameters : List Parameter}
    {types : List TypeSet} {finding : Finding} (h : finding ∈ callFindings s name parameters types) :
    finding.kind = .typeError := by
  rcases List.mem_append.mp h with h | h
  · simp only [arityFinding?, Option.mem_toList] at h
    grind [Finding.kind]
  · obtain ⟨typed, -, h⟩ := List.mem_filterMap.mp h
    simp only [argumentFinding?] at h
    grind [Finding.kind]

namespace Analysis

/-! ### Local actions -/

/-- The action makes local changes only and never fails. -/
abbrev Local (file : String) (lines : Line → Prop) {α : Type} (m : Analysis α) : Prop :=
  m.Only (Change.IsLocal file lines) fun _ => False

lemma Only.plain {α : Type} {file : String} {lines : Line → Prop} {m : Analysis α}
    (h : m.Local file lines) : m.Plain :=
  h.mono (fun _ => Change.IsLocal.isPlain) fun _ => id

section Local

variable {file : String} {lines : Line → Prop} {context : Context}

lemma local_edit {e : Edit} (h : (Change.edit e).IsLocal file lines) : (edit e).Local file lines :=
  .change h (.done _)

lemma local_reportAt (hfile : context.file = file) {line : Line} (hline : lines line) {finding : Finding}
    (hfinding : finding.kind ≠ .noOp) : (reportAt context.file line finding).Local file lines :=
  .change ⟨hfile, hline, hfinding⟩ (.done _)

lemma local_report (hat : context.At file lines) {finding : Finding} (hfinding : finding.kind ≠ .noOp) :
    (report context finding).Local file lines :=
  local_reportAt hat.file hat.line hfinding

lemma local_report_undefinedReference (hat : context.At file lines) (error : LookupError) :
    (report context (.undefinedReference error)).Local file lines :=
  local_report hat (by simp [Finding.kind])

lemma local_reportUndefined (hat : context.At file lines) (error : LookupError) :
    (reportUndefined context error).Local file lines :=
  Only.ite (local_report_undefinedReference hat error) (.done _)

lemma local_typing (hfile : context.file = file) {node : Node}
    (hnode : ∀ line, node.HasLine line → lines line) : (typing context node).Local file lines := by
  refine only_symbols.bind fun table => (finds_inferring table context node).only fun fault hfault => ?_
  have hline := hnode _ (hasLine_of_mem_faults table context node fault hfault)
  exact ⟨hfile, hline, by simp [Finding.kind]⟩

lemma local_checkGrouping (setup : Setup) (hfile : context.file = file) {node : Node}
    (hline : lines node.line) : (checkGrouping setup context node).Local file lines := by
  unfold checkGrouping
  refine Only.ite ?_ (.done _)
  split
  · exact local_reportAt hfile hline (by simp [Finding.kind])
  · exact .done _

lemma local_checkStaticTarget (hat : context.At file lines) (reference : Node) (key : CallableKey) :
    (checkStaticTarget context reference key).Local file lines := by
  unfold checkStaticTarget
  refine only_symbols.bind fun table => ?_
  split
  · exact Only.ite (.done _) (local_report hat (by simp [Finding.kind]))
  · exact .done _

lemma local_useProperty (context : Context) (object : Node) (name : Name) :
    (useProperty context object name).Local file lines := by
  unfold useProperty
  refine only_symbols.bind fun table => ?_
  split
  · exact Only.forM fun holder _ => local_edit trivial
  · exact .done _

lemma local_useStaticProperty (context : Context) (reference : Node) (name : Name) :
    (useStaticProperty context reference name).Local file lines := by
  unfold useStaticProperty
  refine only_symbols.bind fun table => ?_
  split
  · exact local_edit trivial
  · exact .done _

lemma local_useConstant (name : String) : (useConstant name).Local file lines := by
  unfold useConstant
  generalize (languageConstant? name).isSome = known
  refine Only.ite (.done _) (only_symbols.bind fun table => ?_)
  split
  · exact local_edit trivial
  · exact .done _

lemma local_useClassConstant (context : Context) (reference : Node) (name : String) :
    (useClassConstant context reference name).Local file lines := by
  unfold useClassConstant
  refine Only.ite (.done _) (only_symbols.bind fun table => ?_)
  split
  · exact local_edit trivial
  · exact .done _

lemma local_bindReference (hat : context.At file lines) (argument : Node) (types : TypeSet) :
    (bindReference context argument types).Local file lines := by
  unfold bindReference
  split
  · exact .done _
  · refine only_symbols.bind fun table => ?_
    split
    · exact Only.bind (Only.forM fun owner _ => local_edit trivial) fun _ => .done _
    · exact Only.bind (local_reportUndefined hat _) fun _ => .done _
  · exact .done _

lemma local_checkArguments (hat : context.At file lines) (callee : CallableKey) (types : List TypeSet) :
    (checkArguments context callee types).Local file lines := by
  unfold checkArguments
  refine only_symbols.bind fun table => ?_
  split
  · exact .done _
  · refine (only_declaredParameters callee).bind fun parameters => Only.forM fun finding hfinding => ?_
    exact local_report hat (by simp [kind_of_mem_callFindings hfinding])

lemma local_assignPlace (context : Context) (place : Place) (type : TypeSet) :
    (assignPlace context place type).Local file lines := by
  unfold assignPlace
  split
  · exact .done _
  · refine only_symbols.bind fun table => ?_
    split
    · exact Only.bind (Only.forM fun owner _ => local_edit trivial) fun _ => .done _
    · exact .done _
  · refine only_symbols.bind fun table => ?_
    split
    · exact Only.bind (local_edit trivial) fun _ => .done _
    · exact .done _

end Local

/-! ### Statements without effect, and return statements -/

lemma only_checkNoOp {G : Change → Prop} (hrecord : ∀ file line finding, G (.record file line finding))
    (context : Context) (parent : Option Node) (node : Node) :
    (checkNoOp context parent node).Only G fun _ => False := by
  unfold checkNoOp
  split
  · exact Only.ite (.change (hrecord _ _ _) (.done _)) (.done _)
  · exact .done _

/-- Beside local changes, a return statement adds to a return type. -/
lemma only_checkReturn {file : String} {lines : Line → Prop} {context : Context}
    (hat : context.At file lines) {value : Option Node}
    (hvalue : ∀ v ∈ value, ∀ line, v.HasLine line → lines line) {G : Change → Prop}
    (hlocal : ∀ c, Change.IsLocal file lines c → G c)
    (hgather : ∀ key types, G (.edit (.gatherReturn key types))) :
    (checkReturn context value).Only G fun _ => False := by
  unfold checkReturn
  split
  · exact .done _
  · refine only_symbols.bind fun table => Only.ite (.done _) ?_
    -- what is done with the type is the same with and without a value
    rcases value with _ | value
    case' some =>
      have htyping := (local_typing hat.file (hvalue value rfl)).mono hlocal fun _ => id
      refine htyping.bind fun returned => ?_
    all_goals
      refine only_symbols.bind fun table => ?_
      split
      · exact .done _
      · refine Only.ite (.change (hgather _ _) (.done _)) (Only.ite (.done _) ?_)
        refine (local_report hat ?_).mono hlocal fun _ => id
        simp [Finding.kind]

variable {setup : Setup} {enter : Enter}

/-! ### Assignments -/

lemma results_assignPlace (context : Context) (place : Place) (type : TypeSet) :
    (assignPlace context place type).Results context.Stays := by
  cases place with
  | var name => exact .done ⟨context.continues_assign name type, rfl⟩
  | property object name =>
    refine results_bind fun table => ?_
    split
    · exact results_bind fun _ => .done (.refl context)
    · exact .done (.refl context)
  | staticProperty reference name =>
    refine results_bind fun table => ?_
    split
    · exact results_bind fun _ => .done (.refl context)
    · exact .done (.refl context)

lemma results_assign (context : Context) (target : Node) (type : TypeSet) :
    (assign context target type).Results context.Stays := by
  unfold assign
  refine results_bind fun places => Results.foldlM (fun b place _ hb => ?_) (Context.Stays.refl context)
  exact (results_assignPlace b place.1 place.2).mono fun c hc => hb.trans hc

lemma stays_declareSource (context : Context) (source : Node) :
    context.Stays (context.declareSource source) := by
  unfold Context.declareSource
  split
  · exact ⟨context.continues_declare _, rfl⟩
  · exact Context.Stays.refl context

/-! ### Calls -/

lemma results_bindReference (context : Context) (argument : Node) (types : TypeSet) :
    (bindReference context argument types).Results context.Stays := by
  unfold bindReference
  split
  · exact .done ⟨context.continues_assign _ types, rfl⟩
  · refine results_bind fun table => ?_
    split
    · exact results_bind fun _ => .done (.refl context)
    · exact results_bind fun _ => .done (.refl context)
  · exact .done (.refl context)

lemma results_bindReferences (parameters : List Parameter) (types : Parameter → TypeSet)
    (context : Context) (arguments : List Node) :
    (bindReferences parameters types context arguments).Results context.Stays := by
  refine Results.foldlM (fun b argument _ hb => ?_) (Context.Stays.refl context)
  dsimp only
  split
  · refine Results.ite ?_ (.done hb)
    exact (results_bindReference b _ _).mono fun c hc => hb.trans hc
  · exact .done hb

lemma local_bindReferences {file : String} {lines : Line → Prop} {context : Context}
    (hat : context.At file lines) (parameters : List Parameter) (types : Parameter → TypeSet)
    (arguments : List Node) :
    (bindReferences parameters types context arguments).Local file lines := by
  refine Only.foldlM (Context.At file lines) (fun b argument hb => ?_) _ hat
  dsimp only
  split
  · constructor
    · exact Only.ite (local_bindReference hb _ _) (.done _)
    · exact Results.ite ((results_bindReference b _ _).mono fun c hc => hb.stays hc) (.done hb)
  · exact ⟨.done _, .done hb⟩

lemma stays_foldl_widen (results : List (String × TypeSet)) (context : Context) :
    context.Stays (results.foldl (fun context (name, type) => context.widen name type) context) := by
  induction results generalizing context with
  | nil => exact Context.Stays.refl context
  | cons result rest ih =>
    exact Context.Stays.trans ⟨context.continues_widen result.1 result.2, rfl⟩ (ih _)

lemma results_tryOut (context : Context) (callee : CallableKey) (arguments : List Node)
    (declared : List Parameter) (types : List TypeSet) :
    (tryOut enter context callee arguments declared types).Results context.Stays := by
  unfold tryOut
  refine results_bind fun table => ?_
  split
  · exact .done (.refl context)
  · refine Results.ite (.done (.refl context)) ?_
    exact results_bind fun results => results_bind fun _ => .done (stays_foldl_widen results context)

/-! ### Calls up to the trial -/

/-- What a call does before it tries the callee out. The result is the parameters that the callee is
declared with, the types of the arguments, and the context with the variables that are passed by
reference. -/
def prepare (context : Context) (callee : CallableKey) (arguments : List Node) :
    Analysis (List Parameter × List TypeSet × Context) := do
  edit (.useCallable callee)
  let parameters ← declaredParameters callee
  let types ← arguments.mapM (typing context)
  let context ← bindReferences parameters (fun _ => ∅) context arguments
  checkArguments context callee types
  let context ← bindReferences parameters Parameter.type context arguments
  return (parameters, types, context)

section Prepare

variable {context : Context} {callee : CallableKey} {arguments : List Node}

lemma call_eq :
    call setup enter context callee arguments = look fun s =>
      match s.symbols.callable? callee with
      | none => pure context
      | some _ => prepare context callee arguments >>= fun r =>
        if setup.settings.quick then pure r.2.2
        else tryOut enter r.2.2 callee arguments r.1 r.2.1 := by
  unfold call prepare
  simp only [bind_assoc, pure_bind]
  rfl

lemma local_prepare {file : String} {lines : Line → Prop} (hat : context.At file lines)
    (harguments : ∀ argument ∈ arguments, ∀ line, argument.HasLine line → lines line) :
    (prepare context callee arguments).Local file lines := by
  have htypes : (arguments.mapM (typing context)).Local file lines :=
    Only.mapM fun argument hargument => local_typing hat.file (harguments argument hargument)
  unfold prepare
  refine Only.bind (local_edit trivial) fun _ => (only_declaredParameters _).bind fun parameters => ?_
  refine htypes.bind fun types => ?_
  refine (local_bindReferences hat _ _ _).bind_results (results_bindReferences _ _ _ _)
    fun bound hbound => ?_
  refine Only.bind (local_checkArguments (hat.stays hbound) _ _) fun _ => ?_
  exact Only.bind (local_bindReferences (hat.stays hbound) _ _ _) fun typed => .done _

lemma results_prepare :
    (prepare context callee arguments).Results fun r => context.Stays r.2.2 := by
  unfold prepare
  refine results_bind fun _ => results_bind fun parameters => results_bind fun types => ?_
  refine (results_bindReferences _ _ _ _).bind fun bound hbound => results_bind fun _ => ?_
  exact (results_bindReferences _ _ _ _).bind fun typed htyped => .done (hbound.trans htyped)

end Prepare

lemma results_call (context : Context) (callee : CallableKey) (arguments : List Node) :
    (call setup enter context callee arguments).Results context.Stays := by
  rw [call_eq]
  refine .look fun s => ?_
  split
  · exact .done (.refl context)
  · refine results_prepare.bind fun r hr => Results.ite (.done hr) ?_
    exact (results_tryOut _ _ _ _ _).mono fun final hfinal => hr.trans hfinal

/-! ### The check of a node -/

lemma results_checkAssign (context : Context) (target value : Node) (byReference : Bool) :
    (checkAssign setup context target value byReference).Results context.Stays := by
  unfold checkAssign
  refine results_bind fun type => (results_assign context target type).bind fun bound hbound => ?_
  refine results_bind fun _ => results_bind fun _ => ?_
  cases byReference with
  | false => exact .done hbound
  | true => exact .done (hbound.trans (stays_declareSource bound value))

lemma results_checkCall (context : Context) (callee : Node) (arguments : List Node) :
    (checkCall setup enter context callee arguments).Results context.Stays := by
  unfold checkCall
  refine results_bind fun _ => results_bind fun _ => results_bind fun table => ?_
  split
  · split
    · exact results_call _ _ _
    · exact results_bind fun _ => .done (.refl context)
  · split
    · exact results_call _ _ _
    · exact .done (.refl context)
  · split
    · exact results_call _ _ _
    · exact .done (.refl context)
  · exact .done (.refl context)

lemma results_checkNew (context : Context) (reference : Node) (arguments : List Node) :
    (checkNew setup enter context reference arguments).Results context.Stays := by
  unfold checkNew
  refine results_bind fun table => ?_
  split
  · exact results_bind fun _ => .done (.refl context)
  · refine results_bind fun _ => results_bind fun table => ?_
    split
    · exact results_call _ _ _
    · exact .done (.refl context)

lemma results_checkStaticCall (context : Context) (reference : Node) (method : String)
    (arguments : List Node) :
    (checkStaticCall setup enter context reference method arguments).Results context.Stays := by
  unfold checkStaticCall
  refine Results.ite (results_bind fun _ => .done (.refl context)) ?_
  refine results_bind fun table => ?_
  split
  · exact results_bind fun _ => .done (.refl context)
  · exact results_bind fun _ => results_call _ _ _

lemma results_checkMethodCall (context : Context) (receiver : Node) (method : String)
    (arguments : List Node) :
    (checkMethodCall setup enter context receiver method arguments).Results context.Stays := by
  unfold checkMethodCall
  refine results_bind fun table => ?_
  split
  · exact results_bind fun _ => .done (.refl context)
  · split
    · exact results_call _ _ _
    · exact results_bind fun _ => .done (.refl context)

/-! ### All checks -/

section Check

variable {file : String} {lines : Line → Prop} {context : Context}

/-- The action is local and leaves the context where it is. -/
def Quiet (file : String) (lines : Line → Prop) (context : Context) (m : Analysis Context) : Prop :=
  m.Local file lines ∧ m.Results context.Stays

lemma quiet_pure (context : Context) : Quiet file lines context (pure context) :=
  ⟨.done _, .done (.refl context)⟩

lemma quiet_bind {α : Type} {m : Analysis α} {f : α → Analysis Context} (hm : m.Local file lines)
    (hf : ∀ a, Quiet file lines context (f a)) : Quiet file lines context (m >>= f) :=
  ⟨hm.bind fun a => (hf a).1, results_bind fun a => (hf a).2⟩

lemma quiet_ite {c : Prop} [Decidable c] {m n : Analysis Context} (hm : Quiet file lines context m)
    (hn : Quiet file lines context n) : Quiet file lines context (if c then m else n) :=
  ⟨Only.ite hm.1 hn.1, Results.ite hm.2 hn.2⟩

lemma quiet_assign (context : Context) (name : String) (types : TypeSet) :
    Quiet file lines context (pure (context.assign name types)) :=
  ⟨.done _, .done ⟨context.continues_assign name types, rfl⟩⟩

/-- What the check of a node comes to, and whether the node is idle. -/
inductive CheckForm (setup : Setup) (enter : Enter) (file : String) (lines : Line → Prop)
    (context : Context) (parent : Option Node) (node : Node) : Bool → Analysis Context → Prop
  | assign {target value : Node} (byReference : Bool) (htarget : target ∈ node.targets)
    (hvalue : value ∈ node.children) : CheckForm setup enter file lines context parent node false
      (checkAssign setup context target value byReference)
  | call {callee : Node} {arguments : List Node} (hcallee : callee ∈ node.children)
    (harguments : ∀ argument ∈ arguments, argument ∈ node.children) :
    CheckForm setup enter file lines context parent node false
      (checkCall setup enter context callee arguments)
  | new (reference : Node) {arguments : List Node}
    (harguments : ∀ argument ∈ arguments, argument ∈ node.children) :
    CheckForm setup enter file lines context parent node false
      (checkNew setup enter context reference arguments)
  | staticCall (reference : Node) (method : String) {arguments : List Node}
    (harguments : ∀ argument ∈ arguments, argument ∈ node.children) :
    CheckForm setup enter file lines context parent node false
      (checkStaticCall setup enter context reference method arguments)
  | methodCall (receiver : Node) (method : String) {arguments : List Node}
    (harguments : ∀ argument ∈ arguments, argument ∈ node.children) :
    CheckForm setup enter file lines context parent node false
      (checkMethodCall setup enter context receiver method arguments)
  | returns {value : Option Node} (hvalue : ∀ v ∈ value, v ∈ node.children) :
    CheckForm setup enter file lines context parent node false
      (checkReturn context value >>= fun _ => pure context)
  | quiet {m : Analysis Context} (h : Quiet file lines context m) :
    CheckForm setup enter file lines context parent node false m
  | idle {m : Analysis Unit} (h : m.Local file lines) {after : Context}
    (hafter : after = context ∨ ∃ decl, node.kind = .closure decl) :
    CheckForm setup enter file lines context parent node true
      (m >>= fun _ => checkNoOp context parent node >>= fun _ => pure after)

/-- The findings of the check of a node are at the place of the context or at a part of the node. -/
lemma check_form (hat : context.At file lines) (parent : Option Node) {node : Node}
    (hnode : ∀ line, node.HasLine line → lines line) :
    CheckForm setup enter file lines context parent node node.isIdle
      (check setup enter context parent node) := by
  have hchild : ∀ child ∈ node.children, ∀ line, child.HasLine line → lines line :=
    fun child hchild line hline => hnode line (hline.of_child hchild)
  have hquiet : ∀ {value : Node} {f : TypeSet → Analysis Context}, value ∈ node.children →
      (∀ type, Quiet file lines context (f type)) →
      Quiet file lines context (typing context value >>= f) :=
    fun hvalue hf => quiet_bind (local_typing hat.file (hchild _ hvalue)) hf
  unfold check
  split
  case h_1 target value hkind =>
    rw [Node.isIdle, hkind]
    exact .assign false (by simp [Node.targets, hkind]) (by simp [Node.children, hkind, Kind.children])
  case h_2 target value hkind =>
    rw [Node.isIdle, hkind]
    exact .assign true (by simp [Node.targets, hkind]) (by simp [Node.children, hkind, Kind.children])
  -- the conditions of branches and loops
  case h_3 hkind | h_4 hkind | h_5 hkind | h_6 hkind | h_7 hkind =>
    rw [Node.isIdle, hkind]
    refine .quiet (quiet_bind (Only.discard (local_typing hat.file (hchild _ ?_))) fun _ =>
      quiet_pure context)
    simp [Node.children, hkind, Kind.children]
  case h_8 expressions hkind =>
    rw [Node.isIdle, hkind]
    refine .quiet (quiet_bind (Only.forM fun expression hexpression => ?_) fun _ => quiet_pure context)
    refine Only.discard (local_typing hat.file (hchild _ ?_))
    simpa [Node.children, hkind, Kind.children] using hexpression
  case h_9 hkind =>
    rw [Node.isIdle, hkind]
    refine .quiet (hquiet (by simp [Node.children, hkind, Kind.children]) fun type => ?_)
    exact quiet_ite (quiet_bind (local_report hat (by simp [Finding.kind])) fun _ => quiet_pure context)
      (quiet_pure context)
  case h_10 name hkind =>
    rw [Node.isIdle, hkind]
    exact .quiet (quiet_assign context name _)
  case h_11 name default hkind =>
    rw [Node.isIdle, hkind]
    refine .quiet ?_
    cases default with
    | none => exact quiet_assign context name _
    | some default =>
      refine hquiet ?_ fun type => quiet_assign context name type
      simp [Node.children, hkind, Kind.children]
  case h_12 hkind | h_13 hkind =>
    rw [Node.isIdle, hkind]
    refine .quiet (hquiet (by simp [Node.children, hkind, Kind.children]) fun type => ?_)
    exact quiet_ite (quiet_bind (local_report hat (by simp [Finding.kind])) fun _ => quiet_pure context)
      (quiet_pure context)
  case h_14 hkind | h_15 hkind =>
    rw [Node.isIdle, hkind]
    exact .idle (m := pure ()) (.done _) (.inl rfl)
  -- the uses of members and constants
  case h_16 hkind =>
    rw [Node.isIdle, hkind]
    exact .idle (local_useStaticProperty _ _ _) (.inl rfl)
  case h_17 name hkind =>
    rw [Node.isIdle, hkind]
    exact .idle (local_useConstant name) (.inl rfl)
  case h_18 hkind =>
    rw [Node.isIdle, hkind]
    exact .idle (local_useClassConstant _ _ _) (.inl rfl)
  case h_19 hkind =>
    rw [Node.isIdle, hkind]
    exact .idle (local_useProperty _ _ _) (.inl rfl)
  case h_20 decl hkind =>
    rw [Node.isIdle, hkind]
    exact .idle (m := pure ()) (.done _) (.inr ⟨decl, hkind⟩)
  case h_21 value hkind =>
    rw [Node.isIdle, hkind]
    refine .returns fun v hv => ?_
    simpa [Node.children, hkind, Kind.children] using hv
  case h_22 callee arguments hkind =>
    rw [Node.isIdle, hkind]
    refine .call (by simp [Node.children, hkind, Kind.children]) fun argument hargument => ?_
    simp [Node.children, hkind, Kind.children, hargument]
  case h_23 reference arguments hkind =>
    rw [Node.isIdle, hkind]
    refine .new reference fun argument hargument => ?_
    simp [Node.children, hkind, Kind.children, hargument]
  case h_24 reference hkind =>
    rw [Node.isIdle, hkind]
    refine .quiet ⟨only_symbols.bind fun table => ?_, results_bind fun table => ?_⟩
    · split
      · exact Only.bind (local_reportUndefined hat _) fun _ => .done _
      · exact .done _
    · split
      · exact results_bind fun _ => .done (.refl context)
      · exact .done (.refl context)
  case h_25 reference method arguments hkind =>
    rw [Node.isIdle, hkind]
    refine .staticCall reference method fun argument hargument => ?_
    simp [Node.children, hkind, Kind.children, hargument]
  case h_26 receiver method arguments hkind =>
    rw [Node.isIdle, hkind]
    refine .methodCall receiver method fun argument hargument => ?_
    simp [Node.children, hkind, Kind.children, hargument]
  case h_27 hkind =>
    rw [Node.isIdle, hkind]
    have hgrouping := local_checkGrouping setup hat.file (hnode _ node.hasLine_self)
    exact .quiet (quiet_ite (quiet_bind hgrouping fun _ => quiet_pure context) (quiet_pure context))
  case h_28 =>
    have hidle : node.isIdle = false := by
      unfold Node.isIdle
      split <;> simp_all
    rw [hidle]
    exact .quiet (quiet_pure context)

end Check

end Analysis

end PhpCheck
