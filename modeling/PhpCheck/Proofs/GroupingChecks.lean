import PhpCheck.Proofs.ContextGrowth
import PhpCheck.Proofs.Inference
import PhpCheck.Proofs.Mirror

/-!
# Looking for grouping risks does not interfere

Two runs over the same units, of which one looks for grouping risks and the other does not, or which know
different source texts, walk the same nodes in the same contexts and record the same diagnostics, grouping
risks aside.
-/

namespace PhpCheck

namespace Analysis

/-- The action does not look at the risks in the log. -/
abbrev Blind {α : Type} (m : Analysis α) : Prop := Mirrors m m

/-! ### Actions that are the same in both runs -/

lemma blind_report (context : Context) (finding : Finding) :
    (report context finding).Blind :=
  .perform _

lemma blind_reportUndefined (context : Context) (error : LookupError) :
    (reportUndefined context error).Blind :=
  .ite (blind_report _ _) (.done _)

lemma Finds.blind {α : Type} {file : String} {faults : List OperandFault} {a : α} {m : Analysis α}
    (h : Finds file faults a m) : m.Blind := by
  induction h with
  | done result => exact .done result
  | look _ ih => exact .look fun _ _ _ => ih
  | record _ ih => exact .change _ ih

lemma blind_typing (context : Context) (node : Node) : (typing context node).Blind :=
  Mirrors.symbols fun table => (finds_inferring table context node).blind

lemma blind_inferQuietly (context : Context) (node : Node) : (inferQuietly context node).Blind := by
  rw [inferQuietly_eq]
  exact Mirrors.symbols fun table => .done _

lemma blind_checkNoOp (context : Context) (parent : Option Node) (node : Node) :
    (checkNoOp context parent node).Blind := by
  cases parent with
  | none => exact .done _
  | some parent => exact .ite (blind_report _ _) (.done _)

lemma blind_assignPlace (context : Context) (place : Place) (type : TypeSet) :
    (assignPlace context place type).Blind := by
  cases place with
  | var name => exact .done _
  | property object name =>
    apply Mirrors.symbols
    intro table
    cases table.resolveClasses context object with
    | ok owners => exact Mirrors.bind_pure (.forM fun owner _ => .perform _) _
    | error e => exact .done _
  | staticProperty reference name =>
    apply Mirrors.symbols
    intro table
    cases table.resolveClass context reference with
    | ok owner => exact (Mirrors.perform _).bind_pure _
    | error e => exact .done _

lemma blind_assign (context : Context) (target : Node) (type : TypeSet) :
    (assign context target type).Blind := by
  unfold assign
  cases placesOf target type with
  | error f => exact .fault f
  | ok places => exact Mirrors.foldlM (fun c place _ => blind_assignPlace c place.1 place.2) context

lemma blind_bindReference (context : Context) (argument : Node) (types : TypeSet) :
    (bindReference context argument types).Blind := by
  unfold bindReference
  split
  · exact .done _
  · apply Mirrors.symbols
    intro table
    split
    · exact Mirrors.bind_pure (.forM fun owner _ => .perform _) _
    · exact (blind_reportUndefined _ _).bind_pure _
  · exact .done _

lemma blind_bindReferences (parameters : List Parameter) (types : Parameter → TypeSet)
    (context : Context) (arguments : List Node) :
    (bindReferences parameters types context arguments).Blind := by
  apply Mirrors.foldlM
  intro c argument _
  dsimp only
  split
  · exact .ite (blind_bindReference _ _ _) (.done _)
  · exact .done _

lemma blind_checkArguments (context : Context) (callee : CallableKey) (types : List TypeSet) :
    (checkArguments context callee types).Blind := by
  apply Mirrors.symbols
  intro table
  split
  · exact .done _
  · apply Mirrors.declaredParameters
    intro parameters
    exact .forM fun finding _ => blind_report context finding

lemma blind_checkReturn (context : Context) (value : Option Node) :
    (checkReturn context value).Blind := by
  unfold checkReturn
  split
  · exact .done _
  · refine Mirrors.symbols fun table => Mirrors.ite (.done _) ?_
    -- what is done with the type is the same with and without a value
    rcases value with _ | value
    case' some => refine (blind_typing context value).bind fun returned => ?_
    all_goals
      refine Mirrors.symbols fun table => ?_
      split
      · exact .done _
      · exact .ite (.perform _) (.ite (.done _) (blind_report _ _))

lemma blind_checkStaticTarget (context : Context) (reference : Node) (key : CallableKey) :
    (checkStaticTarget context reference key).Blind := by
  apply Mirrors.symbols
  intro table
  split
  · exact .ite (.done _) (blind_report _ _)
  · exact .done _

lemma blind_useProperty (context : Context) (object : Node) (name : Name) :
    (useProperty context object name).Blind := by
  apply Mirrors.symbols
  intro table
  split
  · exact .forM fun holder _ => .perform _
  · exact .done _

lemma blind_useStaticProperty (context : Context) (reference : Node) (name : Name) :
    (useStaticProperty context reference name).Blind := by
  apply Mirrors.symbols
  intro table
  split
  · exact .perform _
  · exact .done _

lemma blind_useConstant (name : String) : (useConstant name).Blind := by
  apply Mirrors.ite (.done _)
  apply Mirrors.symbols
  intro table
  split
  · exact .perform _
  · exact .done _

lemma blind_useClassConstant (context : Context) (reference : Node) (name : String) :
    (useClassConstant context reference name).Blind := by
  apply Mirrors.ite (.done _)
  apply Mirrors.symbols
  intro table
  split
  · exact .perform _
  · exact .done _

lemma blind_captureUses (context : Context) (key : CallableKey) (uses : List ClosureUse) :
    (captureUses context key uses).Blind :=
  .forM fun _ _ => .perform _

/-! ### Looking for risks -/

lemma checkGrouping_cases (setup : Setup) (context : Context) (node : Node) :
    checkGrouping setup context node = pure () ∨
      ∃ expression, checkGrouping setup context node =
        reportAt context.file node.line (.groupingRisk expression) := by
  unfold checkGrouping
  split
  · split
    · exact .inr ⟨_, rfl⟩
    · exact .inl rfl
  · exact .inl rfl

/-- All that two setups may differ in for a node. -/
lemma mirrors_checkGrouping (one two : Setup) (context : Context) (node : Node) :
    Mirrors (checkGrouping one context node) (checkGrouping two context node) := by
  have hrisk : ∀ expression,
      (Change.record context.file node.line (.groupingRisk expression)).IsRisk := fun _ => rfl
  rcases checkGrouping_cases one context node with hone | ⟨first, hone⟩
  · rcases checkGrouping_cases two context node with htwo | ⟨second, htwo⟩
    · rw [hone, htwo]
      exact .done _
    · rw [hone, htwo]
      exact .right (hrisk second) (.done _)
  · rcases checkGrouping_cases two context node with htwo | ⟨second, htwo⟩
    · rw [hone, htwo]
      exact .left (hrisk first) (.done _)
    · rw [hone, htwo]
      exact .left (hrisk first) (.right (hrisk second) (.done _))

lemma mirrors_checkAssign (one two : Setup) (context : Context) (target value : Node)
    (byReference : Bool) : Mirrors (checkAssign one context target value byReference)
      (checkAssign two context target value byReference) := by
  refine (blind_typing context value).bind fun type => ?_
  refine (blind_assign context target type).bind fun bound => ?_
  refine (mirrors_checkGrouping one two _ target).bind fun _ => ?_
  exact (mirrors_checkGrouping one two _ value).bind_pure _

section Calls

/- Two setups that differ in the search for risks at most, and entries into bodies that mirror one
another. -/
variable {one two : Setup} {enter enter' : Enter} (hquick : one.settings.quick = two.settings.quick)
  (henter : ∀ key context, Mirrors (enter key context) (enter' key context))

include henter

lemma mirrors_speculate (context : Context) (callee : CallableKey) (arguments : List Node)
    (declared : List Parameter) (types : List TypeSet) :
    Mirrors (speculate enter context callee arguments declared types)
      (speculate enter' context callee arguments declared types) := by
  apply Mirrors.symbols
  intro table
  split
  · exact .done _
  · refine (Mirrors.perform _).bind fun _ => ?_
    apply Mirrors.ite (.done _)
    refine Mirrors.isOnTrial callee fun busy => ?_
    apply Mirrors.ite (.done _)
    refine ((henter callee context).onTrial _).bind fun final => ?_
    cases final with
    | none => exact .done _
    | some final => exact .done _

lemma mirrors_tryOut (context : Context) (callee : CallableKey) (arguments : List Node)
    (declared : List Parameter) (types : List TypeSet) :
    Mirrors (tryOut enter context callee arguments declared types)
      (tryOut enter' context callee arguments declared types) := by
  apply Mirrors.symbols
  intro table
  split
  · exact .done _
  · apply Mirrors.ite (.done _)
    refine (mirrors_speculate henter context callee arguments declared types).bind fun results => ?_
    exact (Mirrors.perform _).bind_pure _

include hquick

lemma mirrors_call (context : Context) (callee : CallableKey) (arguments : List Node) :
    Mirrors (call one enter context callee arguments) (call two enter' context callee arguments) := by
  unfold call
  rw [hquick]
  apply Mirrors.symbols
  intro table
  split
  · exact .done _
  · refine (Mirrors.perform _).bind fun _ => Mirrors.declaredParameters callee fun parameters => ?_
    have htypes : Mirrors (arguments.mapM (typing context)) (arguments.mapM (typing context)) :=
      .mapM fun argument _ => blind_typing context argument
    refine htypes.bind fun types => ?_
    refine (blind_bindReferences _ _ _ _).bind fun bound => ?_
    refine (blind_checkArguments _ _ _).bind fun _ => ?_
    refine (blind_bindReferences _ _ _ _).bind fun typed => ?_
    exact .ite (.done _) (mirrors_tryOut henter typed callee arguments parameters types)

lemma mirrors_checkCall (context : Context) (callee : Node) (arguments : List Node) :
    Mirrors (checkCall one enter context callee arguments)
      (checkCall two enter' context callee arguments) := by
  have hcall := mirrors_call hquick henter context
  refine (mirrors_checkGrouping one two context callee).bind fun _ => ?_
  have hgroupings : Mirrors (arguments.forM (checkGrouping one context))
      (arguments.forM (checkGrouping two context)) :=
    .forM fun argument _ => mirrors_checkGrouping one two context argument
  refine hgroupings.bind fun _ => Mirrors.symbols fun table => ?_
  split
  · split
    · exact hcall _ _
    · exact (blind_report _ _).bind_pure _
  · split
    · exact hcall _ _
    · exact .done _
  · split
    · exact hcall _ _
    · exact .done _
  · exact .done _

lemma mirrors_checkNew (context : Context) (reference : Node) (arguments : List Node) :
    Mirrors (checkNew one enter context reference arguments)
      (checkNew two enter' context reference arguments) := by
  apply Mirrors.symbols
  intro table
  split
  · exact (blind_reportUndefined _ _).bind_pure _
  · refine (Mirrors.perform _).bind fun _ => Mirrors.symbols fun table => ?_
    split
    · exact mirrors_call hquick henter _ _ _
    · exact .done _

lemma mirrors_checkStaticCall (context : Context) (reference : Node) (method : String)
    (arguments : List Node) : Mirrors (checkStaticCall one enter context reference method arguments)
      (checkStaticCall two enter' context reference method arguments) := by
  apply Mirrors.ite ((blind_report _ _).bind_pure _)
  apply Mirrors.symbols
  intro table
  split
  · exact (blind_reportUndefined _ _).bind_pure _
  · refine (blind_checkStaticTarget _ _ _).bind fun _ => ?_
    exact mirrors_call hquick henter _ _ _

lemma mirrors_checkMethodCall (context : Context) (receiver : Node) (method : String)
    (arguments : List Node) : Mirrors (checkMethodCall one enter context receiver method arguments)
      (checkMethodCall two enter' context receiver method arguments) := by
  apply Mirrors.symbols
  intro table
  split
  · exact (blind_reportUndefined _ _).bind_pure _
  · split
    · exact mirrors_call hquick henter _ _ _
    · exact (blind_report _ _).bind_pure _

/-! ### Nodes, bodies and files -/

lemma mirrors_check (context : Context) (parent : Option Node) (node : Node) :
    Mirrors (check one enter context parent node) (check two enter' context parent node) := by
  unfold check
  split
  case h_1 target value _ => exact mirrors_checkAssign one two context target value false
  case h_2 target value _ => exact mirrors_checkAssign one two context target value true
  -- the conditions of branches and loops
  case h_3 | h_4 | h_5 | h_6 | h_7 => exact (blind_typing _ _).discard.bind_pure _
  case h_8 expressions _ =>
    exact Mirrors.bind_pure (.forM fun expression _ => (blind_typing _ expression).discard) _
  case h_9 | h_12 | h_13 =>
    refine (blind_typing _ _).bind fun type => ?_
    exact .ite ((blind_report _ _).bind_pure _) (.done _)
  case h_10 => exact .done _
  case h_11 name default _ =>
    cases default with
    | none => exact .done _
    | some default => exact (blind_typing _ _).bind_pure _
  case h_14 | h_15 | h_20 => exact (blind_checkNoOp _ _ _).bind_pure _
  -- the uses of members and constants
  case h_16 => exact (blind_useStaticProperty _ _ _).bind fun _ => (blind_checkNoOp _ _ _).bind_pure _
  case h_17 => exact (blind_useConstant _).bind fun _ => (blind_checkNoOp _ _ _).bind_pure _
  case h_18 => exact (blind_useClassConstant _ _ _).bind fun _ => (blind_checkNoOp _ _ _).bind_pure _
  case h_19 => exact (blind_useProperty _ _ _).bind fun _ => (blind_checkNoOp _ _ _).bind_pure _
  case h_21 => exact (blind_checkReturn _ _).bind_pure _
  case h_22 => exact mirrors_checkCall hquick henter _ _ _
  case h_23 => exact mirrors_checkNew hquick henter _ _ _
  case h_24 =>
    refine Mirrors.symbols fun table => ?_
    split
    · exact (blind_reportUndefined _ _).bind_pure _
    · exact .done _
  case h_25 => exact mirrors_checkStaticCall hquick henter _ _ _ _
  case h_26 => exact mirrors_checkMethodCall hquick henter _ _ _ _
  case h_27 => exact .ite ((mirrors_checkGrouping one two _ _).bind_pure _) (.done _)
  case h_28 => exact .done _

lemma mirrors_walk (context : Context) (parent : Option Node) (node : Node) :
    Mirrors (walk one enter context parent node) (walk two enter' context parent node) := by
  have hcheck := mirrors_check hquick henter
  fun_induction walk one enter context parent node
  case case1 outer parent line decl context hbody =>
    rw [walk]
    exact hbody.discard.bind fun _ => (hcheck _ _ _).discard.bind_pure _
  case case2 outer parent line decl key context =>
    rw [walk]
    refine (Mirrors.perform _).bind fun _ => (henter _ _).discard.bind fun _ => ?_
    exact (hcheck _ _ _).discard.bind_pure _
  case case3 outer parent line decl name context hname =>
    have howner : (outer.atLine line).owner = some name := hname
    rw [walk, howner]
    refine (Mirrors.perform _).bind fun _ => (henter _ _).discard.bind fun _ => ?_
    exact (hcheck _ _ _).discard.bind_pure _
  case case4 outer parent line decl context hnone =>
    have howner : (outer.atLine line).owner = none := hnone
    rw [walk, howner]
    exact (Mirrors.perform _).bind fun _ => (hcheck _ _ _).discard.bind_pure _
  case case5 outer parent line decl context key =>
    rw [walk]
    refine (blind_captureUses _ _ _).bind fun _ => (Mirrors.perform _).bind fun _ => ?_
    exact (henter _ _).discard.bind fun _ => (hcheck _ _ _).discard.bind_pure _
  case case6 outer parent line subject value body byReference context hsubject hvalue hbody =>
    rw [walk]
    refine hsubject.bind fun c => (blind_inferQuietly c subject).bind fun type => ?_
    refine (blind_assign _ _ _).bind fun c => (hvalue c).bind fun c => (hbody c).bind fun c => ?_
    exact hcheck _ _ _
  case case7 outer parent line subject key value body byReference context hsubject hkey hvalue hbody =>
    rw [walk]
    refine hsubject.bind fun c => (blind_inferQuietly c subject).bind fun type => ?_
    refine (blind_assign _ _ _).bind fun c => (hkey c).bind fun c => ?_
    refine (blind_assign _ _ _).bind fun c => (hvalue c).bind fun c => (hbody c).bind fun c => ?_
    exact hcheck _ _ _
  case case8 outer parent node hclass hfunction hmethod hclosure _ _ context hchildren =>
    rw [walk]
    · refine Mirrors.bind (.foldlM (fun c child _ => hchildren c child) _) fun c => ?_
      exact hcheck _ _ _
    all_goals assumption

omit henter

/-- Bodies are entered alike, however deep. -/
lemma mirrors_enterBody (fuel : Nat) (key : CallableKey) (outer : Context) :
    Mirrors (enterBody one fuel key outer) (enterBody two fuel key outer) := by
  induction fuel generalizing key outer with
  | zero => exact .fault _
  | succ fuel ih =>
    rw [enterBody, enterBody]
    refine Mirrors.symbols fun table => ?_
    split
    · exact .done _
    · split
      · exact .done _
      · exact ((mirrors_walk hquick ih _ _ _).asWalkOf key).bind_pure _

lemma mirrors_walkFile (file : String) (root : Node) :
    Mirrors (walkFile one file root) (walkFile two file root) :=
  .symbols fun table => mirrors_walk hquick (mirrors_enterBody hquick table.nestingBound) _ none root

end Calls

/-- Walks units in turn; the results are the contexts that they end in. -/
def walkFiles (setup : Setup) (units : List SourceUnit) : Analysis (List Context) :=
  units.mapM fun unit => walkFile setup unit.path unit.root

end Analysis

/-- Collects the declarations of all units and walks the units in turn. Beside the outcome, the results
are the contexts that the units end in. -/
def analyzeFiles (setup : Setup) (units : List SourceUnit) : Except Failure (List Context × Outcome) :=
  match SymbolTable.builtin.collectUnits units with
  | .error error => .error (.load error)
  | .ok symbols =>
    match (Analysis.walkFiles setup units).run { symbols } with
    | .error fault => .error (.fault fault)
    | .ok (contexts, session) => .ok (contexts, ⟨session.symbols, session.log⟩)

lemma Analysis.discard_walkFiles (setup : Setup) (units : List SourceUnit) :
    Functor.discard (walkFiles setup units) = walkUnits setup units := by
  induction units with
  | nil => rfl
  | cons unit rest ih =>
    have hdiscard : ∀ {α : Type} (m : Analysis α),
        Functor.discard m = m >>= fun _ => pure PUnit.unit := fun _ => rfl
    have hcons : walkUnits setup (unit :: rest) =
        Functor.discard (walkFile setup unit.path unit.root) >>= fun _ => walkUnits setup rest := rfl
    rw [hcons, ← ih, walkFiles, walkFiles, List.mapM_cons]
    simp only [hdiscard, bind_assoc, pure_bind]

/-- The outcome is that of the program. -/
lemma analyzeUnits_eq_map_analyzeFiles (setup : Setup) (units : List SourceUnit) :
    analyzeUnits setup units = (analyzeFiles setup units).map Prod.snd := by
  unfold analyzeUnits analyzeFiles
  cases SymbolTable.builtin.collectUnits units with
  | error e => rfl
  | ok symbols =>
    simp only [← Analysis.discard_walkFiles, Analysis.run_discard]
    cases (Analysis.walkFiles setup units).run { symbols } with
    | error f => rfl
    | ok result => rfl

lemma analyzeFiles_eq_ok_iff {setup : Setup} {units : List SourceUnit} {symbols : SymbolTable}
    (hcollect : SymbolTable.builtin.collectUnits units = .ok symbols) {contexts : List Context}
    {outcome : Outcome} : analyzeFiles setup units = .ok (contexts, outcome) ↔
      ∃ session, (Analysis.walkFiles setup units).run { symbols } = .ok (contexts, session) ∧
        outcome = ⟨session.symbols, session.log⟩ := by
  simp only [analyzeFiles, hcollect]
  cases (Analysis.walkFiles setup units).run { symbols } with
  | error f => simp
  | ok result =>
    obtain ⟨final, session⟩ := result
    simp only [Except.ok.injEq, Prod.mk.injEq]
    constructor
    · rintro ⟨rfl, rfl⟩
      exact ⟨session, ⟨rfl, rfl⟩, rfl⟩
    · rintro ⟨session', ⟨rfl, rfl⟩, rfl⟩
      exact ⟨rfl, rfl⟩

/-- Whether or not a run looks for grouping risks, and whatever source texts it has for that, it finishes
with the same contexts and the same symbol table, and its diagnostics are the same but for those risks. -/
theorem groupingChecks_do_not_interfere {units : List SourceUnit} {quick one two : Bool}
    {sources others : Sources} {contexts : List Context} {outcome : Outcome}
    (h : analyzeFiles ⟨⟨one, quick⟩, sources⟩ units = .ok (contexts, outcome)) :
    ∃ other, analyzeFiles ⟨⟨two, quick⟩, others⟩ units = .ok (contexts, other) ∧
      other.symbols = outcome.symbols ∧ other.log.withoutRisks = outcome.log.withoutRisks := by
  cases hcollect : SymbolTable.builtin.collectUnits units with
  | error e =>
    rw [analyzeFiles, hcollect] at h
    cases h
  | ok symbols =>
    obtain ⟨session, hrun, rfl⟩ := (analyzeFiles_eq_ok_iff hcollect).mp h
    have hquick : (⟨⟨one, quick⟩, sources⟩ : Setup).settings.quick =
        (⟨⟨two, quick⟩, others⟩ : Setup).settings.quick := rfl
    have hmirrors : Analysis.Mirrors (Analysis.walkFiles ⟨⟨one, quick⟩, sources⟩ units)
        (Analysis.walkFiles ⟨⟨two, quick⟩, others⟩ units) :=
      .mapM fun unit _ => Analysis.mirrors_walkFile hquick unit.path unit.root
    obtain ⟨other, hother, hsame⟩ := hmirrors.run_eq_ok rfl hrun
    refine ⟨⟨other.symbols, other.log⟩, (analyzeFiles_eq_ok_iff hcollect).mpr ⟨other, hother, rfl⟩, ?_, ?_⟩
    · exact (Session.eq_of_withoutRisks_eq hsame Session.symbols fun _ => rfl).symm
    · exact (congrArg Session.log hsame).symm

/-- A body with a risk and with a statement without effect is walked twice. With the search for risks and
without it, the statement is reported once. -/
theorem groupingChecks_do_not_interfere_walkedTwice :
    let body : Node := ⟨1, .statementList [
      ⟨2, .echo ⟨2, .dim ⟨2, .var (.computed ⟨2, .var (.literal "a")⟩)⟩ (some ⟨2, .literal (.int 0)⟩)⟩⟩,
      ⟨3, .var (.literal "a")⟩]⟩
    let units : List SourceUnit := [⟨"a.php", ⟨1, .statementList [
      ⟨1, .functionDecl ⟨"f", [⟨"a", none, false, false, none⟩], none, body⟩⟩,
      ⟨4, .call ⟨4, .identifier "f"⟩ [⟨4, .literal (.string "x")⟩]⟩]⟩, none⟩]
    let sources : Sources := Table.insert ∅ "a.php" "function f($a)\necho $$a[0];\n$a;\nf('x');"
    let kinds (result : List Context × Outcome) := result.2.log.entries.toList.map Diagnostic.kind
    ∃ result, analyzeFiles ⟨⟨true, false⟩, sources⟩ units = .ok result ∧
      kinds result = [.compatibilityRisk, .noOp] ∧
      ∃ other, analyzeFiles ⟨⟨false, false⟩, ∅⟩ units = .ok (result.1, other) ∧
        kinds (result.1, other) = [.noOp] ∧
        other.symbols = result.2.symbols ∧ other.log.withoutRisks = result.2.log.withoutRisks := by
  intro body units sources kinds
  apply exists_ok_of_any (fun result => decide (kinds result = [.compatibilityRisk, .noOp]))
    (by decide +kernel)
  rintro ⟨contexts, outcome⟩ hresult hkinds
  refine ⟨of_decide_eq_true hkinds, ?_⟩
  obtain ⟨other, hother, hsymbols, hlog⟩ := groupingChecks_do_not_interfere hresult
  have hquiet : (analyzeFiles ⟨⟨false, false⟩, ∅⟩ units).toOption.all
      (fun result => decide (kinds result = [.noOp])) = true := by decide +kernel
  rw [hother] at hquiet
  exact ⟨other, hother, of_decide_eq_true hquiet, hsymbols, hlog⟩

end PhpCheck
