import PhpCheck.Proofs.Route
import PhpCheck.Proofs.SymbolEdits

/-!
# Properties of whole runs

A property that passes from the parts of an action to the whole is carried from the check of a node to
calls, to walks and to bodies. What it has to say about the check of a node and about a call is little,
as everything that these do by themselves is local; about a walk it only has to say what every visited
node supports.
-/

namespace PhpCheck

namespace Analysis

/-- What a property has to hold of for one visited node of a file: the assignments that the node makes,
the variables that it takes over and the body that it declares. -/
structure Supports (Q : ∀ {α : Type}, Session → Analysis α → Prop) (enter : Enter) (file : String)
    (visit : Visit) : Prop where
  assign : ∀ target ∈ visit.node.targets, ∀ (s : Session) (context : Context) (type : TypeSet),
    Q s (Analysis.assign context target type)
  capture : ∀ decl, visit.node.kind = .closure decl → ∀ (s : Session) (context : Context),
    context.file = file → Q s (captureUses context (.ofClosure file visit.node.line) decl.uses)
  enter : ∀ key, visit.declares? file = some key → ∀ (s : Session) (context : Context),
    context.file = file → Q s (enter key context)

/-- A trial that returns has left the state alone, or has ended by putting the callee back. -/
lemma tryOut_cases {enter : Enter} {context after : Context} {callee : CallableKey}
    {arguments : List Node} {declared : List Parameter} {types : List TypeSet} {s t : Session}
    (hrun : (tryOut enter context callee arguments declared types).run s = .ok (after, t)) :
    t = s ∨ ∃ before results s₁, s.symbols.callable? callee = some before ∧
      (speculate enter context callee arguments declared types).run s = .ok (results, s₁) ∧
      t = s₁.apply (.edit (.rebind callee before.parameters before.scope)) := by
  unfold tryOut at hrun
  obtain ⟨table, s', hs', hrun⟩ := run_bind_eq_ok hrun
  cases hs'
  split at hrun
  · cases hrun
    exact .inl rfl
  · rename_i before hbefore
    split at hrun
    · cases hrun
      exact .inl rfl
    · obtain ⟨results, s₁, hspeculate, hrun⟩ := run_bind_eq_ok hrun
      cases hrun
      exact .inr ⟨before, results, s₁, hbefore, hspeculate, rfl⟩

lemma Sequential.speculate {Q : ∀ {α : Type}, Session → Analysis α → Prop} (hQ : Sequential Q)
    {enter : Enter} {context : Context} {callee : CallableKey}
    {declared : List Parameter}
    (hrebind : ∀ (s : Session) (parameters : List Parameter) (scope : Scope),
      Q s (edit (.rebind callee parameters scope)))
    (htrial : ∀ s : Session, s.isOnTrial callee = false →
      Q s (onTrial ⟨callee, declared⟩ (enter callee context)))
    (s : Session) (arguments : List Node) (types : List TypeSet) :
    Q s (Analysis.speculate enter context callee arguments declared types) := by
  unfold Analysis.speculate
  refine hQ.symbols ?_
  split
  · exact hQ.pure s _
  · refine hQ.bind (hrebind s _ _) fun _ s₁ _ => ?_
    split
    · exact hQ.pure s₁ _
    · refine hQ.isOnTrial ?_
      split
      · exact hQ.pure s₁ _
      · rename_i hfree
        have hfree : s₁.isOnTrial callee = false := by simp_all
        refine hQ.bind (htrial s₁ hfree) fun final s₂ _ => ?_
        cases final with
        | none => exact hQ.pure s₂ _
        | some final => exact hQ.pure s₂ _

lemma Sequential.tryOut {Q : ∀ {α : Type}, Session → Analysis α → Prop} (hQ : Sequential Q)
    {enter : Enter} {context : Context} {callee : CallableKey} {declared : List Parameter}
    (hrebind : ∀ (s : Session) (parameters : List Parameter) (scope : Scope),
      Q s (edit (.rebind callee parameters scope)))
    (htrial : ∀ s : Session, s.isOnTrial callee = false →
      Q s (onTrial ⟨callee, declared⟩ (enter callee context)))
    (s : Session) (arguments : List Node) (types : List TypeSet) :
    Q s (Analysis.tryOut enter context callee arguments declared types) := by
  unfold Analysis.tryOut
  apply hQ.symbols
  split
  · exact hQ.pure s _
  · split
    · exact hQ.pure s _
    · apply hQ.bind (hQ.speculate hrebind htrial s arguments types)
      intro results t _
      exact hQ.bind (hrebind t _ _) fun _ u _ => hQ.pure u _

lemma Sequential.walkUnits {Q : ∀ {α : Type}, Session → Analysis α → Prop} (hQ : Sequential Q)
    {setup : Setup} {units : List SourceUnit}
    (h : ∀ unit ∈ units, ∀ s : Session, Q s (Analysis.walk setup
      (Analysis.enterBody setup s.symbols.nestingBound)
      { file := unit.path, line := unit.root.line } none unit.root)) (s : Session) :
    Q s (Analysis.walkUnits setup units) :=
  hQ.forM (fun s unit hunit => hQ.discard (hQ.symbols (h unit hunit s))) s

section Prepare

variable {context : Context} {callee : CallableKey} {arguments : List Node}

lemma sameBindings_of_prepare {s t : Session} {r : List Parameter × List TypeSet × Context}
    (h : (prepare context callee arguments).run s = .ok (r, t)) : s.SameBindings t :=
  (local_prepare context.at_file fun _ _ _ _ => trivial).plain.sameBindings (mem_moments_of_run h)

/-- The arguments are typed and those that are passed by reference are declared before anything else that
the result depends on. -/
lemma exists_of_prepare {s t : Session} {r : List Parameter × List TypeSet × Context}
    (h : (prepare context callee arguments).run s = .ok (r, t)) :
    r.1 = s.declaredParameters callee ∧ ∃ s₁ s₂ first,
      (arguments.mapM (typing context)).run (s.apply (.edit (.useCallable callee))) =
        .ok (r.2.1, s₁) ∧
      (bindReferences r.1 (fun _ => ∅) context arguments).run s₁ = .ok (first, s₂) ∧
      first.Stays r.2.2 := by
  have huse : s.SameBindings (s.apply (.edit (.useCallable callee))) := s.sameBindings_apply trivial
  unfold prepare at h
  obtain ⟨_, s₀, hedit, h⟩ := run_bind_eq_ok h
  cases hedit
  obtain ⟨parameters, s₀, hask, h⟩ := run_bind_eq_ok h
  cases hask
  obtain ⟨types, s₁, htypes, h⟩ := run_bind_eq_ok h
  obtain ⟨first, s₂, hfirst, h⟩ := run_bind_eq_ok h
  obtain ⟨_, s₃, -, h⟩ := run_bind_eq_ok h
  obtain ⟨typed, s₄, htyped, h⟩ := run_bind_eq_ok h
  cases h
  have hstays := (results_bindReferences _ _ _ _).of_run htyped
  exact ⟨huse.declaredParameters callee, s₁, s₂, first, htypes, hfirst, hstays⟩

end Prepare

namespace CompositionalOver

variable {G : Change → Prop} {Q : ∀ {α : Type}, Session → Analysis α → Prop} {setup : Setup}
  {enter : Enter} {file : String} {lines : Line → Prop} {context : Context} {node : Node}
  {arguments : List Node}

lemma ofLocal (hQ : CompositionalOver G Q) (hlocal : ∀ c, Change.IsLocal file lines c → G c)
    {α : Type} {m : Analysis α} (hm : m.Local file lines) (s : Session) : Q s m :=
  hQ.plain s (hm.mono hlocal fun _ => id)

lemma asWalkOf (hQ : CompositionalOver G Q) {key : CallableKey} (hbegin : G (.beginWalk key))
    (hend : ∀ revisiting, G (.endWalk revisiting)) {α : Type} {m : Analysis α} {s : Session}
    (h : Q (s.apply (.beginWalk key)) m) : Q s (Analysis.asWalkOf key m) := by
  refine hQ.look (hQ.bind (hQ.plain s (.change hbegin (.done _))) fun _ s' hrun => ?_)
  cases hrun
  refine hQ.bind h fun result t _ => hQ.plain t ?_
  exact .change (hend _) (.done result)

lemma enterBody (hQ : CompositionalOver G Q) {key : CallableKey} (hbegin : G (.beginWalk key))
    (hend : ∀ revisiting, G (.endWalk revisiting)) {fuel : Nat} {outer : Context} {s : Session}
    (h : ∀ c body, s.symbols.callable? key = some c → c.body = some body →
      Q (s.apply (.beginWalk key)) (Analysis.walk setup (Analysis.enterBody setup fuel)
        (entryContext outer key c body) none body)) :
    Q s (Analysis.enterBody setup (fuel + 1) key outer) := by
  rw [Analysis.enterBody]
  refine hQ.symbols ?_
  split
  · exact hQ.pure s _
  · rename_i c hc
    split
    · exact hQ.pure s _
    · rename_i body hbody
      exact hQ.bind (hQ.asWalkOf hbegin hend (h c body hc hbody)) fun _ t _ => hQ.pure t _

section Checks

variable (hQ : CompositionalOver G Q) (hlocal : ∀ c, Change.IsLocal file lines c → G c)

include hQ hlocal

/-- Only a target that cannot hold a value keeps an assignment from being local. -/
lemma assign {target : Node} {type : TypeSet}
    (hfault : ∀ f, placesOf target type = .error f → ∀ {α : Type} (s : Session),
      Q s (Analysis.fault f : Analysis α))
    (s : Session) (context : Context) : Q s (Analysis.assign context target type) := by
  unfold Analysis.assign
  cases hplaces : placesOf target type with
  | error f => exact hfault f hplaces s
  | ok places =>
    apply hQ.ofLocal hlocal
    refine Only.foldlM (fun _ => True) (fun b place _ => ?_) places trivial
    exact ⟨local_assignPlace b _ _, results_true _⟩

lemma checkAssign (hat : context.At file lines) {target value : Node} (htarget : lines target.line)
    (hvalue : ∀ line, value.HasLine line → lines line)
    (hassign : ∀ (s : Session) (type : TypeSet), Q s (Analysis.assign context target type))
    (s : Session) (byReference : Bool) :
    Q s (Analysis.checkAssign setup context target value byReference) := by
  unfold Analysis.checkAssign
  refine hQ.bind (hQ.ofLocal hlocal (local_typing hat.file hvalue) s) fun type t _ => ?_
  refine hQ.bind (hassign t type) fun bound u hrun => hQ.ofLocal hlocal ?_ u
  have hbound : bound.file = file :=
    ((results_assign context target type).of_run hrun).continues.file.trans hat.file
  have hsource : (if byReference then bound.declareSource value else bound).file = file := by
    split
    · exact (stays_declareSource bound value).continues.file.trans hbound
    · exact hbound
  refine Only.bind (local_checkGrouping setup hsource htarget) fun _ => ?_
  exact Only.bind (local_checkGrouping setup hsource (hvalue _ value.hasLine_self)) fun _ => .done _

/-- A call is local up to the trial of the callee, for which the declared parameters are known. In quick
mode there is no trial. -/
lemma call {callee : CallableKey}
    (harguments : ∀ argument ∈ arguments, ∀ line, argument.HasLine line → lines line)
    (htry : setup.settings.quick = false → ∀ (s : Session) (context : Context) (types : List TypeSet),
      context.At file lines →
      Q s (tryOut enter context callee arguments (s.declaredParameters callee) types))
    (s : Session) (hat : context.At file lines) :
    Q s (Analysis.call setup enter context callee arguments) := by
  rw [call_eq]
  refine hQ.look ?_
  split
  · exact hQ.pure s _
  · refine hQ.bind (hQ.ofLocal hlocal (local_prepare hat harguments) s) fun r t hrun => ?_
    split
    · exact hQ.pure t _
    · -- up to the trial the declared parameters stay what they are
      rename_i hquick
      have hsame := (sameBindings_of_prepare hrun).declaredParameters callee
      rw [(exists_of_prepare hrun).1, ← hsame]
      exact htry (by simpa using hquick) t r.2.2 r.2.1 (hat.stays (results_prepare.of_run hrun))

variable (hat : context.At file lines)

include hat

lemma checkCall {callee : Node} (hcallee : lines callee.line)
    (harguments : ∀ argument ∈ arguments, lines argument.line)
    (hcall : ∀ (s : Session) (callee : CallableKey),
      Q s (Analysis.call setup enter context callee arguments)) (s : Session) :
    Q s (Analysis.checkCall setup enter context callee arguments) := by
  unfold Analysis.checkCall
  refine hQ.bind (hQ.ofLocal hlocal (local_checkGrouping setup hat.file hcallee) s) fun _ t _ => ?_
  have hgroupings : (arguments.forM (checkGrouping setup context)).Local file lines :=
    Only.forM fun argument hargument => local_checkGrouping setup hat.file (harguments argument hargument)
  refine hQ.bind (hQ.ofLocal hlocal hgroupings t) fun _ u _ => hQ.symbols ?_
  split
  · split
    · exact hcall u _
    · exact hQ.ofLocal hlocal (Only.bind (local_report_undefinedReference hat _) fun _ => .done _) u
  · split
    · exact hcall u _
    · exact hQ.pure u _
  · split
    · exact hcall u _
    · exact hQ.pure u _
  · exact hQ.pure u _

variable (hcall : ∀ (s : Session) (callee : CallableKey),
  Q s (Analysis.call setup enter context callee arguments)) (s : Session)

include hcall

lemma checkNew (reference : Node) : Q s (Analysis.checkNew setup enter context reference arguments) := by
  unfold Analysis.checkNew
  refine hQ.symbols ?_
  split
  · exact hQ.ofLocal hlocal (Only.bind (local_reportUndefined hat _) fun _ => .done _) s
  · rename_i owner _
    have huse := hQ.ofLocal hlocal (local_edit (e := .useClass owner) trivial) s
    refine hQ.bind huse fun _ t _ => hQ.symbols ?_
    split
    · exact hcall t _
    · exact hQ.pure t _

lemma checkStaticCall (reference : Node) (method : String) :
    Q s (Analysis.checkStaticCall setup enter context reference method arguments) := by
  unfold Analysis.checkStaticCall
  split
  · exact hQ.ofLocal hlocal (Only.bind (local_report_undefinedReference hat _) fun _ => .done _) s
  · refine hQ.symbols ?_
    split
    · exact hQ.ofLocal hlocal (Only.bind (local_reportUndefined hat _) fun _ => .done _) s
    · exact hQ.bind (hQ.ofLocal hlocal (local_checkStaticTarget hat _ _) s) fun _ t _ => hcall t _

lemma checkMethodCall (receiver : Node) (method : String) :
    Q s (Analysis.checkMethodCall setup enter context receiver method arguments) := by
  unfold Analysis.checkMethodCall
  refine hQ.symbols ?_
  split
  · exact hQ.ofLocal hlocal (Only.bind (local_reportUndefined hat _) fun _ => .done _) s
  · split
    · exact hcall s _
    · exact hQ.ofLocal hlocal (Only.bind (local_report_undefinedReference hat _) fun _ => .done _) s

omit hcall

/-- What is not local in the check of a node: a statement without effect, a return statement, a call and
an assignment. -/
lemma check (hnode : ∀ line, node.HasLine line → lines line) (parent : Option Node)
    (hidle : node.isIdle = true → ∀ s, Q s (checkNoOp context parent node))
    (hreturn : ∀ value : Option Node, (∀ v ∈ value, v ∈ node.children) →
      ∀ s, Q s (checkReturn context value))
    (hcall : ∀ arguments : List Node, (∀ argument ∈ arguments, argument ∈ node.children) →
      ∀ s callee, Q s (Analysis.call setup enter context callee arguments))
    (hassign : ∀ target ∈ node.targets, ∀ s type, Q s (Analysis.assign context target type))
    (s : Session) : Q s (Analysis.check setup enter context parent node) := by
  have hchild : ∀ child ∈ node.children, ∀ line, child.HasLine line → lines line :=
    fun child hchild line hline => hnode line (hline.of_child hchild)
  have hline : ∀ child ∈ node.children, lines child.line :=
    fun child hmem => hchild child hmem _ child.hasLine_self
  have hform := @check_form setup enter _ _ context hat parent node hnode
  generalize hkind : node.isIdle = idle, Analysis.check setup enter context parent node = m at hform
  cases hform with
  | assign byReference htarget hvalue =>
    have htargetLine := hline _ (Node.mem_children_of_mem_targets htarget)
    exact hQ.checkAssign hlocal hat htargetLine (hchild _ hvalue) (hassign _ htarget) s byReference
  | call hcallee harguments =>
    have hlines := fun argument hargument => hline argument (harguments argument hargument)
    exact hQ.checkCall hlocal hat (hline _ hcallee) hlines (hcall _ harguments) s
  | new reference harguments => exact hQ.checkNew hlocal hat (hcall _ harguments) s reference
  | staticCall reference method harguments =>
    exact hQ.checkStaticCall hlocal hat (hcall _ harguments) s reference method
  | methodCall receiver method harguments =>
    exact hQ.checkMethodCall hlocal hat (hcall _ harguments) s receiver method
  | returns hvalue => exact hQ.bind (hreturn _ hvalue s) fun _ t _ => hQ.pure t _
  | quiet h => exact hQ.ofLocal hlocal h.1 s
  | idle h _ =>
    refine hQ.bind (hQ.ofLocal hlocal h s) fun _ t _ => ?_
    exact hQ.bind (hidle hkind t) fun _ u _ => hQ.pure u _

end Checks

end CompositionalOver

namespace Compositional

variable {Q : ∀ {α : Type}, Session → Analysis α → Prop} {setup : Setup} {enter : Enter}

lemma assign (hQ : Compositional Q) {target : Node} {type : TypeSet}
    (hfault : ∀ f, placesOf target type = .error f → ∀ {α : Type} (s : Session),
      Q s (Analysis.fault f : Analysis α))
    (s : Session) (context : Context) : Q s (Analysis.assign context target type) :=
  CompositionalOver.assign hQ (fun _ => @Change.IsLocal.isPlain context.file (fun _ => True) _) hfault s
    context

lemma call (hQ : Compositional Q) {callee : CallableKey} {arguments : List Node}
    (htry : ∀ (s : Session) (context : Context) (types : List TypeSet),
      Q s (tryOut enter context callee arguments (s.declaredParameters callee) types))
    (s : Session) (context : Context) :
    Q s (Analysis.call setup enter context callee arguments) :=
  CompositionalOver.call hQ (fun _ => Change.IsLocal.isPlain) (fun _ _ _ _ => trivial)
    (fun _ s context types _ => htry s context types) s context.at_file

lemma check (hQ : Compositional Q) (hcall : ∀ (s : Session) (context : Context) (callee : CallableKey)
      (arguments : List Node), Q s (Analysis.call setup enter context callee arguments))
    {node : Node}
    (hassign : ∀ target ∈ node.targets, ∀ (s : Session) (context : Context) (type : TypeSet),
      Q s (Analysis.assign context target type))
    (s : Session) (context : Context) (parent : Option Node) :
    Q s (Analysis.check setup enter context parent node) := by
  apply CompositionalOver.check hQ (fun _ => Change.IsLocal.isPlain) context.at_file (fun _ _ => trivial)
  · intro _ s
    exact hQ.plain s (only_checkNoOp (fun _ _ _ => trivial) _ _ _)
  · intro value _ s
    exact hQ.plain s (only_checkReturn context.at_file (fun _ _ _ _ => trivial)
      (fun _ => Change.IsLocal.isPlain) fun _ _ => trivial)
  · intro arguments _ s callee
    exact hcall s context callee arguments
  · intro target htarget s type
    exact hassign target htarget s context type

/-- A property that all visited nodes support holds of the walk. -/
lemma walk (hQ : Compositional Q) (hcall : ∀ (s : Session) (context : Context) (callee : CallableKey)
      (arguments : List Node), Q s (Analysis.call setup enter context callee arguments))
    {file : String} {owner : Option String} {node : Node}
    (h : ∀ visit ∈ Visit.visits ⟨owner, node⟩, Supports Q enter file visit)
    (s : Session) (context : Context) (parent : Option Node) (hcontext : Within file owner context) :
    Q s (Analysis.walk setup enter context parent node) := by
  apply hQ.toSequential.graded.walk s parent _ hcontext
  intro stop hstop
  have hfile : stop.file = file := Stop.file_of_mem_route hstop
  have hself := h _ (Stop.visit_mem_visits_of_mem_route hstop)
  have hcheck := hQ.check hcall hself.assign
  constructor
  · intro target htarget s context type _
    exact hself.assign target htarget s context type
  · intro s context _
    exact hQ.plain s (.change trivial (.done _))
  · intro _ s context _
    exact hcheck s context stop.parent
  · intro key hkey s context hreaches
    have hin : context.file = file := hreaches.within.file.trans hfile
    rw [Stop.declares?, hfile] at hkey
    refine hQ.bind ?_ fun _ t _ => ?_
    · unfold Node.uses
      split
      · rename_i decl hkind
        have hclosure : key = .ofClosure file stop.node.line := by
          simp only [Visit.declares?, Stop.visit, hkind, Option.some.injEq] at hkey
          exact hkey.symm
        rw [hclosure]
        exact hself.capture decl hkind s context hin
      · exact hQ.pure s _
    · refine hQ.bind (hQ.plain t (.change trivial (.done _))) fun _ u _ => ?_
      refine hQ.bind (hQ.discard (hself.enter key hkey u context hin)) fun _ v _ => ?_
      exact hQ.bind (hQ.discard (hcheck v context stop.parent)) fun _ w _ => hQ.pure w _

lemma enterBody (hQ : Compositional Q) {fuel : Nat} {key : CallableKey} {outer : Context} {s : Session}
    (h : ∀ c body, s.symbols.callable? key = some c → c.body = some body →
      Q (s.apply (.beginWalk key)) (Analysis.walk setup (Analysis.enterBody setup fuel)
        (entryContext outer key c body) none body)) :
    Q s (Analysis.enterBody setup (fuel + 1) key outer) :=
  CompositionalOver.enterBody hQ trivial (fun _ => trivial) h

end Compositional

/-- The outcome of a program is the final state of a run over its units. -/
lemma exists_run_of_analyzeUnits {setup : Setup} {units : List SourceUnit} {symbols : SymbolTable}
    {outcome : Outcome} (hcollect : SymbolTable.builtin.collectUnits units = .ok symbols)
    (h : analyzeUnits setup units = .ok outcome) :
    ∃ session, (Analysis.walkUnits setup units).run { symbols } = .ok ((), session) ∧
      outcome = ⟨session.symbols, session.log⟩ := by
  rw [analyzeUnits, hcollect] at h
  dsimp only at h
  split at h
  · cases h
  · rename_i session hrun
    cases h
    exact ⟨session, hrun, rfl⟩

end Analysis

end PhpCheck
