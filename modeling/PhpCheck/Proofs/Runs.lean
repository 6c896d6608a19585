import PhpCheck.Proofs.Provenance
import PhpCheck.Proofs.Traversal

/-!
# Graded properties of runs over programs

A graded property may depend on the bodies that are open. `Carried` lists what it has to hold of: local
changes, arrivals at declarations, return statements, statements without effect, and a body as soon as it
holds of the walk of the body. Then it holds of runs over whole programs, where bodies are entered by
declarations and by trials.
-/

namespace PhpCheck

/-- A change that is local or belongs to a trial or to a closure. -/
def Change.IsRoutine (file : String) (lines : Line → Prop) : Change → Prop
  | .edit (.capture ..) | .edit (.rebind ..) | .beginTrial _ | .endTrial => True
  | c => c.IsLocal file lines

lemma Change.IsLocal.isRoutine {file : String} {lines : Line → Prop} {c : Change}
    (h : c.IsLocal file lines) : c.IsRoutine file lines := by
  unfold IsRoutine
  split <;> trivial

/-- The node of the stop and the node around it are parts of the units. -/
structure Stop.Sound (units : List SourceUnit) (stop : Stop) : Prop where
  node : InUnits units stop.file stop.node
  parent : ∀ parent ∈ stop.parent, InUnits units stop.file parent ∧ stop.node ∈ parent.children

lemma InUnits.of_child {units : List SourceUnit} {file : String} {node child : Node}
    (h : InUnits units file node) (hchild : child ∈ node.children) : InUnits units file child := by
  obtain ⟨unit, hunit, hpath, hnode⟩ := h
  have hpart := Node.mem_nodes_of_child hchild child.self_mem_nodes
  exact ⟨unit, hunit, hpath, Node.mem_nodes_trans hnode hpart⟩

lemma Stop.Sound.of_parent_none {units : List SourceUnit} {stop : Stop}
    (h : InUnits units stop.file stop.node) (hparent : stop.parent = none) : stop.Sound units :=
  ⟨h, by simp [hparent]⟩

lemma Stop.Sound.of_mem_route {units : List SourceUnit} {start stop : Stop} (h : start.Sound units)
    (hstop : stop ∈ start.route) : stop.Sound units := by
  refine Stop.forall_mem_route (fun stop h after hafter => ?_) h stop hstop
  have hchild := Stop.node_mem_children_of_mem_next hafter
  obtain ⟨visit, -, rfl⟩ := List.mem_map.mp hafter
  refine ⟨h.node.of_child hchild, ?_⟩
  rintro parent ⟨⟩
  exact ⟨h.node, hchild⟩

/-- Where the walk of a body starts. -/
def Callable.stop (c : Callable) (body : Node) : Stop := ⟨c.site.file, c.owner, none, body⟩

/-- Where the walk of a unit starts. -/
def SourceUnit.stop (unit : SourceUnit) : Stop := ⟨unit.path, none, none, unit.root⟩

/-- The stop is on the way of a walk through a unit, or through a body that the table holds. -/
inductive Stop.Reached (units : List SourceUnit) (s : SymbolTable) (stop : Stop) : Prop where
  | unit {unit : SourceUnit} (hunit : unit ∈ units) (hstop : stop ∈ unit.stop.route)
  | body {key : CallableKey} {c : Callable} {body : Node} (hc : s.callable? key = some c)
    (hbody : c.body = some body) (hstop : stop ∈ (c.stop body).route)

lemma Stop.Reached.of_sameCores {units : List SourceUnit} {s t : SymbolTable} {stop : Stop}
    (h : stop.Reached units t) (hcores : s.SameCores t) : stop.Reached units s := by
  cases h with
  | unit hunit hstop => exact .unit hunit hstop
  | @body key d body hd hbody hstop =>
    obtain ⟨c, hc, hcore⟩ := hcores.symm.exists_callable hd
    have hsite : c.core.site = d.core.site := by rw [hcore]
    have howner : c.core.owner = d.core.owner := by rw [hcore]
    have hsame : c.core.body = d.core.body := by rw [hcore]
    have hstart : c.stop body = d.stop body := by
      rw [Callable.stop, show c.site = d.site from hsite, show c.owner = d.owner from howner]
      rfl
    exact .body hc (hsame.trans hbody) (hstart ▸ hstop)

lemma Stop.Reached.sound {units : List SourceUnit} {table : SymbolTable} {stop : Stop}
    (h : stop.Reached units table) (hbodies : table.BodiesIn (InUnits units)) : stop.Sound units := by
  cases h with
  | @unit unit hunit hstop =>
    have hroot : unit.stop.Sound units :=
      .of_parent_none ⟨unit, hunit, rfl, unit.root.self_mem_nodes⟩ rfl
    exact hroot.of_mem_route hstop
  | @body key c body hc hbody hstop =>
    have hstart : (c.stop body).Sound units := .of_parent_none (hbodies key c body hc hbody) rfl
    exact hstart.of_mem_route hstop

namespace Analysis

/-- What a graded property has to hold of, for the callables of the table and the nodes of the units. The
first argument of the property lists the bodies that are open, the innermost first. -/
structure Carried (table : SymbolTable) (units : List SourceUnit)
    (Q : List CallableKey → ∀ {α : Type}, List Stop → Session → Analysis α → Prop) : Prop where
  graded : ∀ inside, Graded (Q inside)
  fault : ∀ inside {α : Type} (s : Session) (f : Fault), Q inside [] s (.fault f : Analysis α)
  routine : ∀ inside (stop : Stop), stop.Sound units → ∀ {α : Type} {m : Analysis α} (s : Session),
    m.Only (Change.IsRoutine stop.file stop.node.HasLine) (fun _ => False) → Q inside [] s m
  arrive : ∀ inside (stop : Stop), stop.Reached units table → ∀ (s : Session) (context : Context),
    table.SameCores s.symbols → Reaches stop context →
    Q inside [] s (Analysis.arrive context stop.node stop.declares?)
  returns : ∀ inside (stop : Stop), stop.Sound units → ∀ (s : Session) (context : Context)
    (value : Option Node), Reaches stop context → (∀ v ∈ value, v ∈ stop.node.children) →
    Q inside [] s (checkReturn context value)
  noOp : ∀ inside (stop : Stop), stop.Sound units → stop.node.isIdle = true → ∀ (s : Session)
    (context : Context), Reaches stop context →
    Q inside [stop] s (checkNoOp context stop.parent stop.node)
  other : ∀ inside (stop : Stop), stop.node.isIdle = false → ∀ {α : Type} {m : Analysis α}
    (s : Session), Q inside [] s m → Q inside [stop] s m
  body : ∀ inside key (s : Session) (c : Callable) (body : Node), table.SameCores s.symbols →
    s.symbols.callable? key = some c → c.body = some body →
    ∀ (setup : Setup) (fuel : Nat) (outer : Context),
    let m := Analysis.walk setup (Analysis.enterBody setup fuel) (entryContext outer key c body) none body
    Q (key :: inside) (c.stop body).route (s.apply (.beginWalk key)) m →
    Q inside [] s (asWalkOf key m)

/-- The property is only asked about in states with the callables of the table. -/
def OnCores (table : SymbolTable) (Q : ∀ {α : Type}, List Stop → Session → Analysis α → Prop)
    {α : Type} (stops : List Stop) (s : Session) (m : Analysis α) : Prop :=
  table.SameCores s.symbols → Q stops s m

lemma Graded.onCores {Q : ∀ {α : Type}, List Stop → Session → Analysis α → Prop} (hQ : Graded Q)
    (table : SymbolTable) : Graded (OnCores table Q) where
  pure s a _ := hQ.pure s a
  look h hcores := hQ.look (h hcores)
  bind hm hf hcores :=
    hQ.bind (hm hcores) fun a s' hrun => hf a s' hrun (hcores.trans (sameCores_of_run hrun))

lemma Reaches.at {stop : Stop} {context : Context} (h : Reaches stop context) :
    context.At stop.file stop.node.HasLine :=
  ⟨h.within.file, h.line ▸ stop.node.hasLine_self⟩

namespace Carried

variable {table : SymbolTable} {units : List SourceUnit}
  {Q : List CallableKey → ∀ {α : Type}, List Stop → Session → Analysis α → Prop} {setup : Setup}
  {enter : Enter} {inside : List CallableKey} {stop : Stop} {context : Context}

lemma compositional (h : Carried table units Q) (inside : List CallableKey) (hstop : stop.Sound units) :
    CompositionalOver (Change.IsRoutine stop.file stop.node.HasLine) (OnCores table (Q inside) []) where
  pure := ((h.graded inside).onCores table).pure
  look := ((h.graded inside).onCores table).look
  bind := ((h.graded inside).onCores table).bind
  plain s hm _ := h.routine inside stop hstop s hm

section

variable (h : Carried table units Q)
  (henter : ∀ s key context, OnCores table (Q inside) [] s (enter key context))
  (hstop : stop.Sound units)

include h henter hstop

lemma call {arguments : List Node} (harguments : ∀ argument ∈ arguments, argument ∈ stop.node.children)
    (hcontext : context.At stop.file stop.node.HasLine) (s : Session) (callee : CallableKey) :
    OnCores table (Q inside) [] s (Analysis.call setup enter context callee arguments) := by
  have hQ := h.compositional inside hstop
  refine hQ.call (fun _ => Change.IsLocal.isRoutine) ?_ (fun _ s context types _ => ?_) s hcontext
  · exact fun argument hargument line hline => hline.of_child (harguments argument hargument)
  · apply hQ.tryOut
    · exact fun s parameters scope => hQ.plain s (.change trivial (.done _))
    · intro s _
      have hbegin : ∀ trial, OnCores table (Q inside) [] s (perform (.beginTrial trial)) :=
        fun trial => hQ.plain s (.change trivial (.done _))
      refine hQ.bind (hbegin _) fun _ t _ => hQ.bind (henter t callee context) fun result u _ => ?_
      exact hQ.plain u (.change trivial (.done _))

omit henter in
lemma assign (s : Session) (context : Context) (target : Node) (type : TypeSet) :
    OnCores table (Q inside) [] s (Analysis.assign context target type) := by
  have hlocal : ∀ c, Change.IsLocal stop.file stop.node.HasLine c →
      Change.IsRoutine stop.file stop.node.HasLine c := fun _ => Change.IsLocal.isRoutine
  exact (h.compositional inside hstop).assign hlocal (fun f _ α s _ => h.fault inside s f) s context

lemma check (hreaches : Reaches stop context) (s : Session) :
    OnCores table (Q inside) [stop] s
      (Analysis.check setup enter context stop.parent stop.node) := by
  have hQ := h.compositional inside hstop
  have hgraded := (h.graded inside).onCores table
  have hlocal : ∀ c, Change.IsLocal stop.file stop.node.HasLine c →
      Change.IsRoutine stop.file stop.node.HasLine c := fun _ => Change.IsLocal.isRoutine
  -- only the check of an idle node can have something to report at the stop itself
  cases hidle : stop.node.isIdle with
  | true =>
    have hform := @check_form setup enter _ _ context hreaches.at stop.parent stop.node fun _ => id
    rw [hidle] at hform
    generalize Analysis.check setup enter context stop.parent stop.node = m at hform
    cases hform with
    | idle hm _ =>
      refine hgraded.nil_bind (hQ.ofLocal hlocal hm s) fun _ t _ => hgraded.bind_pure ?_ _
      exact fun _ => h.noOp inside stop hstop hidle t context hreaches
  | false =>
    intro hcores
    apply h.other inside stop hidle s
    refine hQ.check hlocal hreaches.at (fun _ => id) stop.parent ?_ ?_ ?_ ?_ s hcores
    · simp [hidle]
    · exact fun value hvalue s _ => h.returns inside stop hstop s context value hreaches hvalue
    · exact fun arguments harguments s callee => h.call henter hstop harguments hreaches.at s callee
    · exact fun target _ s type => h.assign hstop s context target type

lemma attends (hreached : stop.Reached units table) :
    Attends (OnCores table (Q inside)) setup enter stop where
  assign target _ s context type _ := h.assign hstop s context target type
  arrive s context hreaches hcores := h.arrive inside stop hreached s context hcores hreaches
  check _ s context hreaches := h.check henter hstop hreaches s
  declare key hkey s context hreaches := by
    have hQ := h.compositional inside hstop
    have hgraded := (h.graded inside).onCores table
    have hcapture : OnCores table (Q inside) [] s (captureUses context key stop.node.uses) :=
      hQ.forM (fun s captured _ => hQ.plain s (.change trivial (.done _))) s
    have harrive : ∀ t, OnCores table (Q inside) [] t (Analysis.arrive context stop.node (some key)) := by
      rw [← hkey]
      exact fun t hcores => h.arrive inside stop hreached t context hcores hreaches
    refine hgraded.nil_bind hcapture fun _ t _ => hgraded.nil_bind (harrive t) fun _ u _ => ?_
    refine hgraded.nil_bind (hQ.discard (henter u key context)) fun _ v _ => ?_
    exact hgraded.bind_pure (hgraded.discard (h.check henter hstop hreaches v)) _

end

variable (h : Carried table units Q) (hbodies : table.BodiesIn (InUnits units))

include h hbodies

lemma walk (henter : ∀ s key context, OnCores table (Q inside) [] s (enter key context))
    (hroute : ∀ after ∈ stop.route, after.Reached units table)
    (hcontext : Within stop.file stop.owner context) (s : Session) :
    OnCores table (Q inside) stop.route s
      (Analysis.walk setup enter context stop.parent stop.node) :=
  ((h.graded inside).onCores table).walk s stop.parent
    (fun after hmem => h.attends henter ((hroute after hmem).sound hbodies) (hroute after hmem)) hcontext

lemma enterBody (fuel : Nat) (s : Session) (key : CallableKey) (outer : Context) :
    OnCores table (Q inside) [] s (Analysis.enterBody setup fuel key outer) := by
  induction fuel generalizing inside s key outer with
  | zero => exact fun _ => h.fault inside s _
  | succ fuel ih =>
    have hgraded := (h.graded inside).onCores table
    rw [Analysis.enterBody]
    refine hgraded.symbols ?_
    split
    · exact hgraded.pure s _
    · rename_i c hc
      split
      · exact hgraded.pure s _
      · rename_i body hbody
        intro hcores
        have hroute : ∀ after ∈ (c.stop body).route, after.Reached units table :=
          fun after hafter => Stop.Reached.of_sameCores (.body hc hbody hafter) hcores
        have hwalk : Q (key :: inside) (c.stop body).route (s.apply (.beginWalk key))
            (Analysis.walk setup (Analysis.enterBody setup fuel) (entryContext outer key c body) none
              body) :=
          h.walk hbodies ih hroute (within_entryContext outer key c body) _
            (hcores.trans (s.sameCores_apply _))
        exact hgraded.bind_pure (fun _ => h.body inside key s c body hcores hc hbody _ _ _ hwalk) _ hcores

/-- The property holds of a run over the units, with all stops at the top level. -/
lemma walkUnits (s : Session) (hcores : table.SameCores s.symbols) :
    Q [] (units.flatMap fun unit => unit.stop.route) s (Analysis.walkUnits setup units) := by
  have hgraded := (h.graded []).onCores table
  refine hgraded.forM (fun s unit hunit => hgraded.discard (hgraded.symbols ?_)) s hcores
  exact h.walk hbodies (h.enterBody hbodies _) (fun after hafter => .unit hunit hafter) ⟨rfl, rfl⟩ s

omit hbodies in
/-- The property holds of the run over a program whose declarations have just been collected. -/
lemma program (hcollect : SymbolTable.builtin.collectUnits units = .ok table) (setup : Setup) :
    Q [] (units.flatMap fun unit => unit.stop.route) { symbols := table }
      (Analysis.walkUnits setup units) :=
  h.walkUnits (bodiesIn_of_collectUnits hcollect) _ (.refl table)

end Carried

end Analysis

end PhpCheck
