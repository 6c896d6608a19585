import PhpCheck.Proofs.Containment
import PhpCheck.Proofs.Provenance

/-!
# Every run ends

A body is entered where it is declared and where a call tries it out. A declaration leads to a callable
of lower rank, and trials of one callable are never inside each other, so `SymbolTable.depth` falls each
time a body is entered from another one. A run that starts with that much fuel never runs out of it: it
ends with an outcome, unless the program assigns to something that cannot hold a value.
-/

namespace PhpCheck

/-- The fault arises where a node of the units assigns to something that cannot hold a value. -/
def Misassigned (units : List SourceUnit) (f : Fault) : Prop :=
  ∃ file node target type, InUnits units file node ∧ target ∈ node.targets ∧
    placesOf target type = .error f

/-- A failure, if there is one, is over a line on which nothing can be assigned. -/
def FailsOnLine {α : Type} (result : Except Fault α) : Prop :=
  ∀ f, result = .error f → ∃ line, f = .notAssignable line

lemma FailsOnLine.ok {α : Type} (a : α) : FailsOnLine (.ok a) := by
  intro f hf
  cases hf

lemma FailsOnLine.bind {α β : Type} {result : Except Fault α} {next : α → Except Fault β}
    (hresult : FailsOnLine result) (hnext : ∀ a, FailsOnLine (next a)) :
    FailsOnLine (result >>= next) := by
  cases result with
  | error f =>
    intro e he
    cases he
    exact hresult f rfl
  | ok a => exact hnext a

lemma failsOnLine_placesOf (target : Node) (type : TypeSet) : FailsOnLine (placesOf target type) := by
  apply placesOf.induct (fun node type => FailsOnLine (placesOf node type))
    (fun items type => FailsOnLine (placesOfItems items type))
    (fun nodes type => FailsOnLine (placesOfNodes nodes type))
  -- index accesses and patterns fail as their parts do
  case case7 =>
    intro line base index type ih
    rwa [placesOf]
  case case8 =>
    intro line elements type ih
    rwa [placesOf]
  case case9 =>
    intro line items type ih
    rwa [placesOf]
  -- the kinds of nodes that cannot hold a value
  case case10 =>
    intros
    rw [placesOf]
    · intro f hf
      cases hf
      exact ⟨_, rfl⟩
    all_goals assumption
  case case12 =>
    intro node rest type hnode hrest
    rw [placesOfNodes]
    exact hnode.bind fun _ => hrest.bind fun _ => .ok _
  case case14 =>
    intro key value rest type hvalue hrest
    rw [placesOfItems]
    exact hvalue.bind fun _ => hrest.bind fun _ => .ok _
  all_goals
    intros
    exact .ok _

namespace Analysis

/-- Started in a state with the callables of the table and with the trials in progress, the action does
not fail but where the units assign to something that cannot hold a value, and if it returns, the same
trials are in progress. -/
def Ends (units : List SourceUnit) (table : SymbolTable) (trials : List Trial) {α : Type}
    (s : Session) (m : Analysis α) : Prop :=
  table.SameCores s.symbols → s.trials = trials →
    (∀ f, m.run s = .error f → Misassigned units f) ∧
    ∀ a t, m.run s = .ok (a, t) → t.trials = trials

variable {α : Type} {setup : Setup} {units : List SourceUnit} {table : SymbolTable}
  {trials : List Trial}

lemma compositional_ends : Compositional (Ends units table trials) := by
  apply CompositionalOver.of_plain_bind
  · intro α m s hm _ htrials
    constructor
    · intro f hf
      exact (hm.fault_of_run hf).elim
    · intro a t ha
      have hsame := Only.sameBindings hm (mem_moments_of_run ha)
      exact hsame.trials.trans htrials
  · intro α β m f s hm hf hcores htrials
    obtain ⟨hfault, hkeeps⟩ := hm hcores htrials
    have hnext : ∀ a t, m.run s = .ok (a, t) →
        (∀ e, (f a).run t = .error e → Misassigned units e) ∧
        ∀ b u, (f a).run t = .ok (b, u) → u.trials = trials := by
      intro a t ha
      exact hf a t ha (hcores.trans (sameCores_of_run ha)) (hkeeps a t ha)
    constructor
    · intro e he
      rcases run_bind_eq_error he with he | ⟨a, t, ha, he⟩
      · exact hfault e he
      · exact (hnext a t ha).1 e he
    · intro b u hb
      obtain ⟨a, t, ha, hb⟩ := run_bind_eq_ok hb
      exact (hnext a t ha).2 b u hb

lemma ends_edit (s : Session) (e : Edit) : Ends units table trials s (edit e) := by
  intro _ htrials
  constructor
  · intro f hf
    cases hf
  · intro a t ha
    cases ha
    exact htrials

lemma ends_assign {file : String} {node target : Node} (hnode : InUnits units file node)
    (htarget : target ∈ node.targets) (s : Session) (context : Context) (type : TypeSet) :
    Ends units table trials s (assign context target type) := by
  apply compositional_ends.assign
  intro f hplaces α s _ _
  constructor
  · intro e he
    cases he
    exact ⟨file, node, target, type, hnode, htarget, hplaces⟩
  · intro a t ha
    cases ha

lemma ends_onTrial {trial : Trial} {m : Analysis α} (hm : ∀ s, Ends units table (trial :: trials) s m)
    (s : Session) : Ends units table trials s (onTrial trial m) := by
  intro hcores htrials
  rw [onTrial_eq]
  have hbegin : (s.apply (.beginTrial trial)).trials = trial :: trials :=
    congrArg (trial :: ·) htrials
  obtain ⟨hfault, hkeeps⟩ := hm _ (hcores.trans (s.sameCores_apply _)) hbegin
  constructor
  · intro e he
    rcases run_bind_eq_error he with he | ⟨a, t, _, he⟩
    · exact hfault e he
    · cases he
  · intro b u hb
    obtain ⟨a, t, ha, hb⟩ := run_bind_eq_ok hb
    cases hb
    exact congrArg List.tail (hkeeps _ t ha)

lemma ends_call {enter : Enter}
    (henter : ∀ callee declared, trials.any (fun trial => trial.callee == callee) = false →
      ∀ s context, Ends units table (⟨callee, declared⟩ :: trials) s (enter callee context))
    (s : Session) (context : Context) (callee : CallableKey) (arguments : List Node) :
    Ends units table trials s (call setup enter context callee arguments) := by
  apply compositional_ends.call
  intro s context types
  apply compositional_ends.tryOut
  · intro s parameters scope
    exact ends_edit s _
  · intro t hfree hcores htrials
    rw [Session.isOnTrial, htrials] at hfree
    exact ends_onTrial (fun u => henter callee _ hfree u context) t hcores htrials

/-! ### Enough fuel -/

/-- Whenever the fuel is more than the depth of what is entered, it is enough. -/
def Fuels (setup : Setup) (units : List SourceUnit) (table : SymbolTable) (fuel : Nat) : Prop :=
  ∀ trials key, (table.HasBody key → table.depth trials (table.rank key) < fuel) → 0 < fuel →
    ∀ s outer, Ends units table trials s (enterBody setup fuel key outer)

variable (hacyclic : table.Acyclic)

include hacyclic

lemma ends_walk {fuel bound : Nat} (hfuels : Fuels setup units table fuel)
    (hfuel : table.depth trials bound ≤ fuel) {file : String} {owner : Option String} {node : Node}
    (hnode : InUnits units file node)
    (hrank : ∀ visit ∈ Visit.visits ⟨owner, node⟩, ∀ key, visit.declares? file = some key →
      table.HasBody key → table.rank key < bound)
    (s : Session) {context : Context} (hcontext : Within file owner context) (parent : Option Node) :
    Ends units table trials s (walk setup (enterBody setup fuel) context parent node) := by
  have hpos : 0 < fuel := Nat.lt_of_lt_of_le (Nat.succ_pos _) hfuel
  have hcall : ∀ s context callee arguments,
      Ends units table trials s (call setup (enterBody setup fuel) context callee arguments) := by
    apply ends_call
    intro callee declared hfree s context
    apply hfuels _ _ _ hpos
    intro hbody
    exact Nat.lt_of_lt_of_le (SymbolTable.depth_cons_lt hacyclic hbody hfree declared bound) hfuel
  apply compositional_ends.walk hcall _ s context parent hcontext
  intro visit hvisit
  constructor
  · intro target htarget
    exact ends_assign (InUnits.of_mem_visits hnode hvisit) htarget
  · intro decl _ s context _
    apply compositional_ends.forM
    intro s captured _
    exact ends_edit s _
  · intro key hkey s context _
    apply hfuels _ _ _ hpos
    intro hbody
    have hlt := table.depth_lt_depth trials (hrank visit hvisit key hkey hbody)
    exact Nat.lt_of_lt_of_le hlt hfuel

lemma fuels (hbodies : table.BodiesIn (InUnits units)) (fuel : Nat) :
    Fuels setup units table fuel := by
  induction fuel with
  | zero =>
    intro trials key _ hpos
    exact absurd hpos (Nat.lt_irrefl 0)
  | succ fuel ih =>
    intro trials key hdepth _ s outer
    apply compositional_ends.enterBody
    intro c body hc hbody hcores htrials
    have hnode : InUnits units c.site.file body := hbodies.of_sameCores hcores key c body hc hbody
    have hkey : table.HasBody key := SymbolTable.HasBody.of_sameCores ⟨c, body, hc, hbody⟩ hcores.symm
    have hrank : ∀ visit ∈ Visit.visits ⟨c.owner, body⟩, ∀ inner,
        visit.declares? c.site.file = some inner → table.HasBody inner →
        table.rank inner < table.rank key := by
      intro visit hvisit inner hinner hinnerBody
      apply SymbolTable.rank_lt_rank hacyclic _ hinnerBody
      have hcontained : table.contained key = _ :=
        (hcores.contained_eq key).symm.trans (SymbolTable.contained_eq hc hbody)
      rw [SymbolTable.Contains, hcontained]
      exact List.mem_filterMap.mpr ⟨visit, hvisit, hinner⟩
    have hfuel := Nat.le_of_lt_succ (hdepth hkey)
    have hcontext := within_entryContext outer key c body
    exact ends_walk hacyclic ih hfuel hnode hrank _ hcontext none hcores htrials

lemma ends_walkUnits (hbodies : table.BodiesIn (InUnits units)) (s : Session) :
    Ends units table [] s (walkUnits setup units) := by
  apply compositional_ends.walkUnits
  intro unit hunit s hcores htrials
  -- the fuel is that of the table as it is now, which has the same callables
  have hacyclic' := hacyclic.of_sameCores hcores
  have hfuels : Fuels setup units s.symbols s.symbols.nestingBound :=
    fuels hacyclic' (hbodies.of_sameCores hcores) _
  have hroot : InUnits units unit.path unit.root := ⟨unit, hunit, rfl, unit.root.self_mem_nodes⟩
  have hrank : ∀ visit ∈ Visit.visits ⟨none, unit.root⟩, ∀ key,
      visit.declares? unit.path = some key → s.symbols.HasBody key →
      s.symbols.rank key < s.symbols.bodyCount := by
    intro _ _ _ _ hbody
    exact SymbolTable.rank_lt_bodyCount hacyclic' hbody
  have hfuel := s.symbols.depth_nil_le_nestingBound
  exact ends_walk hacyclic' hfuels hfuel hroot hrank s ⟨rfl, rfl⟩ none
    (SymbolTable.SameCores.refl _) htrials

end Analysis

/-- If no callable contains itself, a run over units whose declarations have been collected ends,
whatever calls what and whether or not callees are tried out. It has an outcome, unless the units assign
to something that cannot hold a value. -/
theorem analyzeUnits_ends (setup : Setup) {units : List SourceUnit} {symbols : SymbolTable}
    (hcollect : SymbolTable.builtin.collectUnits units = .ok symbols) (hacyclic : symbols.Acyclic) :
    (∃ outcome, analyzeUnits setup units = .ok outcome) ∨
    ∃ file node target type line, InUnits units file node ∧ target ∈ node.targets ∧
      placesOf target type = .error (.notAssignable line) ∧
      analyzeUnits setup units = .error (.fault (.notAssignable line)) := by
  have hends : Analysis.Ends units symbols [] { symbols } (Analysis.walkUnits setup units) :=
    Analysis.ends_walkUnits hacyclic (bodiesIn_of_collectUnits hcollect) _
  cases hrun : (Analysis.walkUnits setup units).run { symbols } with
  | ok final =>
    left
    exact ⟨⟨final.2.symbols, final.2.log⟩, by simp only [analyzeUnits, hcollect, hrun]⟩
  | error f =>
    right
    obtain ⟨hfault, -⟩ := hends (SymbolTable.SameCores.refl symbols) rfl
    obtain ⟨file, node, target, type, hnode, htarget, hplaces⟩ := hfault f hrun
    obtain ⟨line, rfl⟩ := failsOnLine_placesOf target type f hplaces
    have hanalyze : analyzeUnits setup units = .error (.fault (.notAssignable line)) := by
      simp only [analyzeUnits, hcollect, hrun]
    exact ⟨file, node, target, type, line, hnode, htarget, hplaces, hanalyze⟩

/-- Two functions call each other, and one of them contains a closure that calls the other. -/
theorem analyzeUnits_ends_closureInRecursion :
    let call (line : Line) (name : String) : Node :=
      ⟨line, .call ⟨line, .identifier name⟩ [⟨line, .var (.literal "x")⟩]⟩
    let function (line : Line) (name : String) (body : Node) : Node :=
      ⟨line, .functionDecl ⟨name, [⟨"x", none, false, false, none⟩], none, body⟩⟩
    let closure : Node := ⟨1, .closure ⟨[], [⟨"x", false⟩], none, false, call 1 "g"⟩⟩
    let units : List SourceUnit := [⟨"a.php", ⟨1, .statementList [
      function 1 "f" ⟨1, .statementList [call 1 "g", ⟨1, .returnValue (some closure)⟩]⟩,
      function 2 "g" (call 2 "f"), ⟨3, .call ⟨3, .identifier "f"⟩ [⟨3, .literal (.int 1)⟩]⟩]⟩, none⟩]
    ∃ symbols, SymbolTable.builtin.collectUnits units = .ok symbols ∧ symbols.Acyclic ∧
      symbols.Contains (.ofFunction "f") (.ofClosure "a.php" 1) ∧
      ∃ outcome, analyzeUnits {} units = .ok outcome := by
  intro call function closure units
  let number (key : CallableKey) : Nat := if key = .ofClosure "a.php" 1 then 0 else 1
  have htargets : ∀ unit ∈ units, ∀ node ∈ unit.root.nodes, node.targets.isEmpty = true := by
    decide +kernel
  apply exists_ok_of_any (fun symbols => decide (
    (∀ key ∈ symbols.bodyKeys, ∀ inner ∈ symbols.contained key, number inner < number key) ∧
      .ofClosure "a.php" 1 ∈ symbols.contained (.ofFunction "f")))
  · decide +kernel
  · intro symbols hsymbols h
    obtain ⟨hnumber, hcontains⟩ := of_decide_eq_true h
    have hacyclic := SymbolTable.acyclic_of_decreasing number hnumber
    refine ⟨hacyclic, hcontains, ?_⟩
    rcases analyzeUnits_ends {} hsymbols hacyclic with h | ⟨_, node, target, _, _, hnode, htarget, _⟩
    · exact h
    · obtain ⟨unit, hunit, _, hpart⟩ := hnode
      rw [List.isEmpty_iff.mp (htargets unit hunit node hpart)] at htarget
      cases htarget

end PhpCheck
