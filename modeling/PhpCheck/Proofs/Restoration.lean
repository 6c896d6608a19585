import PhpCheck.Proofs.Provenance
import PhpCheck.Proofs.Traversal

/-!
# Callees are put back

A call tries its callee out with other parameters and in another scope. However trials nest, afterwards
every callable has the parameters that it had, and its scope has at most gained variables that a closure
literal with its identity takes over. The callee itself is exactly what it was.
-/

namespace PhpCheck

/-- A closure literal of the units with this identity takes over a variable of that name. -/
def Captures (units : List SourceUnit) (key : CallableKey) (name : String) : Prop :=
  ∃ file node decl, InUnits units file node ∧ node.kind = .closure decl ∧
    key = .ofClosure file node.line ∧ ∃ captured ∈ decl.uses, captured.name = name

/-- A closure literal of the units has this identity. -/
def IsClosure (units : List SourceUnit) (key : CallableKey) : Prop :=
  ∃ file node decl, InUnits units file node ∧ node.kind = .closure decl ∧
    key = .ofClosure file node.line

/-- The callable has the parameters that it had, and its scope has grown by variables of the given
names at most. -/
structure Callable.Restored (names : String → Prop) (c d : Callable) : Prop where
  parameters : d.parameters = c.parameters
  scope : Scope.GrownBy names c.scope d.scope

/-- The same callables are known, and all outside the `hole` are restored. -/
def SymbolTable.Restored (units : List SourceUnit) (hole : CallableKey → Prop) (s t : SymbolTable) :
    Prop :=
  ∀ key, ¬hole key →
    Option.Rel (Callable.Restored (Captures units key)) (s.callable? key) (t.callable? key)

variable {units : List SourceUnit} {hole : CallableKey → Prop}

lemma Callable.restored_of_binding_eq {names : String → Prop} {a b : Option Callable}
    (h : b.map Callable.binding = a.map Callable.binding) :
    Option.Rel (Callable.Restored names) a b := by
  cases a with
  | none =>
    cases b with
    | none => exact .none
    | some d => cases h
  | some c =>
    cases b with
    | none => cases h
    | some d =>
      obtain ⟨hparameters, hscope⟩ := Prod.mk.inj (Option.some.inj h)
      exact .some ⟨hparameters, hscope ▸ .refl _ _⟩

lemma Callable.binding_eq_of_restored {names : String → Prop} (hnames : ∀ name, ¬names name)
    {a b : Option Callable} (h : Option.Rel (Callable.Restored names) a b) :
    b.map Callable.binding = a.map Callable.binding := by
  cases h with
  | none => rfl
  | some h => exact congrArg some (Prod.ext h.parameters (h.scope.eq_of_forall_not hnames))

namespace SymbolTable.Restored

lemma of_callable?_eq {s t : SymbolTable} (h : ∀ key, ¬hole key → t.callable? key = s.callable? key) :
    Restored units hole s t := by
  intro key hkey
  rw [h key hkey]
  cases s.callable? key with
  | none => exact .none
  | some c => exact .some ⟨rfl, .refl _ _⟩

lemma trans {s t u : SymbolTable} (hst : Restored units hole s t) (htu : Restored units hole t u) :
    Restored units hole s u := by
  intro key hkey
  have h := hst key hkey
  have h' := htu key hkey
  generalize s.callable? key = a, t.callable? key = b, u.callable? key = c at h h'
  cases h with
  | none => exact h'
  | some h =>
    cases h' with
    | some h' => exact .some ⟨h'.parameters.trans h.parameters, h.scope.trans h'.scope⟩

lemma of_sameBindings {s t : Session} (h : s.SameBindings t) :
    Restored units hole s.symbols t.symbols :=
  fun key _ => Callable.restored_of_binding_eq (h.bindings key)

end SymbolTable.Restored

namespace Analysis

variable {setup : Setup} {enter : Enter} {α : Type}

/-! ### The callee itself -/

/-- What the callable is entered with is the same after the run. -/
def Returns (key : CallableKey) {α : Type} (s : Session) (m : Analysis α) : Prop :=
  ∀ a t, m.run s = .ok (a, t) → (t.symbols.callable? key).map Callable.binding =
    (s.symbols.callable? key).map Callable.binding

lemma compositional_returns (key : CallableKey) : Compositional (Returns key) := by
  refine .of_plain_bind ?_ ?_
  · intro α m s hm a t hrun
    exact (hm.sameBindings (mem_moments_of_run hrun)).bindings key
  · intro α β m f s hm hf b u hrun
    obtain ⟨a, t, ha, hb⟩ := run_bind_eq_ok hrun
    exact (hf a t ha b u hb).trans (hm a t ha)

lemma returns_tryOut (s : Session) (context : Context) (callee : CallableKey) (arguments : List Node)
    (declared : List Parameter) (types : List TypeSet) :
    Returns callee s (tryOut enter context callee arguments declared types) := by
  intro after t hrun
  rcases tryOut_cases hrun with rfl | ⟨before, results, s₁, hbefore, hspeculate, rfl⟩
  · rfl
  · obtain ⟨c, hc, -⟩ := (sameCores_of_run hspeculate).exists_callable hbefore
    rw [Session.apply, SymbolTable.callable?_rebind_self, hbefore, hc]
    rfl

lemma returns_call (s : Session) (context : Context) (callee : CallableKey) (arguments : List Node) :
    Returns callee s (call setup enter context callee arguments) := by
  refine (compositional_returns callee).call (fun s context types => ?_) s context
  exact returns_tryOut s context callee arguments _ types

/-! ### All callables -/

/-- If bodies stem from the units before the run, then it restores all callables outside the `hole`. -/
def Restores (units : List SourceUnit) (hole : CallableKey → Prop) {α : Type} (s : Session)
    (m : Analysis α) : Prop :=
  s.symbols.BodiesIn (InUnits units) → ∀ a t, m.run s = .ok (a, t) →
    SymbolTable.Restored units hole s.symbols t.symbols

lemma compositional_restores : Compositional (Restores units hole) := by
  refine .of_plain_bind ?_ ?_
  · intro α m s hm _ a t hrun
    exact .of_sameBindings (hm.sameBindings (mem_moments_of_run hrun))
  · intro α β m f s hm hf hbodies b u hrun
    obtain ⟨a, t, ha, hb⟩ := run_bind_eq_ok hrun
    have hbodies' := hbodies.of_sameCores (sameCores_of_run ha)
    exact (hm hbodies a t ha).trans (hf a t ha hbodies' b u hb)

lemma Restores.mono {s : Session} {m : Analysis α} (h : Restores units (fun _ => False) s m) :
    Restores units hole s m :=
  fun hbodies a t hrun key _ => h hbodies a t hrun key id

lemma restores_fault (f : Fault) (s : Session) : Restores units hole s (fault f : Analysis α) :=
  fun _ _ _ hrun => nomatch hrun

lemma restores_perform {s : Session} {c : Change}
    (h : ∀ key, ¬hole key → (s.apply c).symbols.callable? key = s.symbols.callable? key) :
    Restores units hole s (perform c) := by
  intro _ a t hrun
  cases hrun
  exact .of_callable?_eq h

lemma restores_speculate {callee : CallableKey}
    (henter : ∀ s context, Restores units (fun _ => False) s (enter callee context))
    (s : Session) (context : Context) (arguments : List Node) (declared : List Parameter)
    (types : List TypeSet) :
    Restores units (· = callee) s (speculate enter context callee arguments declared types) := by
  have hQ := @compositional_restores units (· = callee)
  refine hQ.speculate (fun s parameters scope => ?_) (fun s _ => ?_) s arguments types
  · refine restores_perform fun key hkey => ?_
    exact s.symbols.callable?_rebind_of_ne hkey parameters scope
  · refine hQ.bind (restores_perform fun _ _ => rfl) fun _ t _ => ?_
    refine hQ.bind (henter t context).mono fun _ u _ => ?_
    exact hQ.bind (restores_perform fun _ _ => rfl) fun _ v _ => hQ.pure v _

lemma restores_tryOut {callee : CallableKey}
    (henter : ∀ s context, Restores units (fun _ => False) s (enter callee context))
    (s : Session) (context : Context) (arguments : List Node) (declared : List Parameter)
    (types : List TypeSet) : Restores units (fun _ => False) s
      (tryOut enter context callee arguments declared types) := by
  intro hbodies after t hrun
  rcases tryOut_cases hrun with rfl | ⟨before, results, s₁, hbefore, hspeculate, rfl⟩
  · exact .of_callable?_eq fun _ _ => rfl
  · intro key _
    by_cases hkey : key = callee
    · rw [hkey]
      exact Callable.restored_of_binding_eq (returns_tryOut s _ callee _ _ _ after _ hrun)
    · rw [Session.apply, SymbolTable.callable?_rebind_of_ne _ hkey]
      exact restores_speculate henter s context arguments declared types hbodies _ _ hspeculate key hkey

lemma supports_restores {file : String} {visit : Visit}
    (henter : ∀ s key context, Restores units (fun _ => False) s (enter key context))
    (hvisit : InUnits units file visit.node) :
    Supports (Restores units fun _ => False) enter file visit where
  assign target _ s context type := by
    refine compositional_restores.assign (fun f _ α s => ?_) s context
    exact restores_fault f s
  capture decl hkind s context _ := by
    refine compositional_restores.forM (fun s captured hcaptured => ?_) s
    intro _ a t hrun key _
    cases hrun
    rw [Session.apply, SymbolTable.callable?_edit]
    cases s.symbols.callable? key with
    | none => exact .none
    | some c =>
      refine .some ?_
      dsimp only [Edit.onCallable]
      split
      · rename_i hkey
        refine ⟨rfl, c.scope.grownBy_assign ?_ _ _⟩
        exact ⟨file, visit.node, decl, hvisit, hkind, hkey, captured, hcaptured, rfl⟩
      · exact ⟨rfl, .refl _ _⟩
  enter key _ s context _ := henter s key context

lemma restores_call
    (henter : ∀ s key context, Restores units (fun _ => False) s (enter key context))
    (s : Session) (context : Context) (callee : CallableKey) (arguments : List Node) :
    Restores units (fun _ => False) s (call setup enter context callee arguments) := by
  refine compositional_restores.call (fun s context types => ?_) s context
  exact restores_tryOut (fun s context => henter s callee context) s context arguments _ types

/-- The walk of a node of the units. -/
lemma restores_walk {file : String} {owner : Option String} {node : Node}
    (henter : ∀ s key context, Restores units (fun _ => False) s (enter key context))
    (hnode : InUnits units file node) (s : Session) (context : Context) (parent : Option Node)
    (hcontext : Within file owner context) :
    Restores units (fun _ => False) s (walk setup enter context parent node) := by
  refine compositional_restores.walk (restores_call henter) (fun visit hvisit => ?_) s context parent
    hcontext
  exact supports_restores henter (InUnits.of_mem_visits hnode hvisit)

lemma restores_enterBody (fuel : Nat) (s : Session) (key : CallableKey) (context : Context) :
    Restores units (fun _ => False) s (enterBody setup fuel key context) := by
  induction fuel generalizing s key context with
  | zero => exact restores_fault _ s
  | succ fuel ih =>
    intro hbodies
    refine compositional_restores.enterBody (fun c body hc hbody => ?_) hbodies
    exact restores_walk ih (hbodies key c body hc hbody) _ _ none (within_entryContext _ _ _ _)

lemma restores_walkUnits (s : Session) :
    Restores units (fun _ => False) s (walkUnits setup units) := by
  refine compositional_restores.walkUnits (fun unit hunit s => ?_) s
  refine restores_walk (restores_enterBody _) ?_ s _ none ⟨rfl, rfl⟩
  exact ⟨unit, hunit, rfl, unit.root.self_mem_nodes⟩

/-! ### Calls and whole runs -/

lemma not_captures {key : CallableKey} (h : ¬IsClosure units key) (name : String) :
    ¬Captures units key name := by
  rintro ⟨file, node, decl, hnode, hkind, hkey, -⟩
  exact h ⟨file, node, decl, hnode, hkind, hkey⟩

/-- Whenever in a run a call returns, its callee is bound as before the call. Every other callable has
its parameters, and its scope is the same but for what a closure literal with its identity takes over.
At the end of the run this holds of all callables, as against what was collected. -/
theorem call_restores_callables {setup : Setup} {units : List SourceUnit} {symbols : SymbolTable}
    (hcollect : SymbolTable.builtin.collectUnits units = .ok symbols) :
    (∀ s ∈ (walkUnits setup units).moments { symbols }, ∀ (fuel : Nat) (context after : Context)
        (callee : CallableKey) (arguments : List Node) (t : Session),
      (call setup (enterBody setup fuel) context callee arguments).run s = .ok (after, t) →
      (t.symbols.callable? callee).map Callable.binding =
        (s.symbols.callable? callee).map Callable.binding ∧
      ∀ key, Option.Rel (Callable.Restored (Captures units key)) (s.symbols.callable? key)
          (t.symbols.callable? key) ∧
        (¬IsClosure units key → (t.symbols.callable? key).map Callable.binding =
          (s.symbols.callable? key).map Callable.binding)) ∧
    ∀ outcome, analyzeUnits setup units = .ok outcome → ∀ key,
      Option.Rel (Callable.Restored (Captures units key)) (symbols.callable? key)
          (outcome.symbols.callable? key) ∧
        (¬IsClosure units key → (outcome.symbols.callable? key).map Callable.binding =
          (symbols.callable? key).map Callable.binding) := by
  have hbodies := bodiesIn_of_collectUnits hcollect
  refine ⟨fun s hs fuel context after callee arguments t hrun => ?_, fun outcome houtcome key => ?_⟩
  · have hbodies := hbodies.of_sameCores (sameCores_of_mem_moments hs)
    have hrestored := restores_call (restores_enterBody fuel) s context callee arguments hbodies _ _ hrun
    refine ⟨returns_call s context callee arguments _ _ hrun, fun key => ⟨hrestored key id, fun h => ?_⟩⟩
    exact Callable.binding_eq_of_restored (not_captures h) (hrestored key id)
  · rw [analyzeUnits, hcollect] at houtcome
    dsimp only at houtcome
    split at houtcome
    · cases houtcome
    · rename_i session hrun
      cases houtcome
      have hrestored := restores_walkUnits { symbols } hbodies _ _ hrun key id
      exact ⟨hrestored, fun h => Callable.binding_eq_of_restored (not_captures h) hrestored⟩

/-- Two functions that call each other. -/
theorem call_restores_mutualRecursion :
    let x (line : Line) : Node := ⟨line, .var (.literal "x")⟩
    let call (line : Line) (name : String) (argument : Node) : Node :=
      ⟨line, .call ⟨line, .identifier name⟩ [argument]⟩
    let function (line : Line) (name callee : String) : Node :=
      ⟨line, .functionDecl ⟨name, [⟨"x", none, false, false, none⟩], none, call line callee (x line)⟩⟩
    let units : List SourceUnit := [⟨"a.php", ⟨1, .statementList [
      function 1 "f" "g", function 2 "g" "f", call 3 "f" ⟨3, .literal (.int 1)⟩]⟩, none⟩]
    ∃ symbols, SymbolTable.builtin.collectUnits units = .ok symbols ∧
      ∃ outcome, analyzeUnits {} units = .ok outcome ∧
        ∀ key, Option.Rel (Callable.Restored (Captures units key)) (symbols.callable? key)
          (outcome.symbols.callable? key) := by
  apply exists_ok_of_any (fun _ => true) (by decide +kernel)
  intro symbols hsymbols _
  apply exists_ok_of_any (fun _ => true) (by decide +kernel)
  intro outcome houtcome _ key
  exact ((call_restores_callables hsymbols).2 outcome houtcome key).1

/-- A function can have the identity of a closure literal, and then its scope does not stay the same:
it takes over the variables of the literal. -/
theorem function_takes_over_closure_uses :
    let name := "\x7bclosure\x7d:a:3"
    let units : List SourceUnit := [⟨"a", ⟨1, .statementList [
      ⟨1, .functionDecl ⟨name, [], none, ⟨1, .statementList []⟩⟩⟩,
      ⟨2, .assign ⟨2, .var (.literal "x")⟩ ⟨2, .literal (.int 1)⟩⟩,
      ⟨3, .assign ⟨3, .var (.literal "f")⟩
        ⟨3, .closure ⟨[], [⟨"x", false⟩], none, false, ⟨3, .statementList []⟩⟩⟩⟩]⟩, none⟩]
    ((SymbolTable.builtin.collectUnits units).toOption.bind (·.callable? (.ofFunction name))).map
        (fun c => (c.name, c.scope.frame.keys)) = some (name, []) ∧
      ((analyzeUnits {} units).toOption.bind (·.symbols.callable? (.ofFunction name))).map
        (fun c => (c.name, c.scope.frame.keys)) = some (name, ["x"]) := by
  decide +kernel

end Analysis

end PhpCheck
