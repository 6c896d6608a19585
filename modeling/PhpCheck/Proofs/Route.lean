import PhpCheck.Proofs.ContextGrowth

/-!
# What a walk comes to

`Visit.visits` lists the nodes that the walk of a node comes to before it enters a body. `Stop.route`
lists them once more in the order in which they are checked, each with the file and the node around it.
What is known of a run can grow with the stops that are made: such a property is `Graded`, and
`Graded.walk` is the only induction over the walk.
-/

namespace PhpCheck

/-- Whether the node declares a function, method or closure. -/
def Node.isCallable (node : Node) : Bool :=
  match node.kind with
  | .functionDecl _ | .methodDecl _ | .closure _ => true
  | _ => false

/-- A node that a walk comes to, and the class around it. -/
structure Visit where
  owner : Option String
  node : Node

namespace Visit

/-- The parts of a node that a walk goes on to: the body of a class, but not that of a function, method
or closure. -/
def next (visit : Visit) : List Visit :=
  match visit.node.kind with
  | .classDecl decl => [⟨some decl.name, decl.body⟩]
  | .functionDecl _ | .methodDecl _ | .closure _ => []
  | _ => visit.node.children.map fun child => ⟨visit.owner, child⟩

lemma node_mem_children_of_mem_next {visit after : Visit} (h : after ∈ visit.next) :
    after.node ∈ visit.node.children := by
  unfold next at h
  split at h
  · rename_i decl hkind
    rw [List.mem_singleton.mp h]
    simp [Node.children, hkind, Kind.children]
  · cases h
  · cases h
  · cases h
  · obtain ⟨child, hchild, rfl⟩ := List.mem_map.mp h
    exact hchild

/-- All nodes that a walk comes to. -/
def visits (visit : Visit) : List Visit :=
  visit :: visit.next.attach.flatMap fun after => after.val.visits
termination_by sizeOf visit.node
decreasing_by exact Node.sizeOf_children_mem (node_mem_children_of_mem_next after.property)

/-- The callable that a visited node of a file declares. -/
def declares? (file : String) (visit : Visit) : Option CallableKey :=
  match visit.node.kind with
  | .functionDecl decl => some (.ofFunction decl.name)
  | .methodDecl decl => visit.owner.map fun owner => .ofMethod owner decl.name
  | .closure _ => some (.ofClosure file visit.node.line)
  | _ => none

lemma mem_visits_iff {start visit : Visit} :
    visit ∈ start.visits ↔ visit = start ∨ ∃ after ∈ start.next, visit ∈ after.visits := by
  rw [visits]
  simp

lemma self_mem_visits (visit : Visit) : visit ∈ visit.visits := mem_visits_iff.mpr (.inl rfl)

lemma mem_visits_of_next {start after visit : Visit} (hnext : after ∈ start.next)
    (h : visit ∈ after.visits) : visit ∈ start.visits :=
  mem_visits_iff.mpr (.inr ⟨after, hnext, h⟩)

lemma next_of_isCallable {node : Node} (h : node.isCallable = true) (owner : Option String) :
    next ⟨owner, node⟩ = [] := by
  unfold Node.isCallable at h
  unfold next
  split at h
  · rename_i hkind
    simp only [hkind]
  · rename_i hkind
    simp only [hkind]
  · rename_i hkind
    simp only [hkind]
  · cases h

lemma exists_next_eq_map {node : Node} (h : node.isCallable = false) (owner : Option String) :
    ∃ inner, next ⟨owner, node⟩ = node.children.map fun child => ⟨inner, child⟩ := by
  obtain ⟨line, kind⟩ := node
  unfold next
  split
  · rename_i decl hkind
    cases hkind
    exact ⟨some decl.name, rfl⟩
  · rename_i hkind
    cases hkind
    cases h
  · rename_i hkind
    cases hkind
    cases h
  · rename_i hkind
    cases hkind
    cases h
  · exact ⟨owner, rfl⟩

lemma next_eq_map {owner : Option String} {node : Node}
    (hclass : ∀ line decl, node = ⟨line, .classDecl decl⟩ → False)
    (hfunction : ∀ line decl, node = ⟨line, .functionDecl decl⟩ → False)
    (hmethod : ∀ line decl, node = ⟨line, .methodDecl decl⟩ → False)
    (hclosure : ∀ line decl, node = ⟨line, .closure decl⟩ → False) :
    next ⟨owner, node⟩ = node.children.map fun child => ⟨owner, child⟩ := by
  obtain ⟨line, kind⟩ := node
  unfold next
  split
  · rename_i decl hkind
    exact absurd (congrArg (Node.mk line) hkind) (hclass line decl)
  · rename_i decl hkind
    exact absurd (congrArg (Node.mk line) hkind) (hfunction line decl)
  · rename_i decl hkind
    exact absurd (congrArg (Node.mk line) hkind) (hmethod line decl)
  · rename_i decl hkind
    exact absurd (congrArg (Node.mk line) hkind) (hclosure line decl)
  · rfl

lemma declares?_eq_none (file : String) {owner : Option String} {node : Node}
    (hfunction : ∀ line decl, node = ⟨line, .functionDecl decl⟩ → False)
    (hmethod : ∀ line decl, node = ⟨line, .methodDecl decl⟩ → False)
    (hclosure : ∀ line decl, node = ⟨line, .closure decl⟩ → False) :
    declares? file ⟨owner, node⟩ = none := by
  obtain ⟨line, kind⟩ := node
  unfold declares?
  split
  · rename_i decl hkind
    exact absurd (congrArg (Node.mk line) hkind) (hfunction line decl)
  · rename_i decl hkind
    exact absurd (congrArg (Node.mk line) hkind) (hmethod line decl)
  · rename_i decl hkind
    exact absurd (congrArg (Node.mk line) hkind) (hclosure line decl)
  · rfl

end Visit

/-- The variables that a closure takes over. -/
def Node.uses (node : Node) : List ClosureUse :=
  match node.kind with
  | .closure decl => decl.uses
  | _ => []

/-- A node that a walk checks, with what is around it. -/
structure Stop where
  file : String
  owner : Option String
  parent : Option Node
  node : Node

namespace Stop

/-- The stop without the node around it. -/
def visit (stop : Stop) : Visit := ⟨stop.owner, stop.node⟩

/-- The callable that the node declares. -/
def declares? (stop : Stop) : Option CallableKey := stop.visit.declares? stop.file

/-- The parts of the node that a walk goes on to. -/
def next (stop : Stop) : List Stop :=
  stop.visit.next.map fun after => ⟨stop.file, after.owner, some stop.node, after.node⟩

lemma node_mem_children_of_mem_next {stop after : Stop} (h : after ∈ stop.next) :
    after.node ∈ stop.node.children := by
  obtain ⟨visit, hvisit, rfl⟩ := List.mem_map.mp h
  exact Visit.node_mem_children_of_mem_next hvisit

/-- All nodes that a walk checks, in turn: the parts before the whole. -/
def route (stop : Stop) : List Stop :=
  (stop.next.attach.flatMap fun after => after.val.route) ++ [stop]
termination_by sizeOf stop.node
decreasing_by exact Node.sizeOf_children_mem (node_mem_children_of_mem_next after.property)

lemma route_eq (stop : Stop) : stop.route = stop.next.flatMap route ++ [stop] := by
  rw [route]
  simp [List.flatMap_subtype]

lemma route_of_parts {file : String} {owner inner : Option String} (parent : Option Node) {node : Node}
    {parts : List Node} (h : Visit.next ⟨owner, node⟩ = parts.map fun part => ⟨inner, part⟩) :
    route ⟨file, owner, parent, node⟩ =
      (parts.flatMap fun part => route ⟨file, inner, some node, part⟩) ++
        [⟨file, owner, parent, node⟩] := by
  rw [route_eq, next, visit, h]
  simp [List.flatMap_map]

lemma route_of_isCallable {node : Node} (h : node.isCallable = true) (file : String)
    (owner : Option String) (parent : Option Node) :
    route ⟨file, owner, parent, node⟩ = [⟨file, owner, parent, node⟩] := by
  rw [route_eq, next, visit, Visit.next_of_isCallable h]
  rfl

lemma mem_route_iff {start stop : Stop} :
    stop ∈ start.route ↔ stop = start ∨ ∃ after ∈ start.next, stop ∈ after.route := by
  rw [route_eq]
  simp [or_comm]

lemma self_mem_route (stop : Stop) : stop ∈ stop.route := mem_route_iff.mpr (.inl rfl)

lemma mem_route_of_next {start after stop : Stop} (hnext : after ∈ start.next)
    (h : stop ∈ after.route) : stop ∈ start.route :=
  mem_route_iff.mpr (.inr ⟨after, hnext, h⟩)

/-- What a stop hands down to the next ones holds along the route. -/
lemma forall_mem_route {P : Stop → Prop} (hnext : ∀ stop, P stop → ∀ after ∈ stop.next, P after)
    {start : Stop} (hstart : P start) : ∀ stop ∈ start.route, P stop := by
  obtain ⟨file, owner, parent, node⟩ := start
  induction node using Node.induction_on_children generalizing owner parent with
  | step node ih =>
    intro stop hstop
    rcases mem_route_iff.mp hstop with rfl | ⟨after, hafter, hstop⟩
    · exact hstart
    · have hchild := node_mem_children_of_mem_next hafter
      have hP := hnext _ hstart after hafter
      obtain ⟨visit, -, rfl⟩ := List.mem_map.mp hafter
      exact ih visit.node hchild visit.owner _ hP stop hstop

lemma file_of_mem_route {start stop : Stop} (h : stop ∈ start.route) : stop.file = start.file := by
  refine forall_mem_route (P := fun stop => stop.file = start.file) ?_ rfl stop h
  intro stop hstop after hafter
  obtain ⟨visit, -, rfl⟩ := List.mem_map.mp hafter
  exact hstop

lemma visit_mem_visits_of_mem_route {start stop : Stop} (h : stop ∈ start.route) :
    stop.visit ∈ start.visit.visits := by
  obtain ⟨file, owner, parent, node⟩ := start
  induction node using Node.induction_on_children generalizing owner parent with
  | step node ih =>
    rcases mem_route_iff.mp h with rfl | ⟨after, hafter, h⟩
    · exact Visit.self_mem_visits _
    · have hchild := node_mem_children_of_mem_next hafter
      obtain ⟨visit, hvisit, rfl⟩ := List.mem_map.mp hafter
      exact Visit.mem_visits_of_next hvisit (ih visit.node hchild visit.owner _ h)

lemma exists_mem_route_of_mem_visits {start : Stop} {visit : Visit} (h : visit ∈ start.visit.visits) :
    ∃ stop ∈ start.route, stop.visit = visit := by
  obtain ⟨file, owner, parent, node⟩ := start
  induction node using Node.induction_on_children generalizing owner parent with
  | step node ih =>
    rcases Visit.mem_visits_iff.mp h with rfl | ⟨after, hafter, h⟩
    · exact ⟨_, self_mem_route _, rfl⟩
    · have hchild := Visit.node_mem_children_of_mem_next hafter
      obtain ⟨stop, hstop, hvisit⟩ := ih after.node hchild after.owner (some node) h
      exact ⟨stop, mem_route_of_next (List.mem_map.mpr ⟨after, hafter, rfl⟩) hstop, hvisit⟩

end Stop

namespace Analysis

/-- The context is in that file and in that class. -/
structure Within (file : String) (owner : Option String) (context : Context) : Prop where
  file : context.file = file
  owner : context.owner = owner

lemma Within.continues {file : String} {owner : Option String} {a b : Context}
    (ha : Within file owner a) (h : a.Continues b) : Within file owner b :=
  ⟨h.file.trans ha.file, h.owner.trans ha.owner⟩

lemma Within.walk {setup : Setup} {enter : Enter} {file : String} {owner : Option String}
    {a b : Context} (ha : Within file owner a) {parent : Option Node} {node : Node} {s t : Session}
    (hrun : (walk setup enter a parent node).run s = .ok (b, t)) : Within file owner b :=
  ha.continues ((results_walk a parent node).of_run hrun).1

lemma Within.assign {file : String} {owner : Option String} {a b : Context}
    (ha : Within file owner a) {target : Node} {type : TypeSet} {s t : Session}
    (hrun : (assign a target type).run s = .ok (b, t)) : Within file owner b :=
  ha.continues ((results_assign a target type).of_run hrun).continues

lemma within_entryContext (outer : Context) (key : CallableKey) (c : Callable) (body : Node) :
    Within c.site.file c.owner (entryContext outer key c body) := by
  refine ⟨?_, rfl⟩
  dsimp only [entryContext, Context.enter, Context.atLine]
  split
  · assumption
  · rfl

/-- The context is at the stop. -/
structure Reaches (stop : Stop) (context : Context) : Prop where
  within : Within stop.file stop.owner context
  line : context.line = stop.node.line

/-- What a walk does at the declaration of a callable. -/
def declareAt (setup : Setup) (enter : Enter) (context : Context) (stop : Stop) (key : CallableKey) :
    Analysis Context := do
  captureUses context key stop.node.uses
  arrive context stop.node (some key)
  discard (enter key context)
  discard (check setup enter context stop.parent stop.node)
  return context

/-! ### Properties that grow with the stops -/

/-- `Q stops s m` says something of the run of `m` that starts in `s`, and of stops. It holds of an
action that does nothing and makes no stop, and of two actions one after the other with the stops of
both. -/
structure Graded (Q : ∀ {α : Type}, List Stop → Session → Analysis α → Prop) : Prop where
  pure : ∀ {α : Type} (s : Session) (a : α), Q [] s (Pure.pure a : Analysis α)
  look : ∀ {α : Type} {rest : Session → Analysis α} {s : Session} {stops : List Stop},
    Q stops s (rest s) → Q stops s (.look rest)
  bind : ∀ {α β : Type} {m : Analysis α} {f : α → Analysis β} {s : Session} {first rest : List Stop},
    Q first s m → (∀ a s', m.run s = .ok (a, s') → Q rest s' (f a)) → Q (first ++ rest) s (m >>= f)

lemma Sequential.graded {Q : ∀ {α : Type}, Session → Analysis α → Prop} (hQ : Sequential Q) :
    Graded fun _ => Q where
  pure := hQ.pure
  look := hQ.look
  bind := hQ.bind

/-- What a property has to hold of for one stop: the assignments that the node makes before its parts are
walked, and what follows when they have been. A method outside of a class is come to, but not entered. -/
structure Attends (Q : ∀ {α : Type}, List Stop → Session → Analysis α → Prop) (setup : Setup)
    (enter : Enter) (stop : Stop) : Prop where
  assign : ∀ target ∈ stop.node.targets, ∀ (s : Session) (context : Context) (type : TypeSet),
    context.file = stop.file → Q [] s (Analysis.assign context target type)
  arrive : ∀ (s : Session) (context : Context), Reaches stop context →
    Q [] s (Analysis.arrive context stop.node stop.declares?)
  check : stop.declares? = none → ∀ (s : Session) (context : Context), Reaches stop context →
    Q [stop] s (Analysis.check setup enter context stop.parent stop.node)
  declare : ∀ key, stop.declares? = some key → ∀ (s : Session) (context : Context),
    Reaches stop context → Q [stop] s (declareAt setup enter context stop key)

namespace Graded

variable {Q : ∀ {α : Type}, List Stop → Session → Analysis α → Prop} {setup : Setup} {enter : Enter}
  {s : Session} {stops : List Stop}

lemma symbols (hQ : Graded Q) {α : Type} {f : SymbolTable → Analysis α}
    (h : Q stops s (f s.symbols)) : Q stops s (Analysis.symbols >>= f) :=
  hQ.look h

lemma inferQuietly (hQ : Graded Q) {α : Type} {context : Context} {node : Node} {f : TypeSet → Analysis α}
    (h : Q stops s (f (typeOf s.symbols context node))) :
    Q stops s (Analysis.inferQuietly context node >>= f) := by
  rw [inferQuietly_eq]
  exact hQ.look h

lemma bind_pure (hQ : Graded Q) {α β : Type} {m : Analysis α} (h : Q stops s m) (f : α → β) :
    Q stops s (m >>= fun a => Pure.pure (f a)) := by
  rw [← List.append_nil stops]
  exact hQ.bind h fun a s' _ => hQ.pure s' (f a)

lemma nil_bind (hQ : Graded Q) {α β : Type} {m : Analysis α} {f : α → Analysis β} (hm : Q [] s m)
    (hf : ∀ a s', m.run s = .ok (a, s') → Q stops s' (f a)) : Q stops s (m >>= f) :=
  hQ.bind hm hf

lemma discard (hQ : Graded Q) {α : Type} {m : Analysis α} (h : Q stops s m) :
    Q stops s (Functor.discard m) :=
  hQ.bind_pure h _

lemma foldlM (hQ : Graded Q) {α β : Type} {f : β → α → Analysis β} {l : List α}
    {route : α → List Stop} (P : β → Prop)
    (hf : ∀ s b x, x ∈ l → P b → Q (route x) s (f b x) ∧ (f b x).Results P) (s : Session) {b : β}
    (hb : P b) : Q (l.flatMap route) s (l.foldlM f b) := by
  induction l generalizing s b with
  | nil => exact hQ.pure s b
  | cons x l ih =>
    rw [List.foldlM_cons, List.flatMap_cons]
    obtain ⟨hx, hP⟩ := hf s b x (List.mem_cons_self ..) hb
    refine hQ.bind hx fun b' s' hrun => ?_
    exact ih (fun t c y hy => hf t c y (List.mem_cons_of_mem _ hy)) s' (hP.of_run hrun)

lemma forM (hQ : Graded Q) {α : Type} {f : α → Analysis PUnit} {l : List α} {route : α → List Stop}
    (hf : ∀ s, ∀ x ∈ l, Q (route x) s (f x)) (s : Session) : Q (l.flatMap route) s (l.forM f) := by
  induction l generalizing s with
  | nil => exact hQ.pure s _
  | cons x l ih =>
    rw [List.flatMap_cons]
    refine hQ.bind (hf s x (List.mem_cons_self ..)) fun _ s' _ => ?_
    exact ih (fun t y hy => hf t y (List.mem_cons_of_mem _ hy)) s'

/-- A property that all stops attend to holds of the walk. -/
lemma walk (hQ : Graded Q) {file : String} {owner : Option String} {node : Node}
    (s : Session) {context : Context} (parent : Option Node)
    (h : ∀ stop ∈ Stop.route ⟨file, owner, parent, node⟩, Attends Q setup enter stop)
    (hcontext : Within file owner context) :
    Q (Stop.route ⟨file, owner, parent, node⟩) s (Analysis.walk setup enter context parent node) := by
  revert s owner
  fun_induction Analysis.walk setup enter context parent node
  case case1 outer parent line decl context hbody =>
    intro owner s h hcontext
    have hself := h _ (Stop.self_mem_route _)
    rw [@Stop.route_of_parts _ _ (some decl.name) parent _ [decl.body] rfl] at h ⊢
    simp only [List.flatMap_cons, List.flatMap_nil, List.append_nil] at h ⊢
    refine hQ.bind (hQ.discard (hbody s (fun stop hstop => ?_) ⟨hcontext.file, rfl⟩)) fun _ t _ => ?_
    · exact h stop (List.mem_append_left _ hstop)
    · exact hQ.bind_pure (hQ.discard (hself.check rfl t context ⟨⟨hcontext.1, hcontext.2⟩, rfl⟩)) _
  case case2 outer parent line decl key context =>
    intro owner s h hcontext
    have hself := h _ (Stop.self_mem_route _)
    rw [@Stop.route_of_parts _ _ owner parent _ [] rfl]
    exact hself.declare _ rfl s context ⟨⟨hcontext.1, hcontext.2⟩, rfl⟩
  case case3 outer parent line decl name context hname =>
    intro owner s h hcontext
    have hself := h _ (Stop.self_mem_route _)
    have howner : owner = some name := hcontext.owner.symm.trans hname
    have hdeclares : Visit.declares? file ⟨owner, ⟨line, .methodDecl decl⟩⟩ =
        some (.ofMethod name decl.name) := by
      rw [howner]
      rfl
    rw [@Stop.route_of_parts _ _ owner parent _ [] rfl, hname]
    exact hself.declare _ hdeclares s context ⟨⟨hcontext.1, hcontext.2⟩, rfl⟩
  case case4 outer parent line decl context hnone =>
    intro owner s h hcontext
    have hself := h _ (Stop.self_mem_route _)
    have howner : owner = none := hcontext.owner.symm.trans hnone
    have hdeclares : Visit.declares? file ⟨owner, ⟨line, .methodDecl decl⟩⟩ = none := by
      rw [howner]
      rfl
    have hreaches : Reaches ⟨file, owner, parent, ⟨line, .methodDecl decl⟩⟩ context :=
      ⟨⟨hcontext.1, hcontext.2⟩, rfl⟩
    have harrive := hself.arrive s context hreaches
    rw [Stop.declares?, Stop.visit, hdeclares] at harrive
    rw [@Stop.route_of_parts _ _ owner parent _ [] rfl, hnone]
    refine hQ.nil_bind harrive fun _ t _ => ?_
    exact hQ.bind_pure (hQ.discard (hself.check hdeclares t context hreaches)) _
  case case5 outer parent line decl context key =>
    intro owner s h hcontext
    have hself := h _ (Stop.self_mem_route _)
    have hkey : key = .ofClosure file line := congrArg (CallableKey.ofClosure · line) hcontext.file
    rw [@Stop.route_of_parts _ _ owner parent _ [] rfl, hkey]
    exact hself.declare _ rfl s context ⟨⟨hcontext.1, hcontext.2⟩, rfl⟩
  case case6 outer parent line subject value body byReference context hsubject hvalue hbody =>
    intro owner s h hcontext
    have hself := h _ (Stop.self_mem_route _)
    rw [@Stop.route_of_parts _ _ owner parent _ [subject, value, body] rfl] at h ⊢
    simp only [List.flatMap_cons, List.flatMap_nil, List.append_nil, List.append_assoc,
      List.forall_mem_append] at h ⊢
    obtain ⟨h₁, h₂, h₃, -⟩ := h
    have hc₀ : Within file owner context := ⟨hcontext.file, hcontext.owner⟩
    refine hQ.bind (hsubject s h₁ hc₀) fun c₁ s₁ hrun₁ => hQ.inferQuietly ?_
    have hc₁ := hc₀.walk hrun₁
    have hassign := hself.assign value (by simp [Node.targets])
    refine hQ.nil_bind (hassign s₁ c₁ _ hc₁.file) fun c₂ s₂ hrun₂ => ?_
    have hc₂ := hc₁.assign hrun₂
    refine hQ.bind (hvalue c₂ s₂ h₂ hc₂) fun c₃ s₃ hrun₃ => ?_
    have hc₃ := hc₂.walk hrun₃
    refine hQ.bind (hbody c₃ s₃ h₃ hc₃) fun c₄ s₄ hrun₄ => ?_
    have hc₄ := hc₃.walk hrun₄
    exact hself.check rfl s₄ _ ⟨⟨hc₄.file, hc₄.owner⟩, rfl⟩
  case case7 outer parent line subject key value body byReference context hsubject hkey hvalue hbody =>
    intro owner s h hcontext
    have hself := h _ (Stop.self_mem_route _)
    rw [@Stop.route_of_parts _ _ owner parent _ [subject, key, value, body] rfl] at h ⊢
    simp only [List.flatMap_cons, List.flatMap_nil, List.append_nil, List.append_assoc,
      List.forall_mem_append] at h ⊢
    obtain ⟨h₁, h₂, h₃, h₄, -⟩ := h
    have hc₀ : Within file owner context := ⟨hcontext.file, hcontext.owner⟩
    refine hQ.bind (hsubject s h₁ hc₀) fun c₁ s₁ hrun₁ => hQ.inferQuietly ?_
    have hc₁ := hc₀.walk hrun₁
    have hassignKey := hself.assign key (by simp [Node.targets])
    refine hQ.nil_bind (hassignKey s₁ c₁ _ hc₁.file) fun c₂ s₂ hrun₂ => ?_
    have hc₂ := hc₁.assign hrun₂
    refine hQ.bind (hkey c₂ s₂ h₂ hc₂) fun c₃ s₃ hrun₃ => ?_
    have hc₃ := hc₂.walk hrun₃
    have hassign := hself.assign value (by simp [Node.targets])
    refine hQ.nil_bind (hassign s₃ c₃ _ hc₃.file) fun c₄ s₄ hrun₄ => ?_
    have hc₄ := hc₃.assign hrun₄
    refine hQ.bind (hvalue c₄ s₄ h₃ hc₄) fun c₅ s₅ hrun₅ => ?_
    have hc₅ := hc₄.walk hrun₅
    refine hQ.bind (hbody c₅ s₅ h₄ hc₅) fun c₆ s₆ hrun₆ => ?_
    have hc₆ := hc₅.walk hrun₆
    exact hself.check rfl s₆ _ ⟨⟨hc₆.file, hc₆.owner⟩, rfl⟩
  case case8 outer parent node hclass hfunction hmethod hclosure _ _ context hchildren =>
    intro owner s h hcontext
    have hself := h _ (Stop.self_mem_route _)
    have hattach : (node.children.flatMap fun child => Stop.route ⟨file, owner, some node, child⟩) =
        node.children.attach.flatMap fun child => Stop.route ⟨file, owner, some node, child.val⟩ := by
      simp [List.flatMap_subtype]
    rw [Stop.route_of_parts parent (Visit.next_eq_map hclass hfunction hmethod hclosure), hattach] at h ⊢
    have hresults : ∀ c (child : { child // child ∈ node.children }), Within file owner c →
        (Analysis.walk setup enter c (some node) child.val).Results (Within file owner) := by
      intro c child hc
      exact (results_walk _ _ _).mono fun d hd => hc.continues hd.1
    have hc₀ : Within file owner context := ⟨hcontext.file, hcontext.owner⟩
    -- each part is walked in the context that the one before has left, which is in the same class
    refine hQ.bind (hQ.foldlM (Within file owner) ?_ s hc₀) fun c t hrun => ?_
    · intro s c child hchild hc
      refine ⟨hchildren c child s (fun stop hstop => ?_) hc, hresults c child hc⟩
      exact h stop (List.mem_append_left _ (List.mem_flatMap.mpr ⟨child, hchild, hstop⟩))
    · have hc := (Results.foldlM (fun c child _ => hresults c child) hc₀).of_run hrun
      exact hself.check (Visit.declares?_eq_none file hfunction hmethod hclosure) t _
        ⟨⟨hc.file, hc.owner⟩, rfl⟩

end Graded

end Analysis

end PhpCheck
