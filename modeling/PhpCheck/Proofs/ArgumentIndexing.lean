import PhpCheck.Proofs.Steps

/-!
# Positions of arguments and parameters

A call reads parameters and argument types by their positions, which it takes from the list of
arguments. `Analysis.callIndexed` is the call in which each of these reads is a step of its own that
ends the run if the position is out of range. It is the same action as the call: no read ever is.
-/

namespace PhpCheck

lemma Parameter.lt_of_position? {parameters : List Parameter} {index i : Nat}
    (h : position? parameters index = some i) : i < parameters.length := by
  unfold position? at h
  split at h
  · cases h
    assumption
  · split at h
    · rename_i hvariadic
      have hne : parameters ≠ [] := by
        rintro rfl
        cases hvariadic
      have hpos := List.length_pos_iff.mpr hne
      cases h
      omega
    · cases h

namespace Analysis

variable {α β : Type}

lemma Results.bind_congr {P : α → Prop} {m : Analysis α} (h : m.Results P) {f g : α → Analysis β}
    (hfg : ∀ a, P a → f a = g a) : m >>= f = m >>= g := by
  induction h with
  | done h => exact hfg _ h
  | fault f => rfl
  | look _ ih =>
    exact congrArg Analysis.look (funext ih)
  | change c _ ih =>
    exact congrArg (Analysis.change c) (funext fun _ => ih)
  | ask callee _ ih =>
    exact congrArg (Analysis.ask callee) (funext ih)

lemma results_mapM_length (f : α → Analysis β) (l : List α) :
    (l.mapM f).Results fun bs => bs.length = l.length := by
  induction l with
  | nil => exact .done rfl
  | cons a l ih =>
    rw [List.mapM_cons]
    refine results_bind fun b => ih.bind fun bs hbs => .done ?_
    rw [List.length_cons, List.length_cons, hbs]

/-! ### Reads by position -/

/-- The element at a position of a list; out of range the run ends with the fault. -/
def readAt (f : Fault) (xs : List α) (i : Nat) : Analysis α :=
  if h : i < xs.length then pure (xs.get ⟨i, h⟩) else fault f

/-- The parameter that takes the argument at `index`. -/
def receivingIndexed (f : Fault) (parameters : List Parameter) (index : Nat) :
    Analysis (Option Parameter) :=
  (Parameter.position? parameters index).elim (pure none) fun i => some <$> readAt f parameters i

/-- Binds the arguments for reference parameters. -/
def bindReferencesIndexed (f : Fault) (parameters : List Parameter) (types : Parameter → TypeSet)
    (context : Context) (arguments : List Node) : Analysis Context :=
  arguments.zipIdx.foldlM
    (fun context entry => do
      let receiver ← receivingIndexed f parameters entry.2
      receiver.elim (pure context) fun p =>
        if p.byReference then bindReference context entry.1 (types p) else pure context)
    context

/-- Reports what is wrong with the arguments of a call, one after the other. -/
def checkArgumentsIndexed (f : Fault) (context : Context) (callee : CallableKey)
    (types : List TypeSet) : Analysis Unit := do
  let s ← symbols
  (s.callable? callee).elim (pure ()) fun c => do
    let parameters ← declaredParameters callee
    (arityFinding? c.name parameters types.length).toList.forM (report context)
    types.zipIdx.forM fun entry => do
      let receiver ← receivingIndexed f parameters entry.2
      receiver.elim (pure ()) fun p =>
        if p.type.isEmpty || s.castsTo entry.1 p.type then pure ()
        else report context (.argumentMismatch (entry.2 + 1) c.name p.type entry.1)

/-- Binds the argument at an index, whose type is only read if it is used. -/
def bindArgumentIndexed (f : Fault) (site : Site) (declared : List Parameter) (types : List TypeSet)
    (state : Speculation) (argument : Node) (index : Nat) : Analysis Speculation :=
  (Parameter.position? declared index).elim (pure state) fun i => do
    let d ← readAt f declared i
    if d.type.isEmpty && i < state.parameters.length then
      let type ← readAt f types index
      return state.bindArgument site declared argument type index
    else return state

/-- Binds the arguments of a call. -/
def bindAllIndexed (f : Fault) (site : Site) (declared : List Parameter) (arguments : List Node)
    (types : List TypeSet) (start : Speculation) : Analysis Speculation :=
  arguments.zipIdx.foldlM
    (fun state entry => bindArgumentIndexed f site declared types state entry.1 entry.2) start

/-- Walks the body of a callee with the arguments of a call bound to its untyped parameters. -/
def speculateIndexed (f : Fault) (enter : Enter) (context : Context) (callee : CallableKey)
    (arguments : List Node) (declared : List Parameter) (types : List TypeSet) :
    Analysis (List (String × TypeSet)) := do
  let s ← symbols
  (s.callable? callee).elim (pure []) fun c => do
    let state ← bindAllIndexed f context.site declared arguments types
      { parameters := c.parameters, scope := c.scope }
    edit (.rebind callee state.parameters state.scope)
    if !state.changed then return []
    if context.callable == some callee || (← isOnTrial callee) then return []
    let final ← onTrial ⟨callee, declared⟩ (enter callee context)
    final.elim (pure []) fun final =>
      pure (state.references.filterMap fun reference =>
        (final.find? reference.1).map fun v => (reference.2, v.type))

/-- Tries a callee out with the arguments of a call, and puts it back as it was. -/
def tryOutIndexed (f : Fault) (enter : Enter) (context : Context) (callee : CallableKey)
    (arguments : List Node) (declared : List Parameter) (types : List TypeSet) : Analysis Context := do
  let s ← symbols
  (s.callable? callee).elim (pure context) fun before => do
    if before.isInternal then return context
    let results ← speculateIndexed f enter context callee arguments declared types
    edit (.rebind callee before.parameters before.scope)
    return results.foldl (fun context result => context.widen result.1 result.2) context

/-- Checks a call of a known callable and, outside quick mode, tries the callee out. Where a parameter
or an argument type is read by position, a position out of range ends the run with the fault. -/
def callIndexed (f : Fault) (setup : Setup) (enter : Enter) (context : Context) (callee : CallableKey)
    (arguments : List Node) : Analysis Context := do
  let s ← symbols
  (s.callable? callee).elim (pure context) fun _ => do
    edit (.useCallable callee)
    let parameters ← declaredParameters callee
    let types ← arguments.mapM (typing context)
    let context ← bindReferencesIndexed f parameters (fun _ => ∅) context arguments
    checkArgumentsIndexed f context callee types
    let context ← bindReferencesIndexed f parameters Parameter.type context arguments
    if setup.settings.quick then return context
    tryOutIndexed f enter context callee arguments parameters types

/-! ### No read is out of range -/

variable (f : Fault)

lemma readAt_of_getElem? {xs : List α} {i : Nat} {x : α} (h : xs[i]? = some x) :
    readAt f xs i = pure x := by
  obtain ⟨hi, hx⟩ := List.getElem?_eq_some_iff.mp h
  rw [readAt, dif_pos hi]
  exact congrArg pure hx

lemma receivingIndexed_eq (parameters : List Parameter) (index : Nat) :
    receivingIndexed f parameters index = pure (Parameter.receiving? parameters index) := by
  unfold receivingIndexed Parameter.receiving?
  cases hposition : Parameter.position? parameters index with
  | none => rfl
  | some i =>
    have hget := List.getElem?_eq_getElem (Parameter.lt_of_position? hposition)
    rw [Option.elim_some, readAt_of_getElem? f hget, Option.bind_eq_bind, Option.bind_some, hget]
    rfl

lemma bindReferencesIndexed_eq (parameters : List Parameter) (types : Parameter → TypeSet)
    (context : Context) (arguments : List Node) :
    bindReferencesIndexed f parameters types context arguments =
      bindReferences parameters types context arguments := by
  unfold bindReferencesIndexed bindReferences
  congr
  funext context ⟨argument, index⟩
  rw [receivingIndexed_eq, pure_bind]
  dsimp only
  cases Parameter.receiving? parameters index with
  | none => rfl
  | some p => rfl

lemma forM_filterMap (g : α → Option β) (h : β → Analysis PUnit) (l : List α) :
    (l.filterMap g).forM h = l.forM fun a => (g a).elim (pure ⟨⟩) h := by
  induction l with
  | nil => rfl
  | cons a l ih =>
    have hcons : ((a :: l).forM fun a => (g a).elim (pure ⟨⟩) h) =
        (g a).elim (pure ⟨⟩) h >>= fun _ => (l.filterMap g).forM h := by
      rw [ih]
      rfl
    rw [hcons]
    cases ha : g a with
    | none =>
      rw [List.filterMap_cons_none ha]
      rfl
    | some b =>
      rw [List.filterMap_cons_some ha]
      rfl

lemma checkArgumentsIndexed_eq (context : Context) (callee : CallableKey) (types : List TypeSet) :
    checkArgumentsIndexed f context callee types = checkArguments context callee types := by
  unfold checkArgumentsIndexed checkArguments
  refine bind_congr fun s => ?_
  cases s.callable? callee with
  | none => rfl
  | some c =>
    refine bind_congr fun parameters => ?_
    have hsplit : (callFindings s c.name parameters types).forM (report context) =
        (arityFinding? c.name parameters types.length).toList.forM (report context) >>= fun _ =>
          types.zipIdx.forM fun entry =>
            (argumentFinding? s c.name parameters entry.2 entry.1).elim (pure ⟨⟩) (report context) := by
      rw [callFindings, ← forM_filterMap]
      exact List.forM_append
    rw [hsplit]
    refine bind_congr fun _ => ?_
    congr
    funext entry
    rw [receivingIndexed_eq, pure_bind, argumentFinding?]
    cases Parameter.receiving? parameters entry.2 with
    | none => rfl
    | some p =>
      dsimp only [Option.elim_some]
      split
      · rfl
      · rfl

lemma bindArgumentIndexed_eq (site : Site) (declared : List Parameter) {types : List TypeSet}
    (state : Speculation) (argument : Node) {index : Nat} {type : TypeSet}
    (h : types[index]? = some type) :
    bindArgumentIndexed f site declared types state argument index =
      pure (state.bindArgument site declared argument type index) := by
  unfold bindArgumentIndexed
  cases hposition : Parameter.position? declared index with
  | none => simp [Speculation.bindArgument, hposition]
  | some i =>
    have hget := List.getElem?_eq_getElem (Parameter.lt_of_position? hposition)
    rw [Option.elim_some, readAt_of_getElem? f hget, pure_bind, readAt_of_getElem? f h, pure_bind]
    split
    · rfl
    · rename_i hskip
      have hstate : state.bindArgument site declared argument type index = state := by
        simp only [Speculation.bindArgument, hposition, hget]
        split
        · rename_i d p hd hp
          have hi : i < state.parameters.length := (List.getElem?_eq_some_iff.mp hp).1
          cases hd
          exact if_pos (by simpa [hi] using hskip)
        · rfl
      rw [hstate]

/-- The types are those of the arguments, position by position. -/
lemma bindAllIndexed_eq (site : Site) (declared : List Parameter) {arguments : List Node}
    {types : List TypeSet} (hlength : types.length = arguments.length) (start : Speculation) :
    bindAllIndexed f site declared arguments types start =
      pure (Speculation.bindAll site declared arguments types start) := by
  have hfrom : ∀ (rest : List Node) (restTypes : List TypeSet) (first : Nat) (state : Speculation),
      restTypes.length = rest.length → types.drop first = restTypes →
      (rest.zipIdx first).foldlM (fun state entry =>
        bindArgumentIndexed f site declared types state entry.1 entry.2) state =
      pure (((rest.zip restTypes).zipIdx first).foldl (fun state entry =>
        state.bindArgument site declared entry.1.1 entry.1.2 entry.2) state) := by
    intro rest
    induction rest with
    | nil =>
      intro restTypes first state _ _
      rfl
    | cons argument rest ih =>
      intro restTypes first state hrest hdrop
      obtain ⟨type, restTypes, rfl⟩ := List.exists_cons_of_length_eq_add_one hrest
      have htype : types[first]? = some type := by
        rw [← List.head?_drop, hdrop]
        rfl
      have htail : types.drop (first + 1) = restTypes := by
        rw [← List.tail_drop, hdrop]
        rfl
      rw [List.zipIdx_cons, List.foldlM_cons, bindArgumentIndexed_eq f site declared state argument htype,
        pure_bind, ih restTypes (first + 1) _ (by simpa using hrest) htail]
      rfl
  exact hfrom arguments types 0 start hlength rfl

lemma speculateIndexed_eq (enter : Enter) (context : Context) (callee : CallableKey)
    {arguments : List Node} (declared : List Parameter) {types : List TypeSet}
    (hlength : types.length = arguments.length) :
    speculateIndexed f enter context callee arguments declared types =
      speculate enter context callee arguments declared types := by
  unfold speculateIndexed speculate
  refine bind_congr fun s => ?_
  cases s.callable? callee with
  | none => rfl
  | some c =>
    rw [Option.elim_some, bindAllIndexed_eq f context.site declared hlength, pure_bind]
    refine bind_congr fun _ => ?_
    split
    · rfl
    · refine bind_congr fun onTrial => ?_
      split
      · rfl
      · refine bind_congr fun final => ?_
        cases final with
        | none => rfl
        | some final => rfl

lemma tryOutIndexed_eq (enter : Enter) (context : Context) (callee : CallableKey)
    {arguments : List Node} (declared : List Parameter) {types : List TypeSet}
    (hlength : types.length = arguments.length) :
    tryOutIndexed f enter context callee arguments declared types =
      tryOut enter context callee arguments declared types := by
  unfold tryOutIndexed tryOut
  refine bind_congr fun s => ?_
  cases s.callable? callee with
  | none => rfl
  | some before =>
    rw [Option.elim_some, speculateIndexed_eq f enter context callee declared hlength]

/-- Whatever fault a read out of range would end the run with, it does not: every position at which a
call reads a parameter or the type of an argument is in range. -/
lemma callIndexed_eq (setup : Setup) (enter : Enter) (context : Context) (callee : CallableKey)
    (arguments : List Node) :
    callIndexed f setup enter context callee arguments =
      call setup enter context callee arguments := by
  unfold callIndexed call
  refine bind_congr fun s => ?_
  cases s.callable? callee with
  | none => rfl
  | some c =>
    refine bind_congr fun _ => bind_congr fun parameters => ?_
    refine (results_mapM_length (typing context) arguments).bind_congr fun types hlength => ?_
    simp only [bindReferencesIndexed_eq, checkArgumentsIndexed_eq,
      tryOutIndexed_eq f enter _ callee parameters hlength]

end Analysis

end PhpCheck
