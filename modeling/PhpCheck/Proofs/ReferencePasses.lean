import PhpCheck.Proofs.AssignableTargets
import PhpCheck.Proofs.ReadBack
import PhpCheck.Proofs.TypeGrammar

/-!
# How often an argument that is passed by reference is reported

The arguments of a call that are passed by reference are bound twice, before the arguments are checked and
after it. Each time the class of a property is looked up anew, and each time it is reported if it is not
known. So a property of an unknown class is reported twice for the same call.
-/

namespace PhpCheck

/-- The arguments of a call that are passed by reference, each with the parameter that receives it. -/
def referenceArguments (parameters : List Parameter) (arguments : List Node) :
    List (Node × Parameter) :=
  arguments.zipIdx.filterMap fun x =>
    ((Parameter.receiving? parameters x.2).filter Parameter.byReference).map fun p => (x.1, p)

/-- The two passes over arguments that are passed by reference: each argument with the types that it gets,
none in the first pass and those of the parameter in the second. -/
def referencePasses (references : List (Node × Parameter)) : List (Node × TypeSet) :=
  (references.map fun r => (r.1, ∅)) ++ references.map fun r => (r.1, r.2.type)

lemma map_fst_referencePasses (references : List (Node × Parameter)) :
    (referencePasses references).map Prod.fst = references.map Prod.fst ++ references.map Prod.fst := by
  simp [referencePasses, Function.comp_def]

/-- Where a call is made: what the binding of its arguments depends on. -/
structure Caller where
  symbols : SymbolTable
  context : Context

namespace Caller

/-- The argument is a property of an object whose class, as far as its type tells, may be an unknown one. -/
def isUnresolvable (caller : Caller) (argument : Node) : Bool :=
  match argument.kind with
  | .prop object (.literal _) =>
    (typeOf caller.symbols caller.context object).classNames.any fun name => !caller.symbols.hasClass name
  | _ => false

/-- The caller after an argument has been bound. -/
def bind (caller : Caller) (argument : Node) (types : TypeSet) : Caller :=
  match argument.kind with
  | .var (.literal name) => { caller with context := caller.context.assign name types }
  | .prop object (.literal name) =>
    match caller.symbols.resolveClasses caller.context object with
    | .ok owners =>
      let widen symbols owner := symbols.edit (.widenProperty owner name caller.context.site types)
      { caller with symbols := owners.foldl widen caller.symbols }
    | .error _ => caller
  | _ => caller

/-- The caller after arguments have been bound one after the other. -/
def bindAll (caller : Caller) (bindings : List (Node × TypeSet)) : Caller :=
  bindings.foldl (fun caller binding => caller.bind binding.1 binding.2) caller

/-- The arguments as they are bound one after the other, each with the caller at that moment. -/
def sightings (caller : Caller) : List (Node × TypeSet) → List (Caller × Node)
  | [] => []
  | binding :: rest => (caller, binding.1) :: (caller.bind binding.1 binding.2).sightings rest

/-- The number of times that an argument cannot be resolved when it is bound. -/
def misses (caller : Caller) (bindings : List (Node × TypeSet)) : Nat :=
  (caller.sightings bindings).countP fun seen => seen.1.isUnresolvable seen.2

lemma sightings_append (caller : Caller) (first rest : List (Node × TypeSet)) :
    caller.sightings (first ++ rest) = caller.sightings first ++ (caller.bindAll first).sightings rest := by
  induction first generalizing caller with
  | nil => rfl
  | cons binding first ih => exact congrArg ((caller, binding.1) :: ·) (ih _)

lemma misses_append (caller : Caller) (first rest : List (Node × TypeSet)) :
    caller.misses (first ++ rest) = caller.misses first + (caller.bindAll first).misses rest := by
  rw [misses, sightings_append, List.countP_append]
  rfl

lemma map_snd_sightings (caller : Caller) (bindings : List (Node × TypeSet)) :
    (caller.sightings bindings).map Prod.snd = bindings.map Prod.fst := by
  induction bindings generalizing caller with
  | nil => rfl
  | cons binding rest ih => exact congrArg (binding.1 :: ·) (ih _)

end Caller

/-! ### Classes that are not known -/

namespace SymbolTable

variable {s : SymbolTable} {context : Context} {object : Node} {name : String}

lemma knownClass_of_hasClass (h : s.hasClass name = true) : ∃ known, s.knownClass name = .ok known := by
  obtain ⟨c, hc⟩ := Option.isSome_iff_exists.mp h
  exact ⟨c.name, by rw [knownClass, show s.class? name = some c from hc]⟩

lemma knownClass_of_hasClass_eq_false (h : s.hasClass name = false) :
    s.knownClass name = .error (.undefinedClass name) := by
  rw [knownClass, class?_eq_none h]

lemma resolveClasses_of_unknown
    (h : ∃ name ∈ (typeOf s context object).classNames, s.hasClass name = false) :
    ∃ name, s.resolveClasses context object = .error (.undefinedClass name) := by
  unfold resolveClasses
  cases hknown : (typeOf s context object).classNames.mapM s.knownClass with
  | error e =>
    obtain ⟨before, name, after, -, -, hname⟩ := mapM_eq_error_iff.mp hknown
    cases hclass : s.hasClass name with
    | true =>
      obtain ⟨known, hok⟩ := knownClass_of_hasClass hclass
      rw [hok] at hname
      cases hname
    | false =>
      rw [knownClass_of_hasClass_eq_false hclass] at hname
      cases hname
      exact ⟨name, rfl⟩
  | ok owners =>
    obtain ⟨name, hname, hclass⟩ := h
    obtain ⟨owner, -, howner⟩ := exists_mem_of_mapM hknown hname
    rw [knownClass_of_hasClass_eq_false hclass] at howner
    cases howner

lemma resolveClasses_of_known
    (h : ∀ name ∈ (typeOf s context object).classNames, s.hasClass name = true) :
    (∃ owners, s.resolveClasses context object = .ok owners) ∨
      s.resolveClasses context object = .error .unknownClass := by
  obtain ⟨owners, howners⟩ := exists_mapM_eq_ok fun name hname => knownClass_of_hasClass (h name hname)
  unfold resolveClasses
  rw [howners]
  change (∃ _, ite _ _ _ = _) ∨ ite _ _ _ = _
  split
  · exact .inr rfl
  · exact .inl ⟨_, rfl⟩

end SymbolTable

namespace Caller

variable (caller : Caller) {line : Line} {object : Node} {name : String}

lemma isUnresolvable_of_ok {owners : List String}
    (h : caller.symbols.resolveClasses caller.context object = .ok owners) :
    caller.isUnresolvable ⟨line, .prop object (.literal name)⟩ = false := by
  by_contra hunknown
  obtain ⟨missing, herror⟩ := SymbolTable.resolveClasses_of_unknown
    (by simpa [isUnresolvable] using hunknown)
  rw [h] at herror
  cases herror

lemma isUnresolvable_of_error {error : LookupError}
    (h : caller.symbols.resolveClasses caller.context object = .error error) :
    caller.isUnresolvable ⟨line, .prop object (.literal name)⟩ = error.isUndefined := by
  cases hunknown : caller.isUnresolvable ⟨line, .prop object (.literal name)⟩ with
  | true =>
    obtain ⟨missing, herror⟩ := SymbolTable.resolveClasses_of_unknown
      (by simpa [isUnresolvable] using hunknown)
    rw [h] at herror
    cases herror
    rfl
  | false =>
    rcases SymbolTable.resolveClasses_of_known (by simpa [isUnresolvable] using hunknown) with
      ⟨owners, howners⟩ | herror
    · rw [h] at howners
      cases howners
    · rw [h] at herror
      cases herror
      rfl

/-- What cannot be resolved is not bound. -/
lemma bind_of_isUnresolvable {argument : Node} (h : caller.isUnresolvable argument = true)
    (types : TypeSet) : caller.bind argument types = caller := by
  obtain ⟨line, kind⟩ := argument
  cases kind with
  | prop object name =>
    cases name with
    | computed node => rfl
    | literal name =>
      simp only [bind]
      cases hresolve : caller.symbols.resolveClasses caller.context object with
      | ok owners =>
        rw [isUnresolvable_of_ok caller hresolve] at h
        cases h
      | error error => rfl
  | _ => cases h

lemma isUnresolvable_useCallable (s : SymbolTable) (callee : CallableKey) (context : Context)
    (argument : Node) : isUnresolvable ⟨s.edit (.useCallable callee), context⟩ argument =
      isUnresolvable ⟨s, context⟩ argument := by
  have hreads := s.readsAlike_useCallable callee
  simp only [isUnresolvable, hreads.typeOf, hreads.sameHeads.hasClass]

/-- If it makes no difference when an argument is looked up, those are counted that could not be resolved at
the outset. -/
lemma misses_of_settled {caller start : Caller} {bindings : List (Node × TypeSet)}
    (h : ∀ seen ∈ caller.sightings bindings, seen.1.isUnresolvable seen.2 = start.isUnresolvable seen.2) :
    caller.misses bindings = (bindings.map Prod.fst).countP start.isUnresolvable := by
  rw [← caller.map_snd_sightings, List.countP_map]
  exact List.countP_congr fun seen hseen => by simp [h seen hseen]

end Caller

/-! ### Reports in the log -/

lemma DiagnosticLog.count_push_kind (log : DiagnosticLog) (d : Diagnostic) (kind : DiagnosticKind) :
    (log.push d).count kind = log.count kind + if d.kind = kind then 1 else 0 := by
  simp [count, push, Array.countP_push]

/-- Something is recorded that is not the use of something undefined. -/
def Change.RecordsOther : Change → Prop
  | .record _ _ finding => finding.kind ≠ .undefinedReference
  | _ => False

namespace Analysis

variable {α : Type} {s t u : Session}

/-- From `s` to `t` nothing is entered, the table becomes `symbols`, and that many uses of something
undefined are recorded. -/
structure Arrives (s t : Session) (symbols : SymbolTable) (reports : Nat) : Prop where
  symbols : t.symbols = symbols
  revisiting : t.revisiting = s.revisiting
  count : t.log.count .undefinedReference = s.log.count .undefinedReference + reports

lemma Arrives.trans {symbols symbols' : SymbolTable} {m n : Nat} (hst : Arrives s t symbols m)
    (htu : Arrives t u symbols' n) : Arrives s u symbols' (m + n) :=
  ⟨htu.symbols, htu.revisiting.trans hst.revisiting, by rw [htu.count, hst.count, Nat.add_assoc]⟩

lemma arrives_recordsOther (s : Session) {c : Change} (h : c.RecordsOther) :
    Arrives s (s.apply c) s.symbols 0 := by
  cases c with
  | record file line finding =>
    have hkind : (finding.diagnosticAt file line).kind ≠ .undefinedReference := h
    have hpush : (s.log.push (finding.diagnosticAt file line)).count .undefinedReference =
        s.log.count .undefinedReference := by
      rw [DiagnosticLog.count_push_kind, if_neg hkind, Nat.add_zero]
    refine ⟨rfl, rfl, ?_⟩
    simp only [Session.apply, DiagnosticLog.pushOnce]
    split
    · split
      · rfl
      · exact hpush
    · exact hpush
  | edit | arrive | beginTrial | endTrial | beginWalk | endWalk => cases h

lemma arrives_of_only {m : Analysis α} (hm : m.Only Change.RecordsOther fun _ => False) (s : Session) :
    ∃ a t, m.run s = .ok (a, t) ∧ Arrives s t s.symbols 0 := by
  obtain ⟨a, t, hrun⟩ := hm.exists_run_eq_ok s
  refine ⟨a, t, hrun, ?_⟩
  refine Only.related (R := fun s t => Arrives s t s.symbols 0) ?_ ?_ ?_ hm (mem_moments_of_run hrun)
  · exact fun s => ⟨rfl, rfl, rfl⟩
  · intro s t u hst htu
    have hsu := hst.trans htu
    rwa [hst.symbols] at hsu
  · exact fun s c hc => arrives_recordsOther s hc

lemma only_typing (context : Context) (node : Node) :
    (typing context node).Only Change.RecordsOther fun _ => False := by
  refine only_symbols.bind fun table => (finds_inferring table context node).only fun fault _ => ?_
  simp [Change.RecordsOther, Finding.kind]

lemma only_checkArguments (context : Context) (callee : CallableKey) (types : List TypeSet) :
    (checkArguments context callee types).Only Change.RecordsOther fun _ => False := by
  unfold checkArguments
  refine only_symbols.bind fun table => ?_
  split
  · exact .done _
  · refine (only_declaredParameters callee).bind fun parameters => Only.forM fun finding hfinding => ?_
    exact .change (by simp [Change.RecordsOther, kind_of_mem_callFindings hfinding]) (.done _)

/-! ### The passes -/

lemma run_forM_edit {β : Type} (e : β → Edit) (l : List β) (s : Session) :
    (l.forM fun x => edit (e x)).run s =
      .ok ((), { s with symbols := l.foldl (fun symbols x => symbols.edit (e x)) s.symbols }) := by
  induction l generalizing s with
  | nil => rfl
  | cons x l ih => exact ih (s.apply (.edit (e x)))

/-- Binding an argument reports it if it cannot be resolved. -/
lemma run_bindReference (caller : Caller) (hs : s.revisiting = false) (hcaller : s.symbols = caller.symbols)
    (argument : Node) (types : TypeSet) :
    ∃ t, (bindReference caller.context argument types).run s =
        .ok ((caller.bind argument types).context, t) ∧
      Arrives s t (caller.bind argument types).symbols
        (if caller.isUnresolvable argument then 1 else 0) := by
  obtain ⟨symbols, context⟩ := caller
  cases hcaller
  obtain ⟨line, kind⟩ := argument
  cases kind with
  | var name =>
    cases name with
    | literal name => exact ⟨s, rfl, rfl, rfl, rfl⟩
    | computed node => exact ⟨s, rfl, rfl, rfl, rfl⟩
  | prop object name =>
    cases name with
    | computed node => exact ⟨s, rfl, rfl, rfl, rfl⟩
    | literal name =>
      simp only [bindReference, run_symbols_bind, Caller.bind]
      cases hresolve : s.symbols.resolveClasses context object with
      | ok owners =>
        rw [Caller.isUnresolvable_of_ok ⟨s.symbols, context⟩ hresolve]
        refine ⟨_, run_bind_of_run (run_forM_edit _ owners s), rfl, rfl, rfl⟩
      | error e =>
        rw [Caller.isUnresolvable_of_error ⟨s.symbols, context⟩ hresolve]
        simp only [reportUndefined]
        split
        · refine ⟨s.apply (.record context.file context.line (.undefinedReference e)), rfl, rfl, rfl, ?_⟩
          simp only [Session.apply, hs]
          exact s.log.count_push_kind _ _
        · exact ⟨s, rfl, rfl, rfl, rfl⟩
  | _ => exact ⟨s, rfl, rfl, rfl, rfl⟩

lemma bindReferences_eq (parameters : List Parameter) (types : Parameter → TypeSet) (context : Context)
    (arguments : List Node) : bindReferences parameters types context arguments =
      ((referenceArguments parameters arguments).map fun r => (r.1, types r.2)).foldlM
        (fun context binding => bindReference context binding.1 binding.2) context := by
  unfold bindReferences referenceArguments
  rw [List.foldlM_map, List.foldlM_filterMap]
  congr 1
  funext context ⟨argument, index⟩
  dsimp only
  cases Parameter.receiving? parameters index with
  | none => rfl
  | some p => cases h : p.byReference <;> simp [h, Option.filter]

lemma run_bindings (caller : Caller) (hs : s.revisiting = false) (hcaller : s.symbols = caller.symbols)
    (bindings : List (Node × TypeSet)) :
    ∃ t, (bindings.foldlM (fun context binding => bindReference context binding.1 binding.2)
          caller.context).run s = .ok ((caller.bindAll bindings).context, t) ∧
      Arrives s t (caller.bindAll bindings).symbols (caller.misses bindings) := by
  induction bindings generalizing s caller with
  | nil => exact ⟨s, rfl, hcaller, rfl, rfl⟩
  | cons binding rest ih =>
    obtain ⟨t, hrun, hbound⟩ := run_bindReference caller hs hcaller binding.1 binding.2
    obtain ⟨u, hrest, hlast⟩ := ih _ (hbound.revisiting.trans hs) hbound.symbols
    refine ⟨u, ?_, ?_⟩
    · rw [List.foldlM_cons, run_bind_of_run hrun]
      exact hrest
    · have hboth := hbound.trans hlast
      rw [Nat.add_comm] at hboth
      rw [Caller.misses, Caller.sightings, List.countP_cons]
      exact hboth

/-- Up to the trial, a call reports the arguments that cannot be resolved when a pass comes to them. -/
lemma run_prepare (hs : s.revisiting = false) (context : Context) (callee : CallableKey)
    (arguments : List Node) :
    ∃ r t, (prepare context callee arguments).run s = .ok (r, t) ∧
      t.log.count .undefinedReference = s.log.count .undefinedReference +
        Caller.misses ⟨s.symbols.edit (.useCallable callee), context⟩
          (referencePasses (referenceArguments (s.declaredParameters callee) arguments)) := by
  let used := s.apply (.edit (.useCallable callee))
  let references := referenceArguments (s.declaredParameters callee) arguments
  have hsame : s.SameBindings used := s.sameBindings_apply trivial
  have hask : (declaredParameters callee).run used = .ok (s.declaredParameters callee, used) := by
    rw [← hsame.declaredParameters callee]
    rfl
  obtain ⟨types, s₁, htypes, h₁⟩ :=
    arrives_of_only (Only.mapM fun argument (_ : argument ∈ arguments) => only_typing context argument) used
  let caller : Caller := ⟨used.symbols, context⟩
  let first := references.map fun r => (r.1, (∅ : TypeSet))
  let second := references.map fun r => (r.1, r.2.type)
  obtain ⟨s₂, hfirst, h₂⟩ := run_bindings caller (h₁.revisiting.trans hs) h₁.symbols first
  let bound := caller.bindAll first
  obtain ⟨⟨⟩, s₃, hcheck, h₃⟩ := arrives_of_only (only_checkArguments bound.context callee types) s₂
  have h₁₃ := (h₁.trans h₂).trans h₃
  obtain ⟨s₄, hsecond, h₄⟩ := run_bindings bound (h₁₃.revisiting.trans hs)
    (h₃.symbols.trans h₂.symbols) second
  refine ⟨(s.declaredParameters callee, types, (bound.bindAll second).context), s₄, ?_, ?_⟩
  · unfold prepare
    rw [run_bind_of_run (t := used) rfl, run_bind_of_run hask, run_bind_of_run htypes, bindReferences_eq,
      run_bind_of_run hfirst, run_bind_of_run hcheck, bindReferences_eq, run_bind_of_run hsecond]
    rfl
  · have hcount := (h₁₃.trans h₄).count
    rw [Nat.zero_add, Nat.add_zero, ← caller.misses_append] at hcount
    exact hcount

/-- A call in quick mode reports every argument that is passed by reference once for each of the two passes
in which it turns out to be a property of an unknown class. If the binding of the arguments does not change
what is known of them, that is two reports for each such argument, and always if it is the only one that is
passed by reference. -/
theorem unresolved_references_reported_per_pass (setup : Setup) (enter : Enter) (s : Session)
    (context : Context) (callee : CallableKey) (arguments : List Node)
    (hquick : setup.settings.quick = true) (hs : s.revisiting = false)
    (hknown : (s.symbols.callable? callee).isSome = true) :
    let references := referenceArguments (s.declaredParameters callee) arguments
    let caller : Caller := ⟨s.symbols.edit (.useCallable callee), context⟩
    let unresolvable := Caller.isUnresolvable ⟨s.symbols, context⟩
    ∃ final t, (call setup enter context callee arguments).run s = .ok (final, t) ∧
      t.log.count .undefinedReference =
        s.log.count .undefinedReference + caller.misses (referencePasses references) ∧
      ((∀ seen ∈ caller.sightings (referencePasses references),
          seen.1.isUnresolvable seen.2 = unresolvable seen.2) →
        t.log.count .undefinedReference = s.log.count .undefinedReference +
          2 * (references.map Prod.fst).countP unresolvable) ∧
      ∀ argument p, references = [(argument, p)] → unresolvable argument = true →
        t.log.count .undefinedReference = s.log.count .undefinedReference + 2 := by
  intro references caller unresolvable
  obtain ⟨r, t, hprepare, hcount⟩ := run_prepare hs context callee arguments
  change _ = _ + caller.misses (referencePasses references) at hcount
  have hrun : (call setup enter context callee arguments).run s = .ok (r.2.2, t) := by
    obtain ⟨c, hc⟩ := Option.isSome_iff_exists.mp hknown
    rw [call_eq]
    simp only [run, hc]
    rw [run_bind_of_run hprepare, if_pos hquick]
    rfl
  refine ⟨r.2.2, t, hrun, hcount, fun hsettled => ?_, fun argument p hsingle hargument => ?_⟩
  · rw [hcount, Caller.misses_of_settled hsettled, map_fst_referencePasses, List.countP_append, Nat.two_mul]
  · have hcaller : caller.isUnresolvable argument = true :=
      (Caller.isUnresolvable_useCallable s.symbols callee context argument).trans hargument
    have hbind := caller.bind_of_isUnresolvable hcaller ∅
    rw [hcount, hsingle]
    simp [Caller.misses, Caller.sightings, referencePasses, hbind, hcaller]

/-- A variable and a property are passed by reference, and the class of the object is not known. The variable
is bound in both passes, which tells nothing of the object. -/
theorem unresolved_references_reported_per_pass_besideVariable :
    let site : Site := ⟨"a.php", 1⟩
    let f : Callable := {
      key := .function "f", name := "f", site
      parameters := [{ name := "a", type := .of .int, byReference := true, site },
        { name := "b", type := ∅, byReference := true, site }] }
    let s : Session := { symbols := { functions := Table.add ∅ "f" f } }
    let context : Context :=
      ({ file := "a.php", line := 2 } : Context).assign "o" (.of (.ofClass "Missing"))
    let arguments : List Node := [⟨2, .var (.literal "v")⟩,
      ⟨2, .prop ⟨2, .var (.literal "o")⟩ (.literal "p")⟩]
    arguments.countP (Caller.isUnresolvable ⟨s.symbols, context⟩) = 1 ∧
      ∃ final t, (call ⟨⟨false, true⟩, ∅⟩ (enterBody {} 0) context (.function "f") arguments).run s =
          .ok (final, t) ∧
        t.log.count .undefinedReference = s.log.count .undefinedReference + 2 := by
  intro site f s context arguments
  obtain ⟨final, t, hrun, -, hsettled, -⟩ := unresolved_references_reported_per_pass ⟨⟨false, true⟩, ∅⟩
    (enterBody {} 0) s context (.function "f") arguments rfl rfl rfl
  refine ⟨by decide +kernel, final, t, hrun, hsettled ?_⟩
  decide +kernel

/-- The only property that is passed by reference is reported twice for the same call. -/
theorem unresolved_reference_reported_twice :
    let statements (line : Line) (nodes : List Node) : Node := ⟨line, .statementList nodes⟩
    let call : Node := ⟨3, .call ⟨3, .identifier "f"⟩
      [⟨3, .prop ⟨3, .var (.literal "o")⟩ (.literal "p")⟩]⟩
    let units : List SourceUnit := [⟨"a.php", statements 1 [
      ⟨1, .functionDecl ⟨"f", [⟨"r", none, true, false, none⟩], none, statements 1 []⟩⟩,
      ⟨2, .functionDecl ⟨"g", [⟨"o", some "Missing", false, false, none⟩], none,
        statements 2 [call]⟩⟩], none⟩]
    let d := (Finding.undefinedReference (.undefinedClass "Missing")).diagnosticAt "a.php" 3
    ∃ outcome, analyzeUnits ⟨⟨false, true⟩, ∅⟩ units = .ok outcome ∧
      outcome.log.entries.toList = [d, d] := by
  intro statements call units d
  exact exists_ok_of_any (fun outcome => decide (outcome.log.entries.toList = [d, d]))
    (by decide +kernel) fun _ _ hentries => of_decide_eq_true hentries

end Analysis

end PhpCheck
