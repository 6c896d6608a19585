import PhpCheck.Proofs.GroupingChecks
import PhpCheck.Proofs.LogGrowth
import PhpCheck.Proofs.ReadBack

/-!
# Look-ups that fail

A node that calls something or names a class first finds out what its names stand for. If that fails, the
node is done with: the context and the state are what they were, but for a report of what is undefined.
-/

namespace PhpCheck

/-- What the names in a call, in the creation of an object or in a test of an object's class stand for: the
callable that is called, none if nothing is to be called, or the reason why there is nothing that they
stand for. A callee that is not a name is a closure or computed. -/
def SymbolTable.lookUp (s : SymbolTable) (context : Context) (node : Node) :
    Except LookupError (Option CallableKey) :=
  match node.kind with
  | .call callee _ =>
    match callee.kind with
    | .identifier name => (s.resolveFunction name).map some
    | .var _ | .closure _ =>
      match s.calleesOf context callee (typeOf s context callee) with
      | key :: _ => .ok (some key)
      | [] => .error .computedName
    | _ => .error .computedName
  | .new reference _ =>
    (s.resolveClass context reference).map fun owner => s.findMethod owner "__construct"
  | .instanceOf _ reference => (s.resolveClass context reference).map fun _ => none
  | .staticCall reference (.literal method) _ =>
    if Text.sameIgnoringCase method "__construct" && !Analysis.isParentReference reference then
      .error (.undefinedMethod (Analysis.referenceText reference) method)
    else (s.resolveClass context reference >>= fun owner => s.resolveMethod owner method).map some
  | .methodCall receiver (.literal method) _ =>
    s.resolveClasses context receiver >>= fun owners =>
      match owners.findSome? fun owner => s.findMethod owner method with
      | some key => .ok (some key)
      | none => .error (.undefinedMethod (owners.headD "") method)
  | .staticCall _ (.computed _) _ | .methodCall _ (.computed _) _ => .error .computedName
  | _ => .ok none

/-- The arguments that a node passes on. -/
def Node.arguments (node : Node) : List Node :=
  match node.kind with
  | .call _ arguments | .new _ arguments | .staticCall _ _ arguments
  | .methodCall _ _ arguments => arguments
  | _ => []

/-- The state after a failed look-up: only what is undefined is reported. -/
def Session.afterFailure (s : Session) (context : Context) (error : LookupError) : Session :=
  if error.isUndefined then s.apply (.record context.file context.line (.undefinedReference error))
  else s

lemma DiagnosticLog.toList_withoutRisks (log : DiagnosticLog) : log.withoutRisks.entries.toList =
    log.entries.toList.filter fun d => d.kind != .compatibilityRisk :=
  Array.toList_filter

namespace Session

variable {s t : Session} {context : Context} {error : LookupError}

lemma afterFailure_eq : s.afterFailure context error =
    { s with log := (s.afterFailure context error).log } := by
  unfold afterFailure
  split <;> rfl

lemma withoutRisks_afterFailure_congr (context : Context) (error : LookupError)
    (h : s.withoutRisks = t.withoutRisks) :
    (s.afterFailure context error).withoutRisks = (t.afterFailure context error).withoutRisks := by
  unfold afterFailure
  split
  · exact withoutRisks_apply_congr h _
  · exact h

/-- The report is left out in a body that has been walked before, if it has been made before. -/
lemma log_afterFailure (s : Session) (context : Context) (error : LookupError) :
    (s.afterFailure context error).log.entries.toList = s.log.entries.toList ++
      if error.isUndefined ∧
          (s.revisiting → (Finding.undefinedReference error).diagnosticAt context.file context.line ∉
            s.log.entries) then
        [(Finding.undefinedReference error).diagnosticAt context.file context.line]
      else [] := by
  cases hundefined : error.isUndefined with
  | false => simp [afterFailure, hundefined]
  | true =>
    cases hrevisiting : s.revisiting with
    | false => simp [afterFailure, hundefined, apply, hrevisiting, DiagnosticLog.push]
    | true =>
      simp only [afterFailure, hundefined, apply, hrevisiting, DiagnosticLog.pushOnce,
        DiagnosticLog.contains_seen]
      by_cases hmem : (Finding.undefinedReference error).diagnosticAt context.file context.line ∈
        s.log.entries <;> simp [hmem, DiagnosticLog.push]

end Session

/-- Methods are found whatever has been used. -/
lemma SymbolTable.findMethod_useClass (t : SymbolTable) (used owner name : String) :
    (t.edit (.useClass used)).findMethod owner name = t.findMethod owner name := by
  have hheads : t.SameHeads (t.edit (.useClass used)) := t.sameHeads_modifyClass used fun _ => rfl
  unfold findMethod
  rw [hheads.lineage]
  congr 1
  funext holder
  have hclass : (t.edit (.useClass used)).class? holder = _ :=
    t.class?_modifyClass used holder Class.recordUse
  rw [hclass]
  split
  · cases t.class? holder <;> rfl
  · rfl

namespace Analysis

/-! ### Looking for risks first -/

lemma run_checkGrouping (setup : Setup) (context : Context) (node : Node) (s : Session) :
    ∃ log, (checkGrouping setup context node).run s = .ok ((), { s with log }) ∧
      log.withoutRisks = s.log.withoutRisks := by
  rcases checkGrouping_cases setup context node with h | ⟨expression, h⟩
  · exact ⟨s.log, by rw [h]; rfl, rfl⟩
  · refine ⟨_, by rw [h]; rfl, ?_⟩
    have hrisk : (Change.record context.file node.line (.groupingRisk expression)).IsRisk := rfl
    exact congrArg Session.log (s.withoutRisks_apply_of_isRisk hrisk)

lemma run_forM_checkGrouping (setup : Setup) (context : Context) (nodes : List Node) (s : Session) :
    ∃ log, (nodes.forM (checkGrouping setup context)).run s = .ok ((), { s with log }) ∧
      log.withoutRisks = s.log.withoutRisks := by
  induction nodes generalizing s with
  | nil => exact ⟨s.log, rfl, rfl⟩
  | cons node nodes ih =>
    obtain ⟨log, hrun, hlog⟩ := run_checkGrouping setup context node s
    obtain ⟨more, hrest, hmore⟩ := ih { s with log }
    exact ⟨more, (run_bind_of_run hrun).trans hrest, hmore.trans hlog⟩

/-! ### The check of a node by what its names stand for -/

/-- What follows a look-up: what is found is called, and what is undefined is reported. -/
def answer (setup : Setup) (enter : Enter) (context : Context) (arguments : List Node) :
    Except LookupError (Option CallableKey) → Analysis Context
  | .ok (some key) => call setup enter context key arguments
  | .ok none => pure context
  | .error error => reportUndefined context error >>= fun _ => pure context

lemma run_answer_error (setup : Setup) (enter : Enter) (context : Context) (arguments : List Node)
    (error : LookupError) (s : Session) :
    (answer setup enter context arguments (.error error)).run s =
      .ok (context, s.afterFailure context error) := by
  simp only [answer, reportUndefined, Session.afterFailure]
  split <;> rfl

/-- A run that starts in `s` comes to the answer to a look-up in `u`. Before a failed look-up is
answered, only risks are recorded. -/
structure Comes (result : Except LookupError (Option CallableKey)) (s u : Session) : Prop where
  trials : u.trials = s.trials
  failed : ∀ error, result = .error error →
    ∃ log, u = { s with log } ∧ log.withoutRisks = s.log.withoutRisks

lemma Comes.here (result : Except LookupError (Option CallableKey)) (s : Session) : Comes result s s :=
  ⟨rfl, fun _ _ => ⟨s.log, rfl, rfl⟩⟩

lemma run_checkCall (setup : Setup) (enter : Enter) (s : Session) (context : Context) (callee : Node)
    (arguments : List Node) (line : Line) :
    ∃ u, Comes (s.symbols.lookUp context ⟨line, .call callee arguments⟩) s u ∧
      (checkCall setup enter context callee arguments).run s =
        (answer setup enter context arguments
          (s.symbols.lookUp context ⟨line, .call callee arguments⟩)).run u := by
  obtain ⟨first, hfirst, hsame⟩ := run_checkGrouping setup context callee s
  obtain ⟨log, hrest, hlog⟩ := run_forM_checkGrouping setup context arguments { s with log := first }
  refine ⟨{ s with log }, ⟨rfl, fun _ _ => ⟨log, rfl, hlog.trans hsame⟩⟩, ?_⟩
  unfold checkCall
  rw [run_bind_of_run hfirst, run_bind_of_run hrest, run_symbols_bind]
  simp only [SymbolTable.lookUp]
  cases callee.kind with
  | identifier name =>
    simp only [SymbolTable.resolveFunction]
    cases (s.symbols.function? (Text.unrooted name)).or
      (Text.shortName? (Text.unrooted name) >>= s.symbols.function?) <;> rfl
  | var name =>
    simp only
    cases s.symbols.calleesOf context callee (typeOf s.symbols context callee) <;> rfl
  | closure decl =>
    simp only
    cases s.symbols.calleesOf context callee (typeOf s.symbols context callee) <;> rfl
  | _ => rfl

lemma run_checkNew (setup : Setup) (enter : Enter) (s : Session) (context : Context) (reference : Node)
    (arguments : List Node) (line : Line) :
    ∃ u, Comes (s.symbols.lookUp context ⟨line, .new reference arguments⟩) s u ∧
      (checkNew setup enter context reference arguments).run s =
        (answer setup enter context arguments
          (s.symbols.lookUp context ⟨line, .new reference arguments⟩)).run u := by
  unfold checkNew
  simp only [SymbolTable.lookUp, run_symbols_bind]
  cases s.symbols.resolveClass context reference with
  | error error => exact ⟨s, .here _ s, rfl⟩
  | ok owner =>
    refine ⟨s.apply (.edit (.useClass owner)), ⟨rfl, fun _ h => by cases h⟩, ?_⟩
    have hsame := s.symbols.findMethod_useClass owner owner "__construct"
    change (s.apply (.edit (.useClass owner))).symbols.findMethod owner "__construct" = _ at hsame
    rw [run_bind_of_run (t := s.apply (.edit (.useClass owner))) rfl, run_symbols_bind, hsame]
    change _ = (answer setup enter context arguments (.ok (s.symbols.findMethod owner "__construct"))).run _
    cases s.symbols.findMethod owner "__construct" <;> rfl

lemma run_checkStaticTarget (context : Context) (reference : Node) (key : CallableKey) (s : Session) :
    ∃ log, (checkStaticTarget context reference key).run s = .ok ((), { s with log }) := by
  unfold checkStaticTarget
  rw [run_symbols_bind]
  split
  · split
    · exact ⟨s.log, rfl⟩
    · exact ⟨_, rfl⟩
  · exact ⟨s.log, rfl⟩

lemma run_checkStaticCall (setup : Setup) (enter : Enter) (s : Session) (context : Context)
    (reference : Node) (method : String) (arguments : List Node) (line : Line) :
    ∃ u, Comes (s.symbols.lookUp context ⟨line, .staticCall reference (.literal method) arguments⟩) s u ∧
      (checkStaticCall setup enter context reference method arguments).run s =
        (answer setup enter context arguments
          (s.symbols.lookUp context ⟨line, .staticCall reference (.literal method) arguments⟩)).run u := by
  unfold checkStaticCall
  simp only [SymbolTable.lookUp]
  split
  · exact ⟨s, .here _ s, rfl⟩
  · rw [run_symbols_bind]
    cases s.symbols.resolveClass context reference >>= fun owner => s.symbols.resolveMethod owner method with
    | error error => exact ⟨s, .here _ s, rfl⟩
    | ok key =>
      obtain ⟨log, hrun⟩ := run_checkStaticTarget context reference key s
      exact ⟨{ s with log }, ⟨rfl, fun _ h => by cases h⟩, run_bind_of_run hrun⟩

lemma run_checkMethodCall (setup : Setup) (enter : Enter) (s : Session) (context : Context)
    (receiver : Node) (method : String) (arguments : List Node) (line : Line) :
    (checkMethodCall setup enter context receiver method arguments).run s =
      (answer setup enter context arguments
        (s.symbols.lookUp context ⟨line, .methodCall receiver (.literal method) arguments⟩)).run s := by
  unfold checkMethodCall
  simp only [SymbolTable.lookUp, run_symbols_bind]
  cases s.symbols.resolveClasses context receiver with
  | error error => rfl
  | ok owners =>
    change _ = (answer setup enter context arguments (pure owners >>= _)).run s
    simp only [pure_bind]
    cases owners.findSome? fun owner => s.symbols.findMethod owner method <;> rfl

/-- A node that names something to be called, or a class, is checked by looking it up. -/
lemma run_check (setup : Setup) (enter : Enter) (s : Session) (context : Context) (parent : Option Node)
    (node : Node) (h : s.symbols.lookUp context node ≠ .ok none) :
    ∃ u, Comes (s.symbols.lookUp context node) s u ∧
      (check setup enter context parent node).run s =
        (answer setup enter context node.arguments (s.symbols.lookUp context node)).run u := by
  obtain ⟨line, kind⟩ := node
  cases kind with
  | call callee arguments => exact run_checkCall setup enter s context callee arguments line
  | new reference arguments => exact run_checkNew setup enter s context reference arguments line
  | instanceOf value reference =>
    refine ⟨s, .here _ s, ?_⟩
    simp only [check, SymbolTable.lookUp, run_symbols_bind]
    cases s.symbols.resolveClass context reference <;> rfl
  | staticCall reference name arguments =>
    cases name with
    | literal method => exact run_checkStaticCall setup enter s context reference method arguments line
    | computed expression => exact ⟨s, .here _ s, rfl⟩
  | methodCall receiver name arguments =>
    refine ⟨s, .here _ s, ?_⟩
    cases name with
    | literal method => exact run_checkMethodCall setup enter s context receiver method arguments line
    | computed expression => rfl
  | _ => exact absurd rfl h

end Analysis

/-- If what a node names cannot be found, the check of the node leaves the context, the symbol table and the
trials as they are. But for risks, the log gets at most the report of what is undefined, and it gets that
unless it has it already from an earlier walk of the same body. What can be found is called. -/
theorem failed_lookups_leave_state (setup : Setup) (enter : Enter) (s : Session) (context : Context)
    (parent : Option Node) (node : Node) :
    (∀ error, s.symbols.lookUp context node = .error error → ∃ log added,
      (Analysis.check setup enter context parent node).run s = .ok (context, { s with log }) ∧
        log.entries.toList = s.log.entries.toList ++ added ∧
        added.filter (fun d => d.kind != .compatibilityRisk) =
          if error.isUndefined ∧
              (s.revisiting → (Finding.undefinedReference error).diagnosticAt context.file context.line ∉
                s.log.entries) then
            [(Finding.undefinedReference error).diagnosticAt context.file context.line]
          else []) ∧
    ∀ key, s.symbols.lookUp context node = .ok (some key) → ∃ u, u.trials = s.trials ∧
      (Analysis.check setup enter context parent node).run s =
        (Analysis.call setup enter context key node.arguments).run u := by
  constructor
  · intro error herror
    obtain ⟨u, hcomes, hrun⟩ :=
      Analysis.run_check setup enter s context parent node (by rw [herror]; simp)
    obtain ⟨log, rfl, hlog⟩ := hcomes.failed error herror
    rw [herror, Analysis.run_answer_error, Session.afterFailure_eq] at hrun
    obtain ⟨added, hadded⟩ := Analysis.log_prefix_of_mem_moments (Analysis.mem_moments_of_run hrun)
    change _ = (({ s with log } : Session).afterFailure context error).log.entries.toList at hadded
    refine ⟨_, added, hrun, hadded.symm, ?_⟩
    -- Without risks, the check does to the log what the report alone would have done.
    have hrisks : ({ s with log } : Session).withoutRisks = s.withoutRisks :=
      congrArg (fun log => { s with log }) hlog
    have hsame := congrArg (fun u : Session => u.log.entries.toList)
      (Session.withoutRisks_afterFailure_congr context error hrisks)
    simp only [Session.withoutRisks, DiagnosticLog.toList_withoutRisks] at hsame
    rw [← hadded, s.log_afterFailure, List.filter_append, List.filter_append] at hsame
    rw [List.append_cancel_left hsame]
    split <;> rfl
  · intro key hkey
    obtain ⟨u, hcomes, hrun⟩ :=
      Analysis.run_check setup enter s context parent node (by rw [hkey]; simp)
    rw [hkey] at hrun
    exact ⟨u, hcomes.trials, hrun⟩

/-- A function that is not declared is called with an argument that is a risk: both are reported, and the
arguments are not looked at any further. -/
theorem failed_lookups_leave_state_riskyArgument :
    let argument : Node :=
      ⟨1, .dim ⟨1, .var (.computed ⟨1, .var (.literal "a")⟩)⟩ (some ⟨1, .literal (.int 0)⟩)⟩
    let node : Node := ⟨1, .call ⟨1, .identifier "missing"⟩ [argument]⟩
    let sources : Sources := Table.insert ∅ "a.php" "missing($$a[0]);"
    let s : Session := { symbols := .builtin }
    let context : Context := { file := "a.php", line := 1 }
    let risk := (Finding.groupingRisk "$$a").diagnosticAt "a.php" 1
    let undefined := (Finding.undefinedReference (.undefinedFunction "missing")).diagnosticAt "a.php" 1
    ∃ log added, (Analysis.checkAt ⟨⟨true, false⟩, sources⟩ context none node).run s =
        .ok (context, { s with log }) ∧
      log.entries.toList = s.log.entries.toList ++ added ∧ added = [risk, undefined] ∧
      added.filter (fun d => d.kind != .compatibilityRisk) = [undefined] := by
  intro argument node sources s context risk undefined
  have hmissing : s.symbols.lookUp context node = .error (.undefinedFunction "missing") := by
    decide +kernel
  obtain ⟨log, added, hrun, hlog, hothers⟩ := (failed_lookups_leave_state ⟨⟨true, false⟩, sources⟩
    (Analysis.enterBody ⟨⟨true, false⟩, sources⟩ s.symbols.nestingBound) s context none node).1 _ hmissing
  have hentries : ((Analysis.checkAt ⟨⟨true, false⟩, sources⟩ context none node).run s).toOption.all
      (fun result => decide (result.2.log.entries.toList = [risk, undefined])) = true := by
    decide +kernel
  refine ⟨log, added, hrun, hlog, ?_, hothers⟩
  change ((Analysis.check _ _ context none node).run s).toOption.all _ = true at hentries
  rw [hrun] at hentries
  exact hlog.symm.trans (of_decide_eq_true hentries)

end PhpCheck
