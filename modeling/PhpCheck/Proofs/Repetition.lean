import PhpCheck.Proofs.Containment
import PhpCheck.Proofs.Statements

/-!
# The account of a diagnostic

The first walk of a body records what it finds, and every later walk only what is not in the log. So a
diagnostic is recorded at most once for every stop of a first walk, and beyond that only if a later walk
is the first to come to it. Such a late report happens at most once in a run.
-/

namespace PhpCheck

/-- The stops on the way through the body of the callable under a key. -/
def SymbolTable.bodyStops (table : SymbolTable) (key : CallableKey) : List Stop :=
  (table.callable? key).toList.flatMap Callable.stops

/-- How often the first walks of bodies come to a stop with the diagnostic. -/
def SymbolTable.budget (table : SymbolTable) (d : Diagnostic) (keys : List CallableKey) : Nat :=
  (keys.flatMap table.bodyStops).countP d.hits

namespace SymbolTable

variable {table : SymbolTable}

lemma SameCores.bodyStops_eq {other : SymbolTable} (h : table.SameCores other) (key : CallableKey) :
    other.bodyStops key = table.bodyStops key := by
  have hcore : ∀ s : SymbolTable, s.bodyStops key =
      ((s.callable? key).map Callable.core).toList.flatMap Callable.stops := by
    intro s
    unfold bodyStops
    cases s.callable? key with
    | none => rfl
    | some c => rfl
  rw [hcore, hcore, h key]

lemma SameCores.bodyStops_eq_route {other : SymbolTable} (h : table.SameCores other) {key : CallableKey}
    {c : Callable} {body : Node} (hc : other.callable? key = some c) (hbody : c.body = some body) :
    table.bodyStops key = (c.stop body).route := by
  rw [← h.bodyStops_eq key]
  simp [bodyStops, hc, Callable.stops, hbody]

lemma filterMap_bodyKeys_sublist (table : SymbolTable) :
    (table.bodyKeys.filterMap table.callable?).Sublist table.callables := by
  -- what is found under the names of some entries are the values of these entries
  have hvalues : ∀ (find : String → Option Callable) {entries : List (String × Callable)},
      (∀ entry ∈ entries, find entry.1 = some entry.2) →
      ((entries.filter (·.2.body.isSome)).filterMap fun entry => find entry.1).Sublist
        (entries.map Prod.snd) := by
    intro find entries hfind
    rw [List.filterMap_congr fun entry hentry => hfind entry (List.mem_of_mem_filter hentry)]
    simpa using List.filter_sublist.map Prod.snd
  rw [bodyKeys, callables, List.filterMap_append, List.filterMap_map, List.filterMap_flatMap,
    Table.values, Table.values, List.flatMap_map]
  refine List.Sublist.append ?_ (List.Sublist.flatMap_right _ fun entry hentry => ?_)
  · refine hvalues (fun name => table.callable? (.function name)) fun entry hentry => ?_
    exact Table.get?_eq_some_iff.mpr hentry
  · rw [List.filterMap_map]
    refine hvalues (fun name => table.callable? (.method entry.1 name)) fun method hmethod => ?_
    have hclass : table.classes.get? entry.1 = some entry.2 := Table.get?_eq_some_iff.mpr hentry
    exact Option.bind_eq_some_iff.mpr ⟨entry.2, hclass, Table.get?_eq_some_iff.mpr hmethod⟩

lemma HasBody.of_mem_bodyStops {key : CallableKey} {stop : Stop} (h : stop ∈ table.bodyStops key) :
    table.HasBody key := by
  obtain ⟨c, hc, hstop⟩ := List.mem_flatMap.mp h
  cases hbody : c.body with
  | none => simp [Callable.stops, hbody] at hstop
  | some body => exact ⟨c, body, Option.mem_toList.mp hc, hbody⟩

lemma flatMap_bodyStops_filter (keys : List CallableKey) :
    (keys.filter (· ∈ table.bodyKeys)).flatMap table.bodyStops = keys.flatMap table.bodyStops := by
  induction keys with
  | nil => rfl
  | cons key keys ih =>
    by_cases hkey : key ∈ table.bodyKeys
    · rw [List.filter_cons_of_pos (by simpa using hkey), List.flatMap_cons, List.flatMap_cons, ih]
    · have hnil : table.bodyStops key = [] := by
        refine List.eq_nil_iff_forall_not_mem.mpr fun stop hstop => hkey ?_
        exact (HasBody.of_mem_bodyStops hstop).mem_bodyKeys
      rw [List.filter_cons_of_neg (by simpa using hkey), List.flatMap_cons, hnil, ih, List.nil_append]

/-- Each body is counted once. -/
lemma budget_le (d : Diagnostic) {keys : List CallableKey} (hkeys : keys.Nodup) :
    table.budget d keys ≤ (table.callables.flatMap Callable.stops).countP d.hits := by
  have hsubperm : (keys.filter (· ∈ table.bodyKeys)).Subperm table.bodyKeys := by
    refine List.subperm_of_subset (hkeys.filter _) fun key hkey => ?_
    exact of_decide_eq_true (List.mem_filter.mp hkey).2
  have hflat : table.bodyKeys.flatMap table.bodyStops =
      (table.bodyKeys.filterMap table.callable?).flatMap Callable.stops := by
    rw [List.filterMap_eq_flatMap_toList, List.flatMap_assoc]
    rfl
  calc table.budget d keys
      ≤ (table.bodyKeys.flatMap table.bodyStops).countP d.hits := by
        rw [budget, ← flatMap_bodyStops_filter]
        exact countP_flatMap_le_of_subperm hsubperm table.bodyStops d.hits
    _ ≤ (table.callables.flatMap Callable.stops).countP d.hits := by
        rw [hflat]
        exact (table.filterMap_bodyKeys_sublist.flatMap Callable.stops).countP_le

end SymbolTable

/-! ### What a change records -/

/-- Whether the change is the entry into a body or the exit from one. -/
def Change.isWalk : Change → Bool
  | .beginWalk _ | .endWalk _ => true
  | _ => false

/-- Whether the change asks for the diagnostic to be recorded. -/
def Change.records (d : Diagnostic) : Change → Bool
  | .record file line finding => finding.diagnosticAt file line == d
  | _ => false

/-- Whether the diagnostic is recorded for the first time, and by a walk that is not the first of its
body. -/
def Diagnostic.isLate (d : Diagnostic) (step : Session × Change) : Bool :=
  step.1.revisiting && step.2.records d && !decide (d ∈ step.1.log.entries)

namespace DiagnosticLog

variable (log : DiagnosticLog) (d e : Diagnostic)

lemma count_push :
    (log.push e).entries.count d = log.entries.count d + if e = d then 1 else 0 := by
  simp [push, Array.count_push]

lemma count_pushOnce : (log.pushOnce e).entries.count d =
    log.entries.count d + if e = d ∧ d ∉ log.entries then 1 else 0 := by
  rw [pushOnce, contains_seen]
  split
  · rename_i hmem
    have hold : ¬(e = d ∧ d ∉ log.entries) := by
      rintro ⟨rfl, hnew⟩
      exact hnew (Array.contains_iff_mem.mp hmem)
    rw [if_neg hold, Nat.add_zero]
  · rename_i hmem
    have hnew : e = d ↔ e = d ∧ d ∉ log.entries := by
      refine ⟨?_, And.left⟩
      rintro rfl
      exact ⟨rfl, fun h => hmem (Array.contains_iff_mem.mpr h)⟩
    simp only [count_push, ← hnew]

end DiagnosticLog

section Records

variable {d : Diagnostic} {s : Session} {c : Change}

lemma Session.count_apply (d : Diagnostic) (s : Session) (c : Change) :
    (s.apply c).log.entries.count d = s.log.entries.count d +
      if c.records d = true ∧ (s.revisiting = true → d ∉ s.log.entries) then 1 else 0 := by
  cases c with
  | record file line finding =>
    simp only [apply, Change.records, beq_iff_eq]
    cases s.revisiting with
    | false => simpa using s.log.count_push d _
    | true => simpa using s.log.count_pushOnce d _
  | _ => simp [apply, Change.records]

lemma Session.mem_log_apply (h : d ∈ s.log.entries) (c : Change) : d ∈ (s.apply c).log.entries := by
  have hcount := s.count_apply d c
  rw [← Array.count_pos_iff] at h ⊢
  omega

lemma Session.mem_log_apply_of_records (s : Session) (h : c.records d = true) :
    d ∈ (s.apply c).log.entries := by
  by_cases hold : d ∈ s.log.entries
  · exact s.mem_log_apply hold c
  · have hcount := s.count_apply d c
    rw [if_pos ⟨h, fun _ => hold⟩] at hcount
    rw [← Array.count_pos_iff]
    omega

lemma Diagnostic.isLate_of_records_eq_false (d : Diagnostic) {step : Session × Change}
    (h : step.2.records d = false) : d.isLate step = false := by
  simp [isLate, h]

lemma Session.apply_of_isWalk_eq_false (s : Session) (h : c.isWalk = false) :
    (s.apply c).revisiting = s.revisiting ∧ (s.apply c).walked = s.walked := by
  cases c with
  | beginWalk key => cases h
  | endWalk revisiting => cases h
  | _ => exact ⟨rfl, rfl⟩

/-- The change neither records the diagnostic nor enters or leaves a body. -/
def Change.IsSilent (d : Diagnostic) (c : Change) : Prop := c.isWalk = false ∧ c.records d = false

lemma Change.IsRoutine.isWalk_eq_false {file : String} {lines : Line → Prop}
    (h : c.IsRoutine file lines) : c.isWalk = false := by
  cases c with
  | beginWalk key => cases h
  | endWalk revisiting => cases h
  | _ => rfl

lemma Context.isWalk_eq_false_of_isLocal (context : Context) (c : Change)
    (h : c.IsLocal context.file fun _ => True) : c.isWalk = false :=
  h.isRoutine.isWalk_eq_false

lemma Change.IsRoutine.isSilent {file : String} {lines : Line → Prop} (hd : d.kind = .noOp)
    (h : c.IsRoutine file lines) : c.IsSilent d := by
  refine ⟨h.isWalk_eq_false, ?_⟩
  cases c with
  | record f line finding =>
    refine beq_eq_false_iff_ne.mpr ?_
    rintro rfl
    exact h.2.2 hd
  | _ => rfl

/-- The states agree on which bodies have been walked and on how often the diagnostic is recorded. -/
structure Session.Agrees (d : Diagnostic) (s t : Session) : Prop where
  revisiting : t.revisiting = s.revisiting
  walked : t.walked = s.walked
  count : t.log.entries.count d = s.log.entries.count d

lemma Change.IsSilent.agrees (h : c.IsSilent d) (s : Session) : s.Agrees d (s.apply c) := by
  obtain ⟨hrevisiting, hwalked⟩ := s.apply_of_isWalk_eq_false h.1
  refine ⟨hrevisiting, hwalked, ?_⟩
  rw [s.count_apply, h.2]
  simp

end Records

namespace Analysis

variable {α : Type} {d : Diagnostic} {s t : Session} {m : Analysis α} {a : α}

/-- The action neither records the diagnostic nor enters or leaves a body. -/
abbrev Silent (d : Diagnostic) (m : Analysis α) : Prop := m.Only (Change.IsSilent d) fun _ => False

lemma Only.agrees (hm : m.Silent d) (hrun : m.run s = .ok (a, t)) : s.Agrees d t := by
  refine Only.related (R := Session.Agrees d) ?_ ?_ ?_ hm (mem_moments_of_run hrun)
  · exact fun s => ⟨rfl, rfl, rfl⟩
  · exact fun s t u hst htu =>
      ⟨htu.revisiting.trans hst.revisiting, htu.walked.trans hst.walked, htu.count.trans hst.count⟩
  · exact fun s c hc => hc.agrees s

/-- Once a diagnostic is recorded, no walk can be late with it. -/
lemma countP_isLate_le (d : Diagnostic) (m : Analysis α) (s : Session) :
    (m.steps s).countP d.isLate ≤ if d ∈ s.log.entries then 0 else 1 := by
  induction m generalizing s with
  | done result => exact Nat.zero_le _
  | fault f => exact Nat.zero_le _
  | look rest ih => exact ih s s
  | ask callee rest ih => exact ih _ s
  | change c rest ih =>
    have hrest := ih () (s.apply c)
    rw [steps, List.countP_cons]
    by_cases hold : d ∈ s.log.entries
    · have hnot : d.isLate (s, c) = false := by simp [Diagnostic.isLate, hold]
      rw [if_pos (s.mem_log_apply hold c)] at hrest
      simpa [hnot, hold] using hrest
    · cases hlate : d.isLate (s, c) with
      | false =>
        have hone : (if d ∈ (s.apply c).log.entries then 0 else 1) ≤ 1 := by split <;> omega
        simpa [hold] using Nat.le_trans hrest hone
      | true =>
        have hrecords : c.records d = true := by
          simp only [Diagnostic.isLate, Bool.and_eq_true] at hlate
          exact hlate.1.2
        rw [if_pos (s.mem_log_apply_of_records hrecords)] at hrest
        simpa [hold] using hrest

lemma checkNoOp_cases {stop : Stop} (hidle : stop.node.isIdle = true) {context : Context}
    (hreaches : Reaches stop context) :
    (checkNoOp context stop.parent stop.node = pure () ∧ ∀ d : Diagnostic, d.hits stop = false) ∨
      ∃ c, checkNoOp context stop.parent stop.node = perform c ∧ c.isWalk = false ∧
        ∀ d, c.records d = d.hits stop := by
  unfold checkNoOp
  split
  · rename_i list hlist
    split
    · rename_i hstatements
      refine .inr ⟨.record context.file context.line (.noOp stop.node.describe), rfl, rfl, fun d => ?_⟩
      have hnoOp : stop.noOp? =
          some ((Finding.noOp stop.node.describe).diagnosticAt context.file context.line) := by
        rw [Stop.noOp?, hidle, hlist, hreaches.within.file, hreaches.line]
        simp [hstatements]
      rw [Diagnostic.hits, hnoOp]
      rfl
    · rename_i hstatements
      refine .inl ⟨rfl, fun d => ?_⟩
      simp [Diagnostic.hits, Stop.noOp?, hlist, hstatements]
  · rename_i hnone
    refine .inl ⟨rfl, fun d => ?_⟩
    simp [Diagnostic.hits, Stop.noOp?, hnone]

lemma silent_checkReturn {stop : Stop} {context : Context} (hreaches : Reaches stop context)
    {value : Option Node} (hvalue : ∀ v ∈ value, v ∈ stop.node.children) (hd : d.kind = .noOp) :
    (checkReturn context value).Silent d := by
  apply only_checkReturn hreaches.at
  · exact fun v hv line hline => hline.of_child (hvalue v hv)
  · exact fun c hc => hc.isRoutine.isSilent hd
  · exact fun key types => ⟨rfl, rfl⟩

/-- What the walk of a body comes down to. -/
lemma run_asWalkOf_eq_ok {key : CallableKey} (h : (asWalkOf key m).run s = .ok (a, t)) :
    ∃ u, m.run (s.apply (.beginWalk key)) = .ok (a, u) ∧ t = u.apply (.endWalk s.revisiting) ∧
      (asWalkOf key m).steps s = [(s, .beginWalk key)] ++ m.steps (s.apply (.beginWalk key)) ++
        [(u, .endWalk s.revisiting)] := by
  obtain ⟨result, u, hinner, hend⟩ := run_bind_eq_ok (m := change (.beginWalk key) fun _ => m) h
  cases hend
  refine ⟨u, hinner, rfl, ?_⟩
  exact steps_bind (m := change (.beginWalk key) fun _ => m) hinner

/-! ### The account of a run -/

/-- How often the diagnostic may be recorded at the stops. -/
def due (d : Diagnostic) (s : Session) (stops : List Stop) : Nat :=
  if s.revisiting then 0 else stops.countP d.hits

lemma due_append (d : Diagnostic) (s : Session) (first rest : List Stop) :
    due d s (first ++ rest) = due d s first + due d s rest := by
  simp only [due, List.countP_append]
  split <;> rfl

/-- The diagnostic is recorded for the stops if the walk is the first of its body, for the stops of the
first walks that are made in between, and for late reports. -/
def Accounts (table : SymbolTable) (d : Diagnostic) {α : Type} (stops : List Stop) (s : Session)
    (m : Analysis α) : Prop :=
  ∀ a t, m.run s = .ok (a, t) → t.revisiting = s.revisiting ∧
    t.log.entries.count d + table.budget d s.walked ≤
      s.log.entries.count d + table.budget d t.walked + due d s stops + (m.steps s).countP d.isLate

lemma accounts_of_silent (table : SymbolTable) (hm : m.Silent d) : Accounts table d [] s m := by
  intro a t hrun
  have hagrees := hm.agrees hrun
  refine ⟨hagrees.revisiting, ?_⟩
  rw [hagrees.count, hagrees.walked]
  omega

lemma accounts_noOp (table : SymbolTable) (d : Diagnostic) {stop : Stop} {context : Context}
    (hidle : stop.node.isIdle = true) (hreaches : Reaches stop context) :
    Accounts table d [stop] s (checkNoOp context stop.parent stop.node) := by
  rcases checkNoOp_cases hidle hreaches with ⟨heq, -⟩ | ⟨c, heq, hwalk, hrecords⟩
  · rw [heq]
    intro a t hrun
    cases hrun
    exact ⟨rfl, by omega⟩
  · rw [heq]
    intro a t hrun
    cases hrun
    obtain ⟨hrevisiting, hwalked⟩ := s.apply_of_isWalk_eq_false hwalk
    refine ⟨hrevisiting, ?_⟩
    have hlate : ((perform c).steps s).countP d.isLate = if d.isLate (s, c) then 1 else 0 :=
      List.countP_singleton
    rw [hwalked, hlate, s.count_apply, due, List.countP_singleton, Diagnostic.isLate, hrecords]
    -- in a first walk the stop pays for the report, in a later one the report is late or not made
    cases d.hits stop with
    | false => simp
    | true => grind

lemma accounts_asWalkOf {table : SymbolTable} {key : CallableKey} {c : Callable} {body : Node}
    (hcores : table.SameCores s.symbols) (hc : s.symbols.callable? key = some c)
    (hbody : c.body = some body)
    (h : Accounts table d (c.stop body).route (s.apply (.beginWalk key)) m) :
    Accounts table d [] s (asWalkOf key m) := by
  intro a t hrun
  obtain ⟨u, hinner, rfl, hsteps⟩ := run_asWalkOf_eq_ok hrun
  obtain ⟨-, hcount⟩ := h a u hinner
  have hstops := hcores.bodyStops_eq_route hc hbody
  -- a first walk takes what is due for its stops out of the budget of the body
  have hbudget : table.budget d (s.apply (.beginWalk key)).walked =
      due d (s.apply (.beginWalk key)) (c.stop body).route + table.budget d s.walked := by
    rw [due, ← hstops]
    by_cases hkey : key ∈ s.walked
    · simp [Session.apply, hkey]
    · simp [Session.apply, hkey, SymbolTable.budget]
  have hlate : ((asWalkOf key m).steps s).countP d.isLate =
      (m.steps (s.apply (.beginWalk key))).countP d.isLate := by
    have hbegin := @Diagnostic.isLate_of_records_eq_false d (s, .beginWalk key) rfl
    have hend := @Diagnostic.isLate_of_records_eq_false d (u, .endWalk s.revisiting) rfl
    simp [hsteps, hbegin, hend]
  have hsame : (s.apply (.beginWalk key)).log = s.log := rfl
  rw [hsame, hbudget] at hcount
  refine ⟨rfl, ?_⟩
  change u.log.entries.count d + _ ≤ _ + table.budget d u.walked + _ + _
  omega

lemma graded_accounts (table : SymbolTable) (d : Diagnostic) : Graded (Accounts table d) where
  pure s a b t hrun := by
    cases hrun
    exact ⟨rfl, by omega⟩
  look h := h
  bind {α β m f s first rest} hm hf b u hrun := by
    obtain ⟨a, t, hfirst, hrest⟩ := run_bind_eq_ok hrun
    obtain ⟨hst, hcount⟩ := hm a t hfirst
    obtain ⟨htu, hcount'⟩ := hf a t hfirst b u hrest
    have hdue : due d t rest = due d s rest := by rw [due, due, hst]
    refine ⟨htu.trans hst, ?_⟩
    rw [steps_bind hfirst, List.countP_append, due_append]
    omega

lemma carried_accounts (table : SymbolTable) (units : List SourceUnit) (hd : d.kind = .noOp) :
    Carried table units fun _ => Accounts table d where
  graded _ := graded_accounts table d
  fault _ _ _ _ _ _ hrun := by cases hrun
  routine _ _ _ _ _ _ hm := accounts_of_silent table (hm.mono (fun _ h => h.isSilent hd) fun _ => id)
  arrive _ _ _ _ _ _ _ := accounts_of_silent table (.change ⟨rfl, rfl⟩ (.done _))
  returns _ _ _ _ _ _ hreaches hvalue :=
    accounts_of_silent table (silent_checkReturn hreaches hvalue hd)
  noOp _ _ _ hidle _ _ hreaches := accounts_noOp table d hidle hreaches
  other _ stop hidle _ _ _ h := by
    have hno : d.hits stop = false := by simp [Diagnostic.hits, Stop.noOp?, hidle]
    intro a t hrun
    simpa [due, hno] using h a t hrun
  body _ _ _ _ _ hcores hc hbody _ _ _ h := accounts_asWalkOf hcores hc hbody h

lemma nodup_walked_of_run (hrun : m.run s = .ok (a, t)) (h : s.walked.Nodup) : t.walked.Nodup := by
  refine Only.related (R := fun s t => s.walked.Nodup → t.walked.Nodup) (fun _ => id) ?_ ?_
    (only_true m) (mem_moments_of_run hrun) h
  · exact fun s t u hst htu h => htu (hst h)
  · intro s c _ h
    cases c with
    | beginWalk key =>
      simp only [Session.apply]
      split
      · exact h
      · rename_i hnew
        exact List.nodup_cons.mpr ⟨by simpa using hnew, h⟩
    | _ => exact h

/-- Beside late reports, a diagnostic is recorded at most once for every statement that it fits. -/
lemma count_le_of_run {setup : Setup} {units : List SourceUnit} {symbols : SymbolTable}
    (hcollect : SymbolTable.builtin.collectUnits units = .ok symbols) (hd : d.kind = .noOp)
    (hrun : (walkUnits setup units).run { symbols } = .ok ((), t)) :
    t.log.entries.count d ≤ (units.flatMap SourceUnit.statements).countP d.fits +
      ((walkUnits setup units).steps { symbols }).countP d.isLate := by
  obtain ⟨-, hcount⟩ := (carried_accounts symbols units hd).program hcollect setup () t hrun
  have hstart : symbols.budget d [] = 0 := rfl
  have hbudget := @SymbolTable.budget_le symbols d _ (nodup_walked_of_run hrun List.nodup_nil)
  have hwritten := countP_hits_program d hcollect
  simp only [due, Bool.false_eq_true, if_false, DiagnosticLog.entries_empty, Array.count_empty] at hcount
  omega

end Analysis

end PhpCheck
