import PhpCheck.Proofs.Repetition

/-!
# Bodies that are entered from inside themselves

While the first walk of a body is in progress, not all that it has to report is in the log, and a walk
that starts before it has ended can be the first to come to a statement. If no body is entered from
inside itself, no report is late. In quick mode bodies are entered by declarations alone, and then a run
that ends has entered none from inside itself.
-/

namespace PhpCheck

/-- The bodies that are open after the change, the innermost first. -/
def Change.opens (inside : List CallableKey) : Change → List CallableKey
  | .beginWalk key => key :: inside
  | .endWalk _ => inside.tail
  | _ => inside

/-- Whether the change enters a body that is open. -/
def Change.reenters (inside : List CallableKey) : Change → Bool
  | .beginWalk key => inside.contains key
  | _ => false

/-- Whether one of the changes enters a body that is open by then. -/
def reenters : List CallableKey → List Change → Bool
  | _, [] => false
  | inside, c :: rest => c.reenters inside || reenters (c.opens inside) rest

lemma reenters_append (inside : List CallableKey) (first rest : List Change) :
    reenters inside (first ++ rest) =
      (reenters inside first || reenters (first.foldl Change.opens inside) rest) := by
  induction first generalizing inside with
  | nil => rfl
  | cons c first ih => rw [List.cons_append, reenters, ih, reenters, Bool.or_assoc, List.foldl_cons]

lemma reenters_of_stays {inside : List CallableKey} {changes : List Change}
    (h : ∀ c ∈ changes, c.isWalk = false) :
    changes.foldl Change.opens inside = inside ∧ reenters inside changes = false := by
  induction changes with
  | nil => exact ⟨rfl, rfl⟩
  | cons c rest ih =>
    have hc := h c (List.mem_cons_self ..)
    have hopens : c.opens inside = inside ∧ c.reenters inside = false := by
      cases c with
      | beginWalk key => cases hc
      | endWalk revisiting => cases hc
      | _ => exact ⟨rfl, rfl⟩
    rw [List.foldl_cons, reenters, hopens.1, hopens.2, Bool.false_or]
    exact ih fun c hc => h c (List.mem_cons_of_mem _ hc)

namespace Analysis

/-- The changes that an action makes. -/
def changes {α : Type} (m : Analysis α) (s : Session) : List Change := (m.steps s).map Prod.snd

/-- The action stays in the body that is being walked. -/
def Stays {α : Type} (s : Session) (m : Analysis α) : Prop := ∀ step ∈ m.steps s, step.2.isWalk = false

/-- After the changes the run is back in the body from which it started. -/
structure Closes (inside : List CallableKey) (changes : List Change) (s t : Session) : Prop where
  revisiting : t.revisiting = s.revisiting
  inside : changes.foldl Change.opens inside = inside

section Closes

variable {α β : Type} {inside : List CallableKey} {m : Analysis α} {f : α → Analysis β}
  {s t u : Session} {a : α} {key : CallableKey}

lemma changes_bind (h : m.run s = .ok (a, t)) :
    (m >>= f).changes s = m.changes s ++ (f a).changes t := by
  rw [changes, steps_bind h, List.map_append]
  rfl

lemma Closes.bind (hfirst : Closes inside (m.changes s) s t) (hrun : m.run s = .ok (a, t))
    (hrest : Closes inside ((f a).changes t) t u) : Closes inside ((m >>= f).changes s) s u := by
  refine ⟨hrest.revisiting.trans hfirst.revisiting, ?_⟩
  rw [changes_bind hrun, List.foldl_append, hfirst.inside, hrest.inside]

lemma Closes.reenters_bind (hfirst : Closes inside (m.changes s) s t) (hrun : m.run s = .ok (a, t)) :
    reenters inside ((m >>= f).changes s) =
      (reenters inside (m.changes s) || reenters inside ((f a).changes t)) := by
  rw [changes_bind hrun, reenters_append, hfirst.inside]

lemma Stays.reenters_eq_false (h : Stays s m) : reenters inside (m.changes s) = false :=
  (reenters_of_stays (List.forall_mem_map.mpr h)).2

lemma Stays.closes (h : Stays s m) (hrun : m.run s = .ok (a, t)) : Closes inside (m.changes s) s t where
  revisiting := by
    refine related_of_steps (R := fun s t => t.revisiting = s.revisiting) (fun _ => rfl) ?_ ?_
      (mem_moments_of_run hrun)
    · exact fun s t u hst htu => htu.trans hst
    · exact fun step hstep => (step.1.apply_of_isWalk_eq_false (h step hstep)).1
  inside := (reenters_of_stays (List.forall_mem_map.mpr h)).1

lemma Closes.asWalkOf (hrun : (asWalkOf key m).run s = .ok (a, t))
    (h : ∀ u, m.run (s.apply (.beginWalk key)) = .ok (a, u) →
      Closes (key :: inside) (m.changes (s.apply (.beginWalk key))) (s.apply (.beginWalk key)) u) :
    Closes inside ((Analysis.asWalkOf key m).changes s) s t ∧
      reenters inside ((Analysis.asWalkOf key m).changes s) =
      (inside.contains key || reenters (key :: inside) (m.changes (s.apply (.beginWalk key)))) := by
  obtain ⟨u, hinner, rfl, hsteps⟩ := run_asWalkOf_eq_ok hrun
  have hchanges : (Analysis.asWalkOf key m).changes s =
      .beginWalk key :: (m.changes (s.apply (.beginWalk key)) ++ [.endWalk s.revisiting]) := by
    rw [changes, hsteps]
    simp [changes]
  have hinside := (h u hinner).inside
  refine ⟨⟨rfl, ?_⟩, ?_⟩
  · rw [hchanges, List.foldl_cons, List.foldl_append, Change.opens, hinside]
    rfl
  · rw [hchanges, reenters, reenters_append, Change.opens, Change.reenters]
    simp [reenters, Change.reenters]

end Closes

/-! ### No late reports without reentry -/

/-- What has been walked and is not open has been reported, as far as the diagnostic is concerned. -/
def Settled (table : SymbolTable) (d : Diagnostic) (inside : List CallableKey) (s : Session) : Prop :=
  ∀ key ∈ s.walked, key ∉ inside → ∀ stop ∈ table.bodyStops key, d.hits stop = true →
    d ∈ s.log.entries

/-- If no open body is entered, then no report is late, and what is walked is reported. -/
def Timely (table : SymbolTable) (d : Diagnostic) (inside : List CallableKey) {α : Type}
    (stops : List Stop) (s : Session) (m : Analysis α) : Prop :=
  ∀ a t, m.run s = .ok (a, t) → Closes inside (m.changes s) s t ∧
    (reenters inside (m.changes s) = false → Settled table d inside s →
      (s.revisiting = true → ∀ stop ∈ stops, d.hits stop = true → d ∈ s.log.entries) →
      (∀ step ∈ m.steps s, d.isLate step = false) ∧ Settled table d inside t ∧
        ∀ stop ∈ stops, d.hits stop = true → d ∈ t.log.entries)

section Timely

variable {α : Type} {table : SymbolTable} {d : Diagnostic} {inside : List CallableKey} {m : Analysis α}
  {s t : Session} {a : α}

lemma mem_log_of_run (hrun : m.run s = .ok (a, t)) (h : d ∈ s.log.entries) : d ∈ t.log.entries := by
  refine Only.related (R := fun s t => d ∈ s.log.entries → d ∈ t.log.entries) (fun _ => id) ?_ ?_
    (only_true m) (mem_moments_of_run hrun) h
  · exact fun s t u hst htu h => htu (hst h)
  · exact fun s c _ h => s.mem_log_apply h c

lemma Settled.mono (h : Settled table d inside s) (hwalked : t.walked = s.walked)
    (hlog : d ∈ s.log.entries → d ∈ t.log.entries) : Settled table d inside t := by
  intro key hkey hinside stop hstop hhits
  rw [hwalked] at hkey
  exact hlog (h key hkey hinside stop hstop hhits)

lemma Settled.beginWalk (h : Settled table d inside s) (key : CallableKey) :
    Settled table d (key :: inside) (s.apply (.beginWalk key)) := by
  intro other hother hinside stop hstop hhits
  simp only [List.mem_cons, not_or] at hinside
  have hold : other ∈ s.walked := by
    simp only [Session.apply] at hother
    split at hother
    · exact hother
    · exact (List.mem_cons.mp hother).resolve_left hinside.1
  exact h other hold hinside.2 stop hstop hhits

lemma Settled.endWalk {key : CallableKey} (h : Settled table d (key :: inside) s)
    (hkey : ∀ stop ∈ table.bodyStops key, d.hits stop = true → d ∈ s.log.entries) (revisiting : Bool) :
    Settled table d inside (s.apply (.endWalk revisiting)) := by
  intro other hother hinside stop hstop hhits
  by_cases hsame : other = key
  · subst hsame
    exact hkey stop hstop hhits
  · exact h other hother (by simp [hsame, hinside]) stop hstop hhits

lemma graded_timely (table : SymbolTable) (d : Diagnostic) (inside : List CallableKey) :
    Graded (Timely table d inside) where
  pure s a b t hrun := by
    cases hrun
    exact ⟨⟨rfl, rfl⟩, fun _ hsettled _ => ⟨List.forall_mem_nil _, hsettled, List.forall_mem_nil _⟩⟩
  look h := h
  bind {α β m f s first rest} hm hf b u hrun := by
    obtain ⟨a, t, hfirst, hrest⟩ := run_bind_eq_ok hrun
    obtain ⟨hcloses, htimely⟩ := hm a t hfirst
    obtain ⟨hcloses', htimely'⟩ := hf a t hfirst b u hrest
    refine ⟨hcloses.bind hfirst hcloses', fun hreenters hsettled hreported => ?_⟩
    rw [hcloses.reenters_bind hfirst, Bool.or_eq_false_iff] at hreenters
    simp only [List.forall_mem_append] at hreported ⊢
    obtain ⟨hlate, hsettled, hlogged⟩ := htimely hreenters.1 hsettled fun hs => (hreported hs).1
    obtain ⟨hlate', hsettled', hlogged'⟩ := htimely' hreenters.2 hsettled fun ht stop hstop hhits =>
      mem_log_of_run hfirst ((hreported (hcloses.revisiting.symm.trans ht)).2 stop hstop hhits)
    refine ⟨?_, hsettled', fun stop hstop hhits => ?_, hlogged'⟩
    · rw [steps_bind hfirst]
      exact List.forall_mem_append.mpr ⟨hlate, hlate'⟩
    · exact mem_log_of_run hrest (hlogged stop hstop hhits)

lemma timely_of_silent (hm : m.Silent d) : Timely table d inside [] s m := by
  intro a t hrun
  have hstays : Stays s m := fun step hstep => (hm.of_mem_steps hstep).1
  refine ⟨hstays.closes hrun, fun _ hsettled _ => ⟨fun step hstep => ?_, ?_, List.forall_mem_nil _⟩⟩
  · exact d.isLate_of_records_eq_false (hm.of_mem_steps hstep).2
  · exact hsettled.mono (hm.agrees hrun).walked (mem_log_of_run hrun)

lemma timely_noOp {stop : Stop} {context : Context} (hidle : stop.node.isIdle = true)
    (hreaches : Reaches stop context) :
    Timely table d inside [stop] s (checkNoOp context stop.parent stop.node) := by
  rcases checkNoOp_cases hidle hreaches with ⟨heq, hnot⟩ | ⟨c, heq, hwalk, hrecords⟩
  · rw [heq]
    intro a t hrun
    cases hrun
    refine ⟨⟨rfl, rfl⟩, fun _ hsettled _ => ⟨List.forall_mem_nil _, hsettled, ?_⟩⟩
    simp [hnot]
  · rw [heq]
    intro a t hrun
    cases hrun
    have hstays : Stays s (perform c) := fun step hstep => by rwa [List.mem_singleton.mp hstep]
    refine ⟨hstays.closes rfl, fun _ hsettled hreported => ⟨fun step hstep => ?_, ?_, ?_⟩⟩
    · -- a later walk of the body finds the diagnostic in the log
      rw [List.mem_singleton.mp hstep, Diagnostic.isLate, hrecords]
      simpa using fun hs hhits => hreported hs stop (List.mem_singleton_self _) hhits
    · exact hsettled.mono (s.apply_of_isWalk_eq_false hwalk).2 fun hd => s.mem_log_apply hd c
    · simp only [List.mem_singleton, forall_eq]
      exact fun hhits => s.mem_log_apply_of_records ((hrecords d).trans hhits)

lemma timely_asWalkOf {key : CallableKey} {c : Callable} {body : Node}
    (hcores : table.SameCores s.symbols) (hc : s.symbols.callable? key = some c)
    (hbody : c.body = some body)
    (h : Timely table d (key :: inside) (c.stop body).route (s.apply (.beginWalk key)) m) :
    Timely table d inside [] s (asWalkOf key m) := by
  intro a t hrun
  obtain ⟨hcloses, hreenters⟩ := Closes.asWalkOf hrun fun u hinner => (h a u hinner).1
  obtain ⟨u, hinner, rfl, hsteps⟩ := run_asWalkOf_eq_ok hrun
  refine ⟨hcloses, fun hnot hsettled _ => ?_⟩
  rw [hreenters, Bool.or_eq_false_iff] at hnot
  have hstops := hcores.bodyStops_eq_route hc hbody
  -- the body is not open, so if it has been walked before, then to its end
  have hagain : (s.apply (.beginWalk key)).revisiting = true →
      ∀ stop ∈ (c.stop body).route, d.hits stop = true → d ∈ s.log.entries := by
    intro hagain stop hstop hhits
    have hwalked : key ∈ s.walked := by simpa [Session.apply] using hagain
    have hopen : key ∉ inside := by simpa using hnot.1
    exact hsettled key hwalked hopen stop (hstops ▸ hstop) hhits
  obtain ⟨hlate, hsettled', hlogged⟩ := (h a u hinner).2 hnot.2 (hsettled.beginWalk key) hagain
  refine ⟨fun step hstep => ?_, hsettled'.endWalk (hstops ▸ hlogged) _, List.forall_mem_nil _⟩
  simp only [hsteps, List.mem_append, List.mem_singleton] at hstep
  rcases hstep with (rfl | hstep) | rfl
  · exact d.isLate_of_records_eq_false rfl
  · exact hlate step hstep
  · exact d.isLate_of_records_eq_false rfl

lemma carried_timely (table : SymbolTable) (units : List SourceUnit) (hd : d.kind = .noOp) :
    Carried table units (Timely table d) where
  graded inside := graded_timely table d inside
  fault _ _ _ _ _ _ hrun := by cases hrun
  routine _ _ _ _ _ _ hm := timely_of_silent (hm.mono (fun _ h => h.isSilent hd) fun _ => id)
  arrive _ _ _ _ _ _ _ := timely_of_silent (.change ⟨rfl, rfl⟩ (.done _))
  returns _ _ _ _ _ _ hreaches hvalue := timely_of_silent (silent_checkReturn hreaches hvalue hd)
  noOp _ _ _ hidle _ _ hreaches := timely_noOp hidle hreaches
  other _ stop hidle _ _ _ h := by
    have hno : d.hits stop = false := by simp [Diagnostic.hits, Stop.noOp?, hidle]
    intro a t hrun
    simpa [hno] using h a t hrun
  body _ _ _ _ _ hcores hc hbody _ _ _ h := timely_asWalkOf hcores hc hbody h

end Timely

/-! ### Quick mode -/

lemma compositional_stays : CompositionalOver (fun c => c.isWalk = false) Stays where
  toSequential := sequential_steps fun step => step.2.isWalk = false
  plain _ hm _ hstep := hm.of_mem_steps hstep

lemma stays_arrive (s : Session) (context : Context) (node : Node) (key : Option CallableKey) :
    Stays s (arrive context node key) :=
  compositional_stays.plain s (Only.change (G := fun c => c.isWalk = false) rfl (.done _))

lemma stays_assign (s : Session) (context : Context) (target : Node) (type : TypeSet) :
    Stays s (assign context target type) :=
  compositional_stays.assign context.isWalk_eq_false_of_isLocal (fun _ _ _ _ => List.forall_mem_nil _) s
    context

lemma stays_checkNoOp (s : Session) (context : Context) (parent : Option Node) (node : Node) :
    Stays s (checkNoOp context parent node) :=
  compositional_stays.plain s (only_checkNoOp (fun _ _ _ => rfl) context parent node)

lemma stays_checkReturn (s : Session) (context : Context) (value : Option Node) :
    Stays s (checkReturn context value) := by
  have hlines : ∀ v ∈ value, ∀ line, v.HasLine line → True := fun _ _ _ _ => trivial
  exact compositional_stays.plain s
    (only_checkReturn context.at_file hlines context.isWalk_eq_false_of_isLocal fun _ _ => rfl)

/-- In quick mode no call tries its callee out. -/
lemma stays_check {setup : Setup} (hquick : setup.settings.quick = true) (enter : Enter) (s : Session)
    (context : Context) (parent : Option Node) (node : Node) :
    Stays s (check setup enter context parent node) := by
  have hQ := compositional_stays
  have hlocal := context.isWalk_eq_false_of_isLocal
  apply hQ.check hlocal context.at_file (fun _ _ => trivial)
  · exact fun _ s => stays_checkNoOp s context parent node
  · exact fun value _ s => stays_checkReturn s context value
  · intro arguments _ s callee
    refine hQ.call hlocal (fun _ _ _ _ => trivial) (fun hnot => ?_) s context.at_file
    simp [hquick] at hnot
  · exact fun target _ s type => stays_assign s context target type

/-- If all bodies that are open lead to the keys, none of these is entered from inside itself, and the
walks of the keys' bodies come to an end. -/
def Founded (table : SymbolTable) (inside : List CallableKey) {α : Type} (keys : List CallableKey)
    (s : Session) (m : Analysis α) : Prop :=
  (∀ key ∈ keys, ∀ outer ∈ inside, Relation.TransGen table.Contains outer key) →
    ∀ a t, m.run s = .ok (a, t) → Closes inside (m.changes s) s t ∧
      reenters inside (m.changes s) = false ∧ ∀ key ∈ keys, Acc (Function.swap table.Contains) key

/-- The same for the keys that are declared at stops. -/
def FoundedAt (table : SymbolTable) (inside : List CallableKey) {α : Type} (stops : List Stop)
    (s : Session) (m : Analysis α) : Prop :=
  Founded table inside (stops.filterMap Stop.declares?) s m

section Founded

variable {table : SymbolTable} {inside : List CallableKey} {setup : Setup} {enter : Enter}

lemma founded_bind {α β : Type} {m : Analysis α} {f : α → Analysis β} {s : Session}
    {first rest : List CallableKey} (hm : Founded table inside first s m)
    (hf : ∀ a s', m.run s = .ok (a, s') → Founded table inside rest s' (f a)) :
    Founded table inside (first ++ rest) s (m >>= f) := by
  intro hkeys b u hrun
  simp only [List.forall_mem_append] at hkeys ⊢
  obtain ⟨a, t, hfirst, hrest⟩ := run_bind_eq_ok hrun
  obtain ⟨hcloses, hreenters, hacc⟩ := hm hkeys.1 a t hfirst
  obtain ⟨hcloses', hreenters', hacc'⟩ := hf a t hfirst hkeys.2 b u hrest
  refine ⟨hcloses.bind hfirst hcloses', ?_, hacc, hacc'⟩
  rw [hcloses.reenters_bind hfirst, hreenters, hreenters']
  rfl

lemma founded_of_stays {α : Type} {m : Analysis α} {s : Session} (h : Stays s m) :
    Founded table inside [] s m :=
  fun _ _ _ hrun => ⟨h.closes hrun, h.reenters_eq_false, List.forall_mem_nil _⟩

lemma founded_symbols {α : Type} {keys : List CallableKey} {s : Session} {f : SymbolTable → Analysis α}
    (h : Founded table inside keys s (f s.symbols)) : Founded table inside keys s (symbols >>= f) :=
  h

lemma graded_founded (table : SymbolTable) (inside : List CallableKey) :
    Graded (FoundedAt table inside) where
  pure s a := founded_of_stays (compositional_stays.pure s a)
  look h := h
  bind hm hf := by
    rw [FoundedAt, List.filterMap_append]
    exact founded_bind hm hf

lemma not_transGen_self {key : CallableKey} (h : Acc (Function.swap table.Contains) key) :
    ¬Relation.TransGen table.Contains key key := by
  induction h with
  | intro key _ ih =>
    intro hcycle
    obtain ⟨inner, hinner, hback⟩ := Relation.TransGen.head'_iff.mp hcycle
    exact ih inner hinner (Relation.TransGen.tail' hback hinner)

lemma mem_contained_iff {other : SymbolTable} (hcores : table.SameCores other) {key inner : CallableKey}
    {c : Callable} {body : Node} (hc : other.callable? key = some c) (hbody : c.body = some body) :
    inner ∈ table.contained key ↔ inner ∈ (c.stop body).route.filterMap Stop.declares? := by
  rw [← hcores.contained_eq, SymbolTable.contained_eq hc hbody, List.mem_filterMap,
    List.mem_filterMap]
  constructor
  · rintro ⟨visit, hvisit, hinner⟩
    obtain ⟨stop, hstop, rfl⟩ := @Stop.exists_mem_route_of_mem_visits (c.stop body) visit hvisit
    refine ⟨stop, hstop, ?_⟩
    rwa [Stop.declares?, Stop.file_of_mem_route hstop]
  · rintro ⟨stop, hstop, hinner⟩
    rw [Stop.declares?, Stop.file_of_mem_route hstop] at hinner
    exact ⟨stop.visit, Stop.visit_mem_visits_of_mem_route hstop, hinner⟩

lemma attends_founded (hquick : setup.settings.quick = true)
    (henter : ∀ s key context, table.SameCores s.symbols →
      Founded table inside [key] s (enter key context)) (stop : Stop) :
    Attends (OnCores table (FoundedAt table inside)) setup enter stop where
  assign target _ s context type _ _ := founded_of_stays (stays_assign s context target type)
  arrive s context _ _ := founded_of_stays (stays_arrive s context stop.node stop.declares?)
  check hnone s context _ _ := by
    change Founded table inside ([stop].filterMap Stop.declares?) s _
    rw [List.filterMap_cons_none hnone]
    exact founded_of_stays (stays_check hquick enter s context stop.parent stop.node)
  declare key hkey s context _ hcores := by
    have hcapture : Stays s (captureUses context key stop.node.uses) := by
      refine compositional_stays.plain s (Only.forM fun captured _ => ?_)
      exact Only.change (G := fun c => c.isWalk = false) rfl (.done _)
    change Founded table inside ([stop].filterMap Stop.declares?) s _
    rw [List.filterMap_cons_some hkey]
    refine founded_bind (founded_of_stays hcapture) fun _ t hrun => ?_
    refine founded_bind (founded_of_stays (stays_arrive t context stop.node (some key))) fun _ u harrive => ?_
    have hnext := henter u key context ((hcores.trans (sameCores_of_run hrun)).trans
      (sameCores_of_run harrive))
    refine @founded_bind _ _ _ _ (discard (enter key context)) _ u [key] [] ?_ fun _ v _ => ?_
    · exact founded_bind hnext fun _ v _ => founded_of_stays (compositional_stays.pure v _)
    · refine founded_of_stays (compositional_stays.bind ?_ fun _ w _ => compositional_stays.pure w _)
      exact compositional_stays.discard (stays_check hquick enter v context stop.parent stop.node)

lemma founded_walk (hquick : setup.settings.quick = true) (inside : List CallableKey) (stop : Stop)
    (s : Session)
    (henter : ∀ s key context, table.SameCores s.symbols →
      Founded table inside [key] s (enter key context)) {context : Context}
    (hcontext : Within stop.file stop.owner context) :
    OnCores table (FoundedAt table inside) stop.route s
      (walk setup enter context stop.parent stop.node) :=
  ((graded_founded table inside).onCores table).walk s stop.parent
    (fun stop _ => attends_founded hquick henter stop) hcontext

lemma founded_asWalkOf {s : Session} {key : CallableKey} {c : Callable} {body : Node}
    (hcores : table.SameCores s.symbols) (hc : s.symbols.callable? key = some c)
    (hbody : c.body = some body) {α : Type} {m : Analysis α}
    (h : FoundedAt table (key :: inside) (c.stop body).route (s.apply (.beginWalk key)) m) :
    Founded table inside [key] s (asWalkOf key m) := by
  intro hkeys a t hrun
  have hlead : ∀ inner ∈ (c.stop body).route.filterMap Stop.declares?, ∀ outer ∈ key :: inside,
      Relation.TransGen table.Contains outer inner := by
    intro inner hinner outer houter
    have hcontains : table.Contains key inner := (mem_contained_iff hcores hc hbody).mpr hinner
    rcases List.mem_cons.mp houter with rfl | houter
    · exact .single hcontains
    · exact .tail (hkeys key (List.mem_singleton_self _) outer houter) hcontains
  obtain ⟨hcloses, hreenters⟩ := Closes.asWalkOf hrun fun u hinner => (h hlead a u hinner).1
  obtain ⟨u, hinner, -, -⟩ := run_asWalkOf_eq_ok hrun
  obtain ⟨-, hnot, hacc⟩ := h hlead a u hinner
  have hkey : Acc (Function.swap table.Contains) key :=
    Acc.intro key fun inner hinner => hacc inner ((mem_contained_iff hcores hc hbody).mp hinner)
  -- all open bodies lead to this one, which would then lead to itself
  have hnew : key ∉ inside := by
    intro hinside
    exact not_transGen_self hkey (hkeys key (List.mem_singleton_self _) key hinside)
  refine ⟨hcloses, ?_, by simpa using hkey⟩
  rw [hreenters, hnot]
  simpa using hnew

/-- There is nothing to enter. -/
lemma founded_pure {α : Type} {key : CallableKey} (h : table.contained key = []) (s : Session) (a : α) :
    Founded table inside [key] s (pure a) := by
  have hstays : Stays s (pure a : Analysis α) := compositional_stays.pure s a
  intro _ b t hrun
  refine ⟨hstays.closes hrun, hstays.reenters_eq_false, fun other hother => ?_⟩
  rw [List.mem_singleton.mp hother]
  refine Acc.intro key fun inner hinner => ?_
  have hnone : inner ∈ table.contained key := hinner
  simp [h] at hnone

lemma founded_enterBody (hquick : setup.settings.quick = true) (fuel : Nat) (s : Session)
    (key : CallableKey) (outer : Context) (hcores : table.SameCores s.symbols) :
    Founded table inside [key] s (enterBody setup fuel key outer) := by
  induction fuel generalizing inside s key outer with
  | zero =>
    intro _ a t hrun
    cases hrun
  | succ fuel ih =>
    rw [enterBody]
    refine founded_symbols ?_
    have hnothing : s.symbols.contained key = [] → table.contained key = [] :=
      fun h => (hcores.contained_eq key).symm.trans h
    split
    · rename_i hc
      exact founded_pure (hnothing (by simp [SymbolTable.contained, hc])) s _
    · rename_i c hc
      split
      · rename_i hbody
        exact founded_pure (hnothing (by simp [SymbolTable.contained, hc, hbody])) s _
      · rename_i body hbody
        have hwalk := founded_walk hquick (key :: inside) (c.stop body) (s.apply (.beginWalk key)) ih
          (within_entryContext outer key c body) (hcores.trans (s.sameCores_apply _))
        have hentered := founded_asWalkOf hcores hc hbody hwalk
        exact founded_bind hentered fun _ t _ => founded_of_stays (compositional_stays.pure t _)

/-- A run in quick mode that ends enters no body from inside itself. -/
lemma reenters_walkUnits (hquick : setup.settings.quick = true) {units : List SourceUnit}
    {symbols : SymbolTable} {t : Session}
    (hrun : (walkUnits setup units).run { symbols } = .ok ((), t)) :
    reenters [] ((walkUnits setup units).changes { symbols }) = false := by
  have hgraded := (graded_founded symbols []).onCores symbols
  have hunit : ∀ (s : Session), ∀ unit ∈ units,
      OnCores symbols (FoundedAt symbols []) unit.stop.route s
        (discard (walkFile setup unit.path unit.root)) := by
    intro s unit _
    refine hgraded.discard (hgraded.symbols ?_)
    exact founded_walk hquick [] unit.stop s (founded_enterBody hquick _) ⟨rfl, rfl⟩
  have hfounded := hgraded.forM hunit { symbols } (.refl symbols)
  exact (hfounded (fun _ _ => List.forall_mem_nil _) () t hrun).2.1

end Founded

end Analysis

end PhpCheck
