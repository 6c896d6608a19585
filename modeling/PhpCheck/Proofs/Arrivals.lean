import PhpCheck.Proofs.Reentry

/-!
# The declarations that a run comes to

A run that ends has come to every declaration on the way through its units, has entered the body that is
filed for it, and has then come to every declaration on the way through that body, and so on. The
declarations of one walk are found by `Graded.walk`, those of the bodies that it enters by `Carried`.
-/

namespace PhpCheck

/-- The stop is on the way through a unit, or through the body of a declaration that is itself on the
way. -/
inductive Stop.Visited (units : List SourceUnit) (table : SymbolTable) : Stop → Prop where
  | unit {unit : SourceUnit} {stop : Stop} (hunit : unit ∈ units) (hstop : stop ∈ unit.stop.route) :
    Visited units table stop
  | body {outer stop : Stop} {key : CallableKey} (houter : Visited units table outer)
    (hkey : outer.declares? = some key) (hstop : stop ∈ table.bodyStops key) : Visited units table stop

lemma Stop.Visited.reached {units : List SourceUnit} {table : SymbolTable} {stop : Stop}
    (h : stop.Visited units table) : stop.Reached units table := by
  cases h with
  | unit hunit hstop => exact .unit hunit hstop
  | body _ _ hstop =>
    obtain ⟨c, hc, hstop⟩ := List.mem_flatMap.mp hstop
    obtain ⟨body, hbody, hstop⟩ := List.mem_flatMap.mp hstop
    exact .body (Option.mem_toList.mp hc) (Option.mem_toList.mp hbody) hstop

namespace Analysis

/-- Among the steps are the arrival at the declaration and the entry into the body that the table has for
its key. -/
structure ComesTo (table : SymbolTable) (steps : List (Session × Change)) (stop : Stop)
    (key : CallableKey) : Prop where
  arrives : ∃ s context, (s, Change.arrive context stop.node (some key)) ∈ steps ∧ Reaches stop context
  enters : ∀ c, table.callable? key = some c → c.body.isSome = true →
    ∃ s, (s, Change.beginWalk key) ∈ steps

lemma ComesTo.mono {table : SymbolTable} {first all : List (Session × Change)} {stop : Stop}
    {key : CallableKey} (h : ComesTo table first stop key) (hsteps : first ⊆ all) :
    ComesTo table all stop key := by
  obtain ⟨⟨s, context, harrive, hreaches⟩, henters⟩ := h
  refine ⟨⟨s, context, hsteps harrive, hreaches⟩, fun c hc hbody => ?_⟩
  obtain ⟨u, hbegin⟩ := henters c hc hbody
  exact ⟨u, hsteps hbegin⟩

/-- The steps come to all declarations among the stops. -/
def ComesToAll (table : SymbolTable) (steps : List (Session × Change)) (stops : List Stop) : Prop :=
  ∀ stop ∈ stops, ∀ key, stop.declares? = some key → ComesTo table steps stop key

lemma ComesToAll.mono {table : SymbolTable} {first all : List (Session × Change)} {stops : List Stop}
    (h : ComesToAll table first stops) (hsteps : first ⊆ all) : ComesToAll table all stops :=
  fun stop hstop key hkey => (h stop hstop key hkey).mono hsteps

/-! ### The declarations of one walk -/

/-- If the action ends, it has come to the declarations among the stops. -/
def Tours (table : SymbolTable) {α : Type} (stops : List Stop) (s : Session) (m : Analysis α) : Prop :=
  ∀ a t, m.run s = .ok (a, t) → ComesToAll table (m.steps s) stops

variable {table : SymbolTable} {units : List SourceUnit} {setup : Setup}

lemma graded_tours (table : SymbolTable) : Graded (Tours table) where
  pure _ _ _ _ _ := List.forall_mem_nil _
  look h := h
  bind {α β m f s first rest} hm hf b u hrun := by
    obtain ⟨a, t, hfirst, hrest⟩ := run_bind_eq_ok hrun
    rw [steps_bind hfirst]
    refine List.forall_mem_append.mpr ⟨?_, ?_⟩
    · exact (hm a t hfirst).mono (List.subset_append_left ..)
    · exact (hf a t hfirst b u hrest).mono (List.subset_append_right ..)

/-- To enter a callable with a body is to walk it. -/
lemma exists_beginWalk_of_enterBody {fuel : Nat} {key : CallableKey} {outer : Context} {s t : Session}
    {result : Option Context} (hrun : (enterBody setup fuel key outer).run s = .ok (result, t))
    {c : Callable} (hc : s.symbols.callable? key = some c) (hbody : c.body.isSome = true) :
    ∃ u, (u, Change.beginWalk key) ∈ (enterBody setup fuel key outer).steps s := by
  obtain ⟨body, hbody⟩ := Option.isSome_iff_exists.mp hbody
  cases fuel with
  | zero => cases hrun
  | succ fuel =>
    rw [enterBody] at hrun ⊢
    obtain ⟨symbols, s', hsymbols, hrun⟩ := run_bind_eq_ok hrun
    rw [steps_bind hsymbols]
    cases hsymbols
    simp only [hc, hbody] at hrun ⊢
    obtain ⟨final, u, hwalk, -⟩ := run_bind_eq_ok hrun
    obtain ⟨v, -, -, hsteps⟩ := run_asWalkOf_eq_ok hwalk
    refine ⟨s, List.mem_append_right _ ?_⟩
    rw [map_eq_pure_bind, steps_bind hwalk, hsteps]
    simp

/-- At a declaration the walk arrives and enters the body under one and the same key. -/
lemma comesTo_of_declareAt {fuel : Nat} {context after : Context} {stop : Stop} {key : CallableKey}
    {s t : Session} (hreaches : Reaches stop context) (hcores : table.SameCores s.symbols)
    (hrun : (declareAt setup (enterBody setup fuel) context stop key).run s = .ok (after, t)) :
    ComesTo table ((declareAt setup (enterBody setup fuel) context stop key).steps s) stop key := by
  rw [declareAt] at hrun ⊢
  obtain ⟨⟨⟩, u, hcapture, hrun⟩ := run_bind_eq_ok hrun
  obtain ⟨⟨⟩, v, harrive, hrun⟩ := run_bind_eq_ok hrun
  obtain ⟨⟨⟩, w, hdiscard, -⟩ := run_bind_eq_ok hrun
  obtain ⟨result, w', henter, -⟩ := run_bind_eq_ok hdiscard
  rw [steps_bind hcapture, steps_bind harrive, steps_bind hdiscard]
  refine ⟨⟨u, context, ?_, hreaches⟩, fun c hc hbody => ?_⟩
  · exact List.mem_append_right _ (List.mem_append_left _ (List.mem_singleton_self _))
  · have hcores : table.SameCores v.symbols :=
      (hcores.trans (sameCores_of_run hcapture)).trans (sameCores_of_run harrive)
    obtain ⟨d, hd, hcore⟩ := hcores.exists_callable hc
    have hsame : d.core.body = c.core.body := by rw [hcore]
    obtain ⟨begin, hbegin⟩ := exists_beginWalk_of_enterBody henter hd ((congrArg _ hsame).trans hbody)
    have hsteps : (discard (enterBody setup fuel key context)).steps v =
        (enterBody setup fuel key context).steps v ++ [] := steps_bind henter
    refine ⟨begin, List.mem_append_right _ (List.mem_append_right _ (List.mem_append_left _ ?_))⟩
    rw [hsteps]
    exact List.mem_append_left _ hbegin

lemma attends_tours (fuel : Nat) (stop : Stop) :
    Attends (OnCores table (Tours table)) setup (enterBody setup fuel) stop where
  assign _ _ _ _ _ _ _ _ _ _ := List.forall_mem_nil _
  arrive _ _ _ _ _ _ _ := List.forall_mem_nil _
  check hnone _ _ _ _ _ _ _ := List.forall_mem_singleton.mpr fun key hkey => by
    rw [hnone] at hkey
    cases hkey
  declare key hkey s context hreaches hcores after t hrun := by
    refine List.forall_mem_singleton.mpr fun key' hkey' => ?_
    cases hkey.symm.trans hkey'
    exact comesTo_of_declareAt hreaches hcores hrun

lemma tours_walk (setup : Setup) (fuel : Nat) (stop : Stop) {context : Context} (s : Session)
    (hcontext : Within stop.file stop.owner context) :
    OnCores table (Tours table) stop.route s
      (walk setup (enterBody setup fuel) context stop.parent stop.node) :=
  ((graded_tours table).onCores table).walk s stop.parent (fun stop _ => attends_tours fuel stop) hcontext

lemma tours_walkUnits (setup : Setup) (units : List SourceUnit) (s : Session) (hcores : table.SameCores s.symbols) :
    Tours table (units.flatMap fun unit => unit.stop.route) s (walkUnits setup units) := by
  have hgraded := (graded_tours table).onCores table
  refine hgraded.forM (fun s unit _ => hgraded.discard (hgraded.symbols ?_)) s hcores
  exact tours_walk setup _ unit.stop s ⟨rfl, rfl⟩

/-! ### The declarations of the bodies -/

/-- If the action ends, it has come to the declarations of all bodies that it enters. -/
def ToursBodies (table : SymbolTable) {α : Type} (s : Session) (m : Analysis α) : Prop :=
  ∀ a t, m.run s = .ok (a, t) → ∀ step ∈ m.steps s, ∀ key, step.2 = .beginWalk key →
    ComesToAll table (m.steps s) (table.bodyStops key)

lemma sequential_toursBodies (table : SymbolTable) : Sequential (ToursBodies table) where
  pure _ _ _ _ _ := List.forall_mem_nil _
  look h := h
  bind {α β m f s} hm hf b u hrun := by
    obtain ⟨a, t, hfirst, hrest⟩ := run_bind_eq_ok hrun
    rw [steps_bind hfirst]
    refine List.forall_mem_append.mpr ⟨fun step hstep key hkey => ?_, fun step hstep key hkey => ?_⟩
    · exact (hm a t hfirst step hstep key hkey).mono (List.subset_append_left ..)
    · exact (hf a t hfirst b u hrest step hstep key hkey).mono (List.subset_append_right ..)

lemma Stays.toursBodies {α : Type} {m : Analysis α} {s : Session} (h : Stays s m) :
    ToursBodies table s m := by
  intro a t _ step hstep key hkey
  have hwalk := h step hstep
  rw [hkey] at hwalk
  cases hwalk

lemma carried_toursBodies (table : SymbolTable) (units : List SourceUnit) :
    Carried table units fun _ _ _ => ToursBodies table where
  graded _ := (sequential_toursBodies table).graded
  fault _ _ _ _ _ _ hrun := by cases hrun
  routine _ _ _ _ _ s hm := Stays.toursBodies fun step hstep => (hm.of_mem_steps hstep).isWalk_eq_false
  arrive _ stop _ s context _ _ := (stays_arrive s context stop.node stop.declares?).toursBodies
  returns _ _ _ s context value _ _ := (stays_checkReturn s context value).toursBodies
  noOp _ stop _ _ s context _ := (stays_checkNoOp s context stop.parent stop.node).toursBodies
  other _ _ _ _ _ _ h := h
  body _ key s c body hcores hc hbody setup fuel outer := by
    intro m hm a t hrun
    obtain ⟨u, hinner, -, hsteps⟩ := run_asWalkOf_eq_ok hrun
    have hsubset : m.steps (s.apply (.beginWalk key)) ⊆ (asWalkOf key m).steps s := by
      rw [hsteps]
      exact List.subset_append_of_subset_left _ (List.subset_append_right ..)
    intro step hstep key' hkey'
    rw [hsteps] at hstep
    simp only [List.mem_append, List.mem_singleton] at hstep
    rcases hstep with (rfl | hstep) | rfl
    · cases hkey'
      rw [hcores.bodyStops_eq_route hc hbody]
      have htours := tours_walk setup fuel (c.stop body) (s.apply (.beginWalk key))
        (within_entryContext outer key c body) (hcores.trans (s.sameCores_apply _))
      exact (htours a u hinner).mono hsubset
    · exact (hm a u hinner step hstep key' hkey').mono hsubset
    · cases hkey'

/-- A run that ends has come to every declaration on its way. -/
lemma comesTo_of_visited (hcollect : SymbolTable.builtin.collectUnits units = .ok table) {t : Session}
    (hrun : (walkUnits setup units).run { symbols := table } = .ok ((), t)) {stop : Stop}
    (hvisited : stop.Visited units table) :
    ∀ key, stop.declares? = some key →
      ComesTo table ((walkUnits setup units).steps { symbols := table }) stop key := by
  induction hvisited with
  | @unit unit stop hunit hstop =>
    have htours := tours_walkUnits setup units { symbols := table } (.refl table) () t hrun
    exact htours stop (List.mem_flatMap.mpr ⟨unit, hunit, hstop⟩)
  | body _ hkey hstop ih =>
    obtain ⟨c, hc, hmem⟩ := List.mem_flatMap.mp hstop
    obtain ⟨body, hbody, -⟩ := List.mem_flatMap.mp hmem
    have hsome : c.body.isSome = true := Option.isSome_of_mem (Option.mem_toList.mp hbody)
    obtain ⟨s, hbegin⟩ := (ih _ hkey).enters c (Option.mem_toList.mp hc) hsome
    exact (carried_toursBodies table units).program hcollect setup () t hrun _ hbegin _ rfl _ hstop

end Analysis

end PhpCheck
