import PhpCheck.Proofs.Arrivals
import PhpCheck.Proofs.Conduct
import PhpCheck.Proofs.Registration

/-!
# The identities of declarations

The collection of declarations and the walk find the identity of a function, method or closure each in
its own way: the one from the classes it has gone into, the other from a context that is made anew
whenever a body is entered. As long as nothing is declared twice, every declaration that a run arrives at
has its own callable under the identity that the run takes from its context. A run that ends has arrived
at every declaration on its way and has entered its body.
-/

namespace PhpCheck

/-- Both are at the same node of the same file, in the same class in whatever spelling. -/
structure Stop.Matches (stop place : Stop) : Prop where
  file : stop.file = place.file
  owner : stop.owner.map Text.canonical = place.owner.map Text.canonical
  node : stop.node = place.node

lemma Stop.Matches.declares? {stop place : Stop} (h : stop.Matches place) :
    stop.declares? = place.declares? := by
  obtain ⟨file, owner, parent, node⟩ := stop
  obtain ⟨file', owner', parent', node'⟩ := place
  obtain ⟨rfl, howner, rfl⟩ := h
  simp only [Stop.declares?, Visit.declares?, Stop.visit]
  split
  · rfl
  · rename_i decl hkind
    have hkeys := congrArg (Option.map (CallableKey.method · (Text.lowered decl.name))) howner
    simpa only [Option.map_map, Function.comp_def, CallableKey.ofMethod] using hkeys
  · rfl
  · rfl

/-- The walk goes on to parts that the collection goes on to. -/
lemma Stop.Matches.next {stop place after : Stop} (h : stop.Matches place) (hafter : after ∈ stop.next) :
    ∃ part ∈ place.parts, after.Matches part := by
  obtain ⟨file, owner, parent, node⟩ := stop
  obtain ⟨file', owner', parent', node'⟩ := place
  obtain ⟨rfl, howner, rfl⟩ := h
  obtain ⟨visit, hvisit, rfl⟩ := List.mem_map.mp hafter
  simp only [Stop.visit, Visit.next] at hvisit
  split at hvisit
  · rename_i decl hkind
    rw [List.mem_singleton.mp hvisit]
    have hpart : (⟨file, some (Text.unrooted decl.name), some node, decl.body⟩ : Stop) ∈
        Stop.parts ⟨file, owner', parent', node⟩ := by
      simp [Stop.parts, Stop.innerOwner?, hkind, Node.children, Kind.children]
    exact ⟨_, hpart, rfl, by simp [Text.canonical_unrooted], rfl⟩
  · cases hvisit
  · cases hvisit
  · cases hvisit
  · obtain ⟨child, hchild, rfl⟩ := List.mem_map.mp hvisit
    have hinner : Stop.innerOwner? ⟨file, owner', parent', node⟩ = some owner' := by
      unfold Stop.innerOwner?
      split <;> simp_all
    have hpart : (⟨file, owner', some node, child⟩ : Stop) ∈
        Stop.parts ⟨file, owner', parent', node⟩ := by
      simpa [Stop.parts, hinner] using hchild
    exact ⟨_, hpart, rfl, howner, rfl⟩

/-- A walk that starts where the collection has been stays where the collection has been. -/
lemma Stop.Matches.of_mem_route {units : List SourceUnit} {start place stop : Stop}
    (h : start.Matches place) (hplace : place ∈ units.flatMap SourceUnit.places)
    (hstop : stop ∈ start.route) :
    ∃ place ∈ units.flatMap SourceUnit.places, stop.Matches place := by
  refine Stop.forall_mem_route (P := fun stop => ∃ place ∈ units.flatMap SourceUnit.places,
    stop.Matches place) ?_ ⟨place, hplace, h⟩ stop hstop
  rintro stop ⟨place, hplace, h⟩ after hafter
  obtain ⟨part, hpart, h⟩ := h.next hafter
  exact ⟨part, SourceUnit.mem_places_of_parts hplace hpart, h⟩

/-- The collection goes on to the body of a callable. -/
lemma Stop.mem_parts_of_body? {stop : Stop} {key : CallableKey} {body : Node}
    (hkey : stop.declares? = some key) (hbody : stop.node.body? = some body) :
    ⟨stop.file, stop.owner, some stop.node, body⟩ ∈ stop.parts := by
  obtain ⟨file, owner, parent, ⟨line, kind⟩⟩ := stop
  cases kind
  case functionDecl decl =>
    cases hbody
    exact List.mem_singleton_self _
  case methodDecl decl =>
    obtain ⟨name, rfl, -⟩ := Option.map_eq_some_iff.mp hkey
    refine List.mem_map.mpr ⟨body, ?_, rfl⟩
    exact Option.mem_toList.mpr hbody
  case closure decl =>
    cases hbody
    exact List.mem_singleton_self _
  all_goals cases hbody

/-- The collection has been wherever the walk comes. -/
lemma Stop.Reached.exists_matches {units : List SourceUnit} {table : SymbolTable} {stop : Stop}
    (h : stop.Reached units table)
    (hregisters : Registers (units.flatMap SourceUnit.places) SymbolTable.builtin table) :
    ∃ place ∈ units.flatMap SourceUnit.places, stop.Matches place := by
  cases h with
  | @unit unit hunit hstop =>
    have hplace : unit.stop ∈ units.flatMap SourceUnit.places :=
      List.mem_flatMap.mpr ⟨unit, hunit, unit.stop.self_mem_places⟩
    exact Stop.Matches.of_mem_route ⟨rfl, rfl, rfl⟩ hplace hstop
  | @body key c body hc hbody hstop =>
    obtain ⟨place, hplace, hkey, hstands⟩ := hregisters.exists_place hc hbody
    have hpart := Stop.mem_parts_of_body? hkey (hstands.body.symm.trans hbody)
    have hstart : (c.stop body).Matches ⟨place.file, place.owner, some place.node, body⟩ :=
      ⟨congrArg Site.file hstands.site, congrArg (Option.map Text.canonical) hstands.owner, rfl⟩
    exact hstart.of_mem_route (SourceUnit.mem_places_of_parts hplace hpart) hstop

/-- What is filed under the key of a stop is declared there. -/
lemma Stop.Reached.exists_callable {units : List SourceUnit} {table s : SymbolTable} {stop : Stop}
    (h : stop.Reached units s) (hcores : table.SameCores s)
    (hregisters : Registers (units.flatMap SourceUnit.places) SymbolTable.builtin table)
    {key : CallableKey} (hkey : stop.declares? = some key) :
    ∃ c, s.callable? key = some c ∧ c.body = stop.node.body? ∧ c.site = ⟨stop.file, stop.node.line⟩ ∧
      c.owner.map Text.canonical = stop.owner.map Text.canonical := by
  obtain ⟨place, hplace, hmatches⟩ := (h.of_sameCores hcores).exists_matches hregisters
  rw [hmatches.declares?] at hkey
  obtain ⟨c, hc, hstands⟩ := hregisters.declared place hplace key hkey
  obtain ⟨d, hd, hcore⟩ := hcores.exists_callable hc
  have hbody : d.core.body = c.core.body := by rw [hcore]
  have hsite : d.core.site = c.core.site := by rw [hcore]
  have howner : d.core.owner = c.core.owner := by rw [hcore]
  refine ⟨d, hd, ?_, ?_, ?_⟩
  · rw [hmatches.node]
    exact hbody.trans hstands.body
  · rw [hmatches.node, hmatches.file]
    exact hsite.trans hstands.site
  · rw [hmatches.owner]
    exact congrArg (Option.map Text.canonical) (howner.trans hstands.owner)

namespace Analysis

/-- Wherever a run arrives at a declaration, it is on its way, its context is in the file and class of the
declaration, and under the key that it takes from the context the declaration has its own callable. A run
that ends has arrived at every declaration on the way through the units and, from there, through the
bodies of declarations, and has entered their bodies under that key. -/
theorem declarations_found_by_walk {units : List SourceUnit} {table : SymbolTable}
    (hcollect : SymbolTable.builtin.collectUnits units = .ok table)
    (hunambiguous : Unambiguous (units.flatMap SourceUnit.places) SymbolTable.builtin) (setup : Setup) :
    (∀ s context node key,
      (s, Change.arrive context node key) ∈ (walkUnits setup units).steps { symbols := table } →
      ∃ stop : Stop, stop.Reached units table ∧ Reaches stop context ∧ stop.node = node ∧
        stop.declares? = key ∧
        ∀ found, key = some found → ∃ c, s.symbols.callable? found = some c ∧ c.body = node.body? ∧
          c.site = ⟨context.file, node.line⟩ ∧
          c.owner.map Text.canonical = context.owner.map Text.canonical) ∧
    ∀ t, (walkUnits setup units).run { symbols := table } = .ok ((), t) →
      ∀ stop : Stop, stop.Visited units table → ∀ key, stop.declares? = some key →
        (∃ s context, (s, Change.arrive context stop.node (some key)) ∈
          (walkUnits setup units).steps { symbols := table } ∧ Reaches stop context) ∧
        (stop.node.body?.isSome = true →
          ∃ s, (s, Change.beginWalk key) ∈ (walkUnits setup units).steps { symbols := table }) := by
  have hregisters := collectUnits_registers hcollect hunambiguous
  refine ⟨fun s context node key hstep => ?_, fun t hrun stop hvisited key hkey => ?_⟩
  · obtain ⟨stop, hreached, hreaches, rfl, rfl⟩ := behaves_walkUnits hcollect _ hstep
    have hcores : table.SameCores s.symbols :=
      sameCores_of_mem_moments (mem_moments_of_mem_steps hstep)
    refine ⟨stop, hreached.of_sameCores hcores, hreaches, rfl, rfl, fun found hfound => ?_⟩
    rw [hreaches.within.file, hreaches.within.owner]
    exact hreached.exists_callable hcores hregisters hfound
  · have hcomes := comesTo_of_visited hcollect hrun hvisited key hkey
    obtain ⟨c, hc, hbody, -⟩ := hvisited.reached.exists_callable (.refl table) hregisters hkey
    exact ⟨hcomes.arrives, fun hsome => hcomes.enters c hc (hbody ▸ hsome)⟩

/-- A closure in the default value of a property, and a method of a class that is declared in the body of
a method. The walk comes to the closure in `\\A`, the collection in `A`. -/
theorem declarations_found_by_walk_nestedClass :
    let go : Node := ⟨5, .methodDecl ⟨"go", [], none, false, some ⟨5, .statementList []⟩⟩⟩
    let nested : Node := ⟨4, .classDecl ⟨"B", none, false, ⟨4, .statementList [go]⟩⟩⟩
    let body : Node := ⟨3, .statementList [nested]⟩
    let run : Node := ⟨3, .methodDecl ⟨"run", [], none, false, some body⟩⟩
    let literal : Node := ⟨2, .closure ⟨[], [], none, false, ⟨2, .statementList []⟩⟩⟩
    let property : Node := ⟨2, .propertyDecl ⟨"p", none, false, some literal⟩⟩
    let root : Node := ⟨1, .classDecl ⟨"\\A", none, false, ⟨1, .statementList [property, run]⟩⟩⟩
    let units : List SourceUnit := [⟨"a.php", root, none⟩]
    ∃ table, SymbolTable.builtin.collectUnits units = .ok table ∧
      (∃ s context, (s, Change.arrive context literal (some (.ofClosure "a.php" 2))) ∈
        (walkUnits {} units).steps { symbols := table } ∧ context.owner = some "\\A" ∧
        ∃ c, s.symbols.callable? (.ofClosure "a.php" 2) = some c ∧ c.body = literal.body? ∧
          c.site = ⟨"a.php", 2⟩) ∧
      ∃ s context, (s, Change.arrive context go (some (.ofMethod "B" "go"))) ∈
        (walkUnits {} units).steps { symbols := table } ∧ context.owner = some "B" ∧
        ∃ c, s.symbols.callable? (.ofMethod "B" "go") = some c ∧ c.body = go.body? ∧
          c.site = ⟨"a.php", 5⟩ := by
  intro go nested body run literal property root units
  have hunambiguous : Unambiguous (units.flatMap SourceUnit.places) SymbolTable.builtin :=
    ⟨by decide +kernel, by decide +kernel, by decide +kernel, by decide +kernel, by decide +kernel⟩
  apply exists_ok_of_any
    (fun table => ((walkUnits {} units).run { symbols := table }).toOption.any fun _ => true)
    (by decide +kernel)
  intro table htable hends
  obtain ⟨⟨⟨⟩, t⟩, hrun, -⟩ := exists_ok_of_any _ hends fun _ _ _ => trivial
  obtain ⟨hfound, hall⟩ := declarations_found_by_walk htable hunambiguous {}
  have harrival : ∀ stop : Stop, stop.Visited units table → ∀ key, stop.declares? = some key →
      ∃ s context, (s, Change.arrive context stop.node (some key)) ∈
        (walkUnits {} units).steps { symbols := table } ∧ context.owner = stop.owner ∧
        ∃ c, s.symbols.callable? key = some c ∧ c.body = stop.node.body? ∧
          c.site = ⟨stop.file, stop.node.line⟩ := by
    intro stop hstop key hkey
    obtain ⟨⟨s, context, harrive, hreaches⟩, -⟩ := hall t hrun stop hstop key hkey
    obtain ⟨-, -, -, -, -, hcallable⟩ := hfound s context stop.node _ harrive
    obtain ⟨c, hc, hbody, hsite, -⟩ := hcallable key rfl
    rw [hreaches.within.file] at hsite
    exact ⟨s, context, harrive, hreaches.within.owner, c, hc, hbody, hsite⟩
  have hliteral : Stop.Visited units table ⟨"a.php", some "\\A", some property, literal⟩ := by
    refine .unit (List.mem_singleton_self _) ?_
    apply Stop.mem_route_of_next (List.mem_singleton_self _)
    apply Stop.mem_route_of_next (List.mem_cons_self ..)
    exact Stop.mem_route_of_next (List.mem_singleton_self _) (Stop.self_mem_route _)
  have hmethod : Stop.Visited units table
      ⟨"a.php", some "\\A", some ⟨1, .statementList [property, run]⟩, run⟩ := by
    refine .unit (List.mem_singleton_self _) ?_
    apply Stop.mem_route_of_next (List.mem_singleton_self _)
    exact Stop.mem_route_of_next (List.mem_cons_of_mem _ (List.mem_cons_self ..))
      (Stop.self_mem_route _)
  have hgo : Stop.Visited units table ⟨"a.php", some "B", some ⟨4, .statementList [go]⟩, go⟩ := by
    obtain ⟨s, context, harrive, -, c, hc, hbody, hsite⟩ := harrival _ hmethod _ rfl
    have hcores := sameCores_of_mem_moments (mem_moments_of_mem_steps harrive)
    refine .body hmethod rfl ?_
    rw [SymbolTable.SameCores.bodyStops_eq_route hcores hc hbody, Callable.stop, hsite]
    apply Stop.mem_route_of_next (List.mem_singleton_self _)
    apply Stop.mem_route_of_next (List.mem_singleton_self _)
    exact Stop.mem_route_of_next (List.mem_singleton_self _) (Stop.self_mem_route _)
  exact ⟨harrival _ hliteral _ rfl, harrival _ hgo _ rfl⟩

end Analysis

end PhpCheck
