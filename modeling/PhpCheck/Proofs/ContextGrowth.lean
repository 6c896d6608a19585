import PhpCheck.Proofs.Steps

/-!
# Contexts along a walk

The walk of a node leaves the place of its context alone and only adds to the variables of the innermost
scope, whatever bodies are entered on the way.
-/

namespace PhpCheck.Analysis

variable {setup : Setup} {enter : Enter}

lemma results_check (context : Context) (parent : Option Node) {node : Node}
    (hnode : ∀ decl, node.kind ≠ .closure decl) :
    (check setup enter context parent node).Results context.Stays := by
  have hform := @check_form setup enter _ _ context context.at_file parent node fun _ _ => trivial
  generalize node.isIdle = idle, check setup enter context parent node = m at hform
  cases hform with
  | assign byReference _ _ => exact results_checkAssign _ _ _ _
  | call _ _ => exact results_checkCall _ _ _
  | new reference _ => exact results_checkNew _ _ _
  | staticCall reference method _ => exact results_checkStaticCall _ _ _ _
  | methodCall receiver method _ => exact results_checkMethodCall _ _ _ _
  | returns _ => exact results_bind fun _ => .done (.refl context)
  | quiet h => exact h.2
  | idle _ hafter =>
    obtain rfl | ⟨decl, hkind⟩ := hafter
    · exact results_bind fun _ => results_bind fun _ => .done (.refl _)
    · exact absurd hkind (hnode decl)

/-- The check that ends a walk brings the context back to the line of the node. -/
lemma results_check_atLine {outer context : Context} (h : outer.Continues context)
    (parent : Option Node) {node : Node} (hnode : ∀ decl, node.kind ≠ .closure decl) :
    (check setup enter (context.atLine node.line) parent node).Results fun after =>
      outer.Continues after ∧ after.line = node.line := by
  refine (results_check _ parent hnode).mono fun after hafter => ⟨?_, hafter.line⟩
  exact (h.trans (context.continues_atLine _)).trans hafter.continues

lemma results_walk (context : Context) (parent : Option Node) (node : Node) :
    (walk setup enter context parent node).Results fun after =>
      context.Continues after ∧ after.line = node.line := by
  fun_induction walk setup enter context parent node with
  -- what a declaration contributes is dropped, the check of a closure included
  | case1 outer parent line decl context =>
    exact results_bind fun _ => results_bind fun _ => .done ⟨outer.continues_atLine _, rfl⟩
  | case2 outer parent line decl key context =>
    exact results_bind fun _ => results_bind fun _ => results_bind fun _ =>
      .done ⟨outer.continues_atLine _, rfl⟩
  | case3 outer parent line decl owner context howner =>
    rw [howner]
    exact results_bind fun _ => results_bind fun _ => results_bind fun _ =>
      .done ⟨outer.continues_atLine _, rfl⟩
  | case4 outer parent line decl context howner =>
    rw [howner]
    exact results_bind fun _ => results_bind fun _ => .done ⟨outer.continues_atLine _, rfl⟩
  | case5 outer parent line decl context key =>
    exact results_bind fun _ => results_bind fun _ => results_bind fun _ => results_bind fun _ =>
      .done ⟨outer.continues_atLine _, rfl⟩
  | case6 outer parent line subject value body byReference context hsubject hvalue hbody =>
    refine hsubject.bind fun c₁ h₁ => results_bind fun table => ?_
    refine (results_assign _ _ _).bind fun c₂ h₂ => (hvalue c₂).bind fun c₃ h₃ => ?_
    refine (hbody c₃).bind fun c₄ h₄ => results_check_atLine ?_ parent (by simp)
    exact ((((outer.continues_atLine line).trans h₁.1).trans h₂.continues).trans h₃.1).trans h₄.1
  | case7 outer parent line subject key value body byReference context hsubject hkey hvalue hbody =>
    refine hsubject.bind fun c₁ h₁ => results_bind fun table => ?_
    refine (results_assign _ _ _).bind fun c₂ h₂ => (hkey c₂).bind fun c₃ h₃ => ?_
    refine (results_assign _ _ _).bind fun c₄ h₄ => (hvalue c₄).bind fun c₅ h₅ => ?_
    refine (hbody c₅).bind fun c₆ h₆ => results_check_atLine ?_ parent (by simp)
    have hvalues := (((outer.continues_atLine line).trans h₁.1).trans h₂.continues).trans h₃.1
    exact ((hvalues.trans h₄.continues).trans h₅.1).trans h₆.1
  | case8 outer parent node _ _ _ hclosure _ _ context hchildren =>
    refine Results.bind (P := outer.Continues) ?_ fun c hc => ?_
    · refine Results.foldlM (fun c child _ hc => ?_) (outer.continues_atLine node.line)
      exact (hchildren c child).mono fun after hafter => hc.trans hafter.1
    · refine results_check_atLine hc parent ?_
      obtain ⟨line, kind⟩ := node
      rintro decl rfl
      exact hclosure line decl rfl

/-- A walk that returns has left the place of its context alone but for the line, which is that of the
node. The variables that were open have at most gained types, and the new ones come after them. -/
theorem walk_continues {setup : Setup} {enter : Enter} {context after : Context}
    {parent : Option Node} {node : Node} {s t : Session}
    (hrun : (walk setup enter context parent node).run s = .ok (after, t)) :
    context.Continues after ∧ after.line = node.line :=
  (results_walk context parent node).of_run hrun

theorem walk_continues_referenceCall :
    let context : Context := {
      file := "a.php", line := 9, callable := some (.ofFunction "f"),
      scope := Scope.bind {} { name := "x", type := .of .int, site := ⟨"a.php", 8⟩ } }
    let x (name : String) : Node := ⟨2, .var (.literal name)⟩
    let program : Node := ⟨1, .statementList [
      ⟨1, .functionDecl ⟨"g", [⟨"r", none, true, false, none⟩], none,
        ⟨1, .assign (x "r") ⟨1, .literal (.string "s")⟩⟩⟩⟩,
      ⟨2, .call ⟨2, .identifier "g"⟩ [x "x"]⟩]⟩
    let symbols := (SymbolTable.collect {} "a.php" program).2
    ∃ r, (walk {} (enterBody {} 2) context none program).run { symbols } = .ok r ∧
      context.Continues r.1 ∧ r.1.line = 1 :=
  exists_ok_of_any (fun _ => true) (by decide +kernel) fun _ hrun _ => walk_continues hrun

end PhpCheck.Analysis
