import PhpCheck.Analysis.Inference
import PhpCheck.Proofs.Actions

/-!
# Inference in a run

What a run finds of an expression is what `infer` gives: it has the same type, and the faults that it
reports are the same in the same order. This holds for any log, so that an expression whose log is thrown
away has the type that it has with reports.
-/

namespace PhpCheck.Analysis

/-- The action reports the faults in turn and has the result, whatever the state is. -/
inductive Finds {α : Type} (file : String) : List OperandFault → α → Analysis α → Prop
  | done (result : α) : Finds file [] result (done result)
  | look {faults : List OperandFault} {result : α} {m : Analysis α} (h : Finds file faults result m) :
    Finds file faults result (look fun _ => m)
  | record {fault : OperandFault} {faults : List OperandFault} {result : α} {rest : Unit → Analysis α}
    (h : Finds file faults result (rest ())) : Finds file (fault :: faults) result
      (change (.record file fault.line (.lonelyArray fault.side)) rest)

namespace Finds

variable {α β : Type} {file : String} {faults more : List OperandFault} {a : α} {b : β} {m : Analysis α}
  {f : α → Analysis β}

lemma bind (hm : Finds file faults a m) (hf : Finds file more b (f a)) :
    Finds file (faults ++ more) b (m >>= f) := by
  induction hm with
  | done result => exact hf
  | look _ ih => exact .look (ih hf)
  | record _ ih => exact .record (ih hf)

lemma map (hm : Finds file faults a m) (g : α → β) :
    Finds file faults (g a) (m >>= fun x => pure (g x)) := by
  rw [← List.append_nil faults]
  exact hm.bind (.done _)

lemma run (hm : Finds file faults a m) (s : Session) : ∃ log, m.run s = .ok (a, { s with log }) := by
  induction hm generalizing s with
  | done result => exact ⟨s.log, rfl⟩
  | look _ ih => exact ih s
  | record _ ih => exact ih (s.apply (.record ..))

lemma only {G : Change → Prop} {F : Fault → Prop} (hm : Finds file faults a m)
    (hfaults : ∀ fault ∈ faults, G (.record file fault.line (.lonelyArray fault.side))) : m.Only G F := by
  induction hm with
  | done result => exact .done result
  | look _ ih => exact .look fun _ => ih hfaults
  | record _ ih =>
    obtain ⟨hfault, hrest⟩ := List.forall_mem_cons.mp hfaults
    exact .change hfault (ih hrest)

/-- Putting the log back undoes all that the action has done. -/
lemma session_quietly (hm : Finds file faults a m) (s : Session) : s.quietly m = .ok (a, s) := by
  obtain ⟨log, hrun⟩ := hm.run { s with log := ∅ }
  rw [Session.quietly, hrun]
  rfl

lemma quietly_eq (hm : Finds file faults a m) :
    quietly m = Analysis.look fun _ => Analysis.done a := by
  unfold quietly
  simp only [hm.session_quietly]

end Finds

/-- An expression is taken apart alike, with each fault reported where it is found. -/
lemma finds_inferring (s : SymbolTable) (context : Context) (node : Node) :
    Finds context.file (infer s context node).faults (infer s context node).type
      (inferring s context node) := by
  apply infer.induct s context
    (fun node => Finds context.file (infer s context node).faults (infer s context node).type
      (inferring s context node))
    (fun items => Finds context.file (inferItems s context items).faults
      (inferItems s context items).type (inferringItems s context items))
  case case3 =>
    intro line items ih
    rw [infer, inferring]
    exact ih.map Typing.arrayLiteral
  case case4 =>
    intro line base index ih
    rw [infer, inferring]
    exact ih.map Typing.element
  -- only the types of receivers and callees count
  case case5 | case10 | case11 =>
    intros
    rename_i ih
    rw [infer, inferring, ih.quietly_eq]
    exact .look (.done _)
  case case16 =>
    intro line operator left right hleft hright
    rw [infer, inferring, List.append_assoc]
    refine hleft.bind (hright.bind ?_)
    generalize Typing.binary operator (infer s context left).type (infer s context right).type = result
    obtain ⟨type, faulty⟩ := result
    cases faulty with
    | none => exact .done type
    | some side => exact .record (.done type)
  case case17 =>
    intro line operator operand ih
    rw [infer, inferring]
    exact ih.map (Typing.unary operator)
  case case19 | case20 =>
    intros
    rename_i hfirst hsecond
    rw [infer, inferring]
    exact hfirst.bind (hsecond.map (TypeSet.merge _))
  case case22 | case23 =>
    intros
    rename_i ih
    rw [infer, inferring]
    exact ih
  case case27 =>
    intro key value rest hvalue hrest
    rw [inferItems, inferringItems]
    exact hvalue.bind (hrest.map (TypeSet.merge _))
  -- the other expressions have no parts that are looked at
  all_goals
    intros
    simp only [infer, inferItems, inferring, inferringItems, *]
    exact .done _

variable (context : Context) (node : Node)

lemma run_typing (s : Session) :
    ∃ log, (typing context node).run s = .ok (typeOf s.symbols context node, { s with log }) :=
  (finds_inferring s.symbols context node).run s

/-- Inferring a type on an empty log and putting the old one back leaves no trace. -/
lemma session_quietly_typing (s : Session) :
    s.quietly (typing context node) = .ok (typeOf s.symbols context node, s) :=
  (finds_inferring s.symbols context node).session_quietly s

lemma inferQuietly_eq : inferQuietly context node = symbols >>= fun s => pure (typeOf s context node) := by
  unfold inferQuietly quietly
  simp only [session_quietly_typing]
  rfl

end PhpCheck.Analysis
