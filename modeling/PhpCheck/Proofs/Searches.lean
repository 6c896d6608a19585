import PhpCheck.Proofs.Statements

/-!
# How often an operator is looked at

The check of a node asks for the types of some of its parts, and an arithmetic operator in a part is looked
at if the type depends on its result. Nodes hand on no type that their check has asked for, except for
assignments. So an operator is looked at once, and once more for each assignment whose type is asked for
together with that of the value.
-/

namespace PhpCheck

namespace Node

/-- The parts in which operators are looked at when the type of the node is asked for. -/
def searchedParts (node : Node) : List Node :=
  match node.kind with
  | .array items => items.map ArrayItem.value
  | .dim base _ => [base]
  | .binary _ left right => [left, right]
  | .unary _ operand => [operand]
  | .conditional condition consequent otherwise => [consequent.getD condition, otherwise]
  | .assign _ value | .assignRef _ value => [value]
  | _ => []

/-- The parts whose types the check of the node asks for. -/
def typedParts (node : Node) : List Node :=
  match node.kind with
  | .assign _ value | .assignRef _ value => [value]
  | .ifElement (some condition) _ | .switchCase (some condition) _ | .whileLoop condition _
  | .doWhile _ condition | .switch condition _ => [condition]
  | .expressionList expressions => expressions
  | .foreach subject _ _ _ _ => [subject]
  | .staticVar _ default => default.toList
  | .echo value | .print value => [value]
  | .returnValue value => value.toList
  | .call _ arguments | .new _ arguments | .staticCall _ (.literal _) arguments
  | .methodCall _ (.literal _) arguments => arguments
  | _ => []

/-- Whether the node is an assignment, by value or by reference. -/
def isAssignment (node : Node) : Bool :=
  match node.kind with
  | .assign .. | .assignRef .. => true
  | _ => false

/-- Whether the node is an arithmetic operator on the line. -/
def isArithmeticAt (line : Line) (node : Node) : Bool :=
  node.line == line &&
    match node.kind with
    | .binary operator _ _ => operator.isArithmetic
    | _ => false

lemma searchedParts_sublist (node : Node) : node.searchedParts.Sublist node.children := by
  obtain ⟨line, kind⟩ := node
  cases kind with
  | array items =>
    have hvalues : items.map ArrayItem.value = items.flatMap fun item => [item.value] :=
      (List.flatMap_pure_eq_map ..).symm
    change (items.map ArrayItem.value).Sublist (items.flatMap ArrayItem.parts)
    rw [hvalues]
    exact List.Sublist.flatMap_right items fun item _ => List.sublist_append_right ..
  | dim base index => exact List.cons_sublist_cons.mpr (List.nil_sublist _)
  | binary | unary => exact List.Sublist.refl _
  | conditional condition consequent otherwise =>
    cases consequent with
    | none => exact List.Sublist.refl _
    | some consequent => exact List.sublist_cons_self ..
  | assign | assignRef => exact List.sublist_cons_self ..
  | _ => exact List.nil_sublist _

lemma typedParts_sublist (node : Node) : node.typedParts.Sublist node.children := by
  obtain ⟨line, kind⟩ := node
  cases kind with
  | ifElement condition body | switchCase condition body =>
    cases condition with
    | none => exact List.nil_sublist _
    | some condition => exact List.sublist_append_left [condition] [body]
  | whileLoop condition body => exact List.sublist_append_left [condition] [body]
  | switch subject cases => exact List.sublist_append_left [subject] cases
  | foreach subject key value body byReference =>
    exact List.sublist_append_left [subject] (key.toList ++ [value, body])
  | expressionList | staticVar | echo | print | returnValue => exact List.Sublist.refl _
  | assign | assignRef | doWhile | call | new => exact List.sublist_cons_self ..
  | staticCall owner method arguments | methodCall owner method arguments =>
    cases method with
    | literal name => exact List.sublist_cons_self ..
    | computed name => exact List.nil_sublist _
  | _ => exact List.nil_sublist _

/-- Only assignments hand on a type that their check has asked for. -/
lemma typedParts_or_searchedParts_eq_nil {node : Node} (h : node.isAssignment = false) :
    node.typedParts = [] ∨ node.searchedParts = [] := by
  obtain ⟨line, kind⟩ := node
  cases kind with
  | array | dim | binary | unary | conditional => exact .inl rfl
  | assign | assignRef => cases h
  | _ => exact .inr rfl

/-! ### Searches -/

/-- The nodes that are looked at when the type of the node is asked for. -/
def searched (node : Node) : List Node :=
  node :: node.searchedParts.attach.flatMap fun part => part.val.searched
termination_by sizeOf node
decreasing_by exact sizeOf_children_mem (node.searchedParts_sublist.subset part.property)

/-- The assignments that are met when the type of the node is asked for, but not those in their values. -/
def nearestAssignments (node : Node) : List Node :=
  if node.isAssignment then [node]
  else node.searchedParts.attach.flatMap fun part => part.val.nearestAssignments
termination_by sizeOf node
decreasing_by exact sizeOf_children_mem (node.searchedParts_sublist.subset part.property)

/-- The nodes that are looked at by the check of the node. -/
def inspected (node : Node) : List Node := node.typedParts.flatMap searched

/-- Those of them that have been looked at by the check of an assignment. -/
def reinspected (node : Node) : List Node :=
  (node.typedParts.flatMap nearestAssignments).flatMap searched

lemma searched_eq (node : Node) : node.searched = node :: node.searchedParts.flatMap searched := by
  rw [searched]
  simp [List.flatMap_subtype]

lemma nearestAssignments_of_isAssignment {node : Node} (h : node.isAssignment = true) :
    node.nearestAssignments = [node] := by
  rw [nearestAssignments, if_pos h]

lemma nearestAssignments_eq {node : Node} (h : node.isAssignment = false) :
    node.nearestAssignments = node.searchedParts.flatMap nearestAssignments := by
  rw [nearestAssignments, h]
  simp [List.flatMap_subtype]

section Counts

variable (p : Node → Bool)

/-- The checks of the node and of its parts look at no more nodes with the property than there are, but for
those that are looked at again. -/
structure Budgeted (node : Node) : Prop where
  checks : (node.nodes.flatMap inspected).countP p ≤
    node.nodes.countP p + (node.nodes.flatMap reinspected).countP p
  /-- There is room for the type of the node to be asked for by a node around it. -/
  type : (node.nodes.flatMap inspected).countP p + node.searched.countP p ≤
    node.nodes.countP p + (node.nodes.flatMap reinspected).countP p +
      (node.nearestAssignments.flatMap searched).countP p

variable {p}

/-- Of some nodes in turn, the types of those on a sublist are asked for. -/
lemma Budgeted.sublist {parts children : List Node} (hsub : parts.Sublist children)
    (h : ∀ child ∈ children, child.Budgeted p) :
    ((children.flatMap nodes).flatMap inspected).countP p + (parts.flatMap searched).countP p ≤
      (children.flatMap nodes).countP p + ((children.flatMap nodes).flatMap reinspected).countP p +
        ((parts.flatMap nearestAssignments).flatMap searched).countP p := by
  induction hsub with
  | slnil => exact Nat.le_refl _
  | @cons parts children child _ ih =>
    have hchild := (h child (List.mem_cons_self ..)).checks
    have hrest := ih fun other hother => h other (List.mem_cons_of_mem _ hother)
    simp only [List.flatMap_cons, List.flatMap_append, List.countP_append]
    omega
  | @cons_cons parts children child _ ih =>
    have hchild := (h child (List.mem_cons_self ..)).type
    have hrest := ih fun other hother => h other (List.mem_cons_of_mem _ hother)
    simp only [List.flatMap_cons, List.flatMap_append, List.countP_append]
    omega

lemma budgeted (p : Node → Bool) (node : Node) : node.Budgeted p := by
  induction node using Node.induction_on_children with
  | step node ih =>
    have htyped := Budgeted.sublist node.typedParts_sublist ih
    have hsearched := Budgeted.sublist node.searchedParts_sublist ih
    have hinspected : (node.nodes.flatMap inspected).countP p = (node.typedParts.flatMap searched).countP p +
        ((node.children.flatMap nodes).flatMap inspected).countP p := by
      rw [nodes_eq, List.flatMap_cons, List.countP_append, inspected]
    have hreinspected : (node.nodes.flatMap reinspected).countP p =
        ((node.typedParts.flatMap nearestAssignments).flatMap searched).countP p +
          ((node.children.flatMap nodes).flatMap reinspected).countP p := by
      rw [nodes_eq, List.flatMap_cons, List.countP_append, reinspected]
    have hnodes : node.nodes.countP p = (node.children.flatMap nodes).countP p + if p node then 1 else 0 := by
      rw [nodes_eq, List.countP_cons]
    have hself : node.searched.countP p =
        (node.searchedParts.flatMap searched).countP p + if p node then 1 else 0 := by
      rw [searched_eq, List.countP_cons]
    refine ⟨by omega, ?_⟩
    cases hassignment : node.isAssignment with
    | true =>
      -- what the assignment has looked at is what is looked at again
      have hnearest : node.nearestAssignments.flatMap searched = node.searched := by
        rw [nearestAssignments_of_isAssignment hassignment, List.flatMap_singleton]
      rw [hnearest]
      omega
    | false =>
      rw [nearestAssignments_eq hassignment]
      rcases typedParts_or_searchedParts_eq_nil hassignment with hnil | hnil
      · simp only [hnil, List.flatMap_nil, List.countP_nil] at hinspected hreinspected
        omega
      · simp only [hnil, List.flatMap_nil, List.countP_nil] at hself ⊢
        omega

end Counts

end Node

/-! ### Faults are found where it is looked -/

lemma isArithmetic_of_binary {operator : BinaryOp} {left right : TypeSet} {side : Side}
    (h : (Typing.binary operator left right).2 = some side) : operator.isArithmetic = true := by
  by_contra hnot
  unfold Typing.binary at h
  rw [if_neg hnot] at h
  cases operator <;> cases h

/-- The operators on a line that are found faulty are among the arithmetic ones there that are looked at. -/
lemma countP_faults_le (s : SymbolTable) (context : Context) (line : Line) (node : Node) :
    (infer s context node).faults.countP (·.line == line) ≤
      node.searched.countP (Node.isArithmeticAt line) := by
  apply infer.induct s context
    (fun node => (infer s context node).faults.countP (·.line == line) ≤
      node.searched.countP (Node.isArithmeticAt line))
    (fun items => (inferItems s context items).faults.countP (·.line == line) ≤
      ((items.map ArrayItem.value).flatMap Node.searched).countP (Node.isArithmeticAt line))
  case case3 =>
    intro place items ih
    rw [infer, Node.searched_eq, List.countP_cons]
    exact Nat.le_add_right_of_le ih
  case case4 | case17 | case22 | case23 =>
    intros
    rename_i ih
    rw [infer, Node.searched_eq, List.countP_cons]
    simpa [Node.searchedParts] using Nat.le_add_right_of_le ih
  case case16 =>
    intro place operator left right hleft hright
    have hown : ((Typing.binary operator (infer s context left).type
        (infer s context right).type).2.toList.map fun side => (⟨place, side⟩ : OperandFault)).countP
          (·.line == line) ≤
        if Node.isArithmeticAt line ⟨place, .binary operator left right⟩ then 1 else 0 := by
      cases hside : (Typing.binary operator (infer s context left).type (infer s context right).type).2 with
      | none => exact Nat.zero_le _
      | some side => simp [Node.isArithmeticAt, isArithmetic_of_binary hside]
    rw [infer, Node.searched_eq, List.countP_cons]
    simp only [Node.searchedParts, List.flatMap_cons, List.flatMap_nil, List.countP_append,
      List.countP_nil]
    omega
  case case19 | case20 =>
    intros
    rename_i hfirst hsecond
    rw [infer, Node.searched_eq, List.countP_cons]
    simp only [Node.searchedParts, Option.getD_some, Option.getD_none, List.flatMap_cons,
      List.flatMap_nil, List.countP_append, List.countP_nil]
    omega
  case case27 =>
    intro key value rest hvalue hrest
    rw [inferItems]
    simp only [List.map_cons, List.flatMap_cons, List.countP_append]
    omega
  all_goals
    intros
    simp [infer, inferItems, *]

end PhpCheck
