import PhpCheck.Proofs.Conduct

/-!
# Binding the arguments of a call

A callee is tried out with the types of the arguments in the place of the types that its parameters lack.
Something changes by that exactly if one of these arguments has a known type, and every parameter without
a type that is passed by reference then stands for the variable that it gets.
-/

namespace PhpCheck

namespace TypeSet

end TypeSet

/-- The parameter with its type left out. -/
def Parameter.untyped (p : Parameter) : Parameter := { p with type := ∅ }

namespace Speculation

/-- The parameters have the form in which they are declared and, if nothing has changed, the types. -/
structure Suits (declared : List Parameter) (state : Speculation) : Prop where
  forms : state.parameters.map Parameter.untyped = declared.map Parameter.untyped
  unchanged : state.changed = false → state.parameters = declared

variable {declared : List Parameter} {state next : Speculation} {argument : Node} {type : TypeSet}
  {index : Nat}

/-- The argument is for a parameter without a type, and its own type is known. -/
def Tells (declared : List Parameter) (type : TypeSet) (index : Nat) : Prop :=
  ∃ d, Parameter.receiving? declared index = some d ∧ d.type = ∅ ∧ type ≠ ∅

/-- What binding arguments does: something changes if one of them tells a type, and the parameters that
are passed by reference stand for the variables that they get. -/
structure Binds (declared : List Parameter) (bound : List ((Node × TypeSet) × Nat))
    (state next : Speculation) : Prop where
  suits : next.Suits declared
  changed : next.changed = true ↔ state.changed = true ∨ ∃ x ∈ bound, Tells declared x.1.2 x.2
  kept : state.references ⊆ next.references
  references : ∀ x ∈ bound, ∀ d v, Parameter.receiving? declared x.2 = some d → d.type = ∅ →
    d.byReference = true → plainVariable? x.1.1 = some v → (d.name, v) ∈ next.references

lemma Binds.trans {first rest : List ((Node × TypeSet) × Nat)} {middle : Speculation}
    (h : Binds declared first state middle) (h' : Binds declared rest middle next) :
    Binds declared (first ++ rest) state next where
  suits := h'.suits
  changed := by
    rw [h'.changed, h.changed, or_assoc]
    simp only [List.mem_append, or_and_right, exists_or]
  kept := List.Subset.trans h.kept h'.kept
  references x hx d v hd htype hreference hv := by
    rcases List.mem_append.mp hx with hx | hx
    · exact h'.kept (h.references x hx d v hd htype hreference hv)
    · exact h'.references x hx d v hd htype hreference hv

end Speculation

end PhpCheck
