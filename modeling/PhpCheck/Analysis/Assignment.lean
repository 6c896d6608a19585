import PhpCheck.Analysis.Inference

/-!
# Assignments

The target of an assignment is taken apart into the places that get a value: variables, properties
and static properties. Types only grow by an assignment. A place whose name is computed is passed
over.
-/

namespace PhpCheck

/-- Something that an assignment gives a value. -/
inductive Place where
  | var (name : String)
  | property (object : Node) (name : String)
  | staticProperty (reference : Node) (name : String)

mutual

/-- The places that a value of the given type is spread over, each with the type that it gets, or the
part of the target that cannot hold a value. -/
def placesOf : Node → TypeSet → Except Fault (List (Place × TypeSet))
  | ⟨_, .var (.literal name)⟩, type => .ok [(.var name, type)]
  | ⟨_, .prop object (.literal name)⟩, type => .ok [(.property object name, type)]
  | ⟨_, .staticProp reference (.literal name)⟩, type =>
    .ok [(.staticProperty reference name, type)]
  | ⟨_, .var (.computed _)⟩, _ | ⟨_, .prop _ (.computed _)⟩, _
  | ⟨_, .staticProp _ (.computed _)⟩, _ => .ok []
  | ⟨_, .dim base _⟩, type => placesOf base type.asArray
  | ⟨_, .listTarget elements⟩, type => placesOfNodes elements type.elementTypes
  | ⟨_, .array items⟩, type => placesOfItems items type.elementTypes
  | ⟨line, _⟩, _ => .error (.notAssignable line)

/-- The places of several targets that each get the given type. -/
def placesOfNodes : List Node → TypeSet → Except Fault (List (Place × TypeSet))
  | [], _ => .ok []
  | node :: rest, type => do
    let first ← placesOf node type
    let more ← placesOfNodes rest type
    return first ++ more

/-- The places of the values of an array pattern that each get the given type. -/
def placesOfItems : List ArrayItem → TypeSet → Except Fault (List (Place × TypeSet))
  | [], _ => .ok []
  | ⟨_, value⟩ :: rest, type => do
    let first ← placesOf value type
    let more ← placesOfItems rest type
    return first ++ more

end

namespace Analysis

def assignPlace (context : Context) (place : Place) (type : TypeSet) : Analysis Context :=
  match place with
  | .var name => return context.assign name type
  | .property object name => do
    match (← symbols).resolveClasses context object with
    | .ok owners =>
      owners.forM fun owner => edit (.widenProperty owner name context.site type)
      return context
    | .error _ => return context
  | .staticProperty reference name => do
    match (← symbols).resolveClass context reference with
    | .ok owner =>
      edit (.widenProperty owner name context.site type)
      return context
    | .error _ => return context

/-- Gives the places of a target the types that they get from a value of the given type. -/
def assign (context : Context) (target : Node) (type : TypeSet) : Analysis Context := do
  let places ← placesOf target type
  places.foldlM (fun context place => assignPlace context place.1 place.2) context

end Analysis

/-- The context in which the variable that another one is made a reference to is declared. -/
def Context.declareSource (context : Context) (source : Node) : Context :=
  match source.kind with
  | .var (.literal name) => context.declare name
  | _ => context

end PhpCheck
