import PhpCheck.Json.Record

/-!
# Settings of a run
-/

namespace PhpCheck

/-- The switches of a run. -/
structure Settings where
  /-- Warn of expressions that versions 5 and 7 of the language group differently. -/
  groupingChecks : Bool := false
  /-- Do not try out the bodies of callees at their calls. -/
  quick : Bool := false
  deriving DecidableEq

namespace Settings

/-- The keys of the switches, in order. -/
def keys : List String := ["backward_compatibility_checks", "quick_mode"]

/-- Reads settings from a record of truth values. Every switch may be left out; a key that is not one
of them is an error. -/
def ofJson (json : Json) : Option Settings := do
  let known : Bool := match json with
    | .object members => members.all fun member => (member.1.map keys.contains).getD false
    | _ => true
  if !known then none
  let [groupingChecks, quick] ← json.slots? keys | none
  return ⟨← groupingChecks.withDefault Json.bool? false, ← quick.withDefault Json.bool? false⟩

end Settings

end PhpCheck
