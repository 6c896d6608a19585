import PhpCheck.SymbolTable.Lineage

/-!
# Changes of the symbol table

What a run may do to the symbol table once the declarations have been collected. Nothing that is
declared goes away or changes its name, place or body.
-/

namespace PhpCheck

/-- A change of the symbol table. -/
inductive Edit where
  | useCallable (key : CallableKey)
  | useClass (name : String)
  | useProperty (owner name : String)
  | useConstant (name : String)
  | useClassConstant (owner name : String)
  /-- Types are added to a property of a known class, which gets one if need be. -/
  | widenProperty (owner name : String) (site : Site) (types : TypeSet)
  /-- Types are added to a return type that is gathered from return statements. -/
  | gatherReturn (key : CallableKey) (types : TypeSet)
  /-- Types are added to a variable that a closure takes over. -/
  | capture (key : CallableKey) (name : String) (site : Site) (types : TypeSet)
  /-- A callable is given the parameters and the scope that its body is entered with. -/
  | rebind (key : CallableKey) (parameters : List Parameter) (scope : Scope)

def SymbolTable.edit (s : SymbolTable) : Edit → SymbolTable
  | .useCallable key => s.modifyCallable key Callable.recordUse
  | .useClass name => s.modifyClass name Class.recordUse
  | .useProperty owner name => s.modifyProperty owner name Property.recordUse
  | .useConstant name => s.modifyConstant name Constant.recordUse
  | .useClassConstant owner name => s.modifyClassConstant owner name Constant.recordUse
  | .widenProperty owner name site types => s.widenProperty owner name site types
  | .gatherReturn key types => s.modifyCallable key (·.gatherReturn types)
  | .capture key name site types =>
    s.modifyCallable key fun c => { c with scope := c.scope.assign name site types }
  | .rebind key parameters scope => s.modifyCallable key fun c => { c with parameters, scope }

end PhpCheck
