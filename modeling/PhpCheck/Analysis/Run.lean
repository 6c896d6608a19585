import PhpCheck.Analysis.Walk
import PhpCheck.Declaration.Collect
import PhpCheck.SymbolTable.Builtin

/-!
# Runs over whole programs

The declarations of all units are collected before the first unit is walked.
-/

namespace PhpCheck

namespace Analysis

/-- Checks a single node at a place of a program whose declarations have been collected. -/
def checkAt (setup : Setup) (context : Context) (parent : Option Node) (node : Node) :
    Analysis Context := do
  check setup (enterBody setup (← symbols).nestingBound) context parent node

/-- Walks a file whose declarations have been collected; the result is its final context. -/
def walkFile (setup : Setup) (file : String) (root : Node) : Analysis Context := do
  walk setup (enterBody setup (← symbols).nestingBound) { file, line := root.line } none root

def walkUnits (setup : Setup) (units : List SourceUnit) : Analysis Unit :=
  units.forM fun unit => discard (walkFile setup unit.path unit.root)

end Analysis

/-- The source texts that units bring along; of two for the same file the later one counts. -/
def SourceTexts.ofUnits (units : List SourceUnit) : SourceTexts :=
  units.foldl
    (fun texts unit =>
      match unit.source with
      | some text => Table.insert texts unit.path text
      | none => texts)
    ∅

/-- Why a program has no outcome. -/
inductive Failure where
  | load (error : LoadError)
  | fault (fault : Fault)
  deriving DecidableEq

/-- What a run leaves: the symbol table and the diagnostics. -/
structure Outcome where
  symbols : SymbolTable
  log : DiagnosticLog

/-- Collects the declarations of all units and walks the units in turn. -/
def analyzeUnits (setup : Setup) (units : List SourceUnit) : Except Failure Outcome :=
  match SymbolTable.builtin.collectUnits units with
  | .error error => .error (.load error)
  | .ok symbols =>
    match (Analysis.walkUnits setup units).run { symbols } with
    | .error fault => .error (.fault fault)
    | .ok (_, session) => .ok ⟨session.symbols, session.log⟩

end PhpCheck
