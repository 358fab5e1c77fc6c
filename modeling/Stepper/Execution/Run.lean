import Stepper.Builtin.Call
import Stepper.Builtin.Realm
import Stepper.Syntax.Tree

/-!
Running programs. The evaluator for some levels is built on the one for one level less: what an
evaluation evaluates inside itself has less room on the stack, and without room left it nests too
deep. A run starts in a scope that holds the global names, the hooks and the console.
-/
namespace Stepper.Execution

open Syntax Machine Builtin

variable {σ : Type}

/-- The evaluator that has no room left. -/
def exhausted : Evaluator where
  eval _ _ _ w := .broke (.fault .nestingTooDeep) w
  exec _ _ _ w := .broke (.fault .nestingTooDeep) w
  bind _ _ _ _ w := .broke (.fault .nestingTooDeep) w
  call _ _ _ w := .broke (.fault .nestingTooDeep) w
  construct _ _ _ w := .broke (.fault .nestingTooDeep) w

/-- The evaluator in a context. -/
def evaluatorIn (c : Context) : Evaluator where
  eval n e isHead := Action.evaluate n e isHead c
  exec n e labels := Action.execute n e labels c
  bind n v e mode := Action.bindPattern n v e mode c
  call f this args := callValue f this args c
  construct f args newTarget := constructValue f args newTarget c

/-- How many frames there can be on the stack. -/
def recursionLimit : Nat := 10000

/-- An evaluation takes two frames: its entry point and what is called there for the construct. -/
def framesPerLevel : Nat := 2

/-- A context with so many levels left, and the evaluator for these. -/
def contextOver (source : String) (wantsText : Bool) (levels : Nat) (inner : Evaluator) : Context :=
  { source, wantsText, realm := setting.realm, room := framesPerLevel * levels, inner }

/-- The evaluator for a program and some levels. -/
def evaluator (source : String) (wantsText : Bool) : Nat → Evaluator
  | 0 => exhausted
  | levels + 1 =>
    evaluatorIn (contextOver source wantsText levels (evaluator source wantsText levels))

/-- How deep evaluations may nest. -/
def maxLevels : Nat := recursionLimit / framesPerLevel

def outermostContext (source : String) (wantsText : Bool) : Context :=
  contextOver source wantsText maxLevels (evaluator source wantsText maxLevels)

/-- The state in which a run starts: nothing but what is in place for every program. -/
def initialWorld : World := { heap := setting.heap }

section

open Action

/-- The outermost scope, with the global names, the hooks and the console. -/
def globalScope : Action ScopeRef := do
  let e ← allocScope { hasThis := true }
  each (fun (p : String × Value) => declare e p.1 .var (some p.2)) setting.globals
  each (fun (p : String × Native) => do
    declare e p.1 .const (some (← newNative (Text.ofString p.1) p.2))) hookTable
  let console ← newObject
  each (fun (p : String × Native) => do
    define console (Text.ofString p.1) (← newNative (Text.ofString p.1) p.2)) consoleTable
  declare e "console" .var (some (.object console))
  return e

/-- Runs a program from its beginning to its end. -/
def program (root : Node) : Action Unit := do
  let e ← globalScope
  hoistFunction root e
  execAll root.namedChildren e

end

/-- The course of a program. -/
def course (p : Program) (wantsText : Bool) : Course Unit :=
  program p.root (outermostContext p.source wantsText) initialWorld

/-- Runs a program under a host and says how it ended. -/
def run (p : Program) (host : Host σ) (s : σ) : Outcome Unit × σ :=
  (course p host.wantsText).drive host s

/-- The name and message of what a program did not catch; to find them may run more of it. -/
def details (p : Program) (wantsText : Bool) (i : Interrupt) (w : World) :
    Option (Course (Text × Text)) :=
  match i with
  | .raised kind message => some (.done (Text.ofString kind.name, message) w)
  | .thrown v => some (Action.thrownDetails v (outermostContext p.source wantsText) w)
  | _ => none

end Stepper.Execution
