/-!
What is reported about a program: its functions, variables, loops, conditionals and imports, its
complexity, suggestions, and some counts. Lines count from one and columns from zero.
-/
namespace Stepper.Analysis

inductive Severity where
  | low | medium | high | critical
  deriving DecidableEq, Repr

def Severity.name : Severity → String
  | .low => "low"
  | .medium => "medium"
  | .high => "high"
  | .critical => "critical"

def Severity.all : List Severity := [.low, .medium, .high, .critical]

def Severity.ofName? (s : String) : Option Severity := all.find? fun v => v.name == s

structure FunctionInfo where
  /-- How the function is written: a declaration, an expression, an arrow or a method. -/
  kind : String
  name : String
  parameters : List String
  line : Nat
  column : Nat
  complexity : Nat
  isRecursive : Bool
  deriving DecidableEq, Repr

structure VariableInfo where
  name : String
  kind : String
  line : Nat
  column : Nat
  hasInitializer : Bool
  reassigned : Bool
  /-- Where the name lives: global, function or block. -/
  scope : String
  deriving DecidableEq, Repr

structure LoopInfo where
  kind : String
  line : Nat
  column : Nat
  hasInit : Option Bool
  hasTest : Option Bool
  hasUpdate : Option Bool
  isInfinite : Bool
  deriving DecidableEq, Repr

structure ConditionalInfo where
  kind : String
  line : Nat
  column : Nat
  hasElse : Option Bool
  isElseIf : Option Bool
  complexity : Option Nat
  caseCount : Option Nat
  hasDefault : Option Bool
  deriving DecidableEq, Repr

structure ImportInfo where
  source : String
  specifiers : List String
  deriving DecidableEq, Repr

structure Dependencies where
  builtins : List String
  globals : List String
  imports : List ImportInfo
  deriving DecidableEq, Repr

structure Suggestion where
  kind : String
  message : String
  line : Nat
  severity : Severity
  deriving DecidableEq, Repr

structure Metrics where
  linesOfCode : Nat
  statements : Nat
  expressions : Nat
  functions : Nat
  vars : Nat
  complexity : Nat
  deriving DecidableEq, Repr

structure Report where
  functions : List FunctionInfo
  vars : List VariableInfo
  loops : List LoopInfo
  conditionals : List ConditionalInfo
  complexity : Nat
  dependencies : Dependencies
  suggestions : List Suggestion
  metrics : Metrics
  deriving DecidableEq, Repr

/-- The first function of a name. -/
def Report.function? (r : Report) (name : String) : Option FunctionInfo :=
  r.functions.find? fun f => f.name == name

def Report.suggestionsOf (r : Report) (s : Severity) : List Suggestion :=
  r.suggestions.filter fun x => x.severity == s

end Stepper.Analysis
