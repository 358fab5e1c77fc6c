import Stepper.Analysis.Report
import Stepper.Json.Printer

/-!
Reports as JSON data. Every field is there; what does not apply is null.
-/
namespace Stepper.Analysis

open Json Json.Tree

def FunctionInfo.tree (f : FunctionInfo) : Tree :=
  record [("kind", ofString f.kind), ("name", ofString f.name), ("params", ofTexts f.parameters),
    ("line", ofNat f.line), ("column", ofNat f.column), ("complexity", ofNat f.complexity),
    ("is_recursive", bool f.isRecursive)]

def VariableInfo.tree (v : VariableInfo) : Tree :=
  record [("name", ofString v.name), ("kind", ofString v.kind), ("line", ofNat v.line),
    ("column", ofNat v.column), ("has_initializer", bool v.hasInitializer),
    ("reassigned", bool v.reassigned), ("scope", ofString v.scope)]

def LoopInfo.tree (l : LoopInfo) : Tree :=
  record [("kind", ofString l.kind), ("line", ofNat l.line), ("column", ofNat l.column),
    ("has_init", ofOption bool l.hasInit), ("has_test", ofOption bool l.hasTest),
    ("has_update", ofOption bool l.hasUpdate), ("is_infinite", bool l.isInfinite)]

def ConditionalInfo.tree (c : ConditionalInfo) : Tree :=
  record [("kind", ofString c.kind), ("line", ofNat c.line), ("column", ofNat c.column),
    ("has_else", ofOption bool c.hasElse), ("is_else_if", ofOption bool c.isElseIf),
    ("complexity", ofOption ofNat c.complexity), ("case_count", ofOption ofNat c.caseCount),
    ("has_default", ofOption bool c.hasDefault)]

def ImportInfo.tree (i : ImportInfo) : Tree :=
  record [("source", ofString i.source), ("specifiers", ofTexts i.specifiers)]

def Dependencies.tree (d : Dependencies) : Tree :=
  record [("builtins", ofTexts d.builtins), ("globals", ofTexts d.globals),
    ("imports", list (d.imports.map ImportInfo.tree))]

def Suggestion.tree (s : Suggestion) : Tree :=
  record [("kind", ofString s.kind), ("message", ofString s.message), ("line", ofNat s.line),
    ("severity", ofString s.severity.name)]

def Metrics.tree (m : Metrics) : Tree :=
  record [("lines_of_code", ofNat m.linesOfCode), ("statements", ofNat m.statements),
    ("expressions", ofNat m.expressions), ("functions", ofNat m.functions),
    ("variables", ofNat m.vars), ("complexity", ofNat m.complexity)]

def Report.tree (r : Report) : Tree :=
  record [("functions", list (r.functions.map FunctionInfo.tree)),
    ("variables", list (r.vars.map VariableInfo.tree)),
    ("loops", list (r.loops.map LoopInfo.tree)),
    ("conditionals", list (r.conditionals.map ConditionalInfo.tree)),
    ("complexity", ofNat r.complexity), ("dependencies", r.dependencies.tree),
    ("suggestions", list (r.suggestions.map Suggestion.tree)), ("metrics", r.metrics.tree)]

/-- The report spread over lines. -/
def Report.print (r : Report) : Text := r.tree.spread 0

end Stepper.Analysis
