import Stepper.Instrument.Regenerate
import Stepper.Text.Case
import Stepper.Text.Shown

/-!
Decorating a program with a chosen strategy. Without a choice the calls are spliced in, and the
program is printed anew only when the result of that cannot be read. Where a call falls inside a
character the pieces make no text, and there is no other try.
-/
namespace Stepper.Instrument

open Syntax

inductive Strategy where
  /-- Calls spliced into the text. -/
  | structural
  /-- The program printed anew. -/
  | synthesis
  deriving DecidableEq, Repr

def Strategy.name : Strategy → String
  | .structural => "structural"
  | .synthesis => "synthesis"

def Strategy.all : List Strategy := [.structural, .synthesis]

/-- A strategy by its name, in any case. -/
def Strategy.ofName? (name : String) : Option Strategy :=
  all.find? fun s => Text.lower (Text.ofString name) == Text.ofString s.name

inductive DecorateError where
  | unknownStrategy (name : String)
  /-- A call would be spliced into the middle of a character. -/
  | misplaced
  /-- The program with its calls cannot be read. -/
  | unreadable
  deriving DecidableEq, Repr

def DecorateError.message : DecorateError → String
  | .unknownStrategy name =>
    "Unsupported instrumentation strategy: " ++ (Text.shown (Text.ofString name)).toStr ++
      ". Supported: " ++ ", ".intercalate (Strategy.all.map Strategy.name)
  | .misplaced => "Instrumented source is no text"
  | .unreadable => "Instrumented source does not parse"

/-- The spliced program, if it is a text that can be read again. -/
def structural (plan : Plan) (p : Program) : Except DecorateError String :=
  if (insertions plan p).all (·.isBetween p.source) then
    let output := spliced plan p
    if (parse? output).isSome then .ok output else .error .unreadable
  else .error .misplaced

/-- A program with its calls. An empty name of a strategy is no choice. -/
def decorate (strategy : String) (p : Program) : Except DecorateError String :=
  if strategy.isEmpty then
    match structural (planOf p) p with
    | .error .unreadable => .ok (regenerated (planOf p) p)
    | r => r
  else
    match Strategy.ofName? strategy with
    | none => .error (.unknownStrategy strategy)
    | some .structural => structural (planOf p) p
    | some .synthesis => .ok (regenerated (planOf p) p)

end Stepper.Instrument
