import Stepper.Machine.Literal

/-!
Reading a command line: at most one file and some options, in any order. An option with two dashes
may be shortened as long as it stays the only one, and its value may follow an equals sign; options
with one dash may be written together. After two dashes alone nothing is an option.
-/
namespace Stepper.Command

inductive Mode where
  | run | analyze | decorate
  deriving DecidableEq, Repr

structure Arguments where
  /-- An empty name counts as none. -/
  file : Option String := none
  mode : Mode := .run
  strategy : String := ""
  speed : Float := 1000
  maxSteps : Option Int := none
  verbose : Bool := false

/-- Why there are no arguments. -/
inductive Refusal where
  /-- Help was asked for. -/
  | help
  | misuse
  deriving DecidableEq, Repr

inductive Flag where
  | help | mode (m : Mode) | strategy | speed | maxSteps | verbose
  deriving DecidableEq, Repr

def Flag.takesValue : Flag → Bool
  | .strategy | .speed | .maxSteps => true
  | _ => false

/-- All options by their names. -/
def flags : List (String × Flag) := [
  ("-h", .help), ("--help", .help), ("--analyze", .mode .analyze),
  ("--instrument", .mode .decorate),
  ("--run", .mode .run), ("--strategy", .strategy), ("--speed", .speed), ("--max-steps", .maxSteps),
  ("-n", .maxSteps), ("--verbose", .verbose), ("-v", .verbose)]

def flag? (name : String) : Option Flag := (flags.find? fun p => p.1 == name).map Prod.snd

inductive Word where
  | plain (s : String)
  | dashes
  /-- An option, and a value written with it. -/
  | option (f : Flag) (value : Option String)
  | unknown
  /-- Options written together of which one does not exist. -/
  | malformed
  deriving DecidableEq, Repr

/-- A word cut at its first equals sign. -/
def cutAtEquals (s : String) : String × Option String :=
  match s.toList.dropWhile (· != '=') with
  | [] => (s, none)
  | _ :: value => (String.ofList (s.toList.takeWhile (· != '=')), some (String.ofList value))

/-- A minus and digits, with a point among them or not. -/
def isNegativeNumber (s : String) : Bool :=
  match s.toList with
  | '-' :: cs =>
    let isDigit (c : Char) := (Text.decimalValue? c.toNat).isSome
    let cs := if cs.getLast? == some '\n' then cs.dropLast else cs
    let rest := cs.dropWhile isDigit
    match rest with
    | [] => !cs.isEmpty
    | '.' :: fraction => !fraction.isEmpty && fraction.all isDigit
    | _ => false
  | _ => false

/-- An option with one dash and what is written with it: a value, or more options. -/
def joined (f : Flag) : List Char → List Word
  | [] => [.option f (some "")]
  | c :: cs =>
    if f.takesValue then [.option f (some (String.ofList (c :: cs)))]
    else match flag? (String.ofList ['-', c]) with
      | none => [.malformed]
      | some g => .option f none :: (if cs.isEmpty then [.option g none] else joined g cs)

/-- What a word may be that is no option by its full name. -/
def candidates (s : String) : List (List Word) :=
  match s.toList with
  | '-' :: '-' :: _ =>
    let (stem, value) := cutAtEquals s
    flags.filterMap fun (name, f) => if stem.isPrefixOf name then some [.option f value] else none
  | '-' :: c :: rest =>
    match flag? (String.ofList ['-', c]) with
    | some f => [joined f rest]
    | none => []
  | _ => []

/-- What a word is, read by itself. -/
def word (s : String) : Except Refusal (List Word) :=
  if !"-".isPrefixOf s || s == "-" then .ok [.plain s]
  else
    let (name, value) := cutAtEquals s
    match flag? s, flag? name with
    | some f, _ => .ok [.option f none]
    | none, some f =>
      if name.length == 2 then .ok (joined f (value.getD "").toList) else .ok [.option f value]
    | none, none =>
      match candidates s with
      | [ws] => .ok ws
      | _ :: _ :: _ => .error .misuse
      | [] => .ok [if isNegativeNumber s || s.toList.contains ' ' then .plain s else .unknown]

def words : List String → Except Refusal (List Word)
  | [] => .ok []
  | s :: ss =>
    if s == "--" then .ok (.dashes :: ss.map .plain)
    else do return (← word s) ++ (← words ss)

def isDigit (c : Nat) : Bool := 0x30 ≤ c && c ≤ 0x39

/-- Takes away underscores that stand between digits; no others may be there. -/
def dropUnderscores? : Text → Option Text
  | [] => some []
  | 0x5f :: _ => none
  | c :: 0x5f :: d :: t =>
    if isDigit c && isDigit d then (dropUnderscores? (d :: t)).map (c :: ·) else none
  | c :: t => (dropUnderscores? t).map (c :: ·)

/-- A speed is a positive number. -/
def speed? (s : String) : Option Float := do
  let t ← dropUnderscores?
      (Text.stripBy Number.isAsciiBlank ((Text.ofString s).map Number.asciiForm))
  let x ← (Machine.decimalLiteral t).toOption
  if x > 0 then some x else none

def integer? (s : String) : Option Int := (Number.readInteger 10 (Text.ofString s)).toOption

def strategies : List String := ["", "structural", "synthesis"]

/-- What has been read so far. -/
structure Progress where
  arguments : Arguments := {}
  /-- The mode, once an option has named it. -/
  mode : Option Mode := none
  /-- Whether the place of the file has been passed. -/
  hasFile : Bool := false
  /-- Whether a word found no place. -/
  hasRest : Bool := false

namespace Progress

def setFlag (p : Progress) (f : Flag) : Except Refusal Progress :=
  match f with
  | .help => .error .help
  | .mode m =>
    if p.mode.any (· != m) then .error .misuse
    else .ok { p with mode := some m, arguments := { p.arguments with mode := m } }
  | .verbose => .ok { p with arguments := { p.arguments with verbose := true } }
  | _ => .error .misuse

def setValue (p : Progress) (f : Flag) (s : String) : Except Refusal Progress :=
  match f with
  | .strategy =>
    if strategies.contains s then .ok { p with arguments := { p.arguments with strategy := s } }
    else .error .misuse
  | .speed => match speed? s with
    | some x => .ok { p with arguments := { p.arguments with speed := x } }
    | none => .error .misuse
  | .maxSteps => match integer? s with
    | some n => .ok { p with arguments := { p.arguments with maxSteps := some n } }
    | none => .error .misuse
  | _ => .error .misuse

def setFile (p : Progress) (s : Option String) : Progress :=
  { p with hasFile := true, arguments := { p.arguments with file := s } }

end Progress

/-- Reads words from the left. -/
def readWords (p : Progress) : List Word → Except Refusal Progress
  | [] => .ok p
  | .unknown :: ws => readWords { p with hasRest := true } ws
  | .plain s :: ws =>
    if p.hasFile then readWords { p with hasRest := true } ws
    else match ws with
      | .dashes :: ws => readWords (p.setFile (some s)) ws
      | ws => readWords (p.setFile (some s)) ws
  | .dashes :: ws =>
    if p.hasFile then readWords { p with hasRest := true } ws
    else match ws with
      | .plain s :: ws => readWords (p.setFile (some s)) ws
      | ws => readWords (p.setFile none) ws
  | .option f none :: ws =>
    if f.takesValue then
      match ws with
      | .plain s :: ws => do readWords (← p.setValue f s) ws
      | _ => .error .misuse
    else do readWords (← p.setFlag f) ws
  | .option f (some s) :: ws =>
    if f.takesValue then do readWords (← p.setValue f s) ws else .error .misuse
  | .malformed :: _ => .error .misuse

/-- The arguments of a command line. -/
def arguments (args : List String) : Except Refusal Arguments := do
  let p ← readWords {} (← words args)
  if p.hasRest then .error .misuse else return p.arguments

end Stepper.Command
