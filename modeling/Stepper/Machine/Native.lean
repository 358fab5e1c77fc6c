import Stepper.Instrument.Hook
import Stepper.Machine.Value

/-!
The functions that every program finds in place, by family. Each is known by its name; what they do
is said in the modules of the families.
-/
namespace Stepper.Machine

inductive GlobalFunction where
  | parseInt | parseFloat | isNaN | isFinite
  deriving DecidableEq, Repr

inductive ObjectFunction where
  | keys | values | entries | assign | freeze | isFrozen | create | getPrototypeOf | fromEntries
  | hasOwnProperty | toString | valueOf
  deriving DecidableEq, Repr

inductive FunctionMethod where
  | call | apply | bind | toString
  deriving DecidableEq, Repr

inductive ArrayFunction where
  | isArray | from_ | of_
  | push | pop | shift | unshift | slice | splice | concat | join | reverse | indexOf | lastIndexOf
  | includes | find | findIndex | filter | map | forEach | reduce | reduceRight | some_ | every
  | sort | flat | flatMap | fill | at_ | keys | toString
  deriving DecidableEq, Repr

inductive TextFunction where
  | fromCharCode
  | charAt | charCodeAt | indexOf | lastIndexOf | includes | startsWith | endsWith | slice
  | substring | substr | toUpperCase | toLowerCase | trim | trimStart | trimEnd | split | replace
  | replaceAll | repeat_ | padStart | padEnd | concat | at_ | localeCompare | toString | valueOf
  deriving DecidableEq, Repr

inductive NumberFunction where
  | isInteger | isSafeInteger | isFinite | isNaN
  | toFixed | toString | valueOf
  deriving DecidableEq, Repr

inductive BooleanMethod where
  | toString | valueOf
  deriving DecidableEq, Repr

inductive MathFunction where
  | abs | floor | ceil | round | trunc | sign | sqrt | cbrt | exp | log | log2 | log10 | sin | cos
  | tan | asin | acos | atan | max | min | pow | atan2 | hypot | random
  deriving DecidableEq, Repr

inductive JsonFunction where
  | stringify | parse
  deriving DecidableEq, Repr

inductive MapMethod where
  | get | set | has | delete | clear | forEach | keys | values | entries | size
  deriving DecidableEq, Repr

inductive SetMethod where
  | add | has | delete | clear | forEach | values | keys | entries | size
  deriving DecidableEq, Repr

inductive DateFunction where
  | now
  | getTime | valueOf | toISOString | toJSON | toString | getFullYear | getMonth | getDate | getDay
  | getHours | getMinutes | getSeconds | getMilliseconds
  deriving DecidableEq, Repr

/-- Functions that make or convert values. -/
inductive Constructor where
  | object | function | array | string | number | boolean | map | set | date
  | error (kind : ErrorKind)
  deriving DecidableEq, Repr

inductive ConsoleKind where
  | log | warn | error | info
  deriving DecidableEq, Repr

def ConsoleKind.name : ConsoleKind → String
  | .log => "log"
  | .warn => "warn"
  | .error => "error"
  | .info => "info"

def ConsoleKind.all : List ConsoleKind := [.log, .warn, .error, .info]

inductive Native where
  | global (f : GlobalFunction)
  | object (f : ObjectFunction)
  | function (f : FunctionMethod)
  | array (f : ArrayFunction)
  | text (f : TextFunction)
  | number (f : NumberFunction)
  | boolean (f : BooleanMethod)
  | math (f : MathFunction)
  | json (f : JsonFunction)
  | map (f : MapMethod)
  | set (f : SetMethod)
  | date (f : DateFunction)
  | errorToString
  | constructor (c : Constructor)
  | hook (h : Instrument.Hook)
  | console (k : ConsoleKind)
  /-- A function with its `this` and its first arguments already given. -/
  | bound (target : Ref) (this : Value) (args : List Value)

def Constructor.name : Constructor → String
  | .object => "Object"
  | .function => "Function"
  | .array => "Array"
  | .string => "String"
  | .number => "Number"
  | .boolean => "Boolean"
  | .map => "Map"
  | .set => "Set"
  | .date => "Date"
  | .error kind => kind.name

end Stepper.Machine
