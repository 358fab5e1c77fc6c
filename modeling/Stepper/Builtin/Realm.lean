import Stepper.Builtin.Table
import Stepper.Machine.World

/-!
The heap that every program starts with: prototypes, constructors and the functions on them, and the
values of the global names. An object is put in place after the object it inherits from.
-/
namespace Stepper.Builtin

open Machine

/-- Sets a property of an object itself. -/
def put (h : Heap) (r : Ref) (name : String) (v : Value) : Heap :=
  h.modify r fun o => { o with properties := o.properties.set (Text.ofString name) (.value v) }

/-- A new native function. -/
def addNative (h : Heap) (proto : Ref) (name : String) (f : Native) : Ref × Heap :=
  h.alloc { proto := some proto, content := .native (Text.ofString name) f }

/-- Puts the functions of a table on an object. -/
def install (h : Heap) (functionProto target : Ref) (t : Table) : Heap :=
  t.foldl (fun h p =>
    let (f, h) := addNative h functionProto p.1 p.2
    put h target p.1 (.object f)) h

def installNumbers (h : Heap) (target : Ref) (t : List (String × Nat)) : Heap :=
  t.foldl (fun h p => put h target p.1 (.number (Float.ofBits (UInt64.ofNat p.2)))) h

/-- A prototype with its methods. -/
def addPrototype (h : Heap) (objectProto functionProto : Ref) (t : Table) : Ref × Heap :=
  let (r, h) := h.alloc { proto := some objectProto }
  (r, install h functionProto r t)

/-- A constructor with its prototype and statics. -/
def addConstructor (h : Heap) (functionProto parent : Ref) (c : Constructor) (proto : Ref)
    (t : Table) : Ref × Heap :=
  let (r, h) := addNative h parent c.name (.constructor c)
  let h := put h r "prototype" (.object proto)
  let h := put h proto "constructor" (.object r)
  (r, install h functionProto r t)

/-- An object that only holds functions and numbers. -/
def addNamespace (h : Heap) (objectProto functionProto : Ref) (t : Table)
    (numbers : List (String × Nat)) : Ref × Heap :=
  let (r, h) := h.alloc { proto := some objectProto }
  (r, installNumbers (install h functionProto r t) r numbers)

/-- A property that tells how many entries there are. -/
def putSize (h : Heap) (functionProto target : Ref) (f : Native) : Heap :=
  let (g, h) := addNative h functionProto "size" f
  h.modify target fun o =>
    { o with properties := o.properties.set (Text.ofString "size") (.accessor (some g) none) }

/-- The constructor of a kind of error and its prototype; those of `Error` come first. -/
def addError (h : Heap) (objectProto functionProto : Ref) (base : Option (Ref × Ref))
    (kind : ErrorKind) : (Ref × Ref) × Heap :=
  let (constructorParent, protoParent) := base.getD (functionProto, objectProto)
  let (proto, h) := h.alloc { proto := some protoParent, isError := true }
  let h := put h proto "name" (.ofString kind.name)
  let h := put h proto "message" (.text [])
  let (r, h) := addConstructor h functionProto constructorParent (.error kind) proto []
  ((r, proto), h)

def addErrors (h : Heap) (objectProto functionProto : Ref) : List (ErrorKind × Ref) × Heap :=
  let (base, h) := addError h objectProto functionProto none .error
  let others := ErrorKind.all.filter (· != .error)
  let (errors, h) := others.foldl (fun (errors, h) kind =>
    let ((r, _), h) := addError h objectProto functionProto (some base) kind
    (errors ++ [(kind, r)], h)) ([(.error, base.1)], h)
  let (f, h) := addNative h functionProto "toString" .errorToString
  (errors, put h base.2 "toString" (.object f))

/-- All that is in place before a program runs. -/
structure Setting where
  heap : Heap
  realm : Realm
  globals : List (String × Value)

def setting : Setting :=
  let (objectProto, h) := Heap.alloc {} {}
  let (functionProto, h) := h.alloc { proto := some objectProto }
  let h := install h functionProto objectProto objectMethods
  let h := install h functionProto functionProto functionMethods
  let (arrayProto, h) := addPrototype h objectProto functionProto arrayMethods
  let (textProto, h) := addPrototype h objectProto functionProto textMethods
  let (numberProto, h) := addPrototype h objectProto functionProto numberMethods
  let (booleanProto, h) := addPrototype h objectProto functionProto booleanMethods
  let (mapProto, h) := addPrototype h objectProto functionProto mapMethods
  let (setProto, h) := addPrototype h objectProto functionProto setMethods
  let (dateProto, h) := addPrototype h objectProto functionProto dateMethods
  let h := putSize h functionProto mapProto (.map .size)
  let h := putSize h functionProto setProto (.set .size)
  let (errors, h) := addErrors h objectProto functionProto
  let make (h : Heap) (c : Constructor) (proto : Ref) (t : Table) : Ref × Heap :=
    addConstructor h functionProto functionProto c proto t
  let (object, h) := make h .object objectProto objectStatics
  let (function, h) := make h .function functionProto []
  let (array, h) := make h .array arrayProto arrayStatics
  let (string, h) := make h .string textProto textStatics
  let (number, h) := make h .number numberProto numberStatics
  let h := installNumbers h number numberConstants
  let (boolean, h) := make h .boolean booleanProto []
  let (map, h) := make h .map mapProto []
  let (set, h) := make h .set setProto []
  let (date, h) := make h .date dateProto dateStatics
  let (math, h) := addNamespace h objectProto functionProto mathFunctions mathConstants
  let (json, h) := addNamespace h objectProto functionProto jsonFunctions []
  let (functions, h) := globalTable.foldl (fun (fs, h) p =>
    let (f, h) := addNative h functionProto p.1 p.2
    (fs ++ [(p.1, Value.object f)], h)) ([], h)
  { heap := h
    realm :=
      { objectProto, functionProto, arrayProto, textProto, numberProto, booleanProto, mapProto,
        setProto, dateProto, errors }
    globals :=
      [("Object", .object object), ("Function", .object function), ("Array", .object array),
        ("String", .object string), ("Number", .object number), ("Boolean", .object boolean),
        ("Map", .object map), ("Set", .object set), ("Date", .object date), ("Math", .object math),
        ("JSON", .object json), ("NaN", .number Binary64.nan),
        ("Infinity", .number Binary64.infinity)] ++
        (errors.map fun p => (p.1.name, .object p.2)) ++ functions }

end Stepper.Builtin
