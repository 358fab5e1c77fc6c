import Stepper.Machine.Native

/-!
The names under which functions and constants are found, in the order in which they are installed.
-/
namespace Stepper.Builtin

open Machine

abbrev Table := List (String × Native)

def globalTable : Table :=
  [("parseInt", .global .parseInt), ("parseFloat", .global .parseFloat),
    ("isNaN", .global .isNaN), ("isFinite", .global .isFinite)]

def objectStatics : Table :=
  [("keys", .object .keys), ("values", .object .values), ("entries", .object .entries),
    ("assign", .object .assign), ("freeze", .object .freeze), ("isFrozen", .object .isFrozen),
    ("create", .object .create), ("getPrototypeOf", .object .getPrototypeOf),
    ("fromEntries", .object .fromEntries)]

def objectMethods : Table :=
  [("hasOwnProperty", .object .hasOwnProperty), ("toString", .object .toString),
    ("valueOf", .object .valueOf)]

def functionMethods : Table :=
  [("call", .function .call), ("apply", .function .apply), ("bind", .function .bind),
    ("toString", .function .toString)]

def arrayStatics : Table :=
  [("isArray", .array .isArray), ("from", .array .from_), ("of", .array .of_)]

def arrayMethods : Table :=
  [("push", .array .push), ("pop", .array .pop), ("shift", .array .shift),
    ("unshift", .array .unshift), ("slice", .array .slice), ("splice", .array .splice),
    ("concat", .array .concat), ("join", .array .join), ("reverse", .array .reverse),
    ("indexOf", .array .indexOf), ("lastIndexOf", .array .lastIndexOf),
    ("includes", .array .includes), ("find", .array .find), ("findIndex", .array .findIndex),
    ("filter", .array .filter), ("map", .array .map), ("forEach", .array .forEach),
    ("reduce", .array .reduce), ("reduceRight", .array .reduceRight), ("some", .array .some_),
    ("every", .array .every), ("sort", .array .sort), ("flat", .array .flat),
    ("flatMap", .array .flatMap), ("fill", .array .fill), ("at", .array .at_),
    ("keys", .array .keys), ("toString", .array .toString)]

def textStatics : Table := [("fromCharCode", .text .fromCharCode)]

def textMethods : Table :=
  [("charAt", .text .charAt), ("charCodeAt", .text .charCodeAt), ("indexOf", .text .indexOf),
    ("lastIndexOf", .text .lastIndexOf), ("includes", .text .includes),
    ("startsWith", .text .startsWith), ("endsWith", .text .endsWith), ("slice", .text .slice),
    ("substring", .text .substring), ("substr", .text .substr),
    ("toUpperCase", .text .toUpperCase), ("toLowerCase", .text .toLowerCase),
    ("trim", .text .trim), ("trimStart", .text .trimStart), ("trimEnd", .text .trimEnd),
    ("split", .text .split), ("replace", .text .replace), ("replaceAll", .text .replaceAll),
    ("repeat", .text .repeat_), ("padStart", .text .padStart), ("padEnd", .text .padEnd),
    ("concat", .text .concat), ("at", .text .at_), ("localeCompare", .text .localeCompare),
    ("toString", .text .toString), ("valueOf", .text .valueOf)]

def numberStatics : Table :=
  [("isInteger", .number .isInteger), ("isSafeInteger", .number .isSafeInteger),
    ("isFinite", .number .isFinite), ("isNaN", .number .isNaN),
    ("parseFloat", .global .parseFloat), ("parseInt", .global .parseInt)]

def numberMethods : Table :=
  [("toFixed", .number .toFixed), ("toString", .number .toString), ("valueOf", .number .valueOf)]

def booleanMethods : Table := [("toString", .boolean .toString), ("valueOf", .boolean .valueOf)]

def mathFunctions : Table :=
  [("abs", .math .abs), ("floor", .math .floor), ("ceil", .math .ceil), ("round", .math .round),
    ("trunc", .math .trunc), ("sign", .math .sign), ("sqrt", .math .sqrt), ("cbrt", .math .cbrt),
    ("exp", .math .exp), ("log", .math .log), ("log2", .math .log2), ("log10", .math .log10),
    ("sin", .math .sin), ("cos", .math .cos), ("tan", .math .tan), ("asin", .math .asin),
    ("acos", .math .acos), ("atan", .math .atan), ("max", .math .max), ("min", .math .min),
    ("pow", .math .pow), ("atan2", .math .atan2), ("hypot", .math .hypot),
    ("random", .math .random)]

def jsonFunctions : Table := [("stringify", .json .stringify), ("parse", .json .parse)]

def mapMethods : Table :=
  [("get", .map .get), ("set", .map .set), ("has", .map .has), ("delete", .map .delete),
    ("clear", .map .clear), ("forEach", .map .forEach), ("keys", .map .keys),
    ("values", .map .values), ("entries", .map .entries)]

def setMethods : Table :=
  [("add", .set .add), ("has", .set .has), ("delete", .set .delete), ("clear", .set .clear),
    ("forEach", .set .forEach), ("values", .set .values), ("keys", .set .keys),
    ("entries", .set .entries)]

def dateStatics : Table := [("now", .date .now)]

def dateMethods : Table :=
  [("getTime", .date .getTime), ("valueOf", .date .valueOf), ("toISOString", .date .toISOString),
    ("toJSON", .date .toJSON), ("toString", .date .toString),
    ("getFullYear", .date .getFullYear), ("getMonth", .date .getMonth),
    ("getDate", .date .getDate), ("getDay", .date .getDay), ("getHours", .date .getHours),
    ("getMinutes", .date .getMinutes), ("getSeconds", .date .getSeconds),
    ("getMilliseconds", .date .getMilliseconds)]

def hookTable : Table := Instrument.Hook.all.map fun h => (h.name, .hook h)

def consoleTable : Table := ConsoleKind.all.map fun k => (k.name, .console k)

def numberConstants : List (String × Nat) :=
  [("MAX_SAFE_INTEGER", 0x433fffffffffffff), ("MIN_SAFE_INTEGER", 0xc33fffffffffffff),
    ("EPSILON", 0x3cb0000000000000), ("MAX_VALUE", 0x7fefffffffffffff), ("MIN_VALUE", 1),
    ("POSITIVE_INFINITY", 0x7ff0000000000000), ("NEGATIVE_INFINITY", 0xfff0000000000000),
    ("NaN", 0x7ff8000000000000)]

def mathConstants : List (String × Nat) :=
  [("PI", 0x400921fb54442d18), ("E", 0x4005bf0a8b145769), ("LN2", 0x3fe62e42fefa39ef),
    ("LN10", 0x40026bb1bbb55516), ("LOG2E", 0x3ff71547652b82fe), ("LOG10E", 0x3fdbcb7b1526e50e),
    ("SQRT2", 0x3ff6a09e667f3bcd), ("SQRT1_2", 0x3fe6a09e667f3bcd)]

end Stepper.Builtin
