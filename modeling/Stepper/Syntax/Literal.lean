import Stepper.Syntax.Reader

/-!
Strings, templates and regular expressions, and what stands in brackets and parentheses: elements
with commas between.
-/
namespace Stepper.Syntax.Literal

open Read

variable (g : Grammar)

def isQuote (t : Token) : Bool := t.isMark "\"" || t.isMark "'"

def string : Read Node := do
  let t ← look
  if isQuote t then
    match stringPieces (t.text.toList.headD '"') (← bound) t.stop with
    | none => fail
    | some (pieces, p) =>
      modify (·.goTo (p.drop 1))
      return .over .string (t.node :: pieces ++ [p.leaf (.token t.text) 1 false])
  else fail

/-- The pieces of a template up to its closing mark, which is taken too. -/
def templatePieces : Nat → Read (List Node)
  | 0 => fail
  | fuel + 1 => do
    let p := (← get).last
    match p.rest with
    | '`' :: _ =>
      modify (·.goTo (p.drop 1))
      return [p.leaf (.token "`") 1 false]
    | '$' :: '\x7b' :: _ =>
      modify (·.goTo (p.drop 2))
      let inner ← g (.expressions false)
      let close ← (do if ← isMark "\x7d" then return (← look).node else fail)
      -- what follows the brace is text again
      modify fun c => c.standAt c.look.stop
      let rest ← templatePieces fuel
      return .over .templateSubstitution [p.leaf (.token "$\x7b") 2 false, inner, close] :: rest
    | '\\' :: _ =>
      match escapeLength p.rest with
      | none => fail
      | some n =>
        modify (·.standAt (p.drop n))
        return p.leaf .escapeSequence n true :: (← templatePieces fuel)
    | cs =>
      match templateChars cs with
      | 0 => fail
      | n =>
        modify (·.standAt (p.drop n))
        return p.leaf .stringFragment n true :: (← templatePieces fuel)

def template : Read Node := do
  let t ← look
  modify (·.standAt t.stop)
  let pieces ← templatePieces g (← bound)
  return .over .templateString (t.node :: pieces)

def regex : Read Node := do
  let p := (← look).place
  let body := p.drop 1
  match regexPatternLength (← bound) body.rest with
  | none => fail
  | some 0 => fail
  | some n =>
    let close := body.drop n
    let after := close.drop 1
    let flags := spanLength (fun c => 'a' ≤ c && c ≤ 'z') after.rest
    modify (·.goTo (after.drop flags))
    let flagNodes := if flags == 0 then [] else [(after.leaf .regexFlags flags true).asField .flags]
    return .over .regex ([p.leaf (.token "/") 1 false,
      (body.leaf .regexPattern n true).asField .pattern,
      close.leaf (.token "/") 1 false] ++ flagNodes)

/-- Elements with commas between them; where `holes` is set an element may be missing. The closing
mark is taken too. -/
def listTail (element : Read Node) (close : String) (holes : Bool) : Nat → Read (List Node)
  | 0 => fail
  | fuel + 1 => do
    let t ← lookFresh
    if t.isMark close then return [← take]
    if t.isMark "," then
      if holes then
        let comma ← take
        return comma :: (← listTail element close holes fuel)
      else fail
    let e ← element
    if ← isMark close then return [e, ← take]
    let comma ← mark ","
    return e :: comma :: (← listTail element close holes fuel)

def spread : Read Node := do
  let dots ← mark "..."
  let e ← g (.expression false 0)
  return .over .spreadElement [dots, e]

def elementOrSpread : Read Node := do
  if ← isMark "..." then spread g else g (.expression false 0)

def array : Read Node := do
  let opening ← mark "["
  let items ← listTail (elementOrSpread g) "]" true (← bound)
  return .over .array (opening :: items)

def arguments : Read Node := do
  let opening ← mark "("
  let items ← listTail (elementOrSpread g) ")" true (← bound)
  return .over .arguments (opening :: items)

end Stepper.Syntax.Literal
