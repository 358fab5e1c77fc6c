/-!
Failures of the machine itself. A program can neither raise nor catch them; they end a run at once.
-/
namespace Stepper

inductive Fault where
  /-- An integer too large for a number. -/
  | integerOutOfRange
  /-- A text of digits too long to be read as an integer. -/
  | integerTooLong (digits : Nat)
  /-- A text or number that stands for no integer where one is needed. -/
  | notAnInteger
  /-- A code point past the last one. -/
  | codePointOutOfRange
  | malformedEscape
  | malformedNumber
  | malformedText
  /-- A radix or digit count with no meaning. -/
  | badRadix
  /-- A moment outside the years that a calendar date can have. -/
  | dateOutOfRange
  /-- `super` where no method's home object is known. -/
  | noHomeObject
  | unknownOperator
  | unknownSeverity
  /-- An operation on a value of the wrong kind inside the machine. -/
  | wrongKind
  /-- A sequence longer than any that can be stored. -/
  | tooLarge
  /-- More nested machine calls than the machine allows. -/
  | nestingTooDeep
  /-- The bound given to a run was used up. -/
  | outOfFuel
  deriving DecidableEq, Repr

end Stepper
