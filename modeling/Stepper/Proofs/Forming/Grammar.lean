import Stepper.Proofs.Forming.Reader

/-!
Every rule of the grammar makes formed trees, and so does reading a whole source: what is read of it
is woven with the comments and placed. There is one lemma for each reader. Where a reader makes many
steps they are taken apart first, since `grind` alone does not get to the end of them.
-/
namespace Stepper.Syntax

open Read Literal

section

variable {g : Grammar} {r s : Read Node} {n : Node} {lead left : List Node}

/-- A grammar forms trees when each of its rules does. -/
@[grind =] theorem Grammar.forms_iff : g.Forms ↔ ∀ rule, (g rule).Forms := .rfl

namespace Literal

/-- The pieces of a string are fragments and escapes. -/
theorem formed_stringPieces {quote : Char} {fuel : Nat} {p : Place} {ns : List Node} {q : Place}
    (h : stringPieces quote fuel p = some (ns, q)) : Formed ns := by
  induction fuel generalizing p ns with
  | zero => cases h
  | succ fuel ih =>
    unfold stringPieces at h
    split at h
    · cases h
    · split at h
      · cases h
        exact formed_nil
      · split at h
        · obtain ⟨n, -, h⟩ := Option.bind_eq_some_iff.mp h
          obtain ⟨⟨ms, q'⟩, hms, h⟩ := Option.bind_eq_some_iff.mp h
          cases h
          exact formed_cons.mpr ⟨formed_leaf_named _ _ _, ih hms⟩
        · split at h
          · cases h
          · obtain ⟨⟨ms, q'⟩, hms, h⟩ := Option.bind_eq_some_iff.mp h
            cases h
            exact formed_cons.mpr ⟨formed_leaf_named _ _ _, ih hms⟩

theorem forms_string : string.Forms := by
  unfold string
  refine .bind forms_look fun t _ => ?_
  split
  · refine .bind forms_bound fun n _ => ?_
    split
    · exact forms_fail
    · have hpieces := formed_stringPieces ‹_›
      grind
  · exact forms_fail

/-- A template nests expressions of the grammar between its fragments. -/
theorem forms_templatePieces (hg : g.Forms) (fuel : Nat) :
    (templatePieces g fuel).Forms := by
  induction fuel with
  | zero => exact forms_fail
  | succ fuel ih =>
    unfold templatePieces
    repeat' with_reducible first
      | refine .bind ?_ fun _ _ => ?_ | refine forms_over ?_ | split | dsimp only
    all_goals grind

theorem forms_template (hg : g.Forms) : (template g).Forms := by
  unfold template
  have hpieces := forms_templatePieces hg
  grind

theorem forms_regex : regex.Forms := by
  unfold regex
  repeat' with_reducible first
    | refine .bind ?_ fun _ _ => ?_ | refine forms_over ?_ | split | dsimp only
  all_goals grind

/-- A list forms its members and its commas, to the closing word. -/
theorem forms_listTail (hr : r.Forms) (close : String) (holes : Bool) (fuel : Nat) :
    (listTail r close holes fuel).Forms := by
  induction fuel with
  | zero => exact forms_fail
  | succ fuel ih =>
    unfold listTail
    repeat' with_reducible first
      | refine .bind ?_ fun _ _ => ?_ | refine forms_over ?_ | split | dsimp only
    all_goals grind

theorem forms_spread (hg : g.Forms) : (spread g).Forms := by
  unfold spread
  grind

theorem forms_elementOrSpread (hg : g.Forms) : (elementOrSpread g).Forms := by
  unfold elementOrSpread
  have hspread := forms_spread hg
  grind

/-- An array has elements, spread elements and holes. -/
theorem forms_array (hg : g.Forms) : (array g).Forms := by
  unfold array
  have htail := forms_listTail (forms_elementOrSpread hg)
  grind

theorem forms_arguments (hg : g.Forms) : (arguments g).Forms := by
  unfold arguments
  have htail := forms_listTail (forms_elementOrSpread hg)
  grind

attribute [grind ←] forms_string forms_template forms_regex forms_listTail forms_spread
  forms_elementOrSpread forms_array forms_arguments

end Literal

namespace Callable

/-- Nodes that are turned one by one keep their form if each turn does. -/
theorem formed_mapM {f : Node → Option Node} (hf : ∀ n m, f n = some m → Formed n → Formed m)
    {ns ms : List Node} (h : ns.mapM f = some ms) (hns : Formed ns) : Formed ms := by
  induction ns generalizing ms with
  | nil =>
    cases h
    exact formed_nil
  | cons n ns ih =>
    obtain ⟨hn, hns⟩ := formed_cons.mp hns
    rw [List.mapM_cons] at h
    obtain ⟨m, hm, h⟩ := Option.bind_eq_some_iff.mp h
    obtain ⟨ks, hks, h⟩ := Option.bind_eq_some_iff.mp h
    cases h
    exact formed_cons.mpr ⟨hf n m hm hn, ih hks hns⟩

/-- Arguments that were read before an arrow are its parameters. -/
@[grind →] theorem formed_toParameters? {ns : List Node} {n : Node} (h : toParameters? ns = some n)
    (hns : Formed ns) : Formed n := by
  obtain ⟨ms, hms, h⟩ := Option.bind_eq_some_iff.mp h
  have hformed : Formed ms := formed_mapM (fun n m h hn => by split at h <;> grind) hms hns
  split at h
  · cases h
    exact formed_over.mpr hformed
  · cases h

theorem forms_formalParameters (hg : g.Forms) : (formalParameters g).Forms := by
  unfold formalParameters
  repeat' with_reducible first
    | refine .bind ?_ fun _ _ => ?_ | refine forms_over ?_ | split | dsimp only
  all_goals grind

/-- A pattern is an array or an object that is read as one. -/
theorem forms_destructuring (hg : g.Forms) : (destructuring g).Forms := by
  unfold destructuring
  grind

theorem forms_bindingTarget (hg : g.Forms) : (bindingTarget g).Forms := by
  unfold bindingTarget
  have hdestructuring := forms_destructuring hg
  grind

theorem forms_initializer (hg : g.Forms) (ends : Bool) (level : Nat) :
    (initializer g ends level).Forms := by
  unfold initializer
  grind

/-- A body is a block of statements. -/
theorem forms_functionBody (hg : g.Forms) (operatorMayFollow : Bool) :
    (functionBody g operatorMayFollow).Forms := by
  unfold functionBody
  grind

theorem forms_name? : name?.Forms := by
  unfold name?
  grind

/-- What stands in front of a function is kept before its name, parameters and body. -/
theorem forms_functionTail (hg : g.Forms) (hlead : Formed lead)
    (declares operatorMayFollow : Bool) :
    (functionTail g declares operatorMayFollow lead).Forms := by
  unfold functionTail
  have hformalParameters := forms_formalParameters hg
  have hfunctionBody := forms_functionBody hg
  have hname := forms_name?
  repeat' with_reducible first
    | refine .bind ?_ fun _ _ => ?_ | refine forms_over ?_ | split | dsimp only
  all_goals grind

theorem forms_labelAhead : labelAhead.Forms := by
  unfold labelAhead
  grind

theorem forms_blockOr (hr : r.Forms) (hs : s.Forms) (goesOn : Token → Bool) :
    (blockOr r s goesOn).Forms := by
  unfold blockOr
  have hlabelAhead := forms_labelAhead
  grind

/-- An arrow has a block or an expression as its body. -/
theorem forms_arrowBody (hg : g.Forms) (ends : Bool) : (arrowBody g ends).Forms := by
  unfold arrowBody
  have hblockOr := @forms_blockOr
  grind

/-- An arrow takes what was read as its parameters. -/
theorem forms_arrowFrom (hg : g.Forms) (hlead : Formed lead) (hn : Formed n)
    (ends : Bool) : (arrowFrom g ends lead n).Forms := by
  unfold arrowFrom
  have harrowBody := forms_arrowBody hg
  grind

attribute [grind ←] forms_formalParameters forms_destructuring forms_bindingTarget forms_initializer
  forms_functionBody forms_name? forms_functionTail forms_blockOr forms_arrowFrom

end Callable

namespace Property

/-- A property is named by a word, a literal or an expression in brackets. -/
theorem forms_propertyName (hg : g.Forms) : (propertyName g).Forms := by
  unfold propertyName
  grind

theorem forms_dotted (hn : Formed n) (fuel : Nat) : (dotted fuel n).Forms := by
  have hname := forms_identifier_as .propertyIdentifier
  induction fuel generalizing n with
  | zero => exact forms_fail
  | succ fuel ih =>
    unfold dotted
    repeat' with_reducible first
      | refine .bind ?_ fun _ _ => ?_ | refine ih (formed_over.mpr ?_) | split
    all_goals grind

theorem forms_decorator (hg : g.Forms) : (decorator g).Forms := by
  unfold decorator
  have hdotted := @forms_dotted
  repeat' with_reducible first
    | refine .bind ?_ fun _ _ => ?_ | refine forms_over ?_ | split | dsimp only
  all_goals grind

/-- Decorators stand in front of what they decorate. -/
theorem forms_decorators (hg : g.Forms) : (decorators g).Forms := by
  unfold decorators
  have hdecorator := forms_decorator hg
  grind

theorem forms_modifier? (words : List String) (star mayEnd : Bool) :
    (modifier? words star mayEnd).Forms := by
  unfold modifier?
  grind

theorem forms_staticWord (inClass : Bool) : (staticWord inClass).Forms := by
  unfold staticWord
  have hmodifier := forms_modifier?
  grind

/-- Words such as `static` and `get` are modifiers, or else names. -/
theorem forms_modifiers (inClass : Bool) : (modifiers inClass).Forms := by
  unfold modifiers
  have hmodifier := forms_modifier?
  have hstaticWord := forms_staticWord
  grind

/-- A method has its name, parameters and body behind its modifiers. -/
theorem forms_methodTail (hg : g.Forms) (hlead : Formed lead) (hn : Formed n)
    (operatorMayFollow : Bool) : (methodTail g lead n operatorMayFollow).Forms := by
  unfold methodTail
  grind

theorem forms_targetTail (hg : g.Forms) (hn : Formed n) : (targetTail g n).Forms := by
  unfold targetTail
  grind

theorem forms_namedElement (hg : g.Forms) : (namedElement g).Forms := by
  unfold namedElement
  have hpropertyName := forms_propertyName hg
  have hdecorators := forms_decorators hg
  have hmodifiers := forms_modifiers
  have hmethodTail := @forms_methodTail g
  have htargetTail := @forms_targetTail g
  repeat' with_reducible first
    | refine .bind ?_ fun _ _ => ?_ | refine forms_over ?_ | split | dsimp only
  all_goals grind

/-- An object has pairs, methods, short names and spread elements. -/
theorem forms_objectElement (hg : g.Forms) : (objectElement g).Forms := by
  unfold objectElement
  have htargetTail := @forms_targetTail g
  have hnamedElement := forms_namedElement hg
  grind

theorem forms_firstElement (hg : g.Forms) : (firstElement g).Forms := by
  unfold firstElement
  have hobjectElement := forms_objectElement hg
  grind

theorem forms_object (hg : g.Forms) : (object g).Forms := by
  unfold object
  have hobjectElement := forms_objectElement hg
  have hfirstElement := forms_firstElement hg
  repeat' with_reducible first
    | refine .bind ?_ fun _ _ => ?_ | refine forms_over ?_ | split | dsimp only
  all_goals grind

/-- A static block is a body of statements. -/
theorem forms_staticBlock (hg : g.Forms) : (staticBlock g).Forms := by
  unfold staticBlock
  grind

/-- A member of a class is a method or a field. -/
theorem forms_memberTail (hg : g.Forms) : (memberTail g).Forms := by
  unfold memberTail
  have hpropertyName := forms_propertyName hg
  have hdecorators := forms_decorators hg
  have hmodifiers := forms_modifiers
  have hmethodTail := @forms_methodTail g
  repeat' with_reducible first
    | refine .bind ?_ fun _ _ => ?_ | refine forms_over ?_ | split | dsimp only
  all_goals grind

theorem forms_classElement (hg : g.Forms) : (classElement g).Forms := by
  unfold classElement
  have hstaticBlock := forms_staticBlock hg
  have hmemberTail := forms_memberTail hg
  grind

/-- Members of a class come one after the other, to the closing brace. -/
theorem forms_classElements (hg : g.Forms) (fuel : Nat) :
    (classElements g fuel).Forms := by
  induction fuel with
  | zero => exact forms_fail
  | succ fuel ih =>
    unfold classElements
    have hclassElement := forms_classElement hg
    grind

theorem forms_classBody (hg : g.Forms) : (classBody g).Forms := by
  unfold classBody
  have hclassElements := forms_classElements hg
  grind

/-- What stands in front of a class is kept before its name, heritage and body. -/
theorem forms_classTail (hg : g.Forms) (hlead : Formed lead) (declares : Bool) :
    (classTail g declares lead).Forms := by
  unfold classTail
  have hclassBody := forms_classBody hg
  repeat' with_reducible first
    | refine .bind ?_ fun _ _ => ?_ | refine forms_over ?_ | split | dsimp only
  all_goals grind

attribute [grind ←] forms_decorators forms_object forms_classBody forms_classTail

end Property

namespace Element

/-- A hyphenated name is one leaf, which gets its kind. -/
theorem formsNamed_hyphenated (kind : Kind) : (hyphenated kind).FormsNamed := by
  unfold hyphenated
  refine forms_look.bind_named fun t _ => ?_
  dsimp only
  split
  · exact formsNamed_identifier_as kind
  · exact (forms_modify fun c hc => Cursor.formed_goTo hc _).bind_named fun _ _ =>
      formsNamed_pure rfl (formed_leaf_named _ _ _)

theorem forms_hyphenated (kind : Kind) : (hyphenated kind).Forms :=
  (formsNamed_hyphenated kind).forms

/-- The pieces of an attribute are text and references. -/
theorem formed_attributePieces {quote : Char} {fuel : Nat} {p q : Place} {ns : List Node}
    (h : attributePieces quote fuel p = some (ns, q)) : Formed ns := by
  induction fuel generalizing p ns with
  | zero => cases h
  | succ fuel ih =>
    unfold attributePieces at h
    split at h
    · cases h
      exact formed_nil
    · obtain ⟨⟨kind, n⟩, -, h⟩ := Option.bind_eq_some_iff.mp h
      obtain ⟨⟨ms, q'⟩, hms, h⟩ := Option.bind_eq_some_iff.mp h
      cases h
      exact formed_cons.mpr ⟨formed_leaf_named _ _ _, ih hms⟩

theorem forms_attributeString : attributeString.Forms := by
  unfold attributeString
  refine .bind forms_look fun t _ => .bind forms_bound fun n _ => ?_
  split
  · exact forms_fail
  · have hpieces := formed_attributePieces ‹_›
    grind

theorem forms_dotted (hn : Formed n) (fuel : Nat) : (dotted fuel n).Forms := by
  have hname := forms_identifier_as .propertyIdentifier
  induction fuel generalizing n with
  | zero => exact forms_fail
  | succ fuel ih =>
    unfold dotted
    repeat' with_reducible first
      | refine .bind ?_ fun _ _ => ?_ | refine ih (formed_over.mpr ?_) | split
    all_goals grind

theorem forms_qualified (kind : Kind) : (qualified kind).Forms := by
  unfold qualified
  have hhyphenated := forms_hyphenated
  have hdotted := @forms_dotted
  refine .bind forms_look fun t _ => (formsNamed_hyphenated .identifier).bind fun n hnamed hn => ?_
  have hkind := formed_with_kind hn hnamed kind
  repeat' with_reducible first
    | refine .bind ?_ fun _ _ => ?_ | refine forms_over ?_ | split
  all_goals grind

theorem forms_braces (hg : g.Forms) : (braces g).Forms := by
  unfold braces
  grind

theorem forms_lastMark (s : String) : (lastMark s).Forms := by
  unfold lastMark
  grind

theorem forms_closingTag : closingTag.Forms := by
  unfold closingTag
  have hqualified := forms_qualified
  have hlastMark := forms_lastMark
  grind

/-- Elements, attributes and contents nest in each other, by induction on the fuel. -/
theorem forms_elements (hg : g.Forms) (fuel : Nat) :
    (element g fuel).Forms ∧ (attributes g fuel).Forms ∧ (attributeValue g fuel).Forms ∧
      (content g fuel).Forms := by
  induction fuel with
  | zero => exact ⟨forms_fail, forms_fail, forms_fail, forms_fail⟩
  | succ fuel ih =>
    obtain ⟨helement, hattributes, hvalue, hcontent⟩ := ih
    refine ⟨?_, ?_, ?_, ?_⟩
    · unfold element
      repeat' with_reducible first
        | refine .bind ?_ fun _ _ => ?_ | refine forms_over ?_ | split | dsimp only
      all_goals grind [forms_qualified, forms_lastMark, forms_closingTag]
    · unfold attributes
      repeat' with_reducible first
        | refine .bind ?_ fun _ _ => ?_ | refine forms_over ?_ | split | dsimp only
      all_goals grind [forms_qualified, forms_braces hg]
    · unfold attributeValue
      repeat' with_reducible first
        | refine .bind ?_ fun _ _ => ?_ | refine forms_over ?_ | split | dsimp only
      all_goals grind [forms_attributeString, forms_braces hg]
    · unfold content
      repeat' with_reducible first
        | refine .bind ?_ fun _ _ => ?_ | refine forms_over ?_ | split | dsimp only
      all_goals grind [forms_braces hg]

theorem forms_elementOperand (hg : g.Forms) : (elementOperand g).Forms := by
  unfold elementOperand
  have helement := fun fuel => (forms_elements hg fuel).1
  grind

attribute [grind ←] forms_elementOperand

end Element

namespace Expression

theorem forms_memberName : memberName.Forms := by
  unfold memberName
  grind

/-- A link of a chain takes what was read as its object. -/
theorem forms_link? (hg : g.Forms) (hn : Formed n) : (link? g n).Forms := by
  unfold link?
  have hmemberName := forms_memberName
  repeat' with_reducible first
    | refine .bind ?_ fun _ _ => ?_ | refine forms_pure (formed_some.mpr ?_) | split
  all_goals grind

theorem forms_constructorLinks (hg : g.Forms) (hn : Formed n) (fuel : Nat) :
    (constructorLinks g fuel n).Forms := by
  induction fuel generalizing n with
  | zero => exact forms_fail
  | succ fuel ih =>
    unfold constructorLinks
    have hlink := @forms_link? g
    grind

/-- A chain takes link after link, by induction on the fuel. -/
theorem forms_tail (hg : g.Forms) (hn : Formed n) (ends steps : Bool) (fuel : Nat) :
    (tail g ends steps fuel n).Forms := by
  induction fuel generalizing n with
  | zero => exact forms_fail
  | succ fuel ih =>
    unfold tail
    have hlink := @forms_link? g
    repeat' with_reducible first
      | refine .bind ?_ fun _ _ => ?_ | refine forms_over ?_ | split | dsimp only
    all_goals grind

theorem forms_parenthesized (hg : g.Forms) (ends : Bool) :
    (parenthesized g ends).Forms := by
  unfold parenthesized
  repeat' with_reducible first
    | refine .bind ?_ fun _ _ => ?_ | refine forms_over ?_ | split | dsimp only
  all_goals grind

/-- A name is an operand, or the parameter of an arrow. -/
theorem forms_nameOperand (hg : g.Forms) (ends : Bool) : (nameOperand g ends).Forms := by
  unfold nameOperand
  grind

/-- The word `async` starts a function or is a name. -/
theorem forms_asyncOperand (hg : g.Forms) (ends : Bool) :
    (asyncOperand g ends).Forms := by
  unfold asyncOperand
  have hnameOperand := forms_nameOperand hg
  repeat' with_reducible first
    | refine .bind ?_ fun _ _ => ?_ | refine forms_over ?_ | split | dsimp only
  all_goals grind [Formed.children]

theorem forms_importOperand (hg : g.Forms) : (importOperand g).Forms := by
  unfold importOperand
  have hmemberName := forms_memberName
  repeat' with_reducible first
    | refine .bind ?_ fun _ _ => ?_ | refine forms_over ?_ | split | dsimp only
  all_goals grind

/-- A call that was read splits into its callee and its arguments. -/
theorem formed_calledName? {n f args : Node} (h : calledName? n = some (f, args))
    (hn : Formed n) : Formed f ∧ Formed args := by
  unfold calledName? at h
  split at h
  · split at h
    · cases h
      exact ⟨hn.child? ‹_›, hn.child? ‹_›⟩
    · cases h
  · cases h

theorem forms_newTail (hg : g.Forms) (hr : r.Forms) : (newTail g r).Forms := by
  unfold newTail
  have hconstructorLinks := @forms_constructorLinks g
  repeat' with_reducible first
    | refine .bind ?_ fun _ _ => ?_ | refine forms_over ?_ | split | dsimp only
  all_goals grind [formed_calledName?]

/-- An operand without operators is of the kind that its first word tells. -/
theorem forms_primary (hg : g.Forms) (ends : Bool) (fuel : Nat) :
    (primary g ends fuel).Forms := by
  induction fuel with
  | zero => exact forms_fail
  | succ fuel ih =>
    unfold primary
    have hparenthesized := forms_parenthesized hg
    have hnameOperand := forms_nameOperand hg
    have hasyncOperand := forms_asyncOperand hg
    have himportOperand := forms_importOperand hg
    have hnewTail := @forms_newTail g
    grind

theorem forms_yielded (hg : g.Forms) (ends : Bool) : (yielded g ends).Forms := by
  unfold yielded
  grind

theorem forms_privateTest (hg : g.Forms) (ends : Bool) : (privateTest g ends).Forms := by
  unfold privateTest
  grind

/-- Prefix operators stand in front of an operand. -/
theorem forms_operand (hg : g.Forms) (ends steps : Bool) (fuel : Nat) :
    (operand g ends steps fuel).Forms := by
  induction fuel generalizing steps with
  | zero => exact forms_fail
  | succ fuel ih =>
    unfold operand
    have htail := @forms_tail g
    have hprimary := forms_primary hg
    have hyielded := forms_yielded hg
    have hprivateTest := forms_privateTest hg
    repeat' with_reducible first
      | refine .bind ?_ fun _ _ => ?_ | refine forms_over ?_ | split | dsimp only
    all_goals grind

/-- Operators take what was read as their left operand, by induction on the fuel. -/
theorem forms_operators (hg : g.Forms) (hn : Formed n) (ends : Bool) (level fuel : Nat) :
    (operators g ends level fuel n).Forms := by
  induction fuel generalizing n with
  | zero => exact forms_fail
  | succ fuel ih =>
    unfold operators
    repeat' with_reducible first
      | refine .bind ?_ fun _ _ => ?_ | refine forms_over ?_ | split | dsimp only
    all_goals grind

/-- An expression is an operand and the operators of its level and above. -/
theorem forms_expression (hg : g.Forms) (ends : Bool) (level : Nat) :
    (expression g ends level).Forms := by
  unfold expression
  have hoperand := forms_operand hg
  have hoperators := @forms_operators g
  grind

theorem forms_sequenceTail (hg : g.Forms) (ends : Bool) (fuel : Nat) :
    (sequenceTail g ends fuel).Forms := by
  induction fuel with
  | zero => exact forms_fail
  | succ fuel ih =>
    unfold sequenceTail
    grind

/-- Expressions with commas between them are a sequence. -/
theorem forms_expressions (hg : g.Forms) (ends : Bool) : (expressions g ends).Forms := by
  unfold expressions
  have hsequenceTail := forms_sequenceTail hg
  grind

attribute [grind ←] forms_operand forms_expression forms_expressions

end Expression

namespace Statement

/-- Statements come one after the other, to a word that ends them. -/
theorem forms_statementsUntil (hg : g.Forms) (stops : Token → Bool) (fuel : Nat) :
    (statementsUntil g stops fuel).Forms := by
  induction fuel with
  | zero => exact forms_fail
  | succ fuel ih =>
    unfold statementsUntil
    grind

/-- A block is statements in braces, where no object literal can be meant. -/
theorem forms_block (hg : g.Forms) (operatorMayFollow orObject : Bool) :
    (block g operatorMayFollow orObject).Forms := by
  unfold block
  have hstatementsUntil := forms_statementsUntil hg
  repeat' with_reducible first
    | refine .bind ?_ fun _ _ => ?_ | refine forms_over ?_ | split | dsimp only
  all_goals grind

/-- A class that is declared ends without a semicolon. -/
theorem forms_declaredClass (hg : g.Forms) (hlead : Formed lead)
    (operatorMayFollow : Bool) : (declaredClass g operatorMayFollow lead).Forms := by
  have hstop {n : Node} (hn : Formed n) (stop : Nat) : Formed { n with stop := max n.stop stop } :=
    hn.congr rfl rfl rfl rfl
  unfold declaredClass
  repeat' with_reducible first
    | refine .bind ?_ fun _ _ => ?_ | refine forms_over ?_ | split | dsimp only
  all_goals grind

theorem forms_parenthesizedCondition (hg : g.Forms) :
    (parenthesizedCondition g).Forms := by
  unfold parenthesizedCondition
  grind

theorem forms_expressionStatement (hg : g.Forms) : (expressionStatement g).Forms := by
  unfold expressionStatement
  grind

theorem forms_declarators (hg : g.Forms) (fuel : Nat) : (declarators g fuel).Forms := by
  induction fuel with
  | zero => exact forms_fail
  | succ fuel ih =>
    unfold declarators
    repeat' with_reducible first
      | refine .bind ?_ fun _ _ => ?_ | refine forms_over ?_ | split | dsimp only
    all_goals grind

/-- A declaration has declarators behind its word. -/
theorem forms_declaration (hg : g.Forms) : (declaration g).Forms := by
  unfold declaration
  have hdeclarators := forms_declarators hg
  repeat' with_reducible first
    | refine .bind ?_ fun _ _ => ?_ | refine forms_over ?_ | split | dsimp only
  all_goals grind

theorem forms_declarationAhead : declarationAhead.Forms := by
  unfold declarationAhead
  grind

/-- The head of a loop over items takes what was read as its target. -/
theorem forms_itemsTail (hg : g.Forms) (hleft : Formed left) :
    (itemsTail g left).Forms := by
  unfold itemsTail
  grind

/-- A value that was read before `in` is a target. -/
theorem forms_valueIn (hg : g.Forms) (hleft : Formed left) (hn : Formed n) (fuel : Nat) :
    (valueIn g left fuel n).Forms := by
  induction fuel generalizing n with
  | zero => exact forms_fail
  | succ fuel ih =>
    unfold valueIn
    have hitemsTail := @forms_itemsTail g
    extract_lets more
    have hmore : more.Forms := by
      unfold more
      repeat' with_reducible first
        | refine .bind ?_ fun _ _ => ?_ | refine ih (formed_over.mpr ?_) | split
      all_goals grind
    clear_value more
    grind

theorem forms_valueOf (hg : g.Forms) (hleft : Formed left) (wait : Bool) :
    (valueOf g wait left).Forms := by
  unfold valueOf
  have hitemsTail := @forms_itemsTail g
  grind

theorem forms_targetHead (hg : g.Forms) : (targetHead g).Forms := by
  unfold targetHead
  have hitemsTail := @forms_itemsTail g
  grind

theorem forms_itemsHead (hg : g.Forms) (wait : Bool) : (itemsHead g wait).Forms := by
  unfold itemsHead
  have hdeclarationAhead := forms_declarationAhead
  have hitemsTail := @forms_itemsTail g
  have hvalueIn := @forms_valueIn g
  have hvalueOf := @forms_valueOf g
  have htargetHead := forms_targetHead hg
  repeat' with_reducible first
    | refine .bind ?_ fun _ _ => ?_ | refine forms_over ?_ | split | dsimp only
  all_goals grind

theorem forms_emptyStatement : emptyStatement.Forms := by
  unfold emptyStatement
  grind

/-- A loop by steps has a start, a condition and an increment. -/
theorem forms_stepsHead (hg : g.Forms) : (stepsHead g).Forms := by
  unfold stepsHead
  have hdeclaration := forms_declaration hg
  have hdeclarationAhead := forms_declarationAhead
  have hemptyStatement := forms_emptyStatement
  repeat' with_reducible first
    | refine .bind ?_ fun _ _ => ?_ | refine forms_over ?_ | split | dsimp only
  all_goals grind

/-- Both loops have a head in parentheses and a body. -/
theorem forms_forLoop (hg : g.Forms) : (forLoop g).Forms := by
  unfold forLoop
  have htargetHead := forms_targetHead hg
  have hitemsHead := forms_itemsHead hg
  have hstepsHead := forms_stepsHead hg
  repeat' with_reducible first
    | refine .bind ?_ fun _ _ => ?_ | refine forms_over ?_ | split | dsimp only
  all_goals grind

/-- An alternative is a clause of its own. -/
theorem forms_ifStatement (hg : g.Forms) : (ifStatement g).Forms := by
  unfold ifStatement
  have hparenthesizedCondition := forms_parenthesizedCondition hg
  repeat' with_reducible first
    | refine .bind ?_ fun _ _ => ?_ | refine forms_over ?_ | split | dsimp only
  all_goals grind

theorem forms_whileLoop (hg : g.Forms) : (whileLoop g).Forms := by
  unfold whileLoop
  have hparenthesizedCondition := forms_parenthesizedCondition hg
  grind

theorem forms_doLoop (hg : g.Forms) : (doLoop g).Forms := by
  unfold doLoop
  have hparenthesizedCondition := forms_parenthesizedCondition hg
  have hexpressionStatement := forms_expressionStatement hg
  repeat' with_reducible first
    | refine .bind ?_ fun _ _ => ?_ | refine forms_over ?_ | split | dsimp only
  all_goals grind

/-- A handler, a finalizer or both follow a guarded block. -/
theorem forms_tryStatement (hg : g.Forms) : (tryStatement g).Forms := by
  unfold tryStatement
  repeat' with_reducible first
    | refine .bind ?_ fun _ _ => ?_ | refine forms_over ?_ | split | dsimp only
  all_goals grind

theorem forms_withStatement (hg : g.Forms) : (withStatement g).Forms := by
  unfold withStatement
  have hparenthesizedCondition := forms_parenthesizedCondition hg
  grind

/-- A jump may name its label. -/
theorem forms_jump (kind : Kind) : (jump kind).Forms := by
  unfold jump
  repeat' with_reducible first
    | refine .bind ?_ fun _ _ => ?_ | refine forms_over ?_ | split | dsimp only
  all_goals grind

theorem forms_debuggerStatement : debuggerStatement.Forms := by
  unfold debuggerStatement
  grind

theorem forms_returnStatement (hg : g.Forms) : (returnStatement g).Forms := by
  unfold returnStatement
  repeat' with_reducible first
    | refine .bind ?_ fun _ _ => ?_ | refine forms_over ?_ | split | dsimp only
  all_goals grind

theorem forms_throwStatement (hg : g.Forms) : (throwStatement g).Forms := by
  unfold throwStatement
  grind

/-- Cases come one after the other, each with its statements. -/
theorem forms_switchCases (hg : g.Forms) (fuel : Nat) : (switchCases g fuel).Forms := by
  induction fuel with
  | zero => exact forms_fail
  | succ fuel ih =>
    unfold switchCases
    have hstatementsUntil := forms_statementsUntil hg
    repeat' with_reducible first
      | refine .bind ?_ fun _ _ => ?_ | refine forms_over ?_ | split | dsimp only
    all_goals grind

theorem forms_switchStatement (hg : g.Forms) : (switchStatement g).Forms := by
  unfold switchStatement
  have hparenthesizedCondition := forms_parenthesizedCondition hg
  have hswitchCases := forms_switchCases hg
  repeat' with_reducible first
    | refine .bind ?_ fun _ _ => ?_ | refine forms_over ?_ | split | dsimp only
  all_goals grind

/-- A label stands in front of a statement. -/
theorem forms_labeledStatement (hg : g.Forms) : (labeledStatement g).Forms := by
  unfold labeledStatement
  grind

theorem forms_moduleName : moduleName.Forms := by
  unfold moduleName
  grind

theorem forms_fromClause : fromClause.Forms := by
  unfold fromClause
  grind

theorem forms_specifier (kind : Kind) : (specifier kind).Forms := by
  unfold specifier
  have hmoduleName := forms_moduleName
  grind

/-- Imported and exported names stand in braces. -/
theorem forms_specifiers (outer inner : Kind) : (specifiers outer inner).Forms := by
  unfold specifiers
  have hspecifier := forms_specifier
  grind

theorem forms_namespaceImport : namespaceImport.Forms := by
  unfold namespaceImport
  grind

theorem forms_importClause : importClause.Forms := by
  unfold importClause
  have hspecifiers := forms_specifiers
  have hnamespaceImport := forms_namespaceImport
  repeat' with_reducible first
    | refine .bind ?_ fun _ _ => ?_ | refine forms_over ?_ | split | dsimp only
  all_goals grind

theorem forms_importStatement (hg : g.Forms) : (importStatement g).Forms := by
  unfold importStatement
  have hfromClause := forms_fromClause
  have himportClause := forms_importClause
  repeat' with_reducible first
    | refine .bind ?_ fun _ _ => ?_ | refine forms_over ?_ | split | dsimp only
  all_goals grind

theorem forms_exportable (hg : g.Forms) (operatorMayFollow : Bool) :
    (exportable g operatorMayFollow).Forms := by
  unfold exportable
  have hdeclaredClass := @forms_declaredClass g
  have hdeclaration := forms_declaration hg
  grind

theorem forms_exportedDeclaration (hg : g.Forms) (operatorMayFollow : Bool) :
    (exportedDeclaration g operatorMayFollow).Forms := by
  unfold exportedDeclaration
  have hexportable := forms_exportable hg
  grind

/-- What stands in front of an export is kept before what it exports. -/
theorem forms_exportTail (hg : g.Forms) (hlead : Formed lead) :
    (exportTail g lead).Forms := by
  unfold exportTail
  have hexportedDeclaration := forms_exportedDeclaration hg
  repeat' with_reducible first
    | refine .bind ?_ fun _ _ => ?_ | refine forms_over ?_ | split | dsimp only
  all_goals grind

theorem forms_exportNames : exportNames.Forms := by
  unfold exportNames
  have hmoduleName := forms_moduleName
  have hfromClause := forms_fromClause
  have hspecifiers := forms_specifiers
  repeat' with_reducible first
    | refine .bind ?_ fun _ _ => ?_ | refine forms_over ?_ | split | dsimp only
  all_goals grind

theorem forms_braced (hg : g.Forms) : (braced g).Forms := by
  unfold braced
  have hexpressionStatement := forms_expressionStatement hg
  grind

/-- A word that may start a declaration is read as one if what follows agrees. -/
theorem forms_declarationOr (hg : g.Forms) (hr : r.Forms) :
    (declarationOr g r).Forms := by
  unfold declarationOr
  have hexpressionStatement := forms_expressionStatement hg
  grind

theorem forms_functionOr (hg : g.Forms) (lead : List String) :
    (functionOr g lead).Forms := by
  unfold functionOr
  have hexpressionStatement := forms_expressionStatement hg
  have hdeclarationOr := @forms_declarationOr g
  repeat' with_reducible first
    | refine .bind ?_ fun _ _ => ?_ | refine forms_over ?_ | split | dsimp only
  all_goals grind

theorem forms_decorated (hg : g.Forms) : (decorated g).Forms := by
  unfold decorated
  have hdeclaredClass := @forms_declaredClass g
  have hexpressionStatement := forms_expressionStatement hg
  have hexportTail := @forms_exportTail g
  have hdeclarationOr := @forms_declarationOr g
  repeat' with_reducible first
    | refine .bind ?_ fun _ _ => ?_ | refine forms_over ?_ | split | dsimp only
  all_goals grind

/-- A name starts a label or an expression. -/
theorem forms_named (hg : g.Forms) : (named g).Forms := by
  unfold named
  have hexpressionStatement := forms_expressionStatement hg
  have hlabeledStatement := forms_labeledStatement hg
  grind

attribute [grind ←] forms_declaredClass forms_expressionStatement forms_declaration
  forms_emptyStatement forms_forLoop forms_ifStatement forms_whileLoop forms_doLoop
  forms_tryStatement forms_withStatement forms_jump forms_debuggerStatement forms_returnStatement
  forms_throwStatement forms_switchStatement forms_importStatement forms_exportTail
  forms_exportNames forms_braced forms_declarationOr forms_functionOr forms_decorated forms_named

/-- A statement is of the kind that its first word tells. -/
theorem forms_statement (hg : g.Forms) : (statement g).Forms := by
  unfold statement
  grind

attribute [grind ←] forms_statementsUntil forms_block forms_statement

end Statement

end

/-- Each unit of fuel makes a grammar of the one below it. -/
theorem Statement.forms_grammar (fuel : Nat) : (grammar fuel : Grammar).Forms := by
  induction fuel with
  | zero => exact fun _ => forms_fail
  | succ fuel ih =>
    intro rule
    unfold grammar
    cases rule <;> grind

/-- A program is statements to the end of the source. -/
theorem forms_readProgram (fuel : Nat) : (readProgram fuel).Forms := by
  have hgrammar := Statement.forms_grammar fuel
  unfold readProgram
  repeat' with_reducible first
    | refine .bind ?_ fun _ _ => ?_ | refine forms_over ?_ | split | dsimp only
  all_goals grind

section

variable {n : Node}

theorem formed_takeWhile {ns : List Node} (p : Node → Bool) (h : Formed ns) :
    Formed (ns.takeWhile p) := h.sublist (ns.takeWhile_sublist p)

theorem formed_dropWhile {ns : List Node} (p : Node → Bool) (h : Formed ns) :
    Formed (ns.dropWhile p) := h.sublist (ns.dropWhile_sublist p)

mutual

/-- Comments that are put among children leave them in their form. -/
theorem formed_withComments (n : Node) {cs : List Node} (hn : Formed n) (hcs : Formed cs) :
    Formed (n.withComments cs) := by
  match n with
  | ⟨_, _, _, _, _, _, _, _, _, _, children⟩ =>
    obtain ⟨hfits, hchildren⟩ := formed_node.mp hn
    exact formed_node.mpr ⟨⟨hfits.token, hfits.operator⟩, formed_weave children hchildren hcs⟩
termination_by structural n

/-- Comments are woven in by their places, at every level. -/
theorem formed_weave (ns : List Node) {cs : List Node} (hns : Formed ns) (hcs : Formed cs) :
    Formed (Node.weave ns cs) := by
  match ns with
  | [] => exact hcs
  | n :: ns =>
    obtain ⟨hn, hns⟩ := formed_cons.mp hns
    have hrest := formed_dropWhile (fun c => c.start < n.start) hcs
    exact formed_append.mpr ⟨formed_takeWhile _ hcs, formed_cons.mpr
      ⟨formed_withComments n hn (formed_takeWhile _ hrest),
        formed_weave ns hns (formed_dropWhile _ hrest)⟩⟩
termination_by structural ns

end

mutual

/-- Places and numbers are no part of the form. -/
theorem formed_place (point : Nat → Point) (n : Node) (k : Nat) (hn : Formed n) :
    Formed (n.place point k).1 := by
  match n with
  | ⟨_, _, _, _, _, _, _, _, _, _, cs⟩ =>
    obtain ⟨hfits, hcs⟩ := formed_node.mp hn
    exact formed_node.mpr ⟨⟨hfits.token, hfits.operator⟩, formed_placeAll point cs (k + 1) hcs⟩
termination_by structural n

theorem formed_placeAll (point : Nat → Point) (ns : List Node) (k : Nat) (hns : Formed ns) :
    Formed (Node.placeAll point ns k).1 := by
  match ns with
  | [] => exact formed_nil
  | n :: ns =>
    obtain ⟨hn, hns⟩ := formed_cons.mp hns
    exact formed_cons.mpr ⟨formed_place point n k hn, formed_placeAll point ns _ hns⟩
termination_by structural ns

end

end

/-- A tree that was read is formed. -/
theorem parse_formed {source : String} {p : Program} (h : parse source = .ok p) :
    Formed p.root := by
  unfold parse at h
  split at h
  · cases h
  · next body c hread =>
    obtain ⟨hbody, hc⟩ := forms_readProgram _ _ _ _ (Cursor.formed_atPlace _ _ formed_nil) hread
    obtain ⟨hcomments, hbetween⟩ := formed_cursor.mp hc
    have hwoven : Formed (Node.weave body (c.between ++ c.comments).reverse) :=
      formed_weave body hbody (formed_reverse.mpr (formed_append.mpr ⟨hbetween, hcomments⟩))
    dsimp only at h
    split at h
    · cases h
      exact formed_place _ _ _ (formed_node.mpr ⟨⟨nofun, nofun⟩, hwoven⟩)
    · cases h

end Stepper.Syntax
