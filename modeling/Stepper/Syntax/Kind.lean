/-!
The kinds of nodes in a syntax tree. Words and punctuation that only hold a construct together are
`token`s, named by their text.
-/
namespace Stepper.Syntax

inductive Kind where
  | program
  | hashBangLine
  | exportStatement
  | namespaceExport
  | exportClause
  | exportSpecifier
  | importStatement
  | importClause
  | namespaceImport
  | namedImports
  | importSpecifier
  | importAttribute
  | debuggerStatement
  | expressionStatement
  | variableDeclaration
  | lexicalDeclaration
  | variableDeclarator
  | statementBlock
  | elseClause
  | ifStatement
  | switchStatement
  | forStatement
  | forInStatement
  | whileStatement
  | doStatement
  | tryStatement
  | withStatement
  | breakStatement
  | continueStatement
  | returnStatement
  | throwStatement
  | emptyStatement
  | labeledStatement
  | switchBody
  | switchCase
  | switchDefault
  | catchClause
  | finallyClause
  | parenthesizedExpression
  | yieldExpression
  | object
  | objectPattern
  | assignmentPattern
  | objectAssignmentPattern
  | array
  | arrayPattern
  | classExpression
  | classDeclaration
  | classHeritage
  | classBody
  | classStaticBlock
  | fieldDefinition
  | methodDefinition
  | functionWord
  | functionExpression
  | functionDeclaration
  | generatorFunction
  | generatorFunctionDeclaration
  | arrowFunction
  | formalParameters
  | callExpression
  | newExpression
  | awaitExpression
  | memberExpression
  | subscriptExpression
  | optionalChain
  | assignmentExpression
  | augmentedAssignmentExpression
  | spreadElement
  | restPattern
  | ternaryExpression
  | binaryExpression
  | unaryExpression
  | updateExpression
  | sequenceExpression
  | arguments
  | pair
  | pairPattern
  | computedPropertyName
  | propertyIdentifier
  | privatePropertyIdentifier
  | shorthandPropertyIdentifier
  | shorthandPropertyIdentifierPattern
  | statementIdentifier
  | identifier
  | string
  | stringFragment
  | escapeSequence
  | templateString
  | templateSubstitution
  | regex
  | regexPattern
  | regexFlags
  | number
  | metaProperty
  | decorator
  | jsxElement
  | jsxOpeningElement
  | jsxClosingElement
  | jsxSelfClosingElement
  | jsxNamespaceName
  | jsxAttribute
  | jsxExpression
  | jsxText
  | characterReference
  | importWord
  | thisWord
  | superWord
  | trueWord
  | falseWord
  | nullWord
  | undefinedWord
  | comment
  | htmlComment
  | error
  /-- A word or a mark that is kept as it is written. -/
  | token (text : String)
  deriving DecidableEq, Repr, Inhabited

namespace Kind

/-- The name of a kind in messages and reports; a token is named by its text. -/
def name : Kind → String
  | .program => "program"
  | .hashBangLine => "hash_bang_line"
  | .exportStatement => "export_statement"
  | .namespaceExport => "namespace_export"
  | .exportClause => "export_clause"
  | .exportSpecifier => "export_specifier"
  | .importStatement => "import_statement"
  | .importClause => "import_clause"
  | .namespaceImport => "namespace_import"
  | .namedImports => "named_imports"
  | .importSpecifier => "import_specifier"
  | .importAttribute => "import_attribute"
  | .debuggerStatement => "debugger_statement"
  | .expressionStatement => "expression_statement"
  | .variableDeclaration => "variable_declaration"
  | .lexicalDeclaration => "lexical_declaration"
  | .variableDeclarator => "variable_declarator"
  | .statementBlock => "statement_block"
  | .elseClause => "else_clause"
  | .ifStatement => "if_statement"
  | .switchStatement => "switch_statement"
  | .forStatement => "for_statement"
  | .forInStatement => "for_in_statement"
  | .whileStatement => "while_statement"
  | .doStatement => "do_statement"
  | .tryStatement => "try_statement"
  | .withStatement => "with_statement"
  | .breakStatement => "break_statement"
  | .continueStatement => "continue_statement"
  | .returnStatement => "return_statement"
  | .throwStatement => "throw_statement"
  | .emptyStatement => "empty_statement"
  | .labeledStatement => "labeled_statement"
  | .switchBody => "switch_body"
  | .switchCase => "switch_case"
  | .switchDefault => "switch_default"
  | .catchClause => "catch_clause"
  | .finallyClause => "finally_clause"
  | .parenthesizedExpression => "parenthesized_expression"
  | .yieldExpression => "yield_expression"
  | .object => "object"
  | .objectPattern => "object_pattern"
  | .assignmentPattern => "assignment_pattern"
  | .objectAssignmentPattern => "object_assignment_pattern"
  | .array => "array"
  | .arrayPattern => "array_pattern"
  | .classExpression => "class"
  | .classDeclaration => "class_declaration"
  | .classHeritage => "class_heritage"
  | .classBody => "class_body"
  | .classStaticBlock => "class_static_block"
  | .fieldDefinition => "field_definition"
  | .methodDefinition => "method_definition"
  | .functionWord => "function"
  | .functionExpression => "function_expression"
  | .functionDeclaration => "function_declaration"
  | .generatorFunction => "generator_function"
  | .generatorFunctionDeclaration => "generator_function_declaration"
  | .arrowFunction => "arrow_function"
  | .formalParameters => "formal_parameters"
  | .callExpression => "call_expression"
  | .newExpression => "new_expression"
  | .awaitExpression => "await_expression"
  | .memberExpression => "member_expression"
  | .subscriptExpression => "subscript_expression"
  | .optionalChain => "optional_chain"
  | .assignmentExpression => "assignment_expression"
  | .augmentedAssignmentExpression => "augmented_assignment_expression"
  | .spreadElement => "spread_element"
  | .restPattern => "rest_pattern"
  | .ternaryExpression => "ternary_expression"
  | .binaryExpression => "binary_expression"
  | .unaryExpression => "unary_expression"
  | .updateExpression => "update_expression"
  | .sequenceExpression => "sequence_expression"
  | .arguments => "arguments"
  | .pair => "pair"
  | .pairPattern => "pair_pattern"
  | .computedPropertyName => "computed_property_name"
  | .propertyIdentifier => "property_identifier"
  | .privatePropertyIdentifier => "private_property_identifier"
  | .shorthandPropertyIdentifier => "shorthand_property_identifier"
  | .shorthandPropertyIdentifierPattern => "shorthand_property_identifier_pattern"
  | .statementIdentifier => "statement_identifier"
  | .identifier => "identifier"
  | .string => "string"
  | .stringFragment => "string_fragment"
  | .escapeSequence => "escape_sequence"
  | .templateString => "template_string"
  | .templateSubstitution => "template_substitution"
  | .regex => "regex"
  | .regexPattern => "regex_pattern"
  | .regexFlags => "regex_flags"
  | .number => "number"
  | .metaProperty => "meta_property"
  | .decorator => "decorator"
  | .jsxElement => "jsx_element"
  | .jsxOpeningElement => "jsx_opening_element"
  | .jsxClosingElement => "jsx_closing_element"
  | .jsxSelfClosingElement => "jsx_self_closing_element"
  | .jsxNamespaceName => "jsx_namespace_name"
  | .jsxAttribute => "jsx_attribute"
  | .jsxExpression => "jsx_expression"
  | .jsxText => "jsx_text"
  | .characterReference => "html_character_reference"
  | .importWord => "import"
  | .thisWord => "this"
  | .superWord => "super"
  | .trueWord => "true"
  | .falseWord => "false"
  | .nullWord => "null"
  | .undefinedWord => "undefined"
  | .comment => "comment"
  | .htmlComment => "html_comment"
  | .error => "ERROR"
  | .token s => s

/-- Every kind but the tokens. -/
def proper : List Kind := [
  .program, .hashBangLine, .exportStatement, .namespaceExport, .exportClause, .exportSpecifier,
  .importStatement, .importClause, .namespaceImport, .namedImports, .importSpecifier,
  .importAttribute, .debuggerStatement, .expressionStatement, .variableDeclaration,
  .lexicalDeclaration, .variableDeclarator, .statementBlock, .elseClause, .ifStatement,
  .switchStatement, .forStatement, .forInStatement, .whileStatement, .doStatement, .tryStatement,
  .withStatement, .breakStatement, .continueStatement, .returnStatement, .throwStatement,
  .emptyStatement, .labeledStatement, .switchBody, .switchCase, .switchDefault, .catchClause,
  .finallyClause, .parenthesizedExpression, .yieldExpression, .object, .objectPattern,
  .assignmentPattern, .objectAssignmentPattern, .array, .arrayPattern, .classExpression,
  .classDeclaration, .classHeritage, .classBody, .classStaticBlock, .fieldDefinition,
  .methodDefinition, .functionWord, .functionExpression, .functionDeclaration, .generatorFunction,
  .generatorFunctionDeclaration, .arrowFunction, .formalParameters, .callExpression,
  .newExpression, .awaitExpression, .memberExpression, .subscriptExpression, .optionalChain,
  .assignmentExpression, .augmentedAssignmentExpression, .spreadElement, .restPattern,
  .ternaryExpression, .binaryExpression, .unaryExpression, .updateExpression, .sequenceExpression,
  .arguments, .pair, .pairPattern, .computedPropertyName, .propertyIdentifier,
  .privatePropertyIdentifier, .shorthandPropertyIdentifier, .shorthandPropertyIdentifierPattern,
  .statementIdentifier, .identifier, .string, .stringFragment, .escapeSequence, .templateString,
  .templateSubstitution, .regex, .regexPattern, .regexFlags, .number, .metaProperty, .decorator,
  .jsxElement, .jsxOpeningElement, .jsxClosingElement, .jsxSelfClosingElement, .jsxNamespaceName,
  .jsxAttribute, .jsxExpression, .jsxText, .characterReference, .importWord, .thisWord, .superWord,
  .trueWord, .falseWord, .nullWord, .undefinedWord, .comment, .htmlComment, .error]

/-- The kind of a given name; what names no kind is a token. -/
def ofName (s : String) : Kind :=
  (proper.find? fun k => k.name == s).getD (.token s)

/-- Kinds with the name of a function, which the word `function` has too. -/
def isFunction : Kind → Bool
  | .functionDeclaration | .generatorFunctionDeclaration | .functionExpression | .functionWord
  | .generatorFunction | .arrowFunction | .methodDefinition => true
  | .token s => s == "function"
  | _ => false

def isLoop : Kind → Bool
  | .forStatement | .forInStatement | .whileStatement | .doStatement => true
  | _ => false

def isDeclaration : Kind → Bool
  | .lexicalDeclaration | .variableDeclaration => true
  | _ => false

/-- Kinds with the name of a class, which the word `class` has too. -/
def isClass : Kind → Bool
  | .classDeclaration | .classExpression => true
  | .token s => s == "class"
  | _ => false

def isComment : Kind → Bool
  | .comment | .htmlComment => true
  | _ => false

end Kind

/-- The parts of a node that have a name of their own. -/
inductive Field where
  | alias
  | alternative
  | argument
  | arguments
  | body
  | condition
  | consequence
  | constructor
  | declaration
  | finalizer
  | flags
  | function
  | handler
  | increment
  | index
  | initializer
  | key
  | kind
  | label
  | left
  | member
  | name
  | object
  | operator
  | optionalChain
  | parameter
  | parameters
  | pattern
  | property
  | right
  | source
  | value
  deriving DecidableEq, Repr

end Stepper.Syntax
