/-
Expressions. An operand is read first; then come operators, as long as they bind more tightly than what stands to the
left of the operand. From loose to tight the levels are: assignment 1, conditional 3, `||` 4, `&&` 5, `|` 6, `^` 7,
`&` 8, equality 9, relation and `instanceof` 10, shift 11, sum 12, product 13, cast 14, unary and update 15.

In parentheses a name may be a type. Whether they are a cast is told by what follows them. A sign after a plain name
makes a sum. A sign after a dotted name makes a cast of the signed operand, unless an operator on the left binds as
tightly as a sum, or a product follows the operand.
-/
import CallLint.Source.Rule.Type

namespace CallLint.Grammar

def expression : Grammar :=
  ref (.expression 0 true .free)

def parenthesizedExpression : Grammar :=
  node .parenthesizedExpression (parenthesized expression)

/-! ## Primaries -/

def literal : Grammar :=
  choice [
    leaf .decimalIntegerLiteral (.kind .decimalInteger),
    leaf .hexIntegerLiteral (.kind .hexInteger),
    leaf .octalIntegerLiteral (.kind .octalInteger),
    leaf .binaryIntegerLiteral (.kind .binaryInteger),
    leaf .decimalFloatingPointLiteral (.kind .decimalFloat),
    leaf .hexFloatingPointLiteral (.kind .hexFloat),
    leaf .characterLiteral (.kind .character),
    leaf .trueLiteral (.word "true"),
    leaf .falseLiteral (.word "false"),
    leaf .nullLiteral (.word "null"),
    ref .string]

/-- a string with the expressions embedded in it -/
def string : Grammar :=
  node .stringLiteral
    (seq [token (.kind .quoteOpen),
      many (node .stringInterpolation (seq [token (.kind .spliceOpen), expression, token (.kind .spliceClose)])),
      token (.kind .quoteClose)])

def arguments : Grammar :=
  node .argumentList (seq [mark "(", commaList expression, mark ")"])

def roleArguments : Grammar :=
  role .arguments (ref .arguments)

def maybeTypeArguments : Grammar :=
  maybe (role .typeArguments (ref .typeArguments))

/-- what follows `new` when an object is made -/
def objectCreation : Grammar :=
  seq [word "new", annotations, maybe (seq [role .typeArguments (ref .typeArguments), annotations]),
    role .type (ref .simpleType), roleArguments, maybe (ref .classBody)]

def arrayCreation : Grammar :=
  node .arrayCreationExpression
    (seq [word "new", annotations, role .type (ref .simpleType),
      choice [
        seq [role .dimensions dimensions, role .value (ref .arrayInitializer)],
        seq [dimension, many dimension, maybeDimensions]]])
where
  dimension : Grammar :=
    role .dimensions (node .dimensionsExpr (seq [annotations, mark "[", expression, mark "]"]))

/-- what follows the two colons of a method reference -/
def referenceTail : Grammar :=
  seq [mark "::", maybe (ref .typeArguments), choice [word "new", anyName]]

/-- a name after a point -/
def memberName : Grammar :=
  leaf .identifier (.name ["new", "super", "this"])

/-- ways to go on after a primary, or after `super` -/
def memberLinks : List (Link Grammar) :=
  let super := leaf .superExpr (.word "super")
  [⟨none, .methodInvocation, some .object, seq [mark ".", super, mark ".", maybeTypeArguments, role .name memberName,
      roleArguments]⟩,
    ⟨none, .fieldAccess, some .object, seq [mark ".", super, mark ".", role .field fieldName]⟩,
    ⟨none, .methodInvocation, some .object, seq [mark ".", maybeTypeArguments, role .name memberName, roleArguments]⟩,
    ⟨none, .fieldAccess, some .object, seq [mark ".", notAhead superCall, role .field fieldName]⟩,
    ⟨none, .methodReference, none, referenceTail⟩]
where
  fieldName : Grammar := choice [leaf .thisExpr (.word "this"), memberName]
  superCall : Grammar := seq [word "super", mark "("]

def primaryLinks : List (Link Grammar) :=
  memberLinks ++
    [⟨none, .objectCreationExpression, none, seq [mark ".", objectCreation]⟩,
      ⟨none, .arrayAccess, some .array, seq [mark "[", role .index expression, mark "]"]⟩,
      ⟨none, .templateExpression, none, seq [mark ".", ref .string]⟩]

/-- types that are no expressions: primitive types, arrays, and types with arguments -/
def pureType : Grammar :=
  among [.genericType, .arrayType, .voidType, .booleanType, .floatingPointType, .integralType] (ref .unannotatedType)

def primaryStart : Grammar :=
  choice [
    solid .classLiteral (seq [ref .unannotatedType, mark ".", word "class"]),
    node .methodReference (seq [choice [solid .annotatedType (seq [ref .annotationForm, ref .type]), pureType],
      referenceTail]),
    literal,
    leaf .thisExpr (.word "this"),
    chain (seq [leaf .superExpr (.word "super"), ahead (choice [mark ".", mark "::"])]) memberLinks,
    node .objectCreationExpression objectCreation,
    arrayCreation,
    parenthesizedExpression,
    node .methodInvocation (seq [role .name expressionName, roleArguments]),
    expressionName]

def primary : Grammar :=
  chain primaryStart primaryLinks

/-! ## Operands -/

def assignmentMarks : List Grammar :=
  (["=", "+=", "-=", "*=", "/=", "&=", "|=", "^=", "%=", "<<="].map fun m => leaf .operatorMark (.mark m)) ++
    [leaf .operatorMark (.angles 3 true), leaf .operatorMark (.angles 2 true)]

/-- a primary, and what it is assigned when an assignment operator follows -/
def assignable : Grammar :=
  chain (ref .primary)
    [⟨some [.identifier, .fieldAccess, .arrayAccess], .assignmentExpression, some .left,
      seq [role .operator (choice assignmentMarks), commit, role .right expression]⟩]

def lambdaTail : Grammar :=
  seq [mark "->", role .body (choice [ref .block, expression])]

def lambdas (arrow : Bool) : List Grammar :=
  let named := node .lambdaExpression
    (seq [role .parameters (leaf .identifier (.name expressionWords)), ahead (mark "->"), commit, lambdaTail])
  let grouped := node .lambdaExpression (seq [aheadArrow, role .parameters (choice [inferred, ref .formalParameters]),
    lambdaTail])
  if arrow then [named, grouped] else []
where
  inferred : Grammar :=
    node .inferredParameters (parenthesized (separated anyName ","))

/-- tokens that only an operand starts with, signs apart -/
def operandAhead : Grammar :=
  choice [
    token (.name ["instanceof"]),
    mark "(", mark "!", mark "~", mark "@", token (.kind .quoteOpen), token (.kind .character),
    token (.kind .decimalInteger), token (.kind .hexInteger), token (.kind .octalInteger),
    token (.kind .binaryInteger), token (.kind .decimalFloat), token (.kind .hexFloat),
    seq [choice [mark "++", mark "--"], choice [token (.name ["instanceof"]), mark "("]]]

/-- signs in the value of a cast -/
def signsInValue : SignCast → SignCast
  | .never => .never
  | _ => .inCast

/-- signs in the operand of a unary operator; a cast around it has been decided before -/
def signsInOperand : SignCast → SignCast
  | .inCast => .inCast
  | _ => .never

/-- a name in parentheses is a cast when an operand follows, a dotted one also when a sign follows -/
def casts (signs : SignCast) : List Grammar :=
  let type := role .type (ref .type)
  let plain := seq [mark "(", role .type (among [.typeIdentifier] (ref .type)), mark ")"]
  let pure := seq [mark "(", role .type pureType, mark ")"]
  let any := seq [mark "(", type, mark ")"]
  let value := role .value (ref (.expression 14 true (signsInValue signs)))
  let signed := node .castExpression (seq [notAhead plain, any, ahead (choice [mark "+", mark "-"]), value,
    notAhead (choice [mark "*", mark "/", mark "%"])])
  [node .castExpression (seq [pure, commit, value]), node .castExpression (seq [any, ahead operandAhead, value])] ++
    (if signs = .never then [] else [signed]) ++
    [node .castExpression
      (seq [mark "(", type, mark "&", role .type (ref .type), many (seq [mark "&", role .type (ref .type)]), mark ")",
        ahead operandAhead, role .value (choice (lambdas true ++ [ref .primary]))])]

def operand (arrow : Bool) (signs : SignCast) : Grammar :=
  let inner := ref (.expression 15 arrow (signsInOperand signs))
  choice (lambdas arrow ++
    [ref .switchExpression] ++ casts signs ++
    [node .unaryExpression
        (seq [role .operator (choice (["+", "-", "!", "~"].map fun m => leaf .operatorMark (.mark m))), commit,
          role .operand inner]),
      node .updateExpression (seq [choice [mark "++", mark "--"], commit, inner]),
      assignable])

/-! ## Operators -/

/-- a binary operator with its level -/
def binaryLink (arrow : Bool) (level : Nat) (t : Terminal) : Nat × Link Grammar :=
  (level, ⟨none, .binaryExpression, some .left,
    seq [role .operator (leaf .operatorMark t), commit,
      role .right (ref (.expression level arrow (if level < 12 then .free else .never)))]⟩)

def operatorLinks (arrow : Bool) : List (Nat × Link Grammar) :=
  [(15, ⟨none, .updateExpression, none, choice [mark "++", mark "--"]⟩),
    binaryLink arrow 13 (.mark "*"), binaryLink arrow 13 (.mark "/"), binaryLink arrow 13 (.mark "%"),
    binaryLink arrow 12 (.mark "+"), binaryLink arrow 12 (.mark "-"),
    binaryLink arrow 11 (.mark "<<"), binaryLink arrow 11 (.angles 3 false), binaryLink arrow 11 (.angles 2 false),
    binaryLink arrow 10 (.mark "<="), binaryLink arrow 10 (.mark "<"), binaryLink arrow 10 (.angles 1 true),
    binaryLink arrow 10 (.angles 1 false),
    (10, ⟨none, .instanceofExpression, some .left,
      seq [word "instanceof", maybe (word "final"),
        choice [ref .recordPattern, seq [role .right (ref .type), maybe (role .name bindingName)]]]⟩),
    binaryLink arrow 9 (.mark "=="), binaryLink arrow 9 (.mark "!="),
    binaryLink arrow 8 (.mark "&"), binaryLink arrow 7 (.mark "^"), binaryLink arrow 6 (.mark "|"),
    binaryLink arrow 5 (.mark "&&"), binaryLink arrow 4 (.mark "||"),
    (3, ⟨none, .ternaryExpression, some .condition,
      seq [mark "?", commit, role .consequence expression, mark ":",
        role .alternative (ref (.expression 2 arrow .free))]⟩)]
where
  /-- the name that an instance is bound to; not the word that starts a guard -/
  bindingName : Grammar :=
    if arrow then anyName else seq [notAhead (word "when"), anyName]

def expressionAt (level : Nat) (arrow : Bool) (signs : SignCast) : Grammar :=
  chain (ref (.operand arrow signs)) (((operatorLinks arrow).filter fun l => level < l.1).map (·.2))

/-! ## Patterns and switches -/

/-- a record's name and the patterns of its components -/
def recordPattern : Grammar :=
  node .recordPattern
    (seq [
      choice [
        seq [leaf .identifier (.name typeExcluded), ahead (mark "(")], patternType, seq [anyName, ahead (mark "(")]],
      node .recordPatternBody (parenthesized (commaList (choice [ref .recordPattern, component])))])
where
  patternType : Grammar :=
    seq [among [.genericType] (ref .simpleType), ahead (mark "(")]
  component : Grammar :=
    node .recordPatternComponent (choice [
      seq [leaf .underscorePattern (.word "_"), ahead (choice [mark ",", mark ")"])],
      seq [ref .unannotatedType, variableName]])

def switchLabel : Grammar :=
  node .switchLabel (choice [
    seq [word "case", choice [pattern, separated (ref (.expression 0 false .free)) ","], maybe guard],
    word "default"])
where
  labelEnd : Grammar :=
    choice [mark "->", mark ":", word "when"]
  pattern : Grammar :=
    node .pattern (choice [
      seq [ref .recordPattern, ahead labelEnd],
      seq [node .typePattern (seq [ref .unannotatedType, anyName]), ahead labelEnd]])
  guard : Grammar :=
    node .guard (seq [word "when", ref (.expression 0 false .free)])

def switchBlock : Grammar :=
  node .switchBlock (braced (choice [
    seq [switchRule, many switchRule],
    many group]))
where
  switchRule : Grammar :=
    node .switchRule (seq [switchLabel, mark "->", commit,
      choice [
        ref .block,
        node .throwStatement (seq [word "throw", expression, mark ";"]),
        node .expressionStatement (seq [expression, mark ";"])]])
  groupLabel : Grammar :=
    seq [switchLabel, mark ":"]
  group : Grammar :=
    node .switchBlockStatementGroup (seq [groupLabel, many groupLabel, ref .blockStatements])

def switchExpression : Grammar :=
  node .switchExpression (seq [word "switch", role .condition parenthesizedExpression, role .body switchBlock])

def variableInitializer : Grammar :=
  choice [ref .arrayInitializer, expression]

def arrayInitializer : Grammar :=
  node .arrayInitializer (braced (seq [commaList (ref .variableInitializer), maybe (mark ",")]))

end CallLint.Grammar
