/-
Statements. Where a statement may be a declaration or an expression, a type with a name after it makes a declaration.
-/
import CallLint.Source.Rule.Expression

namespace CallLint.Grammar

def statement : Grammar :=
  ref .statement

def expressionStatement : Grammar :=
  node .expressionStatement (seq [notAhead (token (.oneOf statementWords)), expression, mark ";"])

/-- a variable's name with array brackets -/
def variableId : Grammar :=
  seq [role .name variableName, maybeDimensions]

def declarators : Grammar :=
  separated (role .declarator (node .variableDeclarator
    (seq [variableId, maybe (seq [mark "=", role .value (ref .variableInitializer)])]))) ","

/-- a type and a variable's name; what follows them must be a given mark -/
def variableAhead (marks : List String) : Grammar :=
  ahead (seq [notAhead typeTest, maybeModifiers, ref .unannotatedType, variableId, choice (marks.map mark)])
where
  /-- after a bare name the word `instanceof` is the operator -/
  typeTest : Grammar :=
    seq [token (.name typeExcluded), many (seq [mark ".", token (.name [])]), word "instanceof"]

def localVariable : Grammar :=
  node .localVariableDeclaration
    (seq [variableAhead ["=", ";", ","], commit, maybeModifiers, role .type (ref .unannotatedType), ref .declarators,
      mark ";"])

def blockStatements : Grammar :=
  many statement

def block : Grammar :=
  node .block (braced (ref .blockStatements))

def roleBody (g : Grammar) : Grammar :=
  role .body g

def condition : Grammar :=
  role .condition parenthesizedExpression

/-! ## Control flow -/

def ifStatement : Grammar :=
  node .ifStatement (seq [word "if", condition, role .consequence statement,
    maybe (seq [word "else", role .alternative statement])])

def whileStatement : Grammar :=
  node .whileStatement (seq [word "while", condition, roleBody statement])

def doStatement : Grammar :=
  node .doStatement (seq [word "do", roleBody statement, word "while", condition, mark ";"])

def forStatement : Grammar :=
  let each := node .enhancedForStatement
    (seq [word "for", mark "(", variableAhead [":"], commit, maybeModifiers, role .type (ref .unannotatedType),
      variableId, mark ":", role .value expression, mark ")", roleBody statement])
  let counted := node .forStatement
    (seq [word "for", mark "(",
      choice [role .init (ref .localVariable), seq [commaList (role .init expression), mark ";"]],
      maybe (role .condition expression), mark ";", commaList (role .update expression), mark ")", roleBody statement])
  choice [each, counted]

def jumpStatements : List Grammar :=
  [node .breakStatement (seq [word "break", maybe anyName, mark ";"]),
    node .continueStatement (seq [word "continue", maybe anyName, mark ";"]),
    node .returnStatement (seq [word "return", maybe expression, mark ";"]),
    node .throwStatement (seq [word "throw", expression, mark ";"])]

def assertStatement : Grammar :=
  node .assertStatement (seq [word "assert", expression, maybe (seq [mark ":", expression]), mark ";"])

def synchronizedStatement : Grammar :=
  node .synchronizedStatement (seq [word "synchronized", parenthesizedExpression, roleBody (ref .block)])

/-- the word `yield` starts a statement unless it is used as a name -/
def yieldStatement : Grammar :=
  node .yieldStatement (seq [word "yield", notAhead nameUse, expression, mark ";"])
where
  nameUse : Grammar :=
    choice (mark "." :: mark "[" :: mark ":" :: mark "->" :: assignmentMarks)

/-! ## Exceptions -/

def catchClause : Grammar :=
  node .catchClause (seq [word "catch", mark "(", parameter, mark ")", roleBody (ref .block)])
where
  parameter : Grammar :=
    node .catchFormalParameter
      (seq [maybeModifiers, node .catchType (separated (ref .unannotatedType) "|"), variableId])

def finallyClause : Grammar :=
  node .finallyClause (seq [word "finally", ref .block])

def tryStatement : Grammar :=
  let plain := node .tryStatement (seq [word "try", roleBody (ref .block),
    choice [seq [many catchClause, finallyClause], seq [catchClause, many catchClause]]])
  let withResources := node .tryWithResourcesStatement (seq [word "try", role .resources resources,
    roleBody (ref .block), many catchClause, maybe finallyClause])
  choice [seq [ahead (seq [word "try", mark "("]), withResources], plain]
where
  resource : Grammar :=
    node .resource (choice [
      seq [variableAhead ["="], commit, maybeModifiers, role .type (ref .unannotatedType), variableId, mark "=",
        role .value expression],
      among [.identifier, .fieldAccess] (ref .primary)])
  resources : Grammar :=
    node .resourceSpecification (seq [mark "(", separated resource ";", maybe (mark ";"), mark ")"])

/-! ## All statements -/

def labeledStatement : Grammar :=
  node .labeledStatement
    (seq [leaf .identifier (.name (expressionWords ++ statementWords ++ contextualWords)), mark ":", commit, statement])

/-- a switch is a statement of its own unless an operator follows it -/
def switchStatement : Grammar :=
  seq [ref .switchExpression, notAhead (choice (mark "?" :: word "instanceof" ::
    ["+", "-", "*", "/", "%", "<", ">", "<=", "==", "!=", "&", "|", "^", "&&", "||", "<<"].map mark))]

def anyStatement : Grammar :=
  choice ([
    mark ";",
    ref .block,
    ifStatement, whileStatement, doStatement, forStatement, tryStatement, assertStatement, synchronizedStatement] ++
    jumpStatements ++
    [ref .declaration, labeledStatement, ref .localVariable, yieldStatement, switchStatement, expressionStatement])

end CallLint.Grammar
