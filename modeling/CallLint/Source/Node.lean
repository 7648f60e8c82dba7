/-
The concrete syntax tree. A node has a kind, the byte range from its first token to the end of its last one, and its
children in source order; comments are children of the innermost node that has tokens on both sides of them. A child
may play a role in its parent, and a parent's children of one role are found by it.

Most tokens make no node. Those that are needed to tell declarations apart are nodes that are not named.
-/
namespace CallLint

inductive NodeKind where
  | program
  | packageDeclaration
  | importDeclaration
  | moduleDeclaration
  | classDeclaration
  | interfaceDeclaration
  | enumDeclaration
  | recordDeclaration
  | annotationTypeDeclaration
  | classBody
  | interfaceBody
  | enumBody
  | enumBodyDeclarations
  | annotationTypeBody
  | moduleBody
  | enumConstant
  | fieldDeclaration
  | constantDeclaration
  | methodDeclaration
  | constructorDeclaration
  | compactConstructorDeclaration
  | constructorBody
  | staticInitializer
  | annotationTypeElementDeclaration
  | explicitConstructorInvocation
  | modifiers
  | annotationMarker
  | annotationWithArguments
  | annotationArgumentList
  | elementValuePair
  | elementValueArrayInitializer
  | superclass
  | superInterfaces
  | extendsInterfaces
  | permits
  | typeParameters
  | throws
  | formalParameters
  | formalParameter
  | spreadParameter
  | receiverParameter
  | inferredParameters
  | variableDeclarator
  | dimensions
  | identifier
  | scopedIdentifier
  | asterisk
  | underscorePattern
  | typeIdentifier
  | scopedTypeIdentifier
  | genericType
  | arrayType
  | annotatedType
  | integralType
  | floatingPointType
  | booleanType
  | voidType
  | typeArguments
  | block
  | localVariableDeclaration
  | expressionStatement
  | labeledStatement
  | ifStatement
  | whileStatement
  | doStatement
  | forStatement
  | enhancedForStatement
  | breakStatement
  | continueStatement
  | returnStatement
  | yieldStatement
  | throwStatement
  | assertStatement
  | synchronizedStatement
  | tryStatement
  | tryWithResourcesStatement
  | resourceSpecification
  | resource
  | catchClause
  | catchFormalParameter
  | catchType
  | finallyClause
  | switchBlock
  | switchBlockStatementGroup
  | switchRule
  | switchLabel
  | guard
  | pattern
  | typePattern
  | recordPattern
  | recordPatternBody
  | recordPatternComponent
  | assignmentExpression
  | binaryExpression
  | instanceofExpression
  | lambdaExpression
  | ternaryExpression
  | updateExpression
  | unaryExpression
  | castExpression
  | switchExpression
  | parenthesizedExpression
  | classLiteral
  | thisExpr
  | superExpr
  | objectCreationExpression
  | fieldAccess
  | arrayAccess
  | methodInvocation
  | methodReference
  | arrayCreationExpression
  | arrayInitializer
  | templateExpression
  | argumentList
  | dimensionsExpr
  | stringLiteral
  | stringInterpolation
  | characterLiteral
  | decimalIntegerLiteral
  | hexIntegerLiteral
  | octalIntegerLiteral
  | binaryIntegerLiteral
  | decimalFloatingPointLiteral
  | hexFloatingPointLiteral
  | trueLiteral
  | falseLiteral
  | nullLiteral
  | lineComment
  | blockComment
  | finalKeyword
  | publicKeyword
  | abstractKeyword
  | staticKeyword
  | otherModifier
  | operatorMark
  /-- text that fits nowhere, in a tree that was recovered from a file with syntax errors -/
  | error
deriving DecidableEq, Repr, Inhabited

namespace NodeKind

/-- the name under which nodes of a kind appear in units -/
def render : NodeKind → String
  | .program => "program"
  | .packageDeclaration => "package_declaration"
  | .importDeclaration => "import_declaration"
  | .moduleDeclaration => "module_declaration"
  | .classDeclaration => "class_declaration"
  | .interfaceDeclaration => "interface_declaration"
  | .enumDeclaration => "enum_declaration"
  | .recordDeclaration => "record_declaration"
  | .annotationTypeDeclaration => "annotation_type_declaration"
  | .classBody => "class_body"
  | .interfaceBody => "interface_body"
  | .enumBody => "enum_body"
  | .enumBodyDeclarations => "enum_body_declarations"
  | .annotationTypeBody => "annotation_type_body"
  | .moduleBody => "module_body"
  | .enumConstant => "enum_constant"
  | .fieldDeclaration => "field_declaration"
  | .constantDeclaration => "constant_declaration"
  | .methodDeclaration => "method_declaration"
  | .constructorDeclaration => "constructor_declaration"
  | .compactConstructorDeclaration => "compact_constructor_declaration"
  | .constructorBody => "constructor_body"
  | .staticInitializer => "static_initializer"
  | .annotationTypeElementDeclaration => "annotation_type_element_declaration"
  | .explicitConstructorInvocation => "explicit_constructor_invocation"
  | .modifiers => "modifiers"
  | .annotationMarker => "marker_annotation"
  | .annotationWithArguments => "annotation"
  | .annotationArgumentList => "annotation_argument_list"
  | .elementValuePair => "element_value_pair"
  | .elementValueArrayInitializer => "element_value_array_initializer"
  | .superclass => "superclass"
  | .superInterfaces => "super_interfaces"
  | .extendsInterfaces => "extends_interfaces"
  | .permits => "permits"
  | .typeParameters => "type_parameters"
  | .throws => "throws"
  | .formalParameters => "formal_parameters"
  | .formalParameter => "formal_parameter"
  | .spreadParameter => "spread_parameter"
  | .receiverParameter => "receiver_parameter"
  | .inferredParameters => "inferred_parameters"
  | .variableDeclarator => "variable_declarator"
  | .dimensions => "dimensions"
  | .identifier => "identifier"
  | .scopedIdentifier => "scoped_identifier"
  | .asterisk => "asterisk"
  | .underscorePattern => "underscore_pattern"
  | .typeIdentifier => "type_identifier"
  | .scopedTypeIdentifier => "scoped_type_identifier"
  | .genericType => "generic_type"
  | .arrayType => "array_type"
  | .annotatedType => "annotated_type"
  | .integralType => "integral_type"
  | .floatingPointType => "floating_point_type"
  | .booleanType => "boolean_type"
  | .voidType => "void_type"
  | .typeArguments => "type_arguments"
  | .block => "block"
  | .localVariableDeclaration => "local_variable_declaration"
  | .expressionStatement => "expression_statement"
  | .labeledStatement => "labeled_statement"
  | .ifStatement => "if_statement"
  | .whileStatement => "while_statement"
  | .doStatement => "do_statement"
  | .forStatement => "for_statement"
  | .enhancedForStatement => "enhanced_for_statement"
  | .breakStatement => "break_statement"
  | .continueStatement => "continue_statement"
  | .returnStatement => "return_statement"
  | .yieldStatement => "yield_statement"
  | .throwStatement => "throw_statement"
  | .assertStatement => "assert_statement"
  | .synchronizedStatement => "synchronized_statement"
  | .tryStatement => "try_statement"
  | .tryWithResourcesStatement => "try_with_resources_statement"
  | .resourceSpecification => "resource_specification"
  | .resource => "resource"
  | .catchClause => "catch_clause"
  | .catchFormalParameter => "catch_formal_parameter"
  | .catchType => "catch_type"
  | .finallyClause => "finally_clause"
  | .switchBlock => "switch_block"
  | .switchBlockStatementGroup => "switch_block_statement_group"
  | .switchRule => "switch_rule"
  | .switchLabel => "switch_label"
  | .guard => "guard"
  | .pattern => "pattern"
  | .typePattern => "type_pattern"
  | .recordPattern => "record_pattern"
  | .recordPatternBody => "record_pattern_body"
  | .recordPatternComponent => "record_pattern_component"
  | .assignmentExpression => "assignment_expression"
  | .binaryExpression => "binary_expression"
  | .instanceofExpression => "instanceof_expression"
  | .lambdaExpression => "lambda_expression"
  | .ternaryExpression => "ternary_expression"
  | .updateExpression => "update_expression"
  | .unaryExpression => "unary_expression"
  | .castExpression => "cast_expression"
  | .switchExpression => "switch_expression"
  | .parenthesizedExpression => "parenthesized_expression"
  | .classLiteral => "class_literal"
  | .thisExpr => "this"
  | .superExpr => "super"
  | .objectCreationExpression => "object_creation_expression"
  | .fieldAccess => "field_access"
  | .arrayAccess => "array_access"
  | .methodInvocation => "method_invocation"
  | .methodReference => "method_reference"
  | .arrayCreationExpression => "array_creation_expression"
  | .arrayInitializer => "array_initializer"
  | .templateExpression => "template_expression"
  | .argumentList => "argument_list"
  | .dimensionsExpr => "dimensions_expr"
  | .stringLiteral => "string_literal"
  | .stringInterpolation => "string_interpolation"
  | .characterLiteral => "character_literal"
  | .decimalIntegerLiteral => "decimal_integer_literal"
  | .hexIntegerLiteral => "hex_integer_literal"
  | .octalIntegerLiteral => "octal_integer_literal"
  | .binaryIntegerLiteral => "binary_integer_literal"
  | .decimalFloatingPointLiteral => "decimal_floating_point_literal"
  | .hexFloatingPointLiteral => "hex_floating_point_literal"
  | .trueLiteral => "true"
  | .falseLiteral => "false"
  | .nullLiteral => "null_literal"
  | .lineComment => "line_comment"
  | .blockComment => "block_comment"
  | .finalKeyword => "final"
  | .publicKeyword => "public"
  | .abstractKeyword => "abstract"
  | .staticKeyword => "static"
  | .otherModifier => "modifier"
  | .operatorMark => "operator"
  | .error => "ERROR"

/-- whether nodes of a kind are more than a token of the grammar -/
def isNamed : NodeKind → Bool
  | .finalKeyword | .publicKeyword | .abstractKeyword | .staticKeyword | .otherModifier | .operatorMark => false
  | _ => true

def isComment : NodeKind → Bool
  | .lineComment | .blockComment => true
  | _ => false

/-- declarations of named types -/
def isTypeDeclaration : NodeKind → Bool
  | .classDeclaration | .interfaceDeclaration | .enumDeclaration | .recordDeclaration
  | .annotationTypeDeclaration => true
  | _ => false

/-- kinds that are expressions -/
def isExpression : NodeKind → Bool
  | .methodInvocation | .objectCreationExpression | .identifier | .fieldAccess | .binaryExpression
  | .parenthesizedExpression | .stringLiteral | .characterLiteral | .decimalIntegerLiteral | .hexIntegerLiteral
  | .octalIntegerLiteral | .binaryIntegerLiteral | .decimalFloatingPointLiteral | .hexFloatingPointLiteral
  | .trueLiteral | .falseLiteral | .nullLiteral | .lambdaExpression | .ternaryExpression | .assignmentExpression
  | .updateExpression | .unaryExpression | .castExpression | .instanceofExpression | .arrayAccess
  | .arrayCreationExpression | .arrayInitializer | .methodReference | .classLiteral | .thisExpr | .superExpr
  | .switchExpression | .templateExpression => true
  | _ => false

end NodeKind

/-- the part that a child plays in its parent -/
inductive Role where
  | alternative
  | arguments
  | array
  | body
  | condition
  | consequence
  | constructor
  | declarator
  | dimensions
  | element
  | field
  | index
  | init
  | interfaces
  | key
  | left
  | name
  | object
  | operand
  | operator
  | parameters
  | resources
  | right
  | scope
  | superclass
  | typeArguments
  | typeParameters
  | type
  | update
  | value
deriving DecidableEq, Repr, Inhabited

inductive Node where
  | mk (kind : NodeKind) (role : Option Role) (start stop : Nat) (children : List Node)
deriving Repr, Inhabited

namespace Node

def kind : Node → NodeKind
  | mk kind _ _ _ _ => kind

def role : Node → Option Role
  | mk _ role _ _ _ => role

/-- offset of the first byte -/
def start : Node → Nat
  | mk _ _ start _ _ => start

/-- offset after the last byte -/
def stop : Node → Nat
  | mk _ _ _ stop _ => stop

def children : Node → List Node
  | mk _ _ _ _ children => children

/-- the node in another role -/
def withRole (r : Role) : Node → Node
  | mk kind _ start stop children => mk kind (some r) start stop children

def isComment (n : Node) : Bool :=
  n.kind.isComment

/-- the named children that are no comments -/
def namedChildren (n : Node) : List Node :=
  n.children.filter fun c => c.kind.isNamed && !c.isComment

/-- the first child that plays a role -/
def child? (n : Node) (r : Role) : Option Node :=
  n.children.find? (·.role == some r)

/-- all children that play a role -/
def childrenIn (n : Node) (r : Role) : List Node :=
  n.children.filter (·.role == some r)

/-- the first child of a kind -/
def childOfKind? (n : Node) (k : NodeKind) : Option Node :=
  n.children.find? (·.kind == k)

end Node

end CallLint
