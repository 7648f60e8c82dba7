/-
The Java grammar as a table of nonterminals, and reading a file: its tokens run through the grammar, and all of them
must be taken.
-/
import CallLint.Source.Rule.Declaration
import CallLint.Source.Lexer

namespace CallLint

/-- the rule of each nonterminal -/
def Symbol.rule : Symbol → Grammar
  | .program => Grammar.program
  | .statement => Grammar.anyStatement
  | .blockStatements => Grammar.blockStatements
  | .block => Grammar.block
  | .localVariable => Grammar.localVariable
  | .declaration => Grammar.declaration
  | .modifiers => Grammar.modifiers
  | .annotationForm => Grammar.annotationForm
  | .elementValue => Grammar.elementValue
  | .type => Grammar.annotatedType
  | .unannotatedType => Grammar.unannotatedType
  | .simpleType => Grammar.simpleType
  | .typeArguments => Grammar.typeArguments
  | .classBody => Grammar.classBody
  | .member => Grammar.member
  | .interfaceMember => Grammar.interfaceMember
  | .annotationMember => Grammar.annotationMember
  | .enumConstant => Grammar.enumConstant
  | .method => Grammar.method
  | .formalParameters => Grammar.formalParameters
  | .declarators => Grammar.declarators
  | .variableInitializer => Grammar.variableInitializer
  | .arrayInitializer => Grammar.arrayInitializer
  | .recordPattern => Grammar.recordPattern
  | .switchExpression => Grammar.switchExpression
  | .arguments => Grammar.arguments
  | .string => Grammar.string
  | .operand arrow signs => Grammar.operand arrow signs
  | .primary => Grammar.primary
  | .expression level arrow signs => Grammar.expressionAt level arrow signs

/-- bound on the depth of a run: no rule nests deeper than this between two tokens -/
def depthPerToken : Nat := 200

/-- the tree of tokens that the grammar takes as a whole -/
def Tokens.tree? (ts : Tokens) : Option Node :=
  match Grammar.run Symbol.rule (depthPerToken * (ts.tokens.length + 2)) (.ref .program) ⟨ts.tokens, 0⟩ with
  | .matched nodes ⟨[], _⟩ => nodes.find? (·.kind == .program)
  | _ => none

/-- the syntax tree of a file; none when the file has syntax errors -/
def Source.tree? (source : Source) : Option Node :=
  source.tokens?.bind Tokens.tree?

end CallLint
