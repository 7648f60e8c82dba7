/-
Building blocks of the Java grammar: words and marks without nodes, lists with separators, names, and the sets of words
that are keywords in a given place. A word is a keyword only where the keyword could stand; elsewhere it is a name.
-/
import CallLint.Source.Grammar

namespace CallLint.Grammar

def word (text : String) : Grammar :=
  token (.word text)

def mark (text : String) : Grammar :=
  token (.mark text)

/-- one or more, with a separator between each two -/
def separated (g : Grammar) (separator : String) : Grammar :=
  seq [g, many (seq [mark separator, g])]

/-- any number, with commas between them -/
def commaList (g : Grammar) : Grammar :=
  maybe (separated g ",")

def parenthesized (g : Grammar) : Grammar :=
  seq [mark "(", g, mark ")"]

def braced (g : Grammar) : Grammar :=
  seq [mark "\x7b", g, mark "\x7d"]

def primitiveWords : List String :=
  ["boolean", "byte", "char", "double", "float", "int", "long", "short", "void"]

/-- words that are keywords where an expression starts -/
def expressionWords : List String :=
  primitiveWords ++ ["new", "this", "super", "true", "false", "null", "switch"]

/-- words that are keywords where a statement starts, beyond those of expressions -/
def statementWords : List String :=
  ["abstract", "assert", "break", "case", "class", "continue", "default", "do", "enum", "final", "for", "if", "import",
    "interface", "native", "package", "private", "protected", "public", "return", "static", "strictfp", "synchronized",
    "throw", "transient", "try", "volatile", "while"]

/-- words that are keywords of some declarations, and names everywhere else -/
def contextualWords : List String :=
  ["module", "open", "record", "sealed", "with", "yield"]

/-- words that are keywords where a member of a type starts -/
def memberWords : List String :=
  primitiveWords ++ ["abstract", "class", "default", "enum", "final", "interface", "native", "private", "protected",
    "public", "record", "sealed", "static", "strictfp", "synchronized", "transient", "volatile"]

/-- words that name no type where a statement may start -/
def typeExcluded : List String :=
  expressionWords ++ statementWords ++ contextualWords

/-- words that cannot follow a point in a name -/
def memberExcluded : List String :=
  ["class", "new", "super", "this"]

/-- a name where no keyword could stand -/
def anyName : Grammar :=
  leaf .identifier (.name [])

/-- a declared variable's name -/
def variableName : Grammar :=
  choice [leaf .underscorePattern (.word "_"), anyName]

/-- a name that is the first word of a member -/
def firstName : Grammar :=
  leaf .identifier (.name memberWords)

/-- a name where an expression may start -/
def expressionName : Grammar :=
  leaf .identifier (.name expressionWords)

/-- a name, or names joined by points, as one node -/
def dottedName : Grammar :=
  choice [
    solid .scopedIdentifier
      (seq [token (.name []), mark ".", token (.name []), many (seq [mark ".", token (.name [])])]),
    anyName]

end CallLint.Grammar
