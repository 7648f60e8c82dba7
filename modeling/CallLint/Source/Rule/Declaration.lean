/-
Declarations: modules, packages and imports, types, their members, methods and parameters. A method without a type is a
constructor, and a name with a block after it is the compact constructor of a record.
-/
import CallLint.Source.Rule.Statement

namespace CallLint.Grammar

def roleName (g : Grammar) : Grammar :=
  role .name g

/-! ## Methods -/

def throwsClause : Grammar :=
  solid .throws (seq [word "throws", separated (ref .type) ","])

def formalParameters : Grammar :=
  node .formalParameters (parenthesized (choice [
    seq [receiver, many (seq [mark ",", parameter])],
    commaList parameter]))
where
  receiver : Grammar :=
    solid .receiverParameter (seq [annotations, ref .unannotatedType, many (seq [token (.name ["this"]), mark "."]),
      word "this"])
  parameter : Grammar :=
    choice [
      node .spreadParameter (seq [maybeModifiers, ref .unannotatedType, mark "...", annotations,
        node .variableDeclarator (seq [variableId, maybe (seq [mark "=", role .value (ref .variableInitializer)])])]),
      node .formalParameter (seq [maybeModifiers, role .type (ref .unannotatedType), variableId])]

def roleParameters : Grammar :=
  role .parameters (ref .formalParameters)

def method : Grammar :=
  node .methodDeclaration
    (seq [maybeModifiers, maybe (seq [typeParameters, annotations]), role .type (ref .unannotatedType),
      roleName anyName, ahead (mark "("), roleParameters, maybeDimensions, maybe throwsClause, choice [roleBody (ref .block), mark ";"]])

/-- another constructor called as the first statement of a constructor -/
def explicitInvocation : Grammar :=
  node .explicitConstructorInvocation
    (seq [choice [
        seq [maybeTypeArguments, role .constructor (choice [leaf .thisExpr (.word "this"), super])],
        seq [role .object (ref .primary), mark ".", maybeTypeArguments, role .constructor super]],
      roleArguments, mark ";"])
where
  super : Grammar := leaf .superExpr (.word "super")

def constructor : Grammar :=
  node .constructorDeclaration
    (seq [maybeModifiers, maybe typeParameters, roleName firstName, roleParameters, maybe throwsClause,
      roleBody (node .constructorBody (braced (seq [maybe explicitInvocation, ref .blockStatements])))])

def compactConstructor : Grammar :=
  node .compactConstructorDeclaration (seq [maybeModifiers, roleName firstName, roleBody (ref .block)])

/-! ## Types -/

def typeList : Grammar :=
  separated (ref .type) ","

def interfaces : Grammar :=
  maybe (role .interfaces (solid .superInterfaces (seq [word "implements", typeList])))

def permits : Grammar :=
  maybe (solid .permits (seq [word "permits", typeList]))

def superclass : Grammar :=
  maybe (role .superclass (node .superclass (seq [word "extends", ref .type])))

def classDeclaration : Grammar :=
  node .classDeclaration
    (seq [maybeModifiers, word "class", commit, roleName anyName, maybe typeParameters, superclass, interfaces, permits,
      roleBody (ref .classBody)])

def interfaceDeclaration : Grammar :=
  node .interfaceDeclaration
    (seq [maybeModifiers, word "interface", commit, roleName anyName, maybe typeParameters,
      maybe (solid .extendsInterfaces (seq [word "extends", typeList])), permits,
      roleBody (node .interfaceBody (braced (many (ref .interfaceMember))))])

def enumDeclaration : Grammar :=
  node .enumDeclaration
    (seq [maybeModifiers, word "enum", commit, roleName anyName, interfaces,
      roleBody (node .enumBody (braced (seq [commaList (ref .enumConstant), maybe (mark ","), maybe declarations])))])
where
  declarations : Grammar :=
    node .enumBodyDeclarations (seq [mark ";", many (ref .member)])

def enumConstant : Grammar :=
  node .enumConstant
    (seq [maybeModifiers, roleName anyName, maybe roleArguments, maybe (roleBody (ref .classBody))])

def recordDeclaration : Grammar :=
  node .recordDeclaration
    (seq [maybeModifiers, word "record", roleName anyName, maybe typeParameters, roleParameters, interfaces,
      roleBody (ref .classBody)])

def annotationDeclaration : Grammar :=
  node .annotationTypeDeclaration
    (seq [maybeModifiers, mark "@interface", commit, roleName anyName,
      roleBody (node .annotationTypeBody (braced (many (ref .annotationMember))))])

def typeDeclarations : List Grammar :=
  [classDeclaration, interfaceDeclaration, enumDeclaration, annotationDeclaration, recordDeclaration]

/-! ## Members -/

def variableDeclaration (kind : NodeKind) : Grammar :=
  node kind (seq [maybeModifiers, role .type (ref .unannotatedType), ref .declarators, mark ";"])

def classBody : Grammar :=
  node .classBody (braced (many (ref .member)))

def member : Grammar :=
  choice ([
    mark ";",
    ref .block,
    node .staticInitializer (seq [word "static", ref .block])] ++
    typeDeclarations ++
    [ref .method, constructor, compactConstructor, variableDeclaration .fieldDeclaration])

def interfaceMember : Grammar :=
  choice ([mark ";"] ++ typeDeclarations ++ [ref .method, variableDeclaration .constantDeclaration])

def annotationMember : Grammar :=
  choice ([mark ";"] ++ typeDeclarations ++
    [node .annotationTypeElementDeclaration
        (seq [maybeModifiers, role .type (ref .unannotatedType), roleName anyName, mark "(", mark ")", maybeDimensions,
          maybe (seq [word "default", role .value (ref .elementValue)]), mark ";"]),
      variableDeclaration .constantDeclaration])

/-! ## Files -/

def packageDeclaration : Grammar :=
  node .packageDeclaration (seq [annotations, word "package", dottedName, mark ";"])

def importDeclaration : Grammar :=
  node .importDeclaration
    (seq [word "import", maybe (leaf .staticKeyword (.word "static")), dottedName,
      maybe (seq [mark ".", leaf .asterisk (.mark "*")]), mark ";"])

def moduleDeclaration : Grammar :=
  node .moduleDeclaration
    (seq [annotations, maybe (word "open"), word "module", roleName dottedName,
      roleBody (node .moduleBody (braced (many directive)))])
where
  names : Grammar := separated dottedName ","
  target (start : String) : Grammar :=
    seq [word start, dottedName, maybe (seq [word "to", names]), mark ";"]
  directive : Grammar :=
    choice [
      seq [word "requires", many (seq [token (.oneOf ["transitive", "static"]), notAhead (mark ";")]), dottedName,
        mark ";"],
      target "exports",
      target "opens",
      seq [word "uses", dottedName, mark ";"],
      seq [word "provides", dottedName, word "with", names, mark ";"]]

def declaration : Grammar :=
  choice ([moduleDeclaration, packageDeclaration, importDeclaration] ++ typeDeclarations)

def program : Grammar :=
  node .program (many (choice [ref .method, statement]))

end CallLint.Grammar
