/-
Types, annotations and modifiers. Types are nodes without children: what a type says is its text. Inside type arguments
and after `new` a type may start with any word that starts no statement.
-/
import CallLint.Source.Rule.Basic

namespace CallLint.Grammar

def annotations : Grammar :=
  many (ref .annotationForm)

/-- a name in a type, after a point -/
def typeSegment : Grammar :=
  seq [mark ".", annotations, token (.name memberExcluded)]

def primitiveType : Grammar :=
  choice [
    leaf .voidType (.word "void"),
    leaf .booleanType (.word "boolean"),
    leaf .floatingPointType (.oneOf ["float", "double"]),
    leaf .integralType (.oneOf ["byte", "short", "int", "long", "char"])]

/-- a name, dots and type arguments, ending in a name or in type arguments -/
def namedType : Grammar :=
  let first := token (.name typeExcluded)
  let arguments := ref .typeArguments
  chain
    (choice [
      solid .genericType (seq [first, arguments]),
      seq [leaf .typeIdentifier (.name typeExcluded)]])
    [⟨none, .genericType, none, seq [typeSegment, arguments]⟩,
      ⟨none, .scopedTypeIdentifier, none, typeSegment⟩]

/-- types without array brackets -/
def simpleType : Grammar :=
  choice [primitiveType, solidOf namedType]
where
  /-- the text of a type is all that is kept of it -/
  solidOf (g : Grammar) : Grammar :=
    among [.typeIdentifier, .scopedTypeIdentifier, .genericType] g

def dimensions : Grammar :=
  solid .dimensions (seq [dimension, many dimension])
where
  dimension : Grammar := seq [annotations, mark "[", mark "]"]

def maybeDimensions : Grammar :=
  maybe (role .dimensions dimensions)

def unannotatedType : Grammar :=
  chain (ref .simpleType) [⟨none, .arrayType, none, dimensions⟩]

def annotatedType : Grammar :=
  choice [
    solid .annotatedType (seq [ref .annotationForm, annotations, ref .unannotatedType]),
    ref .unannotatedType]

def typeArguments : Grammar :=
  solid .typeArguments (seq [mark "<", commaList (choice [ref .type, wildcard]), mark ">"])
where
  wildcard : Grammar :=
    seq [annotations, mark "?", maybe (seq [token (.oneOf ["extends", "super"]), ref .type])]

def typeParameters : Grammar :=
  role .typeParameters (solid .typeParameters (seq [mark "<", separated parameter ",", mark ">"]))
where
  parameter : Grammar :=
    seq [annotations, token (.name []), maybe (seq [word "extends", separated (ref .type) "&"])]

/-! ## Annotations and modifiers -/

def annotationForm : Grammar :=
  choice [
    node .annotationWithArguments (seq [at_, role .name dottedName, role .arguments arguments]),
    node .annotationMarker (seq [at_, role .name dottedName])]
where
  at_ : Grammar := mark "@"
  pair : Grammar :=
    node .elementValuePair (seq [role .key anyName, mark "=", role .value (ref .elementValue)])
  arguments : Grammar :=
    node .annotationArgumentList (seq [mark "(", choice [separated pair ",", maybe (ref .elementValue)], mark ")"])

def elementValue : Grammar :=
  choice [
    ref .annotationForm,
    node .elementValueArrayInitializer
      (braced (seq [commaList (ref .elementValue), maybe (mark ",")])),
    ref (.expression 0 true .free)]

def modifiers : Grammar :=
  node .modifiers (seq [modifier, many modifier])
where
  modifier : Grammar :=
    choice [
      ref .annotationForm,
      leaf .finalKeyword (.word "final"),
      leaf .publicKeyword (.word "public"),
      leaf .abstractKeyword (.word "abstract"),
      leaf .staticKeyword (.word "static"),
      leaf .otherModifier .nonSealed,
      seq [notAhead sealedName, leaf .otherModifier (.word "sealed")],
      leaf .otherModifier (.oneOf ["protected", "private", "strictfp", "default", "synchronized", "native",
        "transient", "volatile"])]
  /-- the word `sealed` as a name that something is done with -/
  sealedName : Grammar :=
    seq [word "sealed", choice [mark ".", mark "(", mark "=", mark "[", mark ",", mark ";", mark ":"]]

def maybeModifiers : Grammar :=
  maybe (ref .modifiers)

end CallLint.Grammar
