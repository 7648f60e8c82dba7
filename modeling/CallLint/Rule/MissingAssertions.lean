/-
Tests that reach no assertion. A method with a body is a test when it carries a test annotation, or when it is a public
method without parameters, named `test...`, of a type that extends `TestCase`. An annotated test that declares the
exception it expects needs no assertion.
-/
import CallLint.Unit.AssertionSearch
import CallLint.Signature.Entry
import CallLint.Signature.Framework

namespace CallLint

/-- what can be configured about rules -/
structure RuleSettings where
  /-- comma separated entries of additional assertion methods -/
  customMethods : String
  callDepth : Nat
deriving DecidableEq, Repr, Inhabited

def RuleSettings.standard : RuleSettings :=
  ⟨"", defaultCallDepth⟩

namespace MissingAssertions

/-- simple names of the annotations that make a method a test -/
def testAnnotations : List String :=
  ["Test", "ParameterizedTest", "RepeatedTest", "TestFactory", "TestTemplate", "Theory"]

/-- annotation elements that declare the expected exception -/
def expectedExceptionElements : List String :=
  ["expected", "expectedExceptions"]

def testCaseName : String := "TestCase"

/-- whether a type or one of the next superclasses in the unit extends `TestCase`; looks at most at `steps` types -/
def extendsTestCase (u : CompilationUnit) : Nat → TypeId → Bool
  | 0, _ => false
  | steps + 1, id =>
    match u.typeAt? id with
    | none => false
    | some t =>
      t.superclassSimpleName == some testCaseName ||
        match t.superclassId with
        | none => false
        | some superclass => extendsTestCase u steps superclass

/-- whether a method is a test by its name and its type -/
def isNamedTest (u : CompilationUnit) (m : MethodDecl) : Bool :=
  m.isPublic && m.parameterCount == 0 && !m.isConstructor && "test".toList.isPrefixOf m.name.toList &&
    extendsTestCase u (u.types.size + 1) m.owner

/-- whether a method is a test that needs an assertion -/
def isTest (u : CompilationUnit) (m : MethodDecl) : Bool :=
  !m.isAbstract && m.body.isSome &&
    match m.annotations.find? fun a => testAnnotations.contains a.simpleName with
    | some a => !expectedExceptionElements.any a.hasElement
    | none => isNamedTest u m

/-- the assertions that count under given settings -/
def catalog (settings : RuleSettings) : Catalog :=
  Catalog.builtin.union (EntryList.read settings.customMethods).catalog

/-- whether a method is to be reported -/
def isViolation (u : CompilationUnit) (assertions : Catalog) (depth : Nat) (id : MethodId) : Bool :=
  match u.methodAt? id with
  | none => false
  | some m => isTest u m && !u.asserts assertions id depth

/-- locations of the tests to report, in the order of their declarations -/
def violations (u : CompilationUnit) (assertions : Catalog) (depth : Nat) : List Span :=
  (u.methodIds.filter (isViolation u assertions depth)).filterMap fun id => (u.methodAt? id).map (·.nameSpan)

end MissingAssertions

end CallLint
