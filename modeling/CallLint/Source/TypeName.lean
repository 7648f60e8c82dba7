/-
Names of types, as far as a file states them. A type as written is erased to its dotted name. The first segment is
looked up among the types that the file declares, then among its imports, then among the types of `java.lang`; what
follows it are nested types. A dotted name whose first segment is unknown is taken for a full name.

In a binary name nested types are joined by `$`. In a full name everything after the first segment that starts with an
upper-case letter is nested.
-/
import CallLint.Unit.Basic
import CallLint.Text.Blank
import CallLint.Text.Split
import CallLint.Text.Class.Uppercase

namespace CallLint

namespace TypeName

/-- text outside of angle brackets, without square brackets and blanks; `depth` brackets are open -/
def eraseFrom : Nat → List Char → List Char
  | _, [] => []
  | depth, c :: cs =>
    if c = '<' then eraseFrom (depth + 1) cs
    else if c = '>' then eraseFrom (depth - 1) cs
    else if c = '[' || c = ']' || Text.isBlank c || depth != 0 then eraseFrom depth cs
    else c :: eraseFrom depth cs

/-- a reversed text without the ellipses at its front -/
def dropEllipses : List Char → List Char
  | '.' :: '.' :: '.' :: cs => dropEllipses cs
  | cs => cs

/-- the dotted name of a type as written: no type arguments, no array brackets, no ellipsis, no blanks -/
def erase (written : List Char) : List Char :=
  (dropEllipses (eraseFrom 0 written).reverse).reverse

/-- whether a segment starts with an upper-case letter, as type names do -/
def startsUppercase : List Char → Bool
  | [] => false
  | c :: _ => Text.isUppercase c

/-- segments joined by points up to the first type name, and by `$` from there on -/
def joinBinary : List (List Char) → List Char
  | [] => []
  | [segment] => segment
  | segment :: next :: rest =>
    if startsUppercase segment then segment ++ '$' :: Text.joinWith '$' (next :: rest)
    else segment ++ '.' :: joinBinary (next :: rest)

/-- binary form of a full dotted name -/
def binary (dotted : List Char) : List Char :=
  joinBinary (Text.splitAt '.' dotted)

def primitives : List String :=
  ["boolean", "byte", "char", "double", "float", "int", "long", "short", "void", "var"]

/-- types of `java.lang` that are visible without an import -/
def javaLang : List String :=
  ["AssertionError", "AutoCloseable", "Boolean", "Byte", "CharSequence", "Character", "Class", "ClassLoader",
    "Comparable", "Deprecated", "Double", "Enum", "Error", "Exception", "Float", "FunctionalInterface",
    "IllegalArgumentException", "IllegalStateException", "Integer", "Iterable", "Long", "Math",
    "NullPointerException", "Number", "Object", "Override", "Process", "ProcessBuilder", "Record", "Runnable",
    "Runtime", "RuntimeException", "SafeVarargs", "Short", "String", "StringBuffer", "StringBuilder",
    "SuppressWarnings", "System", "Thread", "ThreadLocal", "Throwable", "UnsupportedOperationException", "Void"]

end TypeName

/-- what names mean in a file -/
structure NameTable where
  package : Option String
  /-- imported types by simple name, the last import first -/
  imported : List (String × String)
  /-- owners of statically imported members, the last import first -/
  staticOwners : List (String × String)
  /-- binary names of declared types by simple name, the first declaration first -/
  declared : List (String × String)
deriving Repr, Inhabited

namespace NameTable

/-- the name table with one more import; imports on demand name nothing -/
def addImport (t : NameTable) (i : Import) : NameTable :=
  if i.onDemand then t
  else
    match Text.splitLast '.' i.path.toList with
    | none => t
    | some (owner, member) =>
      let member := String.ofList member
      if i.isStatic then
        { t with staticOwners := (member, String.ofList (TypeName.binary owner)) :: t.staticOwners }
      else { t with imported := (member, i.path) :: t.imported }

def ofImports (package : Option String) (imports : List Import) : NameTable :=
  imports.foldl addImport ⟨package, [], [], []⟩

/-- binary name of a type that the file declares, nested in another or not -/
def declaredName (t : NameTable) (enclosing : Option String) (name : String) : String :=
  match enclosing, t.package with
  | some outer, _ => outer ++ "$" ++ name
  | none, some package => package ++ "." ++ name
  | none, none => name

theorem addImport_keeps (t : NameTable) (i : Import) :
    (t.addImport i).package = t.package ∧ (t.addImport i).declared = t.declared := by
  rw [addImport]
  repeat' split
  all_goals exact ⟨rfl, rfl⟩

/-- imports declare nothing -/
theorem ofImports_keeps (package : Option String) (imports : List Import) :
    (ofImports package imports).package = package ∧ (ofImports package imports).declared = [] := by
  have all (t : NameTable) : (imports.foldl addImport t).package = t.package ∧
      (imports.foldl addImport t).declared = t.declared := by
    induction imports generalizing t with
    | nil => exact ⟨rfl, rfl⟩
    | cons i is ih =>
      obtain ⟨package, declared⟩ := ih (t.addImport i)
      exact ⟨package.trans (t.addImport_keeps i).1, declared.trans (t.addImport_keeps i).2⟩
  exact all _

theorem ofImports_package (package : Option String) (imports : List Import) :
    (ofImports package imports).package = package :=
  (ofImports_keeps package imports).1

theorem ofImports_declared (package : Option String) (imports : List Import) :
    (ofImports package imports).declared = [] :=
  (ofImports_keeps package imports).2

/-- the names that are declared do not matter for the name of a new type -/
theorem declaredName_congr {t t' : NameTable} (h : t.package = t'.package) (enclosing : Option String) (name : String) :
    t.declaredName enclosing name = t'.declaredName enclosing name := by
  cases enclosing <;> simp [declaredName, h]

/-- makes a declared type visible by its simple name -/
def declare (t : NameTable) (name binaryName : String) : NameTable :=
  { t with declared := t.declared ++ [(name, binaryName)] }

/-- owner of a statically imported member -/
def staticOwner? (t : NameTable) (member : String) : Option String :=
  t.staticOwners.lookup member

/-- binary name of a type called by one segment -/
def resolveSimple? (t : NameTable) (name : String) : Option String :=
  match t.declared.lookup name with
  | some binaryName => some binaryName
  | none =>
    match t.imported.lookup name with
    | some path => some (String.ofList (TypeName.binary path.toList))
    | none => if TypeName.javaLang.contains name then some ("java.lang." ++ name) else none

/-- binary name of a type as written; none for primitive types and for simple names that the file does not explain -/
def resolve? (t : NameTable) (written : String) : Option String :=
  let erased := TypeName.erase written.toList
  if erased.isEmpty || TypeName.primitives.contains (String.ofList erased) then none
  else
    match Text.splitFirst '.' erased with
    | none => t.resolveSimple? (String.ofList erased)
    | some (first, rest) =>
      match t.resolveSimple? (String.ofList first) with
      | some base => some (base ++ "$" ++ String.ofList (rest.map fun c => if c = '.' then '$' else c))
      | none => some (String.ofList (TypeName.binary erased))

/-- the resolved name, or the erased text of a name that the file does not explain -/
def resolveOrErase (t : NameTable) (written : String) : String :=
  (t.resolve? written).getD (String.ofList (TypeName.erase written.toList))

end NameTable

end CallLint
