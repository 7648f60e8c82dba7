/-
Type names up to the separators in them. Two names count as one when they are equal after every `$` is replaced by a
point (`sameTypeName_iff`). What a file says of names is its package, its imports and its declared types with the types
around them (`FileNames`), and from these alone each name in the file has a full dotted name (`FileNames.fullName`).
Binary names put `$` in different places, by the case of letters, by nesting or after a resolved first segment; but up to
separators a name that is resolved is its full dotted name (`resolve?_dotted`).

So whether a call matches does not depend on the separators that a signature or a resolved name happens to have:
`NameTable.separators_indifferent`.
-/
import CallLint.Signature.Basic
import CallLint.Source.TypeName
import Mathlib.Order.Basic
import Mathlib.Tactic

namespace CallLint

/-! ## Dotted names -/

namespace TypeName

/-- the name with a point for each `$` -/
def dotted (name : List Char) : List Char :=
  name.map fun c => if c = '$' then '.' else c

@[simp]
theorem dotted_append (as bs : List Char) : dotted (as ++ bs) = dotted as ++ dotted bs :=
  List.map_append

@[simp]
theorem dotted_point (cs : List Char) : dotted ('.' :: cs) = '.' :: dotted cs :=
  rfl

@[simp]
theorem dotted_dollar (cs : List Char) : dotted ('$' :: cs) = '.' :: dotted cs :=
  rfl

/-- replacing points by `$` changes nothing up to separators -/
theorem dotted_dollars (cs : List Char) : dotted (cs.map fun c => if c = '.' then '$' else c) = dotted cs := by
  rw [dotted, dotted, List.map_map]
  refine List.map_congr_left fun c _ => ?_
  by_cases h : c = '.' <;> simp [h]

theorem dotted_joinWith_dollar (parts : List (List Char)) :
    dotted (Text.joinWith '$' parts) = dotted (Text.joinWith '.' parts) := by
  induction parts with
  | nil => rfl
  | cons part parts ih =>
    cases parts with
    | nil => rfl
    | cons next parts => simp [Text.joinWith, ih]

theorem dotted_joinBinary (segments : List (List Char)) :
    dotted (joinBinary segments) = dotted (Text.joinWith '.' segments) := by
  induction segments with
  | nil => rfl
  | cons segment segments ih =>
    cases segments with
    | nil => rfl
    | cons next rest =>
      rw [joinBinary, Text.joinWith]
      split_ifs
      · simp [dotted_joinWith_dollar]
      · simp [ih]

/-- the capitals of a name decide its separators and nothing else -/
theorem dotted_binary (name : List Char) : dotted (binary name) = dotted name := by
  rw [binary, dotted_joinBinary, Text.joinWith_splitAt]

end TypeName

/-- Two names are the same exactly when they are equal with a point for each `$`. -/
theorem sameTypeChars_iff {as bs : List Char} :
    sameTypeChars as bs = true ↔ TypeName.dotted as = TypeName.dotted bs := by
  induction as generalizing bs with
  | nil => cases bs <;> simp [sameTypeChars, TypeName.dotted]
  | cons a as ih =>
    cases bs with
    | nil => simp [sameTypeChars, TypeName.dotted]
    | cons b bs =>
      have first : (a == b || (isTypeSeparator a && isTypeSeparator b)) = true ↔
          (if a = '$' then '.' else a) = if b = '$' then '.' else b := by
        simp only [isTypeSeparator, Bool.or_eq_true, Bool.and_eq_true, beq_iff_eq]
        grind
      rw [sameTypeChars, Bool.and_eq_true, first, ih, ← List.cons.injEq]
      rfl

theorem sameTypeName_iff {a b : String} :
    sameTypeName a b = true ↔ TypeName.dotted a.toList = TypeName.dotted b.toList :=
  sameTypeChars_iff

theorem sameTypeName_equivalence : Equivalence fun a b => sameTypeName a b = true where
  refl _ := sameTypeName_iff.2 rfl
  symm h := sameTypeName_iff.2 (sameTypeName_iff.1 h).symm
  trans h k := sameTypeName_iff.2 ((sameTypeName_iff.1 h).trans (sameTypeName_iff.1 k))

/-! ## What a file says of names -/

/-- a declared type: its simple name, and those of the types around it, innermost first -/
structure DeclaredType where
  name : String
  around : List String
deriving DecidableEq, Repr

/-- what a file says of names: its package, its imports and the types that it declares, in order -/
structure FileNames where
  package : Option String
  imports : List Import
  types : List DeclaredType

/-- the import makes the type known by its simple name -/
def Import.namesType (i : Import) (name : String) : Bool :=
  !i.onDemand && !i.isStatic && decide ('.' :: name.toList <:+ i.path.toList) && decide ('.' ∉ name.toList)

namespace NameTable

/-- binary name of the innermost of some types, one in the other -/
def enclosingName (t : NameTable) : List String → Option String
  | [] => none
  | name :: around => some (t.declaredName (t.enclosingName around) name)

def binaryName (t : NameTable) (ty : DeclaredType) : String :=
  t.declaredName (t.enclosingName ty.around) ty.name

end NameTable

namespace FileNames

/-- the names that the file makes known -/
def table (f : FileNames) : NameTable :=
  f.types.foldl (fun t ty => t.declare ty.name (t.binaryName ty)) (.ofImports f.package f.imports)

/-- the package, the types around it and the type itself, with points between them -/
def dottedName (f : FileNames) (ty : DeclaredType) : List Char :=
  Text.joinWith '.' ((f.package.toList ++ ty.around.reverse ++ [ty.name]).map String.toList)

/-- The full name of a type that the file calls by a segment: the first that it declares by this name, else the last that
it imports, else one of `java.lang`. -/
def baseName? (f : FileNames) (segment : String) : Option (List Char) :=
  match f.types.find? (·.name == segment) with
  | some ty => some (f.dottedName ty)
  | none =>
    match f.imports.reverse.find? (·.namesType segment) with
    | some i => some i.path.toList
    | none => if TypeName.javaLang.contains segment then some ("java.lang." ++ segment).toList else none

/-- The full dotted name of a type as written: that of its first segment with the other segments after it, or the erased
text when the file does not explain the first segment. -/
def fullName (f : FileNames) (written : String) : String :=
  match Text.splitAt '.' (TypeName.erase written.toList) with
  | [] => ""
  | first :: rest =>
    match f.baseName? (String.ofList first) with
    | some base => String.ofList (Text.joinWith '.' (base :: rest))
    | none => String.ofList (TypeName.erase written.toList)

end FileNames

/-! ## Imported and declared names -/

/-- what an import names is the last segment of its path -/
theorem Import.namesType_eq (i : Import) (name : String) :
    i.namesType name = (!i.onDemand && !i.isStatic &&
      (Text.splitLast '.' i.path.toList).any fun parts => name == String.ofList parts.2) := by
  have last : ('.' :: name.toList <:+ i.path.toList ∧ '.' ∉ name.toList) ↔
      (Text.splitLast '.' i.path.toList).any (fun parts => name == String.ofList parts.2) = true := by
    rw [Option.any_eq_true]
    constructor
    · rintro ⟨⟨owner, hpath⟩, hname⟩
      exact ⟨(owner, name.toList), Text.splitLast_eq_some.2 ⟨hpath.symm, hname⟩, by simp⟩
    · rintro ⟨⟨owner, member⟩, hsplit, hname⟩
      obtain rfl := beq_iff_eq.1 hname
      obtain ⟨hpath, hmember⟩ := Text.splitLast_eq_some.1 hsplit
      rw [String.toList_ofList]
      exact ⟨⟨owner, hpath.symm⟩, hmember⟩
  rw [namesType, Bool.and_assoc, ← Bool.decide_and, Bool.eq_iff_iff]
  simp only [Bool.and_eq_true, decide_eq_true_eq, last]

namespace NameTable

variable {t t' : NameTable}

theorem lookup_addImport (name : String) (t : NameTable) (i : Import) :
    (t.addImport i).imported.lookup name =
      (if i.namesType name then some i.path else none).or (t.imported.lookup name) := by
  rw [addImport, Import.namesType_eq]
  cases i.onDemand with
  | true => rfl
  | false =>
    cases Text.splitLast '.' i.path.toList with
    | none => simp
    | some parts =>
      obtain ⟨owner, member⟩ := parts
      cases i.isStatic with
      | true => simp
      | false =>
        cases hname : name == String.ofList member <;> simp [List.lookup_cons, hname]

/-- a name is imported by the last import that names it -/
theorem lookup_imports (name : String) (imports : List Import) (t : NameTable) :
    (imports.foldl addImport t).imported.lookup name =
      ((imports.reverse.find? (·.namesType name)).map (·.path)).or (t.imported.lookup name) := by
  induction imports generalizing t with
  | nil => rfl
  | cons i is ih =>
    have single : ([i].find? (·.namesType name)).map (·.path) = if i.namesType name then some i.path else none := by
      rw [List.find?_singleton]
      split_ifs <;> rfl
    rw [List.foldl_cons, ih, lookup_addImport, List.reverse_cons, List.find?_append, Option.map_or, single, Option.or_assoc]

theorem enclosingName_congr (h : t.package = t'.package) (around : List String) :
    t.enclosingName around = t'.enclosingName around := by
  induction around with
  | nil => rfl
  | cons name around ih => rw [enclosingName, enclosingName, ih, declaredName_congr h]

theorem binaryName_congr (h : t.package = t'.package) (ty : DeclaredType) : t.binaryName ty = t'.binaryName ty := by
  rw [binaryName, binaryName, enclosingName_congr h, declaredName_congr h]

/-- a type is declared by the first of its name -/
theorem lookup_declared {types : List DeclaredType} (g : DeclaredType → String) (name : String) :
    (types.map fun ty => (ty.name, g ty)).lookup name = (types.find? (·.name == name)).map g := by
  induction types with
  | nil => rfl
  | cons ty types ih =>
    rw [List.map_cons, List.lookup_cons, List.find?_cons, BEq.comm]
    split <;> simp_all

/-- the nesting of a declared type decides its separators and nothing else -/
theorem dotted_declaredName (t : NameTable) (around : List String) (name : String) :
    TypeName.dotted (t.declaredName (t.enclosingName around) name).toList =
      TypeName.dotted (Text.joinWith '.' ((t.package.toList ++ around.reverse ++ [name]).map String.toList)) := by
  induction around generalizing name with
  | nil =>
    cases hp : t.package <;> simp [declaredName, enclosingName, hp, Text.joinWith]
  | cons outer around ih =>
    have parts : (t.package.toList ++ (outer :: around).reverse ++ [name]).map String.toList =
        (t.package.toList ++ around.reverse ++ [outer]).map String.toList ++ [name.toList] := by simp
    rw [parts, Text.joinWith_concat (by simp), TypeName.dotted_append, ← ih, enclosingName, declaredName]
    simp

end NameTable

namespace FileNames

theorem table_eq (f : FileNames) :
    f.table =
      { NameTable.ofImports f.package f.imports with
        declared := f.types.map fun ty => (ty.name, (NameTable.ofImports f.package f.imports).binaryName ty) } := by
  have all (types : List DeclaredType) (t : NameTable) :
      types.foldl (fun t ty => t.declare ty.name (t.binaryName ty)) t =
        { t with declared := t.declared ++ types.map fun ty => (ty.name, t.binaryName ty) } := by
    induction types generalizing t with
    | nil => simp
    | cons ty types ih =>
      have samePackage : (t.declare ty.name (t.binaryName ty)).package = t.package := rfl
      have names : (t.declare ty.name (t.binaryName ty)).binaryName = t.binaryName :=
        funext (NameTable.binaryName_congr samePackage)
      rw [List.foldl_cons, ih, names]
      simp [NameTable.declare]
  rw [table, all, NameTable.ofImports_declared, List.nil_append]

variable {f : FileNames}

/-- up to separators, a segment is resolved as the full name that it has in the file -/
theorem resolveSimple?_dotted (f : FileNames) (segment : String) :
    (f.table.resolveSimple? segment).map (fun r => TypeName.dotted r.toList) =
      (f.baseName? segment).map TypeName.dotted := by
  have imported : (NameTable.ofImports f.package f.imports).imported.lookup segment =
      (f.imports.reverse.find? (·.namesType segment)).map (·.path) := by
    rw [NameTable.ofImports, NameTable.lookup_imports]
    simp
  rw [f.table_eq, NameTable.resolveSimple?, baseName?]
  dsimp only
  rw [NameTable.lookup_declared, imported]
  cases f.types.find? (·.name == segment) with
  | some ty =>
    have name := (NameTable.ofImports f.package f.imports).dotted_declaredName ty.around ty.name
    rw [NameTable.ofImports_package] at name
    exact congrArg some name
  | none =>
    cases f.imports.reverse.find? (·.namesType segment) with
    | some i => simp [TypeName.dotted_binary]
    | none =>
      simp only [Option.map_none]
      split_ifs <;> rfl

/-- Names are resolved, except primitive types and simple names that the file does not explain. -/
theorem resolve?_isSome (f : FileNames) (written : String) :
    (f.table.resolve? written).isSome = true ↔
      TypeName.erase written.toList ≠ [] ∧ String.ofList (TypeName.erase written.toList) ∉ TypeName.primitives ∧
        ('.' ∈ TypeName.erase written.toList ∨
          (f.baseName? (String.ofList (TypeName.erase written.toList))).isSome = true) := by
  unfold NameTable.resolve?
  dsimp only
  generalize TypeName.erase written.toList = erased
  by_cases hskip : (erased.isEmpty || TypeName.primitives.contains (String.ofList erased)) = true
  · rw [if_pos hskip]
    rw [Bool.or_eq_true, List.isEmpty_iff, List.contains_iff_mem] at hskip
    constructor
    · intro h
      cases h
    · rintro ⟨hne, hword, -⟩
      exact absurd hskip (not_or.2 ⟨hne, hword⟩)
  · rw [if_neg hskip]
    rw [Bool.or_eq_true, List.isEmpty_iff, List.contains_iff_mem, not_or] at hskip
    have simple : (f.table.resolveSimple? (String.ofList erased)).isSome = (f.baseName? (String.ofList erased)).isSome := by
      simpa using congrArg Option.isSome (f.resolveSimple?_dotted (String.ofList erased))
    cases hfirst : Text.splitFirst '.' erased with
    | none =>
      have plain : '.' ∉ erased := Text.splitFirst_eq_none.1 hfirst
      simp [simple, hskip, plain]
    | some parts =>
      obtain ⟨first, rest⟩ := parts
      have point : '.' ∈ erased := by
        obtain ⟨rfl, -⟩ := Text.splitFirst_eq_some.1 hfirst
        simp
      dsimp only
      cases f.table.resolveSimple? (String.ofList first) <;> simp [hskip, point]

/-- **Up to separators, a name is resolved as its full dotted name.** -/
theorem resolve?_dotted {written r : String} (h : f.table.resolve? written = some r) :
    TypeName.dotted r.toList = TypeName.dotted (f.fullName written).toList := by
  unfold NameTable.resolve? at h
  dsimp only at h
  rw [fullName]
  generalize TypeName.erase written.toList = erased at *
  split_ifs at h
  cases hfirst : Text.splitFirst '.' erased with
  | none =>
    rw [hfirst] at h
    have simple := f.resolveSimple?_dotted (String.ofList erased)
    dsimp only at h
    rw [h] at simple
    obtain ⟨base, hbase, hdotted⟩ := Option.map_eq_some_iff.1 simple.symm
    rw [Text.splitAt_eq_single (Text.splitFirst_eq_none.1 hfirst)]
    dsimp only
    rw [hbase]
    dsimp only
    rw [String.toList_ofList, Text.joinWith]
    exact hdotted.symm
  | some parts =>
    obtain ⟨first, rest⟩ := parts
    rw [hfirst] at h
    obtain ⟨rfl, hnone⟩ := Text.splitFirst_eq_some.1 hfirst
    have simple := f.resolveSimple?_dotted (String.ofList first)
    rw [Text.splitAt_append, Text.splitAt_eq_single hnone, List.singleton_append]
    dsimp only at h ⊢
    cases hsimple : f.table.resolveSimple? (String.ofList first) with
    | some base =>
      rw [hsimple] at h simple
      obtain ⟨full, hfull, hdotted⟩ := Option.map_eq_some_iff.1 simple.symm
      cases h
      rw [hfull]
      dsimp only
      rw [String.toList_ofList, Text.joinWith_cons (Text.splitAt_ne_nil _ _), Text.joinWith_splitAt]
      simp [hdotted, TypeName.dotted_dollars]
    | none =>
      rw [hsimple] at h simple
      rw [Option.map_eq_none_iff.1 simple.symm]
      cases h
      simp [TypeName.dotted_binary]

end FileNames

/-! ## Matches -/

namespace Signature

variable {s : Signature}

theorem ownerFits_some {r : String} :
    s.ownerFits (some r) = true ↔ TypeName.dotted r.toList = TypeName.dotted s.owner.toList :=
  sameTypeName_iff

/-- the separators in a signature's owner do not matter -/
theorem covers_owner {owner : String} (h : sameTypeName owner s.owner = true) (site : CallSite) :
    ({ s with owner := owner } : Signature).covers site = s.covers site := by
  have fits : ({ s with owner := owner } : Signature).ownerFits site.owner = s.ownerFits site.owner := by
    cases site.owner with
    | none => rfl
    | some r => rw [Bool.eq_iff_iff, ownerFits_some, ownerFits_some, sameTypeName_iff.1 h]
  rw [covers, covers, fits]

/-- the separators in a call's owner do not matter -/
theorem covers_site {a b : String} (h : sameTypeName a b = true) (name : String) (arguments : Nat) :
    s.covers ⟨some a, name, arguments⟩ = s.covers ⟨some b, name, arguments⟩ := by
  have fits : s.ownerFits (some a) = s.ownerFits (some b) := by
    rw [Bool.eq_iff_iff, ownerFits_some, ownerFits_some, sameTypeName_iff.1 h]
  rw [covers, covers, fits]

/-- a signature of the full name fits the owner of a call that is resolved from the written name -/
theorem ownerFits_resolve? {f : FileNames} {written : String} (h : sameTypeName s.owner (f.fullName written) = true) :
    s.ownerFits (f.table.resolve? written) = true := by
  cases hr : f.table.resolve? written with
  | none => rfl
  | some r => exact ownerFits_some.2 ((FileNames.resolve?_dotted hr).trans (sameTypeName_iff.1 h).symm)

end Signature

/-- **Separators never decide a match.** That two names are the same is an equivalence, and means that they are equal with
a point for each `$`; a match does not change when a name is replaced by one that is the same. In every file a name is
resolved unless it is empty, a primitive type or a simple name that the file does not explain, and what is resolved is the
same as the full dotted name. So a signature whose owner is that name, with whatever separators, fits the owner of every
call resolved from it. -/
theorem NameTable.separators_indifferent :
    (Equivalence fun a b => sameTypeName a b = true) ∧
    (∀ a b : String, sameTypeName a b = true ↔ TypeName.dotted a.toList = TypeName.dotted b.toList) ∧
    (∀ (s : Signature) (owner : String), sameTypeName owner s.owner = true →
      ∀ site, ({ s with owner := owner } : Signature).covers site = s.covers site) ∧
    (∀ (s : Signature) (a b : String), sameTypeName a b = true →
      ∀ name arguments, s.covers ⟨some a, name, arguments⟩ = s.covers ⟨some b, name, arguments⟩) ∧
    ∀ (f : FileNames) (written : String),
      ((f.table.resolve? written).isSome = true ↔
        TypeName.erase written.toList ≠ [] ∧ String.ofList (TypeName.erase written.toList) ∉ TypeName.primitives ∧
          ('.' ∈ TypeName.erase written.toList ∨
            (f.baseName? (String.ofList (TypeName.erase written.toList))).isSome = true)) ∧
      (∀ r, f.table.resolve? written = some r → sameTypeName r (f.fullName written) = true) ∧
      ∀ s : Signature, TypeName.dotted s.owner.toList = TypeName.dotted (f.fullName written).toList →
        s.ownerFits (f.table.resolve? written) = true ∧
        ∀ site : CallSite, site.owner = f.table.resolve? written →
          s.covers site = (s.name.covers site.name && s.arity.accepts site.arguments) := by
  refine ⟨sameTypeName_equivalence, fun _ _ => sameTypeName_iff, fun _ _ => Signature.covers_owner,
    fun _ _ _ => Signature.covers_site, fun f written => ⟨f.resolve?_isSome written, fun r hr => ?_, fun s hs => ?_⟩⟩
  · exact sameTypeName_iff.2 (FileNames.resolve?_dotted hr)
  · have fits : s.ownerFits (f.table.resolve? written) = true := Signature.ownerFits_resolve? (sameTypeName_iff.2 hs)
    refine ⟨fits, fun site hsite => ?_⟩
    rw [Signature.covers, hsite, fits, Bool.true_and]

/-- a type in a nested type of the file, written with type arguments, and a signature with separators in wrong places -/
theorem NameTable.separators_indifferent_nested :
    let f : FileNames := ⟨some "org.example", [⟨"java.util.Map.Entry", false, false, default⟩],
      [⟨"Outer", []⟩, ⟨"Inner", ["Outer"]⟩]⟩
    let full : String := "org.example.Outer.Inner.Deep"
    let binary : String := "org.example.Outer$Inner$Deep"
    let s : Signature := ⟨"org$example.Outer$Inner.Deep", .exact "go", .any⟩
    f.fullName "Inner.Deep<T>[]" = full ∧
      f.table.resolve? "Inner.Deep<T>[]" = some binary ∧ sameTypeName binary full = true ∧
      s.covers ⟨some binary, "go", 2⟩ = true ∧
      ({ s with owner := full } : Signature).covers ⟨some binary, "go", 2⟩ = true ∧
      s.covers ⟨some full, "go", 2⟩ = true := by
  intro f full binary s
  have named : f.fullName "Inner.Deep<T>[]" = full := by decide +kernel
  have resolved : f.table.resolve? "Inner.Deep<T>[]" = some binary := by decide +kernel
  have owner : TypeName.dotted s.owner.toList = TypeName.dotted full.toList := by decide +kernel
  have sameOwner : sameTypeName full s.owner = true := by decide +kernel
  obtain ⟨-, -, ownerMoves, siteMoves, ofFile⟩ := separators_indifferent
  obtain ⟨-, same, fits⟩ := ofFile f "Inner.Deep<T>[]"
  rw [named] at same fits
  have covered : s.covers ⟨some binary, "go", 2⟩ = true := by
    rw [(fits s owner).2 ⟨some binary, "go", 2⟩ resolved.symm]
    decide +kernel
  refine ⟨named, resolved, same _ resolved, covered, ?_, ?_⟩
  · rw [ownerMoves s full sameOwner, covered]
  · rw [← siteMoves s binary full (same _ resolved), covered]

end CallLint
