/-
The names that the unit of a file makes known. A type comes after the type around it and has its binary name from it
(`NameTable.Nests`); each step of the collection keeps that. So a unit's names are those of its package, its imports and
its types, each type with those around it (`Source.unit_names`), and what holds of all `FileNames` holds of the names of
every unit.
-/
import CallLint.Proofs.Owners.Units
import CallLint.Proofs.TypeNames.Separators

namespace CallLint

namespace DeclaredType

/-- names of the types around a type, when that is in one of the types before it -/
def around? (before : List DeclaredType) (enclosing : Option TypeId) : List String :=
  match enclosing.bind fun e => before[e.index]? with
  | none => []
  | some outer => outer.name :: outer.around

/-- types by their names, each with those of the types around it -/
def ofTypes (types : List TypeDecl) : List DeclaredType :=
  types.foldl (fun before t => before ++ [⟨t.name, around? before t.enclosing⟩]) []

theorem ofTypes_concat (types : List TypeDecl) (t : TypeDecl) :
    ofTypes (types ++ [t]) = ofTypes types ++ [⟨t.name, around? (ofTypes types) t.enclosing⟩] := by
  rw [ofTypes, List.foldl_append]
  rfl

end DeclaredType

/-- what a unit says of names -/
def CompilationUnit.fileNames (u : CompilationUnit) : FileNames :=
  ⟨u.package, u.imports, DeclaredType.ofTypes u.types.toList⟩

/-! ## Types in types -/

/-- each type comes after the type around it and has its binary name from it -/
inductive NameTable.Nests (names : NameTable) : List TypeDecl → Prop
  | nil : Nests names []
  | concat {types : List TypeDecl} {t : TypeDecl} : Nests names types →
    (∀ e, t.enclosing = some e → e.index < types.length) →
    t.binaryName = names.declaredName ((t.enclosing.bind fun e => types[e.index]?).map (·.binaryName)) t.name →
    Nests names (types ++ [t])

namespace NameTable.Nests

variable {names names' : NameTable} {types : List TypeDecl}

theorem congr (h : names.Nests types) (hp : names.package = names'.package) : names'.Nests types := by
  induction h with
  | nil => exact .nil
  | concat _ before name ih => exact .concat ih before (name.trans (declaredName_congr hp _ _))

/-- what links do to types does not matter for their names -/
theorem link (h : names.Nests types) (d : Declarations) : names.Nests (types.mapIdx d.linkType) := by
  induction h with
  | nil => exact .nil
  | @concat types t _ before name ih =>
    rw [List.mapIdx_concat]
    refine .concat ih (fun e he => ?_) ?_
    · rw [Declarations.linkType_enclosing] at he
      rw [List.length_mapIdx]
      exact before e he
    · rw [Declarations.linkType_binaryName, Declarations.linkType_name, Declarations.linkType_enclosing, name]
      congr 1
      cases t.enclosing with
      | none => rfl
      | some e =>
        rw [Option.bind_some, Option.bind_some, List.getElem?_mapIdx, Option.map_map]
        exact congrArg (Option.map · _) (funext fun u => (d.linkType_binaryName e.index u).symm)

/-- types in types have the binary names that their simple names and those around them make -/
theorem ofTypes (h : names.Nests types) :
    types.map (fun t => (t.name, t.binaryName)) =
      (DeclaredType.ofTypes types).map fun ty => (ty.name, names.binaryName ty) := by
  induction h with
  | nil => rfl
  | @concat types t _ before name ih =>
    have outer : (t.enclosing.bind fun e => types[e.index]?).map (·.binaryName) =
        names.enclosingName (DeclaredType.around? (DeclaredType.ofTypes types) t.enclosing) := by
      cases he : t.enclosing with
      | none => rfl
      | some e =>
        have there := before e he
        have same := congrArg (·[e.index]?) ih
        simp only [List.getElem?_map, List.getElem?_eq_getElem there, Option.map_some] at same
        obtain ⟨ty, hty, hsame⟩ := Option.map_eq_some_iff.1 same.symm
        rw [DeclaredType.around?, Option.bind_some, Option.bind_some, List.getElem?_eq_getElem there, hty]
        exact congrArg some (Prod.ext_iff.1 hsame).2.symm
    rw [DeclaredType.ofTypes_concat, List.map_append, List.map_append, ih, List.map_singleton, List.map_singleton, name,
      outer]
    rfl

end NameTable.Nests

namespace Declarations

/-- the types are nested as the names say -/
def Nested (d : Declarations) : Prop :=
  d.names.Nests d.types.toList

theorem Nested.keptBySteps (s : Source) : KeptBySteps s (fun _ => True) Nested where
  child _ _ := trivial
  body h _ _ := h
  field h _ _ _ _ _ := h
  method h _ _ := h
  type {d n name enclosing} h _ ho _ _ := by
    have types : (d.pushType (newType s d enclosing n name)).types.toList = d.types.toList ++ [newType s d enclosing n name] :=
      Array.toList_push
    have outer : (enclosing.bind fun e => d.types.toList[e.index]?) = enclosing.bind d.typeAt? :=
      Option.bind_congr fun e _ => Array.getElem?_toList
    rw [Nested, types]
    refine .concat (h.congr rfl) ho ?_
    rw [show (newType s d enclosing n name).enclosing = enclosing from rfl, outer]
    exact NameTable.declaredName_congr rfl _ _

end Declarations

theorem Source.declarationsOf_nested (s : Source) (root : Node) : (s.declarationsOf root).Nested := by
  let names : NameTable := .ofImports (s.package? root) (s.imports root)
  have empty : (Declarations.ofNames names).Nested := .nil
  have collected : (Declarations.collectAll s none root.children (.ofNames names)).Nested :=
    (Declarations.Nested.keptBySteps s).collected (fun _ _ => trivial) empty
  rw [declarationsOf, Declarations.ofFile, Declarations.Nested, Declarations.link, Array.toList_mapIdx]
  exact collected.link _

/-! ## Names of units -/

theorem CompilationUnit.names_eq_table {u : CompilationUnit} (h : u.names.Nests u.types.toList) :
    u.names = u.fileNames.table := by
  have nested : (NameTable.ofImports u.package u.imports).Nests u.types.toList := h.congr rfl
  rw [FileNames.table_eq, names, nested.ofTypes]
  rfl

/-- **A unit's names are those of its package, its imports and its types.** So each name that is resolved in a unit is the
full dotted name that the unit gives it, up to separators. -/
theorem Source.unit_names [Recovery] (s : Source) (path : String) :
    Safe (s.root.Faulty s)
      (fun u => u.names = u.fileNames.table ∧ ∀ written r, u.names.resolve? written = some r →
        sameTypeName r (u.fileNames.fullName written) = true)
      (s.unit path) := by
  have table : Safe (s.root.Faulty s) (fun u => u.names = u.fileNames.table) (s.unit path) := by
    refine s.unit_of_root path ?_ fun _ => id
    refine (CompilationUnit.ofTree_tells s path s.root).mono id fun u tells => CompilationUnit.names_eq_table ?_
    rw [tells.names, tells.types]
    exact s.declarationsOf_nested s.root
  refine table.mono id fun u names => ⟨names, fun written r hr => ?_⟩
  rw [names] at hr
  exact sameTypeName_iff.2 (FileNames.resolve?_dotted hr)

end CallLint
