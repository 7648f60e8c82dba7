/-
Names of types inside of their file. A path leads from a declared type to a type in it and gives the simple names on the
way (`Declarations.Path`); a binary name is that of the outermost type of a path with the other names after it
(`Path.binaryName`). When no two types have one simple name, a path means the type where it ends, however it is spelled;
so does the full name with the package, when the case of letters tells the two apart.

`Source.paths_resolved` puts this together, and says what else has to be: a type that is called by its simple name must not
be called as a primitive type is.
-/
import CallLint.Proofs.Grammar.TypeWords
import CallLint.Proofs.TypeNames.Spellings
import CallLint.Proofs.TypeNames.Units

namespace CallLint

namespace Declarations

/-- the way from a type to one in it, or to itself, by simple names -/
inductive Path (d : Declarations) (outer : TypeId) : TypeId → List String → Prop
  | self {t : TypeDecl} : d.typeAt? outer = some t → Path d outer outer [t.name]
  | inner {around id : TypeId} {names : List String} {t : TypeDecl} : Path d outer around names →
    d.typeAt? id = some t → t.enclosing = some around → Path d outer id (names ++ [t.name])

/-- the type is in no other type -/
def Outermost (d : Declarations) (id : TypeId) : Prop :=
  ∃ t, d.typeAt? id = some t ∧ t.enclosing = none

end Declarations

/-- names with points between them -/
def TypeName.join (names : List String) : List Char :=
  Text.joinWith '.' (names.map String.toList)

/-- Types start with an upper-case letter and segments of the package do not; the first segment of the package is not the
name of an imported type. -/
structure Source.TypesCapitalized (s : Source) (root : Node) : Prop where
  types : ∀ t ∈ (s.declarationsOf root).types, TypeName.startsUppercase t.name.toList = true
  segments : ∀ package, s.package? root = some package →
    ∀ segment ∈ Text.splitAt '.' package.toList, TypeName.startsUppercase segment = false
  first : ∀ package first rest, s.package? root = some package → Text.splitAt '.' package.toList = first :: rest →
    ∀ i ∈ s.imports root, i.namesType (String.ofList first) = false

/-! ## Types in types -/

namespace NameTable.Nests

variable {names : NameTable} {types : List TypeDecl}

/-- a type has its binary name from the type around it, which comes before it -/
theorem getElem? (h : names.Nests types) {i : Nat} {t : TypeDecl} (ht : types[i]? = some t) :
    (∀ e, t.enclosing = some e → e.index < i) ∧
      t.binaryName = names.declaredName ((t.enclosing.bind fun e => types[e.index]?).map (·.binaryName)) t.name := by
  induction h with
  | nil => cases ht
  | @concat types u hn before name ih =>
    -- types before the last one are where they were
    have kept {j : Nat} (hj : j < types.length) : (types ++ [u])[j]? = types[j]? := List.getElem?_append_left hj
    have around {v : TypeDecl} (hv : ∀ e, v.enclosing = some e → e.index < types.length) :
        (v.enclosing.bind fun e => (types ++ [u])[e.index]?) = v.enclosing.bind fun e => types[e.index]? := by
      cases he : v.enclosing with
      | none => rfl
      | some e => exact kept (hv e he)
    rcases Nat.lt_trichotomy i types.length with hi | rfl | hi
    · rw [kept hi] at ht
      obtain ⟨hbefore, hname⟩ := ih ht
      refine ⟨hbefore, ?_⟩
      rw [around fun e he => (hbefore e he).trans hi]
      exact hname
    · rw [List.getElem?_concat_length] at ht
      obtain rfl := Option.some.inj ht
      refine ⟨before, ?_⟩
      rw [around before]
      exact name
    · rw [List.getElem?_eq_none (by simp; omega)] at ht
      cases ht

end NameTable.Nests

namespace Declarations

variable {d : Declarations} {outer id : TypeId} {names : List String} {t : TypeDecl}

theorem Nested.binaryName (h : d.Nested) (ht : d.typeAt? id = some t) :
    t.binaryName = d.names.declaredName ((t.enclosing.bind d.typeAt?).map (·.binaryName)) t.name := by
  have outer : (t.enclosing.bind fun e => d.types.toList[e.index]?) = t.enclosing.bind d.typeAt? :=
    Option.bind_congr fun e _ => Array.getElem?_toList
  rw [← outer]
  exact (NameTable.Nests.getElem? h (typeAt?_iff.1 ht)).2

/-- every type is in an outermost type -/
theorem Nested.exists_path (h : d.Nested) (ht : d.typeAt? id = some t) :
    ∃ outer names, d.Outermost outer ∧ d.Path outer id names := by
  induction hi : id.index using Nat.strong_induction_on generalizing id t with
  | _ i ih =>
    subst hi
    cases he : t.enclosing with
    | none => exact ⟨id, [t.name], ⟨t, ht, he⟩, .self ht⟩
    | some e =>
      have before : e.index < id.index := (NameTable.Nests.getElem? h (typeAt?_iff.1 ht)).1 e he
      have inside : id.index < d.types.size := (Array.getElem?_eq_some_iff.1 ht).1
      have around : d.typeAt? e = some d.types[e.index] := Array.getElem?_eq_getElem (before.trans inside)
      obtain ⟨outer, names, hout, path⟩ := ih e.index before around rfl
      exact ⟨outer, names ++ [t.name], hout, path.inner ht he⟩

theorem Path.exists_type (h : d.Path outer id names) : ∃ t, d.typeAt? id = some t := by
  cases h with
  | self ht => exact ⟨_, ht⟩
  | inner _ ht _ => exact ⟨_, ht⟩

theorem Path.names_ne_nil (h : d.Path outer id names) : names ≠ [] := by
  cases h <;> simp

/-- the names on a path are those of types -/
theorem Path.mem (h : d.Path outer id names) : ∀ name ∈ names, ∃ t ∈ d.types, t.name = name := by
  induction h with
  | self ht => exact fun name hname => ⟨_, Array.mem_of_getElem? ht, (List.mem_singleton.1 hname).symm⟩
  | inner _ ht _ ih =>
    intro name hname
    rcases List.mem_append.1 hname with hname | hname
    · exact ih name hname
    · exact ⟨_, Array.mem_of_getElem? ht, (List.mem_singleton.1 hname).symm⟩

/-- the outermost type of a path gives the binary name its start, and the types in it its other parts -/
theorem Path.binaryName (h : d.Path outer id names) (hd : d.Nested) (ht : d.typeAt? id = some t) :
    ∃ o rest, d.typeAt? outer = some o ∧ names = o.name :: rest ∧
      t.binaryName.toList = Text.joinWith '$' (o.binaryName.toList :: rest.map String.toList) := by
  induction h generalizing t with
  | self ho =>
    rw [ho] at ht
    obtain rfl := Option.some.inj ht
    exact ⟨_, [], ho, rfl, rfl⟩
  | @inner around id names u path hu he ih =>
    rw [hu] at ht
    obtain rfl := Option.some.inj ht
    obtain ⟨w, hw⟩ := path.exists_type
    obtain ⟨o, rest, ho, rfl, hname⟩ := ih hw
    refine ⟨o, rest ++ [u.name], ho, rfl, ?_⟩
    have joined : u.binaryName = w.binaryName ++ "$" ++ u.name := by
      rw [hd.binaryName hu, he, Option.bind_some, hw]
      rfl
    rw [joined, List.map_append, ← List.cons_append, List.map_singleton, Text.joinWith_concat (List.cons_ne_nil _ _),
      ← hname]
    simp

/-- a simple name that is declared once means the type -/
theorem resolveSimple?_declared (hd : d.names.declared = d.types.toList.map fun t => (t.name, t.binaryName))
    (hn : (d.types.toList.map (·.name)).Nodup) (ht : d.typeAt? id = some t) :
    d.names.resolveSimple? t.name = some t.binaryName := by
  have once : ∀ a b, (t.name, a) ∈ d.names.declared → (t.name, b) ∈ d.names.declared → a = b := by
    intro a b ha hb
    rw [hd] at ha hb
    obtain ⟨u, hu, hua⟩ := List.mem_map.1 ha
    obtain ⟨v, hv, hvb⟩ := List.mem_map.1 hb
    obtain ⟨hname, rfl⟩ := Prod.mk.inj hua
    obtain ⟨hname', rfl⟩ := Prod.mk.inj hvb
    rw [List.inj_on_of_nodup_map hn hu hv (hname.trans hname'.symm)]
  have mem : (t.name, t.binaryName) ∈ d.names.declared := by
    rw [hd]
    exact List.mem_map.2 ⟨t, List.mem_of_getElem? (typeAt?_iff.1 ht), rfl⟩
  rw [NameTable.resolveSimple?, (lookup_iff_mem once t.binaryName).2 mem]

/-! ## Resolved paths -/

/-- the types are named by words -/
def NamedByWords (d : Declarations) : Prop :=
  ∀ t ∈ d.types, Lexeme.IsWord t.name.toList

theorem NamedByWords.keptBySteps {s : Source} {root : Node} (h : s.tree? = some root) :
    KeptBySteps s (· ∈ root.within) NamedByWords where
  child := Node.within_child
  body h _ _ := h
  field h _ _ _ _ _ := h
  method h _ _ := h
  type {d n name enclosing} hd hn _ htype hname := by
    intro t ht
    rcases Array.mem_push.1 ht with ht | rfl
    · exact hd t ht
    · exact Source.tree_typeName h hn htype hname

/-- a path is written with the names on it, and these are words -/
theorem Path.words (h : d.Path outer id names) (hw : d.NamedByWords) : ∀ name ∈ names, Lexeme.IsWord name.toList := by
  intro name hname
  obtain ⟨t, ht, rfl⟩ := h.mem name hname
  exact hw t ht

end Declarations

/-! ## Dotted words -/

namespace TypeName

variable {names : List String}

theorem isPlain_of_isWordPart {c : Char} (h : Lexeme.isWordPart c = true) : IsPlain c := by
  obtain ⟨hsign, hblank⟩ := Lexeme.isWordPart_plain h
  simp only [List.mem_cons, List.not_mem_nil, or_false, not_or] at hsign
  exact ⟨hsign.2.1, hsign.2.2.1, hsign.2.2.2.1, hsign.2.2.2.2, hblank⟩

theorem point_not_mem {text : List Char} (h : Lexeme.IsWord text) : '.' ∉ text :=
  fun hmem => (Lexeme.isWordPart_plain (h.2 '.' hmem)).1 (by simp)

/-- words with points between them are spelled as they are -/
theorem spells_join (h : ∀ name ∈ names, Lexeme.IsWord name.toList) : Spells (join names) (join names) := by
  refine Spells.refl fun c hc => ?_
  rcases Text.mem_joinWith hc with rfl | ⟨part, hpart, hc⟩
  · exact ⟨by decide, by decide, by decide, by decide, by decide⟩
  · obtain ⟨name, hname, rfl⟩ := List.mem_map.1 hpart
    exact isPlain_of_isWordPart ((h name hname).2 c hc)

/-- what is spelled is read as it is, when a word comes last -/
theorem erase_spelled (parts : List (List Char)) {written : List Char} (hne : names ≠ [])
    (h : ∀ name ∈ names, Lexeme.IsWord name.toList)
    (hs : Spells (Text.joinWith '.' (parts ++ names.map String.toList)) written) :
    erase written = Text.joinWith '.' (parts ++ names.map String.toList) := by
  refine erase_of_spells hs ?_
  obtain ⟨before, last, rfl⟩ := (List.eq_nil_or_concat names).resolve_left hne
  have word := h last (by simp)
  rw [List.concat_eq_append, List.map_append, List.map_singleton, ← List.append_assoc, Text.getLast?_joinWith word.1]
  exact fun hlast => point_not_mem word (List.mem_of_getLast? hlast)

end TypeName

namespace Declarations

variable {d : Declarations} {outer id : TypeId} {names : List String} {t : TypeDecl} {written : String}

/-- a path means the type where it ends -/
theorem Path.resolved (h : d.Path outer id names) (hd : d.Nested) (hw : d.NamedByWords)
    (hnames : d.names.declared = d.types.toList.map fun t => (t.name, t.binaryName))
    (hn : (d.types.toList.map (·.name)).Nodup) (ht : d.typeAt? id = some t)
    (hs : TypeName.Spells (TypeName.join names) written.toList)
    (hword : ∀ name, names = [name] → name ∉ TypeName.primitives) : d.names.resolve? written = some t.binaryName := by
  have words := h.words hw
  have erased := TypeName.erase_spelled [] h.names_ne_nil words hs
  obtain ⟨o, rest, ho, rfl, hname⟩ := h.binaryName hd ht
  have points : ∀ segment ∈ o.name.toList :: rest.map String.toList, '.' ∉ segment := by
    intro segment hsegment
    rw [← List.map_cons] at hsegment
    obtain ⟨name, hmem, rfl⟩ := List.mem_map.1 hsegment
    exact TypeName.point_not_mem (words name hmem)
  have base : d.names.resolveSimple? (String.ofList o.name.toList) = some o.binaryName := by
    rw [String.ofList_toList]
    exact resolveSimple?_declared hnames hn ho
  have simple (hrest : rest.map String.toList = []) : String.ofList o.name.toList ∉ TypeName.primitives := by
    rw [String.ofList_toList]
    exact hword o.name (by rw [List.map_eq_nil_iff.1 hrest])
  rw [NameTable.resolve?_known erased (words o.name List.mem_cons_self).1 points simple base, ← hname,
    String.ofList_toList]

/-- the full name means the type, when the case of letters tells its package from it -/
theorem Path.resolved_full (h : d.Path outer id names) (hd : d.Nested) (hw : d.NamedByWords) (hout : d.Outermost outer)
    (ht : d.typeAt? id = some t) {package : String} (hp : d.names.package = some package)
    (hs : TypeName.Spells (TypeName.join (package :: names)) written.toList)
    (hupper : ∀ t ∈ d.types, TypeName.startsUppercase t.name.toList = true)
    (hlower : ∀ segment ∈ Text.splitAt '.' package.toList, TypeName.startsUppercase segment = false)
    (hunknown : ∀ first rest, Text.splitAt '.' package.toList = first :: rest →
      d.names.resolveSimple? (String.ofList first) = none) : d.names.resolve? written = some t.binaryName := by
  have words := h.words hw
  have erased := TypeName.erase_spelled [package.toList] h.names_ne_nil words hs
  obtain ⟨o, rest, ho, rfl, hname⟩ := h.binaryName hd ht
  obtain ⟨u, hu, hnone⟩ := hout
  rw [ho] at hu
  obtain rfl := Option.some.inj hu
  obtain ⟨first, more, hsplit⟩ := List.exists_cons_of_ne_nil (Text.splitAt_ne_nil '.' package.toList)
  have segments : Text.joinWith '.' ([package.toList] ++ (o.name :: rest).map String.toList) =
      Text.joinWith '.' (first :: more ++ o.name.toList :: rest.map String.toList) := by
    rw [← hsplit, Text.joinWith_append (List.cons_ne_nil _ _) (by simp),
      Text.joinWith_append (Text.splitAt_ne_nil _ _) (List.cons_ne_nil _ _), Text.joinWith_splitAt, List.map_cons]
    rfl
  have points : ∀ part ∈ first :: more ++ o.name.toList :: rest.map String.toList, '.' ∉ part := by
    intro part hpart
    rw [← hsplit, ← List.map_cons] at hpart
    rcases List.mem_append.1 hpart with hpart | hpart
    · exact Text.not_mem_of_mem_splitAt hpart
    · obtain ⟨name, hmem, rfl⟩ := List.mem_map.1 hpart
      exact TypeName.point_not_mem (words name hmem)
  have outerName : o.binaryName = package ++ "." ++ o.name := by
    rw [hd.binaryName ho, hnone]
    simp only [Option.bind_none, Option.map_none, NameTable.declaredName, hp]
  have whole : t.binaryName.toList =
      Text.joinWith '.' (first :: more ++ [Text.joinWith '$' (o.name.toList :: rest.map String.toList)]) := by
    rw [← hsplit, Text.joinWith_concat (Text.splitAt_ne_nil _ _), Text.joinWith_splitAt, hname, outerName]
    cases rest <;> simp [Text.joinWith]
  rw [NameTable.resolve?_unknown (erased.trans segments) points (hsplit ▸ hlower)
    (hupper o (Array.mem_of_getElem? ho)) (hunknown first more hsplit), ← whole, String.ofList_toList]

end Declarations

/-! ## Files -/

namespace Source

variable {s : Source} {root : Node}

theorem declarationsOf_namedByWords (h : s.tree? = some root) : (s.declarationsOf root).NamedByWords := by
  have inside : ∀ n ∈ root.children, n ∈ root.within := fun n hn => Node.within_child root.mem_within_self hn
  have empty (names : NameTable) : (Declarations.ofNames names).NamedByWords := by
    simp [Declarations.NamedByWords, Declarations.ofNames]
  have collected := (Declarations.NamedByWords.keptBySteps h).collected inside
    (empty (.ofImports (s.package? root) (s.imports root)))
  intro t ht
  rw [declarationsOf, Declarations.ofFile, Declarations.link] at ht
  obtain ⟨i, hi, rfl⟩ := Array.mem_mapIdx.1 ht
  rw [Declarations.linkType_name]
  exact collected _ (Array.getElem_mem hi)

/-- the package does not start with the name of a type -/
theorem TypesCapitalized.resolveSimple?_first (hc : s.TypesCapitalized root) {package : String} {first : List Char}
    {rest : List (List Char)} (hp : s.package? root = some package)
    (hsplit : Text.splitAt '.' package.toList = first :: rest) :
    (s.declarationsOf root).names.resolveSimple? (String.ofList first) = none := by
  have lower : TypeName.startsUppercase first = false := hc.segments package hp first (by simp [hsplit])
  have declared : (s.declarationsOf root).names.declared.lookup (String.ofList first) = none := by
    rw [s.declarationsOf_names, List.lookup_eq_none_iff]
    intro pair hpair
    obtain ⟨t, ht, rfl⟩ := List.mem_map.1 hpair
    refine bne_iff_ne.2 fun hname : String.ofList first = t.name => ?_
    have upper := hc.types t (Array.mem_toList_iff.1 ht)
    rw [← hname, String.toList_ofList, lower] at upper
    cases upper
  have imported : (s.declarationsOf root).names.imported.lookup (String.ofList first) = none := by
    have none_ : (s.imports root).reverse.find? (·.namesType (String.ofList first)) = none := by
      rw [List.find?_eq_none]
      intro i hi
      rw [hc.first package first rest hp hsplit i (List.mem_reverse.1 hi)]
      exact Bool.false_ne_true
    rw [s.declarationsOf_names, NameTable.ofImports, NameTable.lookup_imports, none_]
    rfl
  have known : String.ofList first ∉ TypeName.javaLang := by
    have upper : ∀ name ∈ TypeName.javaLang, TypeName.startsUppercase name.toList = true := by decide
    intro hmem
    have first := upper _ hmem
    rw [String.toList_ofList, lower] at first
    cases first
  rw [NameTable.resolveSimple?, declared, imported]
  exact if_neg fun hmem => known (List.contains_iff_mem.1 hmem)

end Source

/-- **Names of declared types mean these types.** In a file without two types of one simple name, a type is meant by its
simple name, unless that is the word of a primitive type, and by each path that leads to it from a type around it; and by
its full name with the package, when types start with upper-case letters, the segments of the package do not, and the first
of these is not imported. Blanks, array brackets and type arguments in them do not matter. What they mean is found again as
the type when no other type has the same binary name. -/
theorem Source.paths_resolved [Recovery] (s : Source) {root : Node} (h : s.tree? = some root)
    (hn : ((s.declarationsOf root).types.toList.map (·.name)).Nodup) :
    let d := s.declarationsOf root
    (∀ path, Safe True (fun u => u.types = d.types ∧ u.names = d.names) (s.unit path)) ∧
    ∀ id t, d.typeAt? id = some t →
      (∃ outer names, d.Outermost outer ∧ d.Path outer id names) ∧
      ((d.types.toList.map (·.binaryName)).Nodup → d.typeNamed? t.binaryName = some id) ∧
      ∀ outer names, d.Path outer id names →
        TypeName.Spells (TypeName.join names) (TypeName.join names) ∧
        (∀ written : String, TypeName.Spells (TypeName.join names) written.toList →
          (∀ name, names = [name] → name ∉ TypeName.primitives) → d.names.resolve? written = some t.binaryName) ∧
        (s.TypesCapitalized root → d.Outermost outer → ∀ written : String,
          TypeName.Spells (TypeName.join ((s.package? root).toList ++ names)) written.toList →
          d.names.resolve? written = some t.binaryName) := by
  intro d
  have nested : d.Nested := s.declarationsOf_nested root
  have named : d.NamedByWords := s.declarationsOf_namedByWords h
  have names := s.declarationsOf_names root
  have declared : d.names.declared = d.types.toList.map fun t => (t.name, t.binaryName) := by rw [names]
  have package : d.names.package = s.package? root := by
    rw [names]
    exact NameTable.ofImports_package _ _
  have unit : ∀ path, Safe True (fun u => u.types = d.types ∧ u.names = d.names) (s.unit path) := by
    intro path
    rw [Source.unit, h]
    exact (CompilationUnit.ofTree_tells s path root).mono id fun u tells => ⟨tells.types, tells.names⟩
  refine ⟨unit, fun id t ht => ⟨nested.exists_path ht, fun hbinary => ?_, fun outer ns path => ⟨?_, ?_, ?_⟩⟩⟩
  · exact (Declarations.typeNamed?_iff hbinary).2 ⟨t, ht, rfl⟩
  · exact TypeName.spells_join (path.words named)
  · exact fun written hs hword => path.resolved nested named declared hn ht hs hword
  · intro hc hout written hs
    cases hp : s.package? root with
    | none =>
      rw [hp] at hs
      refine path.resolved nested named declared hn ht hs fun name hname hword => ?_
      obtain ⟨u, hu, rfl⟩ := path.mem name (hname ▸ List.mem_cons_self)
      have lower := (TypeName.primitives_plain _ hword).2
      rw [hc.types u hu] at lower
      cases lower
    | some p =>
      rw [hp] at hs
      exact path.resolved_full nested named hout ht (package.trans hp) hs hc.types (hc.segments p hp)
        fun first rest hsplit => hc.resolveSimple?_first hp hsplit

/-- a type in a type of a package -/
def typeInType : Source :=
  .ofBytes "package p; class A \x7b class B \x7b \x7d \x7d".toUTF8.toList

/-- the nested type by its path, with type arguments and array brackets, and by its full name -/
theorem Source.paths_resolved_nested :
    ∃ root, typeInType.tree? = some root ∧ typeInType.TypesCapitalized root ∧
      (typeInType.declarationsOf root).Path ⟨0⟩ ⟨1⟩ ["A", "B"] ∧
      TypeName.Spells (TypeName.join ["A", "B"]) "A<T>.B []".toList ∧
      TypeName.Spells (TypeName.join ["p", "A", "B"]) "p.A\n.B".toList ∧
      (typeInType.declarationsOf root).names.resolve? "A<T>.B []" = some "p.A$B" ∧
      (typeInType.declarationsOf root).names.resolve? "p.A\n.B" = some "p.A$B" ∧
      (typeInType.declarationsOf root).typeNamed? "p.A$B" = some ⟨1⟩ := by
  have checked : typeInType.tree?.any (fun root =>
      (typeInType.declarationsOf root).types.toList.map (fun t => (t.name, t.binaryName, t.enclosing)) =
        [("A", "p.A", none), ("B", "p.A$B", some ⟨0⟩)] ∧
      typeInType.package? root = some "p" ∧ (typeInType.imports root).isEmpty = true) = true := by
    decide +kernel
  obtain ⟨root, hroot, htypes, hpackage, himports⟩ := Source.exists_tree checked
  let d := typeInType.declarationsOf root
  obtain ⟨a, inner, hlist, ha, hinner⟩ := List.map_eq_cons_iff.1 htypes
  obtain ⟨b, more, rfl, hb, hmore⟩ := List.map_eq_cons_iff.1 hinner
  obtain rfl := List.map_eq_nil_iff.1 hmore
  obtain ⟨nameA, binaryA, outerA⟩ : a.name = "A" ∧ a.binaryName = "p.A" ∧ a.enclosing = none := by simpa using ha
  obtain ⟨nameB, binaryB, outerB⟩ : b.name = "B" ∧ b.binaryName = "p.A$B" ∧ b.enclosing = some ⟨0⟩ := by simpa using hb
  have typeA : d.typeAt? ⟨0⟩ = some a := Declarations.typeAt?_iff.2 (by rw [hlist]; rfl)
  have typeB : d.typeAt? ⟨1⟩ = some b := Declarations.typeAt?_iff.2 (by rw [hlist]; rfl)
  have path : d.Path ⟨0⟩ ⟨1⟩ ["A", "B"] := nameA ▸ nameB ▸ (Declarations.Path.self typeA).inner typeB outerB
  have capitalized : typeInType.TypesCapitalized root := by
    refine ⟨fun t ht => ?_, fun package hp segment hsegment => ?_, fun _ _ _ _ _ i hi => ?_⟩
    · have ht := Array.mem_toList_iff.2 ht
      rw [hlist] at ht
      rcases List.mem_cons.1 ht with rfl | ht
      · rw [nameA]
        decide
      · rw [List.mem_singleton.1 ht, nameB]
        decide
    · rw [hpackage] at hp
      obtain rfl := Option.some.inj hp
      obtain rfl := List.mem_singleton.1 hsegment
      decide
    · rw [List.isEmpty_iff.1 himports] at hi
      cases hi
  have nested : TypeName.Spells (TypeName.join ["A", "B"]) "A<T>.B []".toList :=
    .char (by decide) (@TypeName.Spells.arguments ['T'] _ _ (.char (by decide) (by decide) .nil) (.char (by decide)
      (.char (by decide) (.blank rfl (.bracket (.inl rfl) (.bracket (.inr rfl) .nil))))))
  have full : TypeName.Spells (TypeName.join ["p", "A", "B"]) "p.A\n.B".toList :=
    .char (by decide) (.char (by decide) (.char (by decide) (.blank rfl (.char (by decide) (.char (by decide) .nil)))))
  have distinct : (d.types.toList.map (·.name)).Nodup := by
    rw [hlist]
    simp [nameA, nameB]
  have binary : (d.types.toList.map (·.binaryName)).Nodup := by
    rw [hlist]
    simp [binaryA, binaryB]
  obtain ⟨-, each⟩ := typeInType.paths_resolved hroot distinct
  obtain ⟨-, found, paths⟩ := each ⟨1⟩ b typeB
  obtain ⟨-, byPath, byName⟩ := paths ⟨0⟩ ["A", "B"] path
  rw [hpackage] at byName
  rw [binaryB] at found byPath byName
  exact ⟨root, hroot, capitalized, path, nested, full, byPath _ nested (by simp),
    byName capitalized ⟨a, typeA, outerA⟩ _ full, found binary⟩

/-- The text finds another type than the one of this simple name, or none, in a file without two types of one simple
name. -/
def Source.Misses (s : Source) (name written : String) : Prop :=
  ∃ root, s.tree? = some root ∧ ((s.declarationsOf root).types.toList.map (·.name)).Nodup ∧
    ∃ t ∈ (s.declarationsOf root).types.toList, t.name = name ∧
      (((s.declarationsOf root).names.resolve? written).bind (s.declarationsOf root).typeNamed?).bind
        (s.declarationsOf root).typeAt? ≠ some t

/-- a type that is called as a type that is inferred -/
def inferredName : Source :=
  .ofBytes "class var \x7b \x7d".toUTF8.toList

/-- blanks in the name of the package -/
def loosePackage : Source :=
  .ofBytes "package a . b; class T \x7b \x7d".toUTF8.toList

/-- The simple name of a type finds another type when that has its binary name, and none when it is a word of a primitive
type; the full name is not found when the package is declared with blanks in its name, and no name is when the brackets
of its type arguments are not balanced. -/
theorem Source.names_missed : sameBinaryName.Misses "A$B" "A$B" ∧ inferredName.Misses "var" "var" ∧
    loosePackage.Misses "T" "a.b.T" ∧ loosePackage.Misses "T" "T<@N(\">\") T>" := by
  refine ⟨Source.exists_tree ?_, Source.exists_tree ?_, Source.exists_tree ?_, Source.exists_tree ?_⟩ <;> decide +kernel

end CallLint
