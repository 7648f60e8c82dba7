/-
Units of files that differ in their layout. Bodies of nodes that mean the same are lowered one after the other to the
same code with other spans, so the units are the same without their spans (`CompilationUnit.withoutSpans`), and the
findings stand at the same tokens (`Source.unit_writtenAlike`), unless layout stands where a text is read with it.
-/
import CallLint.Proofs.Layout.Declarations
import CallLint.Proofs.Layout.Texts
import CallLint.Proofs.Rearranged.Files

namespace CallLint

/-! ## Units without spans -/

mutual

/-- the expression with empty spans -/
def Expr.withoutSpans : Expr → Expr
  | .literal value => .literal value
  | .name name binding => .name name binding
  | .fieldAccess target field binding => .fieldAccess target.withoutSpans field binding
  | .binary operator left right => .binary operator left.withoutSpans right.withoutSpans
  | .call ⟨name, owner, receiver, arguments, body, target, _, _⟩ =>
    .call ⟨name, owner, optionWithoutSpans receiver, listWithoutSpans arguments, listWithoutSpans body, target, default,
      default⟩
  | .other kind children => .other kind (listWithoutSpans children)
termination_by structural e => e

def optionWithoutSpans : Option Expr → Option Expr
  | none => none
  | some e => some e.withoutSpans
termination_by structural o => o

def listWithoutSpans : List Expr → List Expr
  | [] => []
  | e :: es => e.withoutSpans :: listWithoutSpans es
termination_by structural es => es

end

def Import.withoutSpan (i : Import) : Import :=
  { i with span := default }

def TypeDecl.withoutSpan (t : TypeDecl) : TypeDecl :=
  { t with span := default }

def MethodDecl.withoutSpans (m : MethodDecl) : MethodDecl :=
  { m with body := m.body.map listWithoutSpans, nameSpan := default, span := default }

def VariableDecl.withoutSpans (v : VariableDecl) : VariableDecl :=
  { v with initializer := v.initializer.map Expr.withoutSpans, span := default }

def InitializerBlock.withoutSpans (b : InitializerBlock) : InitializerBlock :=
  { b with body := listWithoutSpans b.body, span := default }

/-- the unit with empty spans -/
def CompilationUnit.withoutSpans (u : CompilationUnit) : CompilationUnit :=
  { u with
    imports := u.imports.map Import.withoutSpan
    types := u.types.map TypeDecl.withoutSpan
    methods := u.methods.map MethodDecl.withoutSpans
    variableDecls := u.variableDecls.map VariableDecl.withoutSpans
    blocks := u.blocks.map InitializerBlock.withoutSpans }

/-- ids correspond to themselves only -/
structure Correspondence.KeepsIds (R : Correspondence) : Prop where
  types : ∀ a b, R.types a b → a = b
  methods : ∀ a b, R.methods a b → a = b
  vars : ∀ a b, R.vars a b → a = b

theorem optionRel_to_eq {α : Type} {r : α → α → Prop} (hr : ∀ a b, r a b → a = b) {o o' : Option α}
    (h : Option.Rel r o o') : o = o' :=
  optionRel_eq.1 (optionRel_mono hr h)

section KeepsIds

variable {R : Correspondence}

mutual

theorem Expr.Matches.withoutSpans (hR : R.KeepsIds) : ∀ (e : Expr) {e' : Expr}, e.Matches R e' → e.withoutSpans = e'.withoutSpans
  | .literal _, _, h => by
    cases h
    rfl
  | .name _ _, _, h => by
    cases h with
    | name _ hid => rw [optionRel_to_eq hR.vars hid]
  | .fieldAccess target _ _, _, h => by
    cases h with
    | fieldAccess _ he hid =>
      rw [Expr.withoutSpans, Expr.withoutSpans, Expr.Matches.withoutSpans hR target he, optionRel_to_eq hR.vars hid]
  | .binary _ left right, _, h => by
    cases h with
    | binary _ he hf =>
      rw [Expr.withoutSpans, Expr.withoutSpans, Expr.Matches.withoutSpans hR left he, Expr.Matches.withoutSpans hR right hf]
  | .call ⟨_, _, receiver, arguments, body, _, _, _⟩, _, h => by
    cases h with
    | call _ _ hr ha hb ht _ _ =>
      rw [Expr.withoutSpans, Expr.withoutSpans, optionMatches_withoutSpans hR receiver hr,
        listMatches_withoutSpans hR arguments ha, listMatches_withoutSpans hR body hb, optionRel_to_eq hR.methods ht]
  | .other _ children, _, h => by
    cases h with
    | other _ hes => rw [Expr.withoutSpans, Expr.withoutSpans, listMatches_withoutSpans hR children hes]
termination_by structural e => e

theorem optionMatches_withoutSpans (hR : R.KeepsIds) : ∀ (o : Option Expr) {o' : Option Expr}, Option.Rel (Expr.Matches R) o o' →
    optionWithoutSpans o = optionWithoutSpans o'
  | none, _, h => by
    cases h
    rfl
  | some e, _, h => by
    cases h with
    | some he => rw [optionWithoutSpans, optionWithoutSpans, Expr.Matches.withoutSpans hR e he]
termination_by structural o => o

theorem listMatches_withoutSpans (hR : R.KeepsIds) : ∀ (es : List Expr) {es' : List Expr}, List.Forall₂ (Expr.Matches R) es es' →
    listWithoutSpans es = listWithoutSpans es'
  | [], _, h => by
    cases h
    rfl
  | e :: es, _, h => by
    cases h with
    | cons he hes =>
      rw [listWithoutSpans, listWithoutSpans, Expr.Matches.withoutSpans hR e he, listMatches_withoutSpans hR es hes]
termination_by structural es => es

end

theorem Import.Matches.withoutSpan {i i' : Import} (h : i.Matches R i') : i.withoutSpan = i'.withoutSpan := by
  rw [Import.withoutSpan, Import.withoutSpan, h.path, h.isStatic, h.onDemand]

theorem TypeDecl.Matches.withoutSpan (hR : R.KeepsIds) {t t' : TypeDecl} (h : t.Matches R t') : t.withoutSpan = t'.withoutSpan := by
  rw [TypeDecl.withoutSpan, TypeDecl.withoutSpan, h.name, h.binaryName, h.kind, optionRel_to_eq hR.types h.enclosing,
    h.superclass, optionRel_to_eq hR.types h.superclassId]

theorem MethodDecl.Matches.withoutSpans (hR : R.KeepsIds) {m m' : MethodDecl} (h : m.Matches R m') : m.withoutSpans = m'.withoutSpans := by
  have body : m.body.map listWithoutSpans = m'.body.map listWithoutSpans :=
    optionRel_eq.1 (optionRel_map (fun es _ hes => listMatches_withoutSpans hR es hes) h.body)
  rw [MethodDecl.withoutSpans, MethodDecl.withoutSpans, h.name, hR.types _ _ h.owner, h.parameterCount, h.varargs,
    h.isPublic, h.isAbstract, h.annotations, body]

theorem VariableDecl.Matches.withoutSpans (hR : R.KeepsIds) {v v' : VariableDecl} (h : v.Matches R v') :
    v.withoutSpans = v'.withoutSpans := by
  have initializer : v.initializer.map Expr.withoutSpans = v'.initializer.map Expr.withoutSpans :=
    optionRel_eq.1 (optionRel_map (fun e _ he => Expr.Matches.withoutSpans hR e he) h.initializer)
  rw [VariableDecl.withoutSpans, VariableDecl.withoutSpans, h.name, h.kind, h.declaredType, h.isFinal, initializer]

end KeepsIds

/-- tables whose ids correspond to themselves have the same entries but for what does not match -/
theorem OneToOne.map_eq {ι α β γ : Type} {r : ι → ι → Prop} {m : α → β → Prop} {f : ι → Option α} {g : ι → Option β}
    {xs : Array α} {ys : Array β} {mk : Nat → ι} (h : OneToOne r m f g) (hr : ∀ i j, r i j → i = j)
    (hf : ∀ i, f (mk i) = xs[i]?) (hg : ∀ i, g (mk i) = ys[i]?) {k : α → γ} {l : β → γ}
    (hkl : ∀ a b, m a b → k a = l b) : xs.map k = ys.map l := by
  refine Array.ext_getElem? fun i => ?_
  rw [Array.getElem?_map, Array.getElem?_map, ← hf, ← hg]
  cases hx : f (mk i) with
  | some a =>
    obtain ⟨j, hij⟩ := h.left hx
    obtain rfl := hr _ _ hij
    obtain ⟨a', b, ha, hb, hab⟩ := h.related hij
    obtain rfl : a = a' := by simpa [hx] using ha
    rw [hb, Option.map_some, Option.map_some, hkl a b hab]
  | none =>
    cases hy : g (mk i) with
    | none => rfl
    | some b =>
      obtain ⟨j, hji⟩ := h.right hy
      obtain rfl := hr _ _ hji
      obtain ⟨a, _, ha, -, -⟩ := h.related hji
      simp [hx] at ha

/-! ## Bodies -/

theorem array_map_modify {α β : Type} {f : α → β} {g : α → α} {k : β → β} (h : ∀ a, f (g a) = k (f a)) (xs : Array α)
    (i : Nat) : (xs.modify i g).map f = (xs.map f).modify i k := by
  refine Array.ext_getElem? fun j => ?_
  rw [Array.getElem?_map, Array.getElem?_modify, Array.getElem?_modify, Array.getElem?_map]
  split_ifs
  · rw [Option.map_map, Option.map_map]
    exact congrArg (Option.map · _) (funext h)
  · rfl

section Bodies

variable {R : Correspondence} {s s' : Source} {d d' : Declarations} {u u' : CompilationUnit} {b b' : Body}

/-- code that is put where it belongs, without spans -/
theorem Body.Alike.put (hR : R.KeepsIds) (hb : Body.Alike R s s' b b') (hu : u.withoutSpans = u'.withoutSpans)
    {code code' : List Expr} (hcode : listWithoutSpans code = listWithoutSpans code') {vars vars' : Array VariableDecl}
    (hvars : vars.map VariableDecl.withoutSpans = vars'.map VariableDecl.withoutSpans) :
    (b.put s u code vars).withoutSpans = (b'.put s' u' code' vars').withoutSpans := by
  simp only [CompilationUnit.withoutSpans, CompilationUnit.mk.injEq] at hu ⊢
  obtain ⟨hpath, hpackage, himports, htypes, hmethods, -, hblocks, herrors⟩ := hu
  cases hb with
  | @method id id' n n' hid hn =>
    obtain rfl := hR.methods _ _ hid
    have methods (u : CompilationUnit) (code : List Expr) :
        (u.methods.modify id.index fun m => { m with body := some code }).map MethodDecl.withoutSpans =
          (u.methods.map MethodDecl.withoutSpans).modify id.index fun m =>
            { m with body := some (listWithoutSpans code) } := by
      refine array_map_modify (fun m => ?_) _ _
      rfl
    exact ⟨hpath, hpackage, himports, htypes, by rw [Body.put, Body.put, methods, methods, hmethods, hcode], hvars,
      hblocks, herrors⟩
  | @field id id' owner owner' value value' hid howner hn =>
    obtain rfl := hR.vars _ _ hid
    have fields (vars : Array VariableDecl) (code : List Expr) :
        (vars.modify id.index fun v => { v with initializer := code.head? }).map VariableDecl.withoutSpans =
          (vars.map VariableDecl.withoutSpans).modify id.index fun v =>
            { v with initializer := (listWithoutSpans code).head? } := by
      refine array_map_modify (fun v => ?_) _ _
      cases code <;> rfl
    exact ⟨hpath, hpackage, himports, htypes, hmethods, by rw [Body.put, Body.put, fields, fields, hvars, hcode],
      hblocks, herrors⟩
  | @block owner owner' n n' howner hn =>
    obtain rfl := hR.types _ _ howner
    refine ⟨hpath, hpackage, himports, htypes, hmethods, hvars, ?_, herrors⟩
    rw [Body.put, Body.put, List.map_append, List.map_append, hblocks, List.map_singleton, List.map_singleton,
      InitializerBlock.withoutSpans, InitializerBlock.withoutSpans, hcode]

theorem Correspondence.KeepsIds.locals (hR : R.KeepsIds) (base n : Nat) : (R.locals base base n).KeepsIds where
  types := hR.types
  methods := hR.methods
  vars a b h := by
    rcases h with h | ⟨k, -, rfl, rfl⟩
    · exact hR.vars a b h
    · rfl

theorem CompilationUnit.size_of_withoutSpans (h : u.withoutSpans = u'.withoutSpans) :
    u.variableDecls.size = u'.variableDecls.size := by
  have vars := congrArg (fun v : CompilationUnit => v.variableDecls.size) h
  simpa [CompilationUnit.withoutSpans] using vars

/-- two units that are the same without their spans, on the way from declarations to bodies -/
structure CompilationUnit.Abreast (d d' : Declarations) (u u' : CompilationUnit) : Prop where
  left : u.Headed d
  right : u'.Headed d'
  same : u.withoutSpans = u'.withoutSpans

/-- one more body in each of two units -/
theorem CompilationUnit.Abreast.lowerBody (hd : d.Matches R s s' d') (hR : R.KeepsIds) (hb : Body.Alike R s s' b b')
    (hu : CompilationUnit.Abreast d d' u u') :
    BothFaultOr (CompilationUnit.Abreast d d') (CompilationUnit.lowerBody s d u b)
      (CompilationUnit.lowerBody s' d' u' b') := by
  rw [CompilationUnit.lowerBody, CompilationUnit.lowerBody]
  refine (hb.lower hd hu.left hu.right).bind fun r r' h => ?_
  obtain ⟨m, ⟨⟨ls, ls', hls, hls', -, hmatch⟩, -⟩, hcode⟩ := h
  have keeps := hR.locals u.variableDecls.size m
  rw [CodeAt, ExprAt, ← CompilationUnit.size_of_withoutSpans hu.same] at hcode
  rw [← CompilationUnit.size_of_withoutSpans hu.same] at hmatch
  have vars : r.2.variableDecls.map VariableDecl.withoutSpans = r'.2.variableDecls.map VariableDecl.withoutSpans := by
    have before : u.variableDecls.map VariableDecl.withoutSpans = u'.variableDecls.map VariableDecl.withoutSpans :=
      congrArg CompilationUnit.variableDecls hu.same
    have locals : ls.map VariableDecl.withoutSpans = ls'.map VariableDecl.withoutSpans := by
      rw [← List.forall₂_eq_eq_eq, List.forall₂_map_left_iff, List.forall₂_map_right_iff]
      exact hmatch.imp fun _ _ h => h.withoutSpans keeps
    have before := congrArg Array.toList before
    rw [Array.toList_map, Array.toList_map] at before
    rw [← Array.toList_inj, Array.toList_map, Array.toList_map, hls, hls', List.map_append, List.map_append, before, locals]
  refine ⟨?_, ?_, hb.put hR hu.same (listMatches_withoutSpans keeps _ hcode) vars⟩
  · rw [Placed.put_eq s u b r.1 hls]
    exact hu.left.put _
  · rw [Placed.put_eq s' u' b' r'.1 hls']
    exact hu.right.put _

/-- **Bodies that mean the same make the same units**, but for spans. -/
theorem CompilationUnit.Abreast.lowerBodies (hd : d.Matches R s s' d') (hR : R.KeepsIds) {bs bs' : List Body}
    (hbs : List.Forall₂ (Body.Alike R s s') bs bs') (hu : CompilationUnit.Abreast d d' u u') :
    BothFaultOr (CompilationUnit.Abreast d d') (bs.foldlM (CompilationUnit.lowerBody s d) u)
      (bs'.foldlM (CompilationUnit.lowerBody s' d') u') := by
  induction hbs generalizing u u' with
  | nil => exact hu
  | cons hb _ ih =>
    rw [List.foldlM_cons, List.foldlM_cons]
    exact (hu.lowerBody hd hR hb).bind fun _ _ h => ih h

end Bodies

/-! ## Package and imports -/

theorem Node.find?_eq (wanted : Node → Bool) (n : Node) :
    n.find? wanted = if wanted n then some n else n.children.findSome? (·.find? wanted) := by
  have inside (ns : List Node) : Node.find?.inside wanted ns = ns.findSome? (·.find? wanted) := by
    induction ns with
    | nil => rfl
    | cons c ns ih =>
      rw [Node.find?.inside, List.findSome?_cons, ih]
      cases c.find? wanted <;> rfl
  obtain ⟨kind, role, start, stop, children⟩ := n
  rw [Node.find?, inside]
  rfl

section Heads

variable {spans : Span → Span → Prop} {s s' : Source}

/-- the first nodes that are wanted mean the same, when comments are not wanted and nodes that mean the same are wanted
alike -/
theorem Node.Alike.find? {n n' : Node} (h : n.Alike spans s s' n') {wanted : Node → Bool}
    (hcomment : ∀ c : Node, c.isComment = true → wanted c = false)
    (hwanted : ∀ c c' : Node, c.Alike spans s s' c' → wanted c = wanted c') :
    Option.Rel (Node.Alike spans s s') (n.find? wanted) (n'.find? wanted) := by
  have code {ns : List Node} (hplain : ∀ c ∈ ns, c.isComment = true → c.children = []) :
      ns.findSome? (·.find? wanted) = (codeNodes ns).findSome? (·.find? wanted) := by
    induction ns with
    | nil => rfl
    | cons c ns ih =>
      rw [List.findSome?_cons, codeNodes, List.filter_cons, ih fun c hc => hplain c (List.mem_cons_of_mem _ hc)]
      cases hcom : c.isComment with
      | false => rw [Bool.not_false, if_pos rfl, List.findSome?_cons]; rfl
      | true =>
        have nothing : c.find? wanted = none := by
          rw [Node.find?_eq, hcomment c hcom, hplain c List.mem_cons_self hcom]
          rfl
        rw [nothing]
        rfl
  rw [Node.find?_eq, Node.find?_eq wanted n', hwanted n n' h]
  split_ifs
  · exact .some h
  · rw [code fun c hc hcom => (h.plain.1 c hc hcom).2, code fun c hc hcom => (h.plain.2 c hc hcom).2]
    refine forall₂_findSome? (fun c c' hcc => ?_) (forall₂_with_mem h.codeChildren)
    have smaller : sizeOf c < sizeOf n := sizeOf_child (mem_codeNodes.1 hcc.1).1
    exact find? hcc.2.2 hcomment hwanted
termination_by sizeOf n

/-- the dotted names in a node; a comment is none -/
theorem Node.Alike.dottedNames {n n' : Node} (h : n.Alike spans s s' n') :
    (n.children.filter (·.isDottedName)).map s.textOf = (n'.children.filter (·.isDottedName)).map s'.textOf := by
  have plain {c : Node} (hc : c.isComment = true) : c.isDottedName = false := by
    have dotted := Node.kind_ne_of_isComment hc (k := .scopedIdentifier) rfl
    have simple := Node.kind_ne_of_isComment hc (k := .identifier) rfl
    simp [Node.isDottedName, dotted, simple]
  have code (ns : List Node) : ns.filter (·.isDottedName) = (codeNodes ns).filter (·.isDottedName) := by
    rw [codeNodes, List.filter_filter]
    refine List.filter_congr fun c _ => ?_
    cases hcom : c.isComment with
    | true => rw [plain hcom]; rfl
    | false => rw [Bool.not_false, Bool.and_true]
  have names := List.rel_filter (p := (·.isDottedName)) (q := (·.isDottedName))
    (fun c c' hc => by simp only [Node.isDottedName, Node.Alike.kind hc]) h.codeChildren
  rw [code n.children, code n'.children, ← List.forall₂_eq_eq_eq, List.forall₂_map_left_iff, List.forall₂_map_right_iff]
  refine (forall₂_with_mem names).imp fun c c' h => ?_
  obtain ⟨hc, -, hcc⟩ := h
  refine hcc.reads.text (Or.inl ?_)
  have dotted : c.isDottedName = true := (List.mem_filter.1 hc).2
  rw [Node.isDottedName, Bool.or_eq_true, beq_iff_eq, beq_iff_eq] at dotted
  rcases dotted with hk | hk <;> rw [hk] <;> rfl

theorem Node.Alike.namesPackage {n n' : Node} (h : n.Alike spans s s' n') : n.namesPackage = n'.namesPackage := by
  have names := congrArg List.isEmpty h.dottedNames
  rw [List.isEmpty_map, List.isEmpty_map] at names
  have any (ns : List Node) : ns.any (·.isDottedName) = !(ns.filter (·.isDottedName)).isEmpty := by
    rw [Bool.eq_iff_iff]
    simp
  rw [Node.namesPackage, Node.namesPackage, h.kind, any, any, names]

theorem Node.Alike.package? {root root' : Node} (h : root.Alike spans s s' root') : s.package? root = s'.package? root' := by
  have comment (c : Node) (hc : c.isComment = true) : c.namesPackage = false := by
    rw [Node.namesPackage, beq_eq_false_iff_ne.2 (Node.kind_ne_of_isComment hc rfl), Bool.false_and]
  rw [Source.package?, Source.package?]
  rcases optionRel_cases (h.find? comment fun _ _ hc => hc.namesPackage) with ⟨hp, hp'⟩ | ⟨p, p', hp, hp', hpp⟩
  · rw [hp, hp']
    rfl
  · have name := congrArg List.head? hpp.dottedNames
    rw [List.head?_map, List.head?_map, List.head?_filter, List.head?_filter] at name
    rw [hp, hp', Option.bind_some, Option.bind_some, name]

theorem Node.Alike.importOf? (R : Correspondence) {n n' : Node} (h : n.Alike R.spans s s' n') :
    Option.Rel (Import.Matches R) (s.importOf? n) (s'.importOf? n') := by
  have has {k : NodeKind} (hk : k.isComment = false) : (n.childOfKind? k).isSome = (n'.childOfKind? k).isSome := by
    rw [← Option.not_isNone, ← Option.not_isNone, optionRel_isNone (h.childOfKind? hk)]
  have name := congrArg List.getLast? h.dottedNames
  rw [List.getLast?_map, List.getLast?_map] at name
  rw [Source.importOf?, Source.importOf?, h.kind, has (k := .staticKeyword) rfl, has (k := .asterisk) rfl]
  split_ifs
  · cases hc : (n.children.filter (·.isDottedName)).getLast? <;>
      cases hc' : (n'.children.filter (·.isDottedName)).getLast? <;>
      rw [hc, hc'] at name <;> simp only [Option.map_some, Option.map_none, reduceCtorEq, Option.some.injEq] at name
    · exact .none
    · exact .some ⟨name, rfl, rfl, h.span⟩
  · exact .none

theorem Node.Alike.imports (R : Correspondence) {root root' : Node} (h : root.Alike R.spans s s' root') :
    List.Forall₂ (Import.Matches R) (s.imports root) (s'.imports root') := by
  have plain (s : Source) (c : Node) (hc : c.isComment = true) : s.importOf? c = none := by
    rw [Source.importOf?, if_neg (by simp [Node.kind_ne_of_isComment hc (k := .importDeclaration) rfl])]
  rw [Source.imports, Source.imports, filterMap_code (plain s), filterMap_code (plain s')]
  exact List.rel_filterMap (fun _ _ hc => Node.Alike.importOf? R hc) h.codeChildren

/-- names are known by what imports say, wherever they stand -/
theorem NameTable.ofImports_congr {R : Correspondence} (package : Option String) {imports imports' : List Import}
    (h : List.Forall₂ (Import.Matches R) imports imports') :
    NameTable.ofImports package imports = NameTable.ofImports package imports' := by
  rw [NameTable.ofImports, NameTable.ofImports]
  generalize NameTable.mk package [] [] [] = t
  induction h generalizing t with
  | nil => rfl
  | cons hi _ ih =>
    rw [List.foldl_cons, List.foldl_cons, ih, NameTable.addImport, NameTable.addImport, hi.path, hi.isStatic, hi.onDemand]

end Heads

/-! ## Units and findings -/

/-- findings that differ only in their places, and those are at corresponding spans -/
structure Finding.Moved (spans : Span → Span → Prop) (f f' : Finding) : Prop where
  rule : f.rule = f'.rule
  message : f.message = f'.message
  file : f.file = f'.file
  severity : f.severity = f'.severity
  place : ∃ a a' : Span, spans a a' ∧ f.line = a.startLine ∧ f.column = a.startColumn ∧ f'.line = a'.startLine ∧
    f'.column = a'.startColumn

/-- the units and their findings are the same but for where they stand, and that corresponds -/
structure CompilationUnit.SameButSpans (spans : Span → Span → Prop) (u u' : CompilationUnit) : Prop where
  units : u.withoutSpans = u'.withoutSpans
  findings : ∀ rule : Rule, List.Forall₂ (Finding.Moved spans) (rule.check u) (rule.check u')

theorem BothFaultOr.and {α β : Type} {P Q : α → β → Prop} {x : Except Fault α} {x' : Except Fault β}
    (h : BothFaultOr P x x') (h' : BothFaultOr Q x x') : BothFaultOr (fun a b => P a b ∧ Q a b) x x' := by
  cases x <;> cases x' <;> first | exact ⟨h, h'⟩ | exact h

section Files

variable {spans : Span → Span → Prop} {s s' : Source} {root root' : Node}

/-- matching units have the same findings, when ids stand for themselves -/
theorem CompilationUnit.Matches.findings {R : Correspondence} {u u' : CompilationUnit} (h : u.Matches R u')
    (hm : ∀ a b, R.methods a b → a = b) (ho : R.Ordered) (hd : (u.unsortedRoots.map (·.1)).Nodup) (rule : Rule) :
    List.Forall₂ (Finding.Moved R.spans) (rule.check u) (rule.check u') := by
  have violations : List.Forall₂ R.spans (rule.violations u) (rule.violations u') := by
    cases rule with
    | dynamicCode => exact h.dynamicCode ho hd
    | missingAssertions catalog depth =>
      have count : u.methods.size = u'.methods.size :=
        h.methods.size_eq MethodId.mk_bijective (fun _ => rfl) fun _ => rfl
      have ids : List.Forall₂ R.methods u.methodIds u'.methodIds := by
        rw [methodIds, methodIds, ← count]
        refine List.forall₂_same.2 fun id hid => ?_
        have there : (u.methodAt? id).isSome := 
          (mem_indices MethodId.mk_bijective (fun i => (rfl : u.methodAt? ⟨i⟩ = u.methods[i]?)) id).1 hid
        obtain ⟨m, hm'⟩ := Option.isSome_iff_exists.1 there
        obtain ⟨j, hj⟩ := h.methods.left hm'
        exact hm id j hj ▸ hj
      exact h.reportedSpans_match catalog depth ids
  rw [Rule.check, Rule.check, h.path, List.forall₂_map_left_iff, List.forall₂_map_right_iff]
  exact violations.imp fun a a' ha => ⟨rfl, rfl, rfl, rfl, a, a', ha, rfl, rfl, rfl, rfl⟩

/-- files whose trees mean the same have the same declarations, and ids stand for themselves -/
theorem Node.Alike.declarationsOf (h : root.Alike spans s s' root') :
    ∃ R : Correspondence, R.spans = spans ∧ R.KeepsIds ∧
      (s.declarationsOf root).Matches R s s' (s'.declarationsOf root') ∧
      List.Forall₂ (Body.Alike R s s') (s.declarationsOf root).bodies.toList (s'.declarationsOf root').bodies.toList := by
  let names := NameTable.ofImports (s.package? root) (s.imports root)
  let d := Declarations.collectAll s none root.children (.ofNames names)
  let d' := Declarations.collectAll s' none root'.children (.ofNames names)
  obtain ⟨fs, hc⟩ := Declarations.collectAll_coherent s (NameTable.ofImports_declared (s.package? root) (s.imports root))
    root.children
  have start : Declarations.Abreast spans s s' (.ofNames names) (.ofNames names) :=
    ⟨rfl, .nil, rfl, .nil, .nil, .nil, .nil⟩
  have collected : d.Abreast spans s s' d' :=
    Declarations.collectAll_abreast (h.codeChildren.imp fun _ _ hn _ _ hd => Declarations.collect_abreast hn none hd) start
  have imports : List.Forall₂ (Import.Matches (d.idsOf spans)) (s.imports root) (s'.imports root') :=
    Node.Alike.imports (d.idsOf spans) h
  have there : s'.declarationsOf root' = d'.link := by
    rw [Source.declarationsOf, Declarations.ofFile, ← h.package?, ← NameTable.ofImports_congr _ imports]
  rw [there]
  exact ⟨d.idsOf spans, rfl, ⟨fun _ _ h => h.1, fun _ _ h => h.1, fun _ _ h => h.1⟩, collected.link_matches hc,
    collected.bodies_link hc⟩

/-- the unit of a tree: bodies are lowered one by one, after the declarations -/
theorem CompilationUnit.ofTree_eq (path : String) (s : Source) (root : Node) :
    ofTree path s root = (s.declarationsOf root).bodies.foldlM (lowerBody s (s.declarationsOf root))
      ((s.declarationsOf root).headers path (s.package? root) (s.imports root)) :=
  rfl

/-- files whose trees mean the same have units that match, or neither has a unit -/
theorem CompilationUnit.ofTree_matches (path : String) (ht : s.tree? = some root) (ht' : s'.tree? = some root')
    (h : root.Alike spans s s' root') :
    BothFaultOr (fun u u' => ∃ R : Correspondence, R.spans = spans ∧ (∀ a b, R.methods a b → a = b) ∧ u.Matches R u')
      (ofTree path s root) (ofTree path s' root') := by
  obtain ⟨R, rfl, keeps, linked, -⟩ := h.declarationsOf
  have units := linked.units path (s.package? root)
    (Declarations.ofFile_apart (Source.tree_shaped ht) (Source.tree_inOrder ht) _)
    (Declarations.ofFile_apart (Source.tree_shaped ht') (Source.tree_inOrder ht') _) (Node.Alike.imports R h)
  rw [ofTree_eq, ofTree_eq, ← h.package?]
  exact units.mono fun u u' ⟨R', hg, hm⟩ => ⟨R', hg.spans, fun a b hab => keeps.methods a b (hg.methods ▸ hab), hm⟩

/-- **Files whose trees mean the same have the same units** but for spans, or neither has a unit. -/
theorem CompilationUnit.ofTree_alike (path : String) (ht : s.tree? = some root) (ht' : s'.tree? = some root')
    (h : root.Alike spans s s' root')
    (ho : ∀ {a a' b b' : Span}, spans a a' → spans b b' → a'.startByte ≤ b'.startByte → a.startByte ≤ b.startByte) :
    BothFaultOr (SameButSpans spans) (ofTree path s root) (ofTree path s' root') := by
  -- the units match, so their findings correspond; the bodies come in the same order, so the units are the same
  have findings : BothFaultOr (fun u u' => ∀ rule : Rule, List.Forall₂ (Finding.Moved spans) (rule.check u) (rule.check u'))
      (ofTree path s root) (ofTree path s' root') := by
    refine (ofTree_matches path ht ht' h).mono_safe
      (ofTree_entries (s := s) (Source.tree_shaped ht) (Source.tree_inOrder ht) path) fun u u' entries matched => ?_
    obtain ⟨es, hperm, hstarts, -⟩ := entries
    obtain ⟨R, rfl, methods, hm⟩ := matched
    exact hm.findings methods ho (unsortedRoots_nodup hperm hstarts)
  have same : BothFaultOr (fun u u' => u.withoutSpans = u'.withoutSpans) (ofTree path s root) (ofTree path s' root') := by
    obtain ⟨R, rfl, keeps, linked, bodies⟩ := h.declarationsOf
    let d := s.declarationsOf root
    let d' := s'.declarationsOf root'
    have headers : (d.headers path (s.package? root) (s.imports root)).withoutSpans =
        (d'.headers path (s.package? root) (s'.imports root')).withoutSpans := by
      have heads : (s.imports root).map Import.withoutSpan = (s'.imports root').map Import.withoutSpan := by
        rw [← List.forall₂_eq_eq_eq, List.forall₂_map_left_iff, List.forall₂_map_right_iff]
        exact (Node.Alike.imports R h).imp fun _ _ hi => hi.withoutSpan
      have types := linked.types.map_eq keeps.types (fun i => (rfl : d.typeAt? ⟨i⟩ = _)) (fun _ => rfl)
        fun _ _ ht => TypeDecl.Matches.withoutSpan keeps ht
      have methods := linked.methods.map_eq keeps.methods (fun i => (rfl : (fun id : MethodId => d.methods[id.index]?) ⟨i⟩ = _))
        (fun _ => rfl) fun _ _ hm => MethodDecl.Matches.withoutSpans keeps hm
      have fields := linked.fields.map_eq keeps.vars (fun i => (rfl : (fun id : VariableId => d.fields[id.index]?) ⟨i⟩ = _))
        (fun _ => rfl) fun _ _ hv => VariableDecl.Matches.withoutSpans keeps hv
      rw [withoutSpans, withoutSpans, Declarations.headers, Declarations.headers, heads, types, methods, fields]
    have abreast : Abreast d d' (d.headers path (s.package? root) (s.imports root))
        (d'.headers path (s.package? root) (s'.imports root')) :=
      ⟨d.headers_headed _ _ _, d'.headers_headed _ _ _, headers⟩
    rw [ofTree_eq, ofTree_eq, ← h.package?, ← Array.foldlM_toList, ← Array.foldlM_toList]
    exact (abreast.lowerBodies linked keeps bodies).mono fun _ _ hu => hu.same
  exact (same.and findings).mono fun _ _ h => ⟨h.1, h.2⟩

end Files

/-! ## Layout -/

theorem SameTokens.ordered {s s' : Source} {ts ts' : List Token} (ha : TokensAfter 0 ts) (ha' : TokensAfter 0 ts')
    (hl : ts.length = ts'.length) {a a' b b' : Span} (h : SameTokens s s' ts ts' a a') (k : SameTokens s s' ts ts' b b')
    (hle : a'.startByte ≤ b'.startByte) : a.startByte ≤ b.startByte := by
  obtain ⟨i, hi, _, _, rfl, rfl⟩ := h
  obtain ⟨j, hj, _, _, rfl, rfl⟩ := k
  have order : i ≤ j := (ha'.startAt_le_iff (hl ▸ hi) (hl ▸ hj)).1 hle
  exact (ha.startAt_le_iff hi hj).2 order

/-- what is read in the trees of two files is the same, wherever it is read with layout in it -/
def Tokens.ReadSame (s s' : Source) (ts ts' : Tokens) : Prop :=
  ∀ root ∈ ts.tree?, ∀ root' ∈ ts'.tree?, ∀ n ∈ root.within, ∀ n' ∈ root'.within,
    n.Over ts.tokens ts'.tokens n' → n.ReadsSame s s' ts.tokens ts'.tokens n'

instance (s s' : Source) (ts ts' : Tokens) : Decidable (ts.ReadSame s s' ts') :=
  inferInstanceAs (Decidable (∀ root ∈ ts.tree?, ∀ root' ∈ ts'.tree?, ∀ n ∈ root.within, ∀ n' ∈ root'.within, _ → _))

/-- **Layout does not matter.** Of files that are written alike both have syntax errors or neither has. Without them the files
have the same units but for spans, and the same findings at the same tokens, when whatever is read with layout in it is the
same; or neither file has a unit. -/
theorem Source.unit_writtenAlike [Recovery] {s s' : Source} {ts ts' : Tokens} (path : String) (ht : s.tokens? = some ts)
    (ht' : s'.tokens? = some ts') (hw : WrittenAlike s s' ts.tokens ts'.tokens) (hr : ts.ReadSame s s' ts') :
    s.tree?.isSome = s'.tree?.isSome ∧
      (s.tree?.isSome = true →
        BothFaultOr (CompilationUnit.SameButSpans (SameTokens s s' ts.tokens ts'.tokens)) (s.unit path) (s'.unit path)) := by
  have after := Source.tokens_ascend ht
  have after' := Source.tokens_ascend ht'
  have tree : s.tree? = ts.tree? := by rw [Source.tree?, ht, Option.bind_some]
  have tree' : s'.tree? = ts'.tree? := by rw [Source.tree?, ht', Option.bind_some]
  rw [Source.unit, Source.unit]
  rcases optionRel_cases (hw.tree after after') with ⟨hn, hn'⟩ | ⟨root, root', hroot, hroot', twin⟩
  · rw [tree, tree', hn, hn']
    exact ⟨rfl, nofun⟩
  · have alike : root.Alike (SameTokens s s' ts.tokens ts'.tokens) s s' root' :=
      twin.alike hw after after' (Source.tree_shaped (tree.trans hroot)) (Source.tree_shaped (tree'.trans hroot'))
        (hr root hroot root' hroot')
    have units := CompilationUnit.ofTree_alike path (tree.trans hroot) (tree'.trans hroot') alike
      (SameTokens.ordered after after' hw.length_eq)
    rw [tree, tree', hroot, hroot']
    exact ⟨rfl, fun _ => units⟩

/-- a file without needless layout -/
def tightFile : Source :=
  .ofBytes "import a.b; class T extends B \x7b A<B> f; \x7d".toUTF8.toList

/-- the same file with blanks and comments, some of them in a type -/
def looseFile : Source :=
  .ofBytes "import a.b; // c\nclass T extends B /* c */ \x7b A < /* c */ B > f; \x7d".toUTF8.toList

theorem looseFile_sameButSpans :
    ∃ ts ts' : Tokens, tightFile.tokens? = some ts ∧ looseFile.tokens? = some ts' ∧ tightFile.tree?.isSome = true ∧
      BothFaultOr (CompilationUnit.SameButSpans (SameTokens tightFile looseFile ts.tokens ts'.tokens))
        (tightFile.unit "T.java") (looseFile.unit "T.java") := by
  have parsed : tightFile.tree?.isSome = true := by decide +kernel
  have checked : tightFile.tokens?.any (fun ts => looseFile.tokens?.any fun ts' =>
      WrittenAlike tightFile looseFile ts.tokens ts'.tokens ∧ ts.ReadSame tightFile looseFile ts') = true := by
    decide +kernel
  cases ht : tightFile.tokens? with
  | none => simp [ht] at checked
  | some ts =>
    cases ht' : looseFile.tokens? with
    | none => simp [ht, ht'] at checked
    | some ts' =>
      obtain ⟨hw, hr⟩ : WrittenAlike tightFile looseFile ts.tokens ts'.tokens ∧ ts.ReadSame tightFile looseFile ts' := by
        simpa [ht, ht'] using checked
      exact ⟨ts, ts', rfl, rfl, parsed, (Source.unit_writtenAlike "T.java" ht ht' hw hr).2 parsed⟩

/-- a class with a superclass, without needless layout -/
def bareSuperclass : Source :=
  .ofBytes "class T extends B\x7b\x7d".toUTF8.toList

/-- the same file with a comment before the superclass -/
def commentedSuperclass : Source :=
  .ofBytes "class T extends/**/B\x7b\x7d".toUTF8.toList

/-- A comment before a superclass is taken for it, so files that are written alike can have different units. -/
theorem comment_hides_superclass :
    ∃ ts ts' : Tokens, bareSuperclass.tokens? = some ts ∧ commentedSuperclass.tokens? = some ts' ∧
      WrittenAlike bareSuperclass commentedSuperclass ts.tokens ts'.tokens ∧
      ¬BothFaultOr (CompilationUnit.SameButSpans (SameTokens bareSuperclass commentedSuperclass ts.tokens ts'.tokens))
        (bareSuperclass.unit "T.java") (commentedSuperclass.unit "T.java") := by
  have written : bareSuperclass.tokens?.any (fun ts => commentedSuperclass.tokens?.any fun ts' =>
      WrittenAlike bareSuperclass commentedSuperclass ts.tokens ts'.tokens) = true := by
    decide +kernel
  have units : BothOk (fun u u' => u.types.map (·.superclass) = #[some "B"] ∧ u'.types.map (·.superclass) = #[some "/**/"])
      (bareSuperclass.unit "T.java") (commentedSuperclass.unit "T.java") := by
    decide +kernel
  obtain ⟨ts, ht, written⟩ := (Option.any_eq_true _ _).1 written
  obtain ⟨ts', ht', written⟩ := (Option.any_eq_true _ _).1 written
  refine ⟨ts, ts', ht, ht', by simpa using written, fun h => ?_⟩
  cases hu : bareSuperclass.unit "T.java" <;> cases hu' : commentedSuperclass.unit "T.java" <;> rw [hu, hu'] at units h
  case ok.ok u u' =>
    have types : u.types.map (·.superclass) = u'.types.map (·.superclass) := by
      have same := congrArg (fun v : CompilationUnit => v.types.map (·.superclass)) h.units
      simpa [CompilationUnit.withoutSpans, TypeDecl.withoutSpan, Function.comp_def] using same
    rw [units.1, units.2] at types
    exact absurd types (by decide)
  all_goals exact units

end CallLint
