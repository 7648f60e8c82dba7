/-
Units refer soundly: every id in the unit of a file is that of a declaration in the unit, and of one that the id can stand
for (`Source.unit_sound`), and so are all ids that are looked up while the unit is made (`Declarations.Answers`). Units keep
to the law that references are sound; what is left is to find the declarations in the unit.
-/
import CallLint.Proofs.Laws.Files
import CallLint.Proofs.References.Lowered

namespace CallLint

namespace CompilationUnit

/-- the types around a type come to an end -/
inductive OutwardEnds (u : CompilationUnit) : TypeId → Prop
  | outermost {id : TypeId} {t : TypeDecl} : u.typeAt? id = some t → t.enclosing = none → OutwardEnds u id
  | inside {id e : TypeId} {t : TypeDecl} :
    u.typeAt? id = some t → t.enclosing = some e → OutwardEnds u e → OutwardEnds u id

/-- every id in the unit is that of a declaration in the unit, and of one that it can stand for -/
structure Sound (u : CompilationUnit) : Prop where
  methodBodies : ∀ m ∈ u.methods, ∀ es, m.body = some es → AllSound u.variableDecls u.methods es
  initializers : ∀ v ∈ u.variableDecls, ∀ e, v.initializer = some e → e.Sound u.variableDecls u.methods
  blocks : ∀ b ∈ u.blocks, AllSound u.variableDecls u.methods b.body
  methodOwners : ∀ m ∈ u.methods, ∃ t, u.typeAt? m.owner = some t
  blockOwners : ∀ b ∈ u.blocks, ∃ t, u.typeAt? b.owner = some t
  enclosing : ∀ (i : Nat) (t : TypeDecl), u.types[i]? = some t → ∀ e, t.enclosing = some e → e.index < i
  superclass : ∀ (i : Nat) (t : TypeDecl), u.types[i]? = some t → ∀ e, t.superclassId = some e →
    e.index ≠ i ∧ ∃ t', u.typeAt? e = some t' ∧ t.superclass = some t'.binaryName
  ends : ∀ i < u.types.size, u.OutwardEnds ⟨i⟩

/-- the types around a type are the same in a unit that is flagged -/
theorem OutwardEnds.flagged {u : CompilationUnit} {id : TypeId} (h : u.OutwardEnds id) :
    OutwardEnds { u with hasParseErrors := true } id := by
  induction h with
  | outermost ht he => exact .outermost ht he
  | inside ht he _ ih => exact .inside ht he ih

theorem Sound.flagged {u : CompilationUnit} (h : u.Sound) : Sound { u with hasParseErrors := true } :=
  { h with ends := fun i hi => (h.ends i hi).flagged }

/-! ## The whole unit -/

section Whole

variable {L : LoweringLaw} {d : Declarations} {u : CompilationUnit}

/-- a method that is found by its name and arguments is found in the unit as well -/
theorem Lawful.methodFor (h : u.Lawful L d) (name : String) (arguments : Nat) (id : MethodId)
    (hm : MethodFor d.methods name arguments id) : MethodFor u.methods name arguments id := by
  obtain ⟨m, hm, hname, haccepts⟩ := hm
  obtain ⟨m', hm', heq⟩ := h.method hm
  have name : m'.name = m.name := congrArg (·.name) heq
  have varargs : m'.varargs = m.varargs := congrArg (·.varargs) heq
  have count : m'.parameterCount = m.parameterCount := congrArg (·.parameterCount) heq
  refine ⟨m', hm', name.trans hname, ?_⟩
  rw [MethodDecl.acceptsArity, varargs, count]
  exact haccepts

theorem Lawful.typeAt?_eq (h : u.Lawful L d) (id : TypeId) : u.typeAt? id = d.typeAt? id := by
  rw [typeAt?, h.types]
  rfl

/-- ids descend from a type to the type around it -/
theorem Lawful.outwardEnds (hd : d.Sound) (h : u.Lawful L d) (i : Nat) (hi : i < d.types.size) : u.OutwardEnds ⟨i⟩ := by
  induction i using Nat.strong_induction_on with
  | _ i ih =>
    obtain ⟨t, ht⟩ : ∃ t, d.typeAt? ⟨i⟩ = some t := d.exists_typeAt? hi
    have there : u.typeAt? ⟨i⟩ = some t := by rw [h.typeAt?_eq, ht]
    cases he : t.enclosing with
    | none => exact .outermost there he
    | some e =>
      have before : e.index < i := hd.enclosing i t ht e he
      exact .inside there he (ih e.index before (before.trans hi))

/-- a method in the unit has the owner of its header -/
theorem Lawful.owner_lt (hd : d.Sound) (h : u.Lawful L d) {m : MethodDecl} (hm : m ∈ u.methods) :
    m.owner.index < d.types.size := by
  obtain ⟨m', hm', heq⟩ := h.declared hm
  have owner : m.owner = m'.owner := congrArg (·.owner) heq
  rw [owner]
  exact (hd.methods m' hm').1

/-- **A unit that keeps to the law is sound.** -/
theorem Lawful.sound (hd : d.Sound) {levels : Nat} (h : u.Lawful (hd.law levels) d) : u.Sound := by
  have code {es : List Expr} (hes : AllSound u.variableDecls d.methods es) : AllSound u.variableDecls u.methods es :=
    fun e he => (hes e he).mono (.refl _) h.methodFor
  constructor
  case methodBodies =>
    intro m hm es hes
    exact code (h.methodBodies m hm es hes)
  case initializers =>
    intro v hv e he
    exact (h.state.initializers v hv e he).mono (.refl _) h.methodFor
  case blocks =>
    intro b hb
    exact code (h.blocks b hb).2
  case methodOwners =>
    intro m hm
    rw [h.typeAt?_eq]
    exact d.exists_typeAt? (h.owner_lt hd hm)
  case blockOwners =>
    intro b hb
    rw [h.typeAt?_eq]
    exact d.exists_typeAt? (h.blocks b hb).1
  case enclosing =>
    intro i t ht
    rw [h.types] at ht
    exact hd.enclosing i t ht
  case superclass =>
    intro i t ht e he
    rw [h.types] at ht
    obtain ⟨hne, t', ht', hname⟩ := hd.superclass i t ht e he
    exact ⟨hne, t', by rw [h.typeAt?_eq, ht'], hname⟩
  case ends =>
    intro i hi
    rw [h.types] at hi
    exact h.outwardEnds hd i hi

end Whole

end CompilationUnit

/-- before the first body is lowered only fields are known -/
theorem Declarations.Sound.fields_sound {d : Declarations} (hd : d.Sound) : LowerState.Sound d ⟨d.fields, []⟩ := by
  refine ⟨.refl _, nofun, fun v hv e he => ?_⟩
  rw [hd.withoutInitializer v hv] at he
  cases he

/-- references are sound in all code of a tree's unit -/
theorem CompilationUnit.ofTree_references (s : Source) (path : String) (root : Node) :
    Safe True (Lawful ((s.declarationsOf_sound root).law nestingLimit) (s.declarationsOf root)) (ofTree path s root) :=
  ofTree_lawful le_rfl (s.declarationsOf_sound root).fields_sound (fun _ _ _ => rfl) path

theorem CompilationUnit.ofTree_sound (s : Source) (path : String) (root : Node) : Safe True Sound (ofTree path s root) :=
  (ofTree_references s path root).mono id fun _ hu => hu.sound (s.declarationsOf_sound root)

/-- what is looked up by an id while bodies are lowered is there -/
structure Declarations.Answers (d : Declarations) : Prop where
  enclosing : ∀ (steps : Nat) (id : TypeId), id.index < d.types.size → d.Follows (·.enclosing) steps id
  superclasses : ∀ (steps : Nat) (id : TypeId), id.index < d.types.size → d.Follows (·.superclassId) steps id
  chains : ∀ id : TypeId, id.index < d.types.size → ∃ inner outer t,
    d.enclosingChain id = inner ++ [outer] ∧ d.typeAt? outer = some t ∧ t.enclosing = none
  named : ∀ (name : String) (id : TypeId), d.typeNamed? name = some id → ∃ t, d.typeAt? id = some t ∧ t.binaryName = name
  bindings : ∀ (c : LowerContext) (st : LowerState), c.declarations = d → st.Sound d → ∀ (name : String) (id : VariableId),
    c.lookup? st name = some id → VariableNamed st.variableDecls name id
  accesses : ∀ (c : LowerContext) (st : LowerState), c.declarations = d → st.Sound d → ∀ (object : Node) (field : String)
    (id : VariableId), c.fieldBinding? st object field = some id → FieldNamed st.variableDecls field id

theorem Declarations.Sound.answers {d : Declarations} (hd : d.Sound) : d.Answers where
  enclosing := hd.follows_enclosing
  superclasses := hd.follows_superclass
  chains _ hid := hd.enclosingChain_ends hid
  named _ _ := typeAt?_of_typeNamed?
  bindings := by
    rintro c st rfl hst name id
    exact LowerContext.lookup?_named hd hst
  accesses := by
    rintro c st rfl hst object field id
    exact LowerContext.fieldBinding?_named hd hst

theorem Source.unit_sound [Recovery] (s : Source) (path : String) :
    Safe (s.root.Faulty s) CompilationUnit.Sound (s.unit path) :=
  s.unit_of_root path (CompilationUnit.ofTree_sound s path s.root) fun _ => CompilationUnit.Sound.flagged

/-- **Units refer soundly**, with syntax errors or without. Every id in the unit of a file is that of a declaration in the
unit that it can stand for, and each type is inside others only finitely often. The ids in the tables from which the bodies
are lowered are sound as well, what is looked up by them is there, and at each level of a body lowering goes from sound
states to sound states. -/
theorem Source.unit_references [Recovery] (s : Source) (path : String) :
    Safe (s.root.Faulty s) CompilationUnit.Sound (s.unit path) ∧
      (s.declarationsOf s.root).Sound ∧ (s.declarationsOf s.root).Answers ∧
        ∀ levels, (Inner.ofLevels levels).Resolves (s.declarationsOf s.root) := by
  have hd := s.declarationsOf_sound s.root
  exact ⟨s.unit_sound path, hd, hd.answers, Inner.ofLevels_resolves hd⟩

end CallLint
