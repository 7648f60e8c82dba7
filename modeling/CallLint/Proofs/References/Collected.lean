/-
What the collection of a file keeps. It is made of four steps: a body, a field, a method or a type is added, each for a
type that is there and from a node that has it in its place. A property that each step keeps holds of all that is
collected, by one induction over the tree (`KeptBySteps.collect`). The nodes may be any that are closed under children.
-/
import CallLint.Proofs.CallSites.Bodies
import CallLint.Proofs.Rearranged.Collected

namespace CallLint

/-- what the body belongs to is there -/
def Body.InRange (d : Declarations) : Body → Prop
  | .method id _ => id.index < d.methods.size
  | .field id owner _ => id.index < d.fields.size ∧ owner.index < d.types.size
  | .block owner _ => owner.index < d.types.size

theorem Body.InRange.mono {d d' : Declarations} {b : Body} (h : b.InRange d) (ht : d.types.size ≤ d'.types.size)
    (hm : d.methods.size ≤ d'.methods.size) (hf : d.fields.size ≤ d'.fields.size) : b.InRange d' := by
  cases b with
  | method id n => exact Nat.lt_of_lt_of_le h hm
  | field id owner value => exact ⟨h.1.trans_le hf, h.2.trans_le ht⟩
  | block owner n => exact Nat.lt_of_lt_of_le h ht

variable {Q : Node → Prop}

/-- the body is that of one of the nodes, of a kind that has such a body -/
inductive Body.From (Q : Node → Prop) : Body → Prop
  | method {id : MethodId} {n : Node} : Q n →
    n.kind = .methodDeclaration ∨ n.kind = .constructorDeclaration ∨ n.kind = .compactConstructorDeclaration →
    From Q (.method id n)
  | field {id : VariableId} {owner : TypeId} {n declarator value : Node} : Q n →
    n.kind = .fieldDeclaration ∨ n.kind = .constantDeclaration → declarator ∈ n.childrenIn .declarator →
    declarator.child? .value = some value → From Q (.field id owner value)
  | block {owner : TypeId} {n : Node} : Q n →
    n.kind = .staticInitializer ∨ n.kind = .block ∨ n.kind = .enumConstant → From Q (.block owner n)

theorem Body.From.node {b : Body} (h : b.From Q) (child : ∀ {n c : Node}, Q n → c ∈ n.children → Q c) : Q b.node := by
  cases h with
  | method hn _ => exact hn
  | field hn _ hm hvalue => exact child (child hn (List.mem_of_mem_filter hm)) (Node.child?_mem hvalue)
  | block hn _ => exact hn

/-- the text is that of a type that one of the nodes writes, or it is empty where there is none -/
inductive Source.WritesType (s : Source) (Q : Node → Prop) : String → Prop
  | none : WritesType s Q ""
  | type {n m : Node} : Q n → n.child? .type = some m → WritesType s Q (s.textOf m)
  | parameter {n : Node} {p : Parameter} : Q n → p ∈ s.parametersOf n → WritesType s Q p.type

/-- the method is one that one of the nodes declares, without its body -/
inductive Source.WritesMethod (s : Source) (Q : Node → Prop) : MethodDecl → Prop
  | mk {n : Node} : Q n → ∀ (owner : TypeId) (isInterface : Bool) (name : String),
    WritesMethod s Q (s.methodHeader owner isInterface name n)

namespace Declarations

/-- a type as a node declares it, so far without its superclass resolved -/
def newType (s : Source) (d : Declarations) (enclosing : Option TypeId) (n name : Node) : TypeDecl :=
  ⟨s.textOf name, d.names.declaredName ((enclosing.bind d.typeAt?).map (·.binaryName)) (s.textOf name), typeKindOf n,
    enclosing, superclassText? s n, none, s.spanOf n⟩

/-- the steps at some nodes keep a property of declarations -/
structure KeptBySteps (s : Source) (Q : Node → Prop) (P : Declarations → Prop) : Prop where
  child : ∀ {n c : Node}, Q n → c ∈ n.children → Q c
  body : ∀ {d : Declarations} {b : Body}, P d → b.From Q → b.InRange d → P (d.addBody b)
  field : ∀ {d : Declarations} {type : String} {owner : TypeId}, P d → s.WritesType Q type → owner.index < d.types.size →
    ∀ name isFinal span, P (d.addField owner name type isFinal span)
  method : ∀ {d : Declarations} {m : MethodDecl}, P d → s.WritesMethod Q m → m.owner.index < d.types.size →
    P (d.pushMethod m)
  type : ∀ {d : Declarations} {n name : Node} {enclosing : Option TypeId}, P d → Q n →
    (∀ e, enclosing = some e → e.index < d.types.size) → n.kind.isTypeDeclaration = true → n.child? .name = some name →
    P (d.pushType (newType s d enclosing n name))

namespace KeptBySteps

variable {s : Source} {P : Declarations → Prop} {d : Declarations} {n : Node} {owner : TypeId}

/-! ## Members -/

theorem addFields (k : KeptBySteps s Q P) (h : P d) (hn : Q n)
    (hk : n.kind = .fieldDeclaration ∨ n.kind = .constantDeclaration) (ho : owner.index < d.types.size) :
    P (d.addFields s owner n) ∧ (d.addFields s owner n).types = d.types := by
  have type : s.WritesType Q (((n.child? .type).map s.textOf).getD "") := by
    cases hm : n.child? .type with
    | none => exact .none
    | some m => exact .type hn hm
  rw [addFields_eq]
  refine List.foldlRecOn (motive := fun e => P e ∧ e.types = d.types) _ _ ⟨h, rfl⟩ fun e he m hm => ?_
  obtain ⟨he, htypes⟩ := he
  unfold addDeclarator
  cases m.child? .name with
  | none => exact ⟨he, htypes⟩
  | some name =>
    have there : owner.index < e.types.size := htypes ▸ ho
    have field := k.field he type there (s.textOf name) (d.isInterface owner || (s.modifiersOf n).isFinal) (s.spanOf m)
    cases hvalue : m.child? .value with
    | none => exact ⟨field, htypes⟩
    | some value => exact ⟨k.body field (.field hn hk hm hvalue) ⟨by simp [addField], there⟩, htypes⟩

theorem addMethod (k : KeptBySteps s Q P) (h : P d) (hn : Q n)
    (hk : n.kind = .methodDeclaration ∨ n.kind = .constructorDeclaration ∨ n.kind = .compactConstructorDeclaration)
    (ho : owner.index < d.types.size) : P (d.addMethod s owner n) ∧ (d.addMethod s owner n).types = d.types := by
  rw [addMethod_eq]
  cases s.methodName? n with
  | none => exact ⟨h, rfl⟩
  | some name =>
    have header := k.method h (.mk hn owner (d.isInterface owner) name) ho
    dsimp only
    split_ifs
    · refine ⟨k.body header (.method hn hk) ?_, rfl⟩
      change d.methods.size < (d.methods.push _).size
      simp
    · exact ⟨header, rfl⟩

theorem addMember (k : KeptBySteps s Q P) (h : P d) (hn : Q n) (ho : owner.index < d.types.size) :
    P (d.addMember s owner n) ∧ (d.addMember s owner n).types = d.types := by
  have block (hk : n.kind = .staticInitializer ∨ n.kind = .block ∨ n.kind = .enumConstant) :
      P (d.addBody (.block owner n)) ∧ (d.addBody (.block owner n)).types = d.types :=
    ⟨k.body h (.block hn hk) ho, rfl⟩
  unfold Declarations.addMember
  split
  case h_1 hk => exact k.addFields h hn (.inl hk) ho
  case h_2 hk => exact k.addFields h hn (.inr hk) ho
  case h_3 hk => exact k.addMethod h hn (.inl hk) ho
  case h_4 hk => exact k.addMethod h hn (.inr (.inl hk)) ho
  case h_5 hk => exact k.addMethod h hn (.inr (.inr hk)) ho
  case h_6 hk => exact block (.inl hk)
  case h_7 hk => exact block (.inr (.inl hk))
  case h_8 hk =>
    split_ifs
    · exact block (.inr (.inr hk))
    · exact ⟨h, rfl⟩
  case h_9 => exact ⟨h, rfl⟩

/-! ## Types -/

theorem addComponents (k : KeptBySteps s Q P) (h : P d) (hn : Q n) (ho : owner.index < d.types.size) :
    P (d.addComponents s owner n) ∧ (d.addComponents s owner n).types = d.types := by
  unfold Declarations.addComponents
  cases hparams : n.child? .parameters with
  | none => exact ⟨h, rfl⟩
  | some params =>
    have hlist : Q params := k.child hn (Node.child?_mem hparams)
    refine List.foldlRecOn (motive := fun e => P e ∧ e.types = d.types) _ _ ⟨h, rfl⟩ fun e he p hp => ?_
    exact ⟨k.field he.1 (.parameter hlist hp) (he.2 ▸ ho) _ _ _, he.2⟩

/-- a new type has an id after those of all types before it, so also after that of the type around it -/
theorem addType? (k : KeptBySteps s Q P) (h : P d) (hn : Q n) {enclosing : Option TypeId}
    (ho : ∀ e, enclosing = some e → e.index < d.types.size) (hk : n.kind.isTypeDeclaration = true) {id : TypeId}
    {d' : Declarations} (hadd : d.addType? s enclosing n = some (id, d')) :
    P d' ∧ d.types.size ≤ d'.types.size ∧ id.index < d'.types.size := by
  rw [Declarations.addType?, Option.map_eq_some_iff] at hadd
  obtain ⟨name, hname, hadd⟩ := hadd
  dsimp only at hadd
  obtain ⟨rfl, rfl⟩ := Prod.mk.inj hadd
  let t := newType s d enclosing n name
  have type : P (d.pushType t) := k.type h hn ho hk hname
  have last : (TypeId.mk d.types.size).index < (d.pushType t).types.size := by simp [pushType]
  change P (if typeKindOf n = .record then (d.pushType t).addComponents s ⟨d.types.size⟩ n else d.pushType t) ∧
    d.types.size ≤ (if typeKindOf n = .record then (d.pushType t).addComponents s ⟨d.types.size⟩ n
      else d.pushType t).types.size ∧
    d.types.size < (if typeKindOf n = .record then (d.pushType t).addComponents s ⟨d.types.size⟩ n
      else d.pushType t).types.size
  split_ifs
  · obtain ⟨components, htypes⟩ := k.addComponents type hn last
    rw [htypes]
    exact ⟨components, last.le, last⟩
  · exact ⟨type, last.le, last⟩

/-! ## The collection -/

mutual

/-- **What the steps keep holds of what is collected of a node**, and no type is lost. The owner is a type that is there. -/
theorem collect (k : KeptBySteps s Q P) : ∀ (n : Node) (d : Declarations) (owner : Option TypeId),
    Q n → (∀ e, owner = some e → e.index < d.types.size) → P d →
      P (Declarations.collect s owner n d) ∧ d.types.size ≤ (Declarations.collect s owner n d).types.size
  | .mk kind role start stop children, d, owner, hn, ho, h => by
    have inside : ∀ c ∈ children, Q c := fun c hc => k.child hn hc
    rw [Declarations.collect.eq_def]
    dsimp only
    split
    · rename_i hk
      cases hadd : d.addType? s owner (.mk kind role start stop children) with
      | none => exact ⟨h, le_rfl⟩
      | some added =>
        obtain ⟨id, d'⟩ := added
        obtain ⟨type, more, hid⟩ := k.addType? h hn ho hk hadd
        obtain ⟨body, htypes⟩ := collectBody k children d' id inside hid type
        exact ⟨body, more.trans htypes⟩
    · cases owner with
      | none => exact ⟨h, le_rfl⟩
      | some id =>
        dsimp only
        split
        · exact collectAll k children d (some id) inside ho h
        · obtain ⟨member, htypes⟩ := k.addMember h hn (ho id rfl)
          exact ⟨member, (congrArg Array.size htypes).ge⟩
termination_by structural n => n

theorem collectBody (k : KeptBySteps s Q P) : ∀ (ns : List Node) (d : Declarations) (owner : TypeId),
    (∀ n ∈ ns, Q n) → owner.index < d.types.size → P d →
      P (Declarations.collectBody s owner ns d) ∧ d.types.size ≤ (Declarations.collectBody s owner ns d).types.size
  | [], d, _, _, _, h => ⟨h, le_rfl⟩
  | .mk kind role start stop children :: rest, d, owner, hns, ho, h => by
    obtain ⟨hn, hrest⟩ := List.forall_mem_cons.1 hns
    rw [Declarations.collectBody.eq_def]
    dsimp only
    split
    · have inside : ∀ c ∈ children, Q c := fun c hc => k.child hn hc
      exact collectAll k children d (some owner) inside (fun e he => Option.some.inj he ▸ ho) h
    · exact collectBody k rest d owner hrest ho h
termination_by structural ns => ns

theorem collectAll (k : KeptBySteps s Q P) : ∀ (ns : List Node) (d : Declarations) (owner : Option TypeId),
    (∀ n ∈ ns, Q n) → (∀ e, owner = some e → e.index < d.types.size) → P d →
      P (Declarations.collectAll s owner ns d) ∧ d.types.size ≤ (Declarations.collectAll s owner ns d).types.size
  | [], d, _, _, _, h => ⟨h, le_rfl⟩
  | n :: ns, d, owner, hns, ho, h => by
    obtain ⟨hn, hrest⟩ := List.forall_mem_cons.1 hns
    obtain ⟨first, more⟩ := collect k n d owner hn ho h
    obtain ⟨all, rest⟩ := collectAll k ns _ owner hrest (fun e he => (ho e he).trans_le more) first
    rw [Declarations.collectAll]
    exact ⟨all, more.trans rest⟩
termination_by structural ns => ns

end

/-- what the steps keep holds of all that is collected of a file -/
theorem collected (k : KeptBySteps s Q P) {root : Node} (hroot : ∀ n ∈ root.children, Q n) {names : NameTable}
    (h : P (ofNames names)) : P (Declarations.collectAll s none root.children (ofNames names)) :=
  (k.collectAll root.children _ none hroot (by simp) h).1

end KeptBySteps

end Declarations

end CallLint
