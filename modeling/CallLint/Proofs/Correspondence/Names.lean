/-
What names mean in two files whose declarations correspond. `Declarations.Agree` says it of the tables that are looked up
by name; chains of types, lookups along them, and the owners and targets of calls then correspond as well, at places
whose types and local variables do.
-/
import CallLint.Proofs.Correspondence.Nodes
import CallLint.Proofs.Correspondence.Units
import CallLint.Proofs.Inheritance.Hierarchy

namespace CallLint

theorem forall₂_findSome? {α β γ δ : Type} {r : α → β → Prop} {q : γ → δ → Prop} {f : α → Option γ} {g : β → Option δ}
    (hfg : ∀ a b, r a b → Option.Rel q (f a) (g b)) {as : List α} {bs : List β} (h : List.Forall₂ r as bs) :
    Option.Rel q (as.findSome? f) (bs.findSome? g) := by
  induction h with
  | nil => exact .none
  | @cons a b as bs hab _ ih =>
    rw [List.findSome?_cons, List.findSome?_cons]
    rcases optionRel_cases (hfg a b hab) with ⟨hf, hg⟩ | ⟨c, d, hf, hg, hcd⟩
    · rw [hf, hg]
      exact ih
    · rw [hf, hg]
      exact .some hcd

theorem optionRel_or {α β : Type} {r : α → β → Prop} {a b : Option α} {a' b' : Option β} (ha : Option.Rel r a a')
    (hb : Option.Rel r b b') : Option.Rel r (a.or b) (a'.or b') := by
  cases ha with
  | some h => exact .some h
  | none => exact hb

theorem optionRel_isNone {α β : Type} {r : α → β → Prop} {o : Option α} {o' : Option β} (h : Option.Rel r o o') :
    o.isNone = o'.isNone := by
  cases h <;> rfl

/-! ## Tables -/

/-- the tables of two files give corresponding answers -/
structure Declarations.Agree (R : Correspondence) (d d' : Declarations) : Prop where
  resolve : ∀ written, d.names.resolve? written = d'.names.resolve? written
  staticOwner : ∀ member, d.names.staticOwner? member = d'.names.staticOwner? member
  types : OneToOne R.types (TypeDecl.Matches R) d.typeAt? d'.typeAt?
  typeNamed : ∀ name, Option.Rel R.types (d.typeNamed? name) (d'.typeNamed? name)
  field : ∀ {t t' : TypeId}, R.types t t' → ∀ name,
    Option.Rel R.vars ((d.membersOf t).fields.lookup name) ((d'.membersOf t').fields.lookup name)
  method : ∀ {t t' : TypeId}, R.types t t' → ∀ name arguments,
    Option.Rel R.methods (d.ownMethod? t name arguments) (d'.ownMethod? t' name arguments)

theorem TypeDecl.Matches.grow {R R' : Correspondence} (hg : R.Grows R') {t t' : TypeDecl} (h : t.Matches R t') :
    t.Matches R' t' :=
  ⟨h.name, h.binaryName, h.kind, hg.types ▸ h.enclosing, h.superclass, hg.types ▸ h.superclassId, hg.spans ▸ h.span⟩

namespace Declarations.Agree

variable {R R' : Correspondence} {d d' : Declarations}

theorem grow (h : d.Agree R d') (hg : R.Grows R') : d.Agree R' d' where
  resolve := h.resolve
  staticOwner := h.staticOwner
  types := {
    unique := hg.types ▸ h.types.unique
    related := fun hij => by
      obtain ⟨a, b, ha, hb, hab⟩ := h.types.related (hg.types ▸ hij)
      exact ⟨a, b, ha, hb, hab.grow hg⟩
    left := fun ha => hg.types ▸ h.types.left ha
    right := fun hb => hg.types ▸ h.types.right hb }
  typeNamed := fun name => hg.types ▸ h.typeNamed name
  field := fun ht name => optionRel_mono hg.vars (h.field (hg.types ▸ ht) name)
  method := fun ht name arguments => hg.methods ▸ h.method (hg.types ▸ ht) name arguments

theorem typeCount (h : d.Agree R d') : d.types.size = d'.types.size :=
  h.types.size_eq TypeId.mk_bijective (fun _ => rfl) fun _ => rfl

/-- following corresponding links from corresponding types passes corresponding types -/
theorem follow (h : d.Agree R d') {next next' : TypeDecl → Option TypeId}
    (hnext : ∀ t t', TypeDecl.Matches R t t' → Option.Rel R.types (next t) (next' t')) (steps : Nat) {a a' : TypeId}
    (ha : R.types a a') : List.Forall₂ R.types (d.follow next steps a) (d'.follow next' steps a') := by
  induction steps generalizing a a' with
  | zero => exact .nil
  | succ steps ih =>
    obtain ⟨t, t', ht, ht', htt⟩ := h.types.related ha
    rw [Declarations.follow, Declarations.follow, ht, ht']
    dsimp only
    rcases optionRel_cases (hnext t t' htt) with ⟨hn, hn'⟩ | ⟨b, b', hn, hn', hb⟩
    · rw [hn, hn']
      exact .cons ha .nil
    · rw [hn, hn']
      exact .cons ha (ih hb)

theorem enclosingChain (h : d.Agree R d') {a a' : TypeId} (ha : R.types a a') :
    List.Forall₂ R.types (d.enclosingChain a) (d'.enclosingChain a') := by
  rw [Declarations.enclosingChain, Declarations.enclosingChain, h.typeCount]
  exact h.follow (fun _ _ ht => ht.enclosing) _ ha

/-- what is found first in the hierarchies of corresponding types corresponds -/
theorem findSome?_hierarchy (h : d.Agree R d') {α β : Type} {r : α → β → Prop} {f : TypeId → Option α}
    {g : TypeId → Option β} (hfg : ∀ a a', R.types a a' → Option.Rel r (f a) (g a')) {a a' : TypeId}
    (ha : R.types a a') : Option.Rel r ((d.hierarchy a).findSome? f) ((d'.hierarchy a').findSome? g) := by
  rw [Declarations.findSome?_hierarchy f le_rfl, Declarations.findSome?_hierarchy g h.typeCount.ge]
  exact forall₂_findSome? hfg (h.follow (fun _ _ ht => ht.superclassId) _ ha)

theorem fieldIn? (h : d.Agree R d') {a a' : TypeId} (ha : R.types a a') (name : String) :
    Option.Rel R.vars (d.fieldIn? a name) (d'.fieldIn? a' name) :=
  h.findSome?_hierarchy (fun _ _ ht => h.field ht name) ha

theorem methodIn? (h : d.Agree R d') {a a' : TypeId} (ha : R.types a a') (name : String) (arguments : Nat) :
    Option.Rel (fun (p q : TypeId × MethodId) => R.types p.1 q.1 ∧ R.methods p.2 q.2) (d.methodIn? a name arguments)
      (d'.methodIn? a' name arguments) :=
  h.findSome?_hierarchy
    (fun _ _ ht => optionRel_map (r := R.methods) (fun _ _ hm => ⟨ht, hm⟩) (h.method ht name arguments)) ha

/-- types with the same dotted name are the same -/
theorem resolve_erased (h : d.Agree R d') {a b : String} (hab : TypeName.erase a.toList = TypeName.erase b.toList) :
    d.names.resolve? a = d'.names.resolve? b := by
  rw [h.resolve, NameTable.resolve?_congr _ hab]

end Declarations.Agree

/-! ## Places in bodies -/

/-- places of two files where names mean the same -/
structure LowerContext.Alike (R : Correspondence) (c c' : LowerContext) : Prop where
  agree : c.declarations.Agree R c'.declarations
  owner : R.types c.owner c'.owner
  inLocalType : c.inLocalType = c'.inLocalType

/-- the same local variables are visible, with the same types -/
structure LowerState.Alike (R : Correspondence) (st st' : LowerState) : Prop where
  local? : ∀ name, Option.Rel R.vars (st.local? name) (st'.local? name)
  typeOf? : ∀ {id id' : VariableId}, R.vars id id' → st.typeOf? id = st'.typeOf? id'

namespace LowerContext.Alike

variable {R : Correspondence} {c c' : LowerContext} {st st' : LowerState} {n n' : Node}

theorem grow (h : c.Alike R c') {R' : Correspondence} (hg : R.Grows R') : c.Alike R' c' :=
  ⟨h.agree.grow hg, hg.types ▸ h.owner, h.inLocalType⟩

theorem ownerDecl? (h : c.Alike R c') : Option.Rel (TypeDecl.Matches R) c.ownerDecl? c'.ownerDecl? := by
  obtain ⟨t, t', ht, ht', htt⟩ := h.agree.types.related h.owner
  rw [LowerContext.ownerDecl?, LowerContext.ownerDecl?, ht, ht']
  exact .some htt

theorem declaredType? (h : c.Alike R c') (hn : n.Alike R.spans c.source c'.source n') :
    c.declaredType? n = c'.declaredType? n' := by
  have type := hn.childType
  rw [LowerContext.declaredType?, LowerContext.declaredType?]
  rcases optionRel_cases (hn.child? .type) with ⟨ht, ht'⟩ | ⟨t, t', ht, ht', -⟩
  · rw [ht, ht', Option.bind_none, Option.bind_none]
  · rw [ht, ht', Option.map_some, Option.map_some, Option.some.injEq] at type
    rw [ht, ht', Option.bind_some, Option.bind_some]
    exact h.agree.resolve_erased type

theorem lookup? (h : c.Alike R c') (hst : st.Alike R st') (name : String) :
    Option.Rel R.vars (c.lookup? st name) (c'.lookup? st' name) :=
  optionRel_or (hst.local? name)
    (forall₂_findSome? (r := R.types) (fun _ _ ht => h.agree.fieldIn? ht name) (h.agree.enclosingChain h.owner))

theorem typeReference? (h : c.Alike R c') (hst : st.Alike R st') (hn : n.Alike R.spans c.source c'.source n') :
    c.typeReference? st n = c'.typeReference? st' n' := by
  rw [LowerContext.typeReference?, LowerContext.typeReference?, hn.nameChain?]
  congr 1
  funext chain
  exact optionRel_isNone (h.lookup? hst _)

theorem fieldBinding? (h : c.Alike R c') (hst : st.Alike R st') (hn : n.Alike R.spans c.source c'.source n')
    (field : String) : Option.Rel R.vars (c.fieldBinding? st n field) (c'.fieldBinding? st' n' field) := by
  have ofType : Option.Rel R.vars (LowerContext.fieldBinding?.ofType c st n field)
      (LowerContext.fieldBinding?.ofType c' st' n' field) := by
    have name : (c.typeReference? st n).bind c.declarations.names.resolve? =
        (c'.typeReference? st' n').bind c'.declarations.names.resolve? := by
      rw [h.typeReference? hst hn]
      exact congrArg _ (funext h.agree.resolve)
    rw [LowerContext.fieldBinding?.ofType, LowerContext.fieldBinding?.ofType, name]
    refine optionRel_bind (r := R.types) (fun _ _ ht => h.agree.fieldIn? ht field) ?_
    cases (c'.typeReference? st' n').bind c'.declarations.names.resolve? with
    | none => exact .none
    | some name => exact h.agree.typeNamed name
  rw [LowerContext.fieldBinding?, LowerContext.fieldBinding?, hn.kind]
  split
  · exact h.agree.fieldIn? h.owner field
  · exact optionRel_bind (r := R.types) (fun _ _ ht => h.agree.fieldIn? ht field)
      (optionRel_bind (fun _ _ ht => ht.superclassId) h.ownerDecl?)
  · exact ofType
  · exact ofType
  · exact .none

theorem accessType? (h : c.Alike R c') (hst : st.Alike R st') (hn : n.Alike R.spans c.source c'.source n') :
    c.accessType? st n = c'.accessType? st' n' := by
  have field := hn.childText (r := .field) rfl
  rw [LowerContext.accessType?, LowerContext.accessType?]
  rcases optionRel_cases (hn.child? .object) with ⟨ho, ho'⟩ | ⟨o, o', ho, ho', hoo⟩
  · rw [ho, ho']
  · rcases optionRel_cases (hn.child? .field) with ⟨hf, hf'⟩ | ⟨f, f', hf, hf', -⟩
    · rw [ho, ho', hf, hf']
    · rw [hf, hf', Option.map_some, Option.map_some, Option.some.injEq] at field
      rw [ho, ho', hf, hf']
      dsimp only
      rw [show c.textOf f = c'.textOf f' from field]
      rcases optionRel_cases (h.fieldBinding? hst hoo (c'.textOf f')) with ⟨hb, hb'⟩ | ⟨b, b', hb, hb', hbb⟩
      · rw [hb, hb', h.typeReference? hst hn, show c.declarations.names.resolve? = c'.declarations.names.resolve? from
          funext h.agree.resolve]
      · rw [hb, hb']
        exact hst.typeOf? hbb

theorem receiverType? (h : c.Alike R c') (hst : st.Alike R st') (hn : n.Alike R.spans c.source c'.source n') :
    c.receiverType? st n = c'.receiverType? st' n' := by
  have inner := hn.unparenthesized
  rw [LowerContext.receiverType?, LowerContext.receiverType?, inner.kind]
  split
  · exact optionRel_eq.1 (optionRel_map (fun _ _ ht => ht.binaryName) h.ownerDecl?)
  · exact optionRel_eq.1 (optionRel_bind (fun _ _ ht => optionRel_eq.2 ht.superclass) h.ownerDecl?)
  · rename_i hk
    have text : c.textOf n.unparenthesized = c'.textOf n'.unparenthesized :=
      inner.reads.text (Or.inl (by rw [inner.kind, hk]; rfl))
    rw [text]
    rcases optionRel_cases (h.lookup? hst (c'.textOf n'.unparenthesized)) with ⟨hl, hl'⟩ | ⟨v, v', hl, hl', hv⟩
    · rw [hl, hl']
      exact (congrArg _ text).trans (h.agree.resolve _)
    · rw [hl, hl']
      exact hst.typeOf? hv
  · exact h.accessType? hst inner
  · exact h.declaredType? inner
  · exact h.declaredType? inner
  · rfl
  · rfl
  · rfl

/-! ## Calls -/

theorem unqualified (h : c.Alike R c') (name : String) (arguments : Nat) :
    (c.unqualified name arguments).1 = (c'.unqualified name arguments).1 ∧
      Option.Rel R.methods (c.unqualified name arguments).2 (c'.unqualified name arguments).2 := by
  rw [LowerContext.unqualified, LowerContext.unqualified]
  have found := forall₂_findSome? (r := R.types) (fun _ _ ht => h.agree.methodIn? ht name arguments) (h.agree.enclosingChain h.owner)
  rcases optionRel_cases found with ⟨hf, hf'⟩ | ⟨⟨t, m⟩, ⟨t', m'⟩, hf, hf', htt, hmm⟩
  · rw [hf, hf']
    exact ⟨h.agree.staticOwner name, .none⟩
  · obtain ⟨a, a', ha, ha', haa⟩ := h.agree.types.related htt
    rw [hf, hf']
    dsimp only
    rw [ha, ha', Option.map_some, Option.map_some, haa.binaryName]
    exact ⟨rfl, .some hmm⟩

theorem qualified (h : c.Alike R c') (hst : st.Alike R st') (hn : n.Alike R.spans c.source c'.source n') (name : String)
    (arguments : Nat) : (c.qualified st n name arguments).1 = (c'.qualified st' n' name arguments).1 ∧
      Option.Rel R.methods (c.qualified st n name arguments).2 (c'.qualified st' n' name arguments).2 := by
  rw [LowerContext.qualified, LowerContext.qualified]
  dsimp only
  rw [h.receiverType? hst hn]
  refine ⟨rfl, optionRel_map (fun _ _ hp => hp.2) (optionRel_bind (r := R.types)
    (fun _ _ ht => h.agree.methodIn? ht name arguments) ?_)⟩
  cases c'.receiverType? st' n' with
  | none => exact .none
  | some owner => exact h.agree.typeNamed owner

theorem constructor? (h : c.Alike R c') {id id' : Option TypeId} (hid : Option.Rel R.types id id') (arguments : Nat) :
    Option.Rel R.methods (c.constructor? id arguments) (c'.constructor? id' arguments) :=
  optionRel_bind (r := R.types) (fun _ _ ht => h.agree.method ht constructorName arguments) hid

theorem constructed (h : c.Alike R c') (keyword : Option NodeKind) :
    (c.constructed keyword).1 = (c'.constructed keyword).1 ∧
      Option.Rel R.types (c.constructed keyword).2 (c'.constructed keyword).2 := by
  rw [LowerContext.constructed, LowerContext.constructed, h.inLocalType]
  rcases optionRel_cases h.ownerDecl? with ⟨ho, ho'⟩ | ⟨t, t', ho, ho', htt⟩
  · rw [ho, ho']
    exact ⟨rfl, .none⟩
  · rw [ho, ho']
    cases c'.inLocalType with
    | true => exact ⟨rfl, .none⟩
    | false =>
      dsimp only
      split
      · exact ⟨congrArg some htt.binaryName, .some h.owner⟩
      · rw [htt.superclass]
        cases t'.superclass with
        | none => exact ⟨by rw [htt.kind], htt.superclassId⟩
        | some written => exact ⟨h.agree.resolve written, htt.superclassId⟩
      · exact ⟨rfl, .none⟩

end LowerContext.Alike

end CallLint
