/-
Texts in files that are written alike. Layout stands in a node where one of its tokens does not start where the one before
it ends (`Node.holdsLayout`); what stands between the quotes of a string is no layout. Twins without layout in them have
the same text, since it is the text of their tokens.

The text of a dotted name, of a type or of a string is read with the layout in it. Where this makes no difference
(`Node.ReadsSame`), twins mean the same (`Node.Twin.alike`).
-/
import CallLint.Proofs.Layout.Trees

namespace CallLint

/-! ## Layout in nodes -/

/-- whether layout stands before the token after so many -/
def gapAt (ts : List Token) (k : Nat) : Bool :=
  stopAt ts k != startAt ts k && (ts[k]?.all fun t => !t.kind.endsContent)

/-- whether layout stands between two tokens of the node, or the node is a comment -/
def Node.holdsLayout (ts : List Token) (n : Node) : Bool :=
  n.isComment || (List.range ts.length).any fun k => n.start < stopAt ts k && startAt ts k < n.stop && gapAt ts k

section Tight

variable {s s' : Source} {ts ts' : List Token}

/-- layout makes the difference between places of tokens -/
theorem bytesBefore_alike (hw : WrittenAlike s s' ts ts') {k : Nat} (hg : gapAt ts k = false) (hg' : gapAt ts' k = false) :
    s.bytesBetween (stopAt ts k) (startAt ts k) = s'.bytesBetween (stopAt ts' k) (startAt ts' k) := by
  have tight {ts : List Token} {k : Nat} (hg : gapAt ts k = false) (hk : (ts[k]?.all fun t => !t.kind.endsContent) = true) :
      stopAt ts k = startAt ts k := by
    rw [gapAt, hk, Bool.and_true] at hg
    simpa using hg
  rcases hw.front k with ⟨hd, hd'⟩ | ⟨t, t', hf⟩
  · rw [startAt_end (List.drop_eq_nil_iff.1 hd), startAt_end (List.drop_eq_nil_iff.1 hd'), s.bytesBetween_eq_nil le_rfl,
      s'.bytesBetween_eq_nil le_rfl]
  · have entry : ts[k]? = some t := by rw [← List.head?_drop, hf.left, List.head?_cons]
    have entry' : ts'[k]? = some t' := by rw [← List.head?_drop, hf.right, List.head?_cons]
    cases hends : t.kind.endsContent with
    | true =>
      rw [startAt_of_drop hf.left, startAt_of_drop hf.right]
      exact hf.content hends
    | false =>
      rw [tight hg (by simp [entry, hends]), tight hg' (by simp [entry', ← hf.kind, hends]),
        s.bytesBetween_eq_nil le_rfl, s'.bytesBetween_eq_nil le_rfl]

theorem TokensAfter.stopAt_le_startAt (ha : TokensAfter 0 ts) {j k : Nat} (hkj : k ≤ j) (hj : j ≤ ts.length) :
    stopAt ts k ≤ startAt ts j := by
  rcases Nat.lt_or_eq_of_le hkj with hkj | rfl
  · exact (ha.stopAt_lt hkj hj).le.trans (ha.stopAt_le j)
  · exact ha.stopAt_le k

theorem TokensAfter.startAt_lt_stopAt (ha : TokensAfter 0 ts) {j k : Nat} (hjk : j < k) (hk : k ≤ ts.length) :
    startAt ts j < stopAt ts k := by
  refine (ha.startAt_lt (hjk.trans_le hk)).trans_le ?_
  rcases Nat.lt_or_eq_of_le (Nat.succ_le_of_lt hjk) with h | h
  · exact (ha.stopAt_lt h hk).le
  · exact h ▸ le_rfl

/-- the text of tokens without layout between them -/
theorem bytes_alike (hw : WrittenAlike s s' ts ts') (ha : TokensAfter 0 ts) (ha' : TokensAfter 0 ts') {j k : Nat}
    (hj : j ≤ ts.length) (hk : k ≤ ts.length)
    (hg : ∀ m, j < m → m < k → gapAt ts m = false ∧ gapAt ts' m = false) :
    s.bytesBetween (startAt ts j) (stopAt ts k) = s'.bytesBetween (startAt ts' j) (stopAt ts' k) := by
  rcases Nat.lt_or_ge j k with hjk | hkj
  swap
  · rw [s.bytesBetween_eq_nil (ha.stopAt_le_startAt hkj hj),
      s'.bytesBetween_eq_nil (ha'.stopAt_le_startAt hkj (hw.length_eq ▸ hj))]
  have token {m : Nat} (hm : m < ts.length) :
      s.bytesBetween (startAt ts m) (stopAt ts (m + 1)) = s'.bytesBetween (startAt ts' m) (stopAt ts' (m + 1)) := by
    rcases hw.front m with ⟨hd, -⟩ | ⟨t, t', hf⟩
    · exact absurd (List.drop_eq_nil_iff.1 hd) (Nat.not_le.2 hm)
    · rw [startAt_of_drop hf.left, startAt_of_drop hf.right, stopAt_of_drop hf.left, stopAt_of_drop hf.right]
      exact hf.text
  induction k with
  | zero => exact absurd hjk (Nat.not_lt_zero j)
  | succ k ih =>
    rcases Nat.lt_succ_iff_lt_or_eq.1 hjk with hjk | rfl
    · obtain ⟨hgap, hgap'⟩ := hg k hjk k.lt_succ_self
      have before := ih (Nat.le_of_succ_le hk) (fun m hm hmk => hg m hm (hmk.trans k.lt_succ_self)) hjk
      have parts {s : Source} {ts : List Token} (ha : TokensAfter 0 ts) (hk : k < ts.length) :
          s.bytesBetween (startAt ts j) (stopAt ts (k + 1)) = s.bytesBetween (startAt ts j) (stopAt ts k) ++
            (s.bytesBetween (stopAt ts k) (startAt ts k) ++ s.bytesBetween (startAt ts k) (stopAt ts (k + 1))) := by
        have here : startAt ts k ≤ stopAt ts (k + 1) := (ha.startAt_lt hk).le
        rw [s.bytesBetween_append (ha.stopAt_le k) here,
          s.bytesBetween_append (ha.startAt_lt_stopAt hjk hk.le).le ((ha.stopAt_le k).trans here)]
      rw [parts ha hk, parts ha' (hw.length_eq ▸ hk), before, bytesBefore_alike hw hgap hgap', token hk]
    · exact token hk

theorem Source.textOf_eq (s : Source) (n : Node) :
    s.textOf n = (Text.decode? (s.bytesBetween n.start n.stop)).getD "" :=
  rfl

/-- no layout stands between tokens of a node that holds none -/
theorem Node.gapAt_of_holdsLayout (ha : TokensAfter 0 ts) {n : Node} (hn : n.holdsLayout ts = false) {j k : Nat}
    (hk : k ≤ ts.length) (hstart : n.start = startAt ts j) (hstop : n.stop = stopAt ts k) {m : Nat} (hjm : j < m)
    (hmk : m < k) : gapAt ts m = false := by
  rw [Node.holdsLayout, Bool.or_eq_false_iff] at hn
  have inside := List.any_eq_false.1 hn.2 m (List.mem_range.2 (hmk.trans_le hk))
  have start : startAt ts j < stopAt ts m := ha.startAt_lt_stopAt hjm (hmk.le.trans hk)
  have stop : startAt ts m < stopAt ts k := ha.startAt_lt_stopAt hmk hk
  simpa [hstart, hstop, start, stop] using inside

/-- **Twins without layout in them have the same text.** -/
theorem Node.Twin.textOf_eq (hw : WrittenAlike s s' ts ts') (ha : TokensAfter 0 ts) (ha' : TokensAfter 0 ts') {n n' : Node}
    (h : n.Twin ts ts' n') (hn : n.holdsLayout ts = false) (hn' : n'.holdsLayout ts' = false) :
    s.textOf n = s'.textOf n' := by
  rw [Source.textOf_eq, Source.textOf_eq]
  cases h with
  | @mk kind role j k children children' hj hk _ =>
    have same := bytes_alike hw ha ha' hj hk fun m hjm hmk =>
      ⟨gapAt_of_holdsLayout ha hn hk rfl rfl hjm hmk,
        gapAt_of_holdsLayout ha' hn' (hw.length_eq ▸ hk) rfl rfl hjm hmk⟩
    exact congrArg (fun bytes => (Text.decode? bytes).getD "") same

end Tight

/-! ## Twins that mean the same -/

mutual

/-- the node and all nodes in it -/
def Node.within : Node → List Node
  | .mk kind role start stop children => .mk kind role start stop children :: nodesWithin children
termination_by structural n => n

def nodesWithin : List Node → List Node
  | [] => []
  | n :: ns => n.within ++ nodesWithin ns
termination_by structural ns => ns

end

namespace Node

/-- nodes of one kind and role over the same tokens -/
def Over (ts ts' : List Token) (n n' : Node) : Prop :=
  n.kind = n'.kind ∧ n.role = n'.role ∧ (∃ j ≤ ts.length, n.start = startAt ts j ∧ n'.start = startAt ts' j) ∧
    ∃ k ≤ ts.length, n.stop = stopAt ts k ∧ n'.stop = stopAt ts' k

/-- the nodes whose texts are read as they are, when a node is looked at -/
def readTexts (n : Node) : List Node :=
  (if n.kind.isRead || n.role.any Role.isRead then [n] else []) ++
    if n.kind == .inferredParameters then n.namedChildren else []

/-- the nodes whose texts are read as types, when a node is looked at -/
def readTypes (n : Node) : List Node :=
  (if n.role == some .type then [n] else []) ++ (if n.kind == .spreadParameter then n.spreadType?.toList else []) ++
    if n.role == some .superclass then n.superclassChild?.toList else []

/-- what is read of two nodes is the same, wherever it is read with layout in it -/
structure ReadsSame (s s' : Source) (ts ts' : List Token) (n n' : Node) : Prop where
  texts : n.readTexts.any (holdsLayout ts) = true ∨ n'.readTexts.any (holdsLayout ts') = true →
    n.readTexts.map s.textOf = n'.readTexts.map s'.textOf
  types : n.readTypes.any (holdsLayout ts) = true ∨ n'.readTypes.any (holdsLayout ts') = true →
    n.readTypes.map s.erasedText = n'.readTypes.map s'.erasedText
  string : n.kind = .stringLiteral → n.holdsLayout ts = true ∨ n'.holdsLayout ts' = true →
    Literal.ofStringText? (s.textOf n) = Literal.ofStringText? (s'.textOf n')

end Node

instance (ts ts' : List Token) (n n' : Node) : Decidable (n.Over ts ts' n') :=
  inferInstanceAs (Decidable (_ ∧ _ ∧ (∃ j, j ≤ _ ∧ _) ∧ ∃ k, k ≤ _ ∧ _))

instance (s s' : Source) (ts ts' : List Token) (n n' : Node) : Decidable (n.ReadsSame s s' ts ts' n') :=
  decidable_of_iff (_ ∧ _ ∧ _) ⟨fun ⟨texts, types, string⟩ => ⟨texts, types, string⟩, fun ⟨texts, types, string⟩ =>
    ⟨texts, types, string⟩⟩

/-- the places of two files that lie at the same tokens -/
def SameTokens (s s' : Source) (ts ts' : List Token) (a a' : Span) : Prop :=
  ∃ j ≤ ts.length, ∃ k ≤ ts.length, a = s.span (startAt ts j) (stopAt ts k) ∧ a' = s'.span (startAt ts' j) (stopAt ts' k)

theorem mem_nodesWithin {ns : List Node} {n m : Node} (hn : n ∈ ns) (hm : m ∈ n.within) : m ∈ nodesWithin ns := by
  induction ns with
  | nil => simp at hn
  | cons n' ns ih =>
    rw [nodesWithin, List.mem_append]
    rcases List.mem_cons.1 hn with rfl | hn
    · exact Or.inl hm
    · exact Or.inr (ih hn)

theorem Node.mem_within_self (n : Node) : n ∈ n.within := by
  obtain ⟨kind, role, start, stop, children⟩ := n
  rw [Node.within]
  exact List.mem_cons_self

theorem Node.mem_within_child {n c m : Node} (hc : c ∈ n.children) (hm : m ∈ c.within) : m ∈ n.within := by
  obtain ⟨kind, role, start, stop, children⟩ := n
  rw [Node.within]
  exact List.mem_cons_of_mem _ (mem_nodesWithin hc hm)

mutual

theorem Node.within_trans : ∀ (root : Node) {n m : Node}, n ∈ root.within → m ∈ n.within → m ∈ root.within
  | .mk kind role start stop children, n, m, hn, hm => by
    rw [Node.within] at hn
    rcases List.mem_cons.1 hn with rfl | hn
    · exact hm
    · rw [Node.within]
      exact List.mem_cons_of_mem _ (nodesWithin_trans children hn hm)
termination_by structural root => root

theorem nodesWithin_trans : ∀ (ns : List Node) {n m : Node}, n ∈ nodesWithin ns → m ∈ n.within → m ∈ nodesWithin ns
  | [], _, _, hn, _ => nomatch hn
  | n' :: ns, n, m, hn, hm => by
    rw [nodesWithin, List.mem_append] at hn ⊢
    exact hn.imp (fun hn => Node.within_trans n' hn hm) fun hn => nodesWithin_trans ns hn hm
termination_by structural ns => ns

end

namespace Node

variable {root n m : Node}

theorem mem_within_iff : m ∈ n.within ↔ m = n ∨ ∃ c ∈ n.children, m ∈ c.within := by
  have inside (ns : List Node) : m ∈ nodesWithin ns ↔ ∃ c ∈ ns, m ∈ c.within := by
    induction ns with
    | nil => simp [nodesWithin]
    | cons c ns ih => simp [nodesWithin, ih]
  obtain ⟨kind, role, start, stop, children⟩ := n
  rw [within, List.mem_cons, inside]
  rfl

theorem within_child (hn : n ∈ root.within) (hm : m ∈ n.children) : m ∈ root.within :=
  root.within_trans hn (mem_within_child hm m.mem_within_self)

theorem within_role (hn : n ∈ root.within) {r : Role} (hm : n.child? r = some m) : m ∈ root.within :=
  within_child hn (List.mem_of_find?_eq_some hm)

end Node

section Alike

variable {s s' : Source} {ts ts' : List Token} {n n' : Node}

theorem Node.Twin.over (h : n.Twin ts ts' n') : n.Over ts ts' n' := by
  cases h with
  | mk hj hk _ => exact ⟨rfl, rfl, ⟨_, hj, rfl, rfl⟩, _, hk, rfl, rfl⟩

theorem Node.Twin.span (h : n.Twin ts ts' n') : SameTokens s s' ts ts' (s.spanOf n) (s'.spanOf n') := by
  cases h with
  | mk hj hk _ => exact ⟨_, hj, _, hk, rfl, rfl⟩

theorem Node.Twin.codeChildren (h : n.Twin ts ts' n') :
    List.Forall₂ (Node.Twin ts ts') (codeNodes n.children) (codeNodes n'.children) := by
  cases h with
  | mk _ _ hc => exact hc

theorem Node.Twin.namedChildren (h : n.Twin ts ts' n') :
    List.Forall₂ (Node.Twin ts ts') n.namedChildren n'.namedChildren := by
  rw [namedChildren_eq, namedChildren_eq]
  exact List.rel_filter (fun c c' hc => by simp [hc.kind]) h.codeChildren

theorem Node.Twin.spreadType? (h : n.Twin ts ts' n') : Option.Rel (Node.Twin ts ts') n.spreadType? n'.spreadType? :=
  forall₂_find? (fun c c' hc => by rw [hc.kind]) h.namedChildren

theorem Node.Twin.readTexts (h : n.Twin ts ts' n') : List.Forall₂ (Node.Twin ts ts') n.readTexts n'.readTexts := by
  rw [Node.readTexts, Node.readTexts, ← h.kind, ← h.role]
  refine List.rel_append ?_ ?_
  · split_ifs
    · exact .cons h .nil
    · exact .nil
  · split_ifs
    · exact h.namedChildren
    · exact .nil

/-- a superclass that is no comment is the first of the children that are none -/
theorem Node.superclassChild?_eq {n : Node} (hn : n.superclassChild?.any (·.isComment) = false) :
    n.superclassChild? = n.namedChildren.head? := by
  rw [Node.namedChildren, List.head?_filter]
  rw [Node.superclassChild?] at hn ⊢
  generalize n.children = cs at hn ⊢
  induction cs with
  | nil => rfl
  | cons c cs ih =>
    rw [List.find?_cons, List.find?_cons]
    rw [List.find?_cons] at hn
    cases hnamed : c.kind.isNamed with
    | true =>
      rw [hnamed] at hn
      rw [show c.isComment = false from hn]
      rfl
    | false =>
      rw [hnamed] at hn
      exact ih hn

theorem forall₂_toList {α β : Type} {r : α → β → Prop} {o : Option α} {o' : Option β} (h : Option.Rel r o o') :
    List.Forall₂ r o.toList o'.toList := by
  cases h with
  | none => exact .nil
  | some h => exact .cons h .nil

theorem Node.Twin.readTypes (h : n.Twin ts ts' n') (hn : n.readTypes.any (holdsLayout ts) = false)
    (hn' : n'.readTypes.any (holdsLayout ts') = false) :
    List.Forall₂ (Node.Twin ts ts') n.readTypes n'.readTypes := by
  have code {us : List Token} {n : Node} (hn : n.readTypes.any (holdsLayout us) = false)
      (hk : n.role = some .superclass) :
      n.superclassChild? = n.namedChildren.head? := by
    rw [Node.readTypes, List.any_append, Bool.or_eq_false_iff] at hn
    refine superclassChild?_eq ?_
    cases hc : n.superclassChild? with
    | none => rfl
    | some c =>
      have free : c.holdsLayout us = false := by simpa [hc, hk] using hn.2
      exact (Bool.or_eq_false_iff.1 free).1
  rw [Node.readTypes, Node.readTypes, ← h.kind, ← h.role]
  refine List.rel_append (List.rel_append ?_ ?_) ?_
  · split_ifs
    · exact .cons h .nil
    · exact .nil
  · split_ifs
    · exact forall₂_toList h.spreadType?
    · exact .nil
  · split_ifs with hk
    · have hk : n.role = some .superclass := by simpa using hk
      rw [code hn hk, code hn' (h.role ▸ hk)]
      exact forall₂_toList (forall₂_head? h.namedChildren)
    · exact .nil

section Reads

variable (hw : WrittenAlike s s' ts ts') (ha : TokensAfter 0 ts) (ha' : TokensAfter 0 ts')
include hw ha ha'

theorem Node.Twin.map_textOf {ns ns' : List Node} (h : List.Forall₂ (Node.Twin ts ts') ns ns')
    (hn : ns.any (holdsLayout ts) = false) (hn' : ns'.any (holdsLayout ts') = false) :
    ns.map s.textOf = ns'.map s'.textOf := by
  induction h with
  | nil => rfl
  | cons hc _ ih =>
    rw [List.any_cons, Bool.or_eq_false_iff] at hn hn'
    rw [List.map_cons, List.map_cons, hc.textOf_eq hw ha ha' hn.1 hn'.1, ih hn.2 hn'.2]

theorem Node.Twin.texts_eq (h : n.Twin ts ts' n') (hr : n.ReadsSame s s' ts ts' n') :
    n.readTexts.map s.textOf = n'.readTexts.map s'.textOf := by
  by_cases hl : n.readTexts.any (holdsLayout ts) = true ∨ n'.readTexts.any (holdsLayout ts') = true
  · exact hr.texts hl
  · rw [not_or, Bool.not_eq_true, Bool.not_eq_true] at hl
    exact Node.Twin.map_textOf hw ha ha' h.readTexts hl.1 hl.2

theorem Node.Twin.types_eq (h : n.Twin ts ts' n') (hr : n.ReadsSame s s' ts ts' n') :
    n.readTypes.map s.erasedText = n'.readTypes.map s'.erasedText := by
  by_cases hl : n.readTypes.any (holdsLayout ts) = true ∨ n'.readTypes.any (holdsLayout ts') = true
  · exact hr.types hl
  · rw [not_or, Bool.not_eq_true, Bool.not_eq_true] at hl
    have texts := Node.Twin.map_textOf hw ha ha' (h.readTypes hl.1 hl.2) hl.1 hl.2
    have erased := congrArg (List.map fun text : String => TypeName.erase text.toList) texts
    rwa [List.map_map, List.map_map] at erased

omit hw ha ha' in
theorem map_single_append {α β γ : Type} {f : α → γ} {g : β → γ} {c : Bool} {a : α} {b : β} {as : List α} {bs : List β}
    (h : ((if c then [a] else []) ++ as).map f = ((if c then [b] else []) ++ bs).map g) :
    (c = true → f a = g b) ∧ as.map f = bs.map g := by
  cases c
  · exact ⟨fun hc => absurd hc Bool.false_ne_true, h⟩
  · obtain ⟨head, tail⟩ := List.cons_eq_cons.1 h
    exact ⟨fun _ => head, tail⟩

omit hw ha ha' in
theorem map_of_map_toList {α β γ : Type} {f : α → γ} {g : β → γ} {o : Option α} {o' : Option β}
    (h : o.toList.map f = o'.toList.map g) : o.map f = o'.map g := by
  cases o <;> cases o' <;> simp_all

/-- what is read of twins is the same -/
theorem Node.Twin.readsAlike (h : n.Twin ts ts' n') (hr : n.ReadsSame s s' ts ts' n') : n.ReadsAlike s s' n' := by
  have texts := h.texts_eq hw ha ha' hr
  have types := h.types_eq hw ha ha' hr
  rw [Node.readTexts, Node.readTexts, ← h.kind, ← h.role] at texts
  rw [Node.readTypes, Node.readTypes, ← h.kind, ← h.role, List.append_assoc, List.append_assoc] at types
  obtain ⟨text, inferred⟩ := map_single_append texts
  obtain ⟨type, others⟩ := map_single_append types
  rw [List.map_append, List.map_append] at others
  obtain ⟨spread, superclass⟩ := List.append_inj others (by
    rw [List.length_map, List.length_map]
    split_ifs
    · exact (forall₂_toList h.spreadType?).length_eq
    · rfl)
  refine ⟨fun hread => text (by simpa using hread), fun hrole => type (by simp [hrole]), fun hk => ?_, fun hk => ?_,
    fun hk => ?_, fun hk => ?_⟩
  · by_cases hl : n.holdsLayout ts = true ∨ n'.holdsLayout ts' = true
    · exact hr.string hk hl
    · rw [not_or, Bool.not_eq_true, Bool.not_eq_true] at hl
      rw [h.textOf_eq hw ha ha' hl.1 hl.2]
  · rw [hk] at inferred
    exact inferred
  · rw [hk] at spread
    exact map_of_map_toList spread
  · rw [hk] at superclass
    exact map_of_map_toList superclass

/-- **Twins mean the same**, when what is read in them is the same where layout stands in it. -/
theorem Node.Twin.alike {n n' : Node} (h : n.Twin ts ts' n') (hs : n.Shaped) (hs' : n'.Shaped)
    (hr : ∀ m ∈ n.within, ∀ m' ∈ n'.within, m.Over ts ts' m' → m.ReadsSame s s' ts ts' m') :
    n.Alike (SameTokens s s' ts ts') s s' n' := by
  have reads : n.ReadsAlike s s' n' :=
    h.readsAlike hw ha ha' (hr n n.mem_within_self n' n'.mem_within_self h.over)
  refine .mk h.kind h.role h.span reads hs.plainComments hs'.plainComments ?_
  refine (forall₂_with_mem h.codeChildren).imp fun c c' ⟨hc, hc', htwin⟩ => ?_
  have child : c ∈ n.children := (mem_codeNodes.1 hc).1
  have child' : c' ∈ n'.children := (mem_codeNodes.1 hc').1
  have smaller : sizeOf c < sizeOf n := sizeOf_child child
  exact alike htwin (hs.child child) (hs'.child child') fun m hm m' hm' =>
    hr m (mem_within_child child hm) m' (mem_within_child child' hm')
termination_by sizeOf n

end Reads

end Alike

end CallLint
