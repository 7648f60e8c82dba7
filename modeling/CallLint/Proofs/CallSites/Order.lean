/-
The order of calls. `Span.Before` orders spans by their starts, and those with one start by their ends, the longer first.
- `callSites_ordered`: the call sites of a tree are strictly ascending, since nodes follow one another inside their
  parents and a call site is longer than each of its children: it has at least two.
- `Source.calls_ordered`: so are the calls of a unit in the order of a walk, and no two of them have one span.
-/
import CallLint.Proofs.Laws.Files

namespace CallLint

/-- the first span starts earlier, or together with the second and ends later -/
def Span.Before (a b : Span) : Prop :=
  a.startByte < b.startByte ∨ (a.startByte = b.startByte ∧ b.endByte < a.endByte)

instance (a b : Span) : Decidable (a.Before b) :=
  inferInstanceAs (Decidable (_ ∨ _))

/-- the order of spans, on nodes -/
def Node.Before (a b : Node) : Prop :=
  a.start < b.start ∨ (a.start = b.start ∧ b.stop < a.stop)

theorem Source.spanOf_before {s : Source} {a b : Node} : (s.spanOf a).Before (s.spanOf b) ↔ a.Before b :=
  Iff.rfl

/-- the second node lies in the first and is not empty -/
def Node.Holds (n m : Node) : Prop :=
  n.start ≤ m.start ∧ m.start < m.stop ∧ m.stop ≤ n.stop

/-! ## A call site and its children -/

theorem Between.apart {lo hi : Nat} {ns : List Node} (h : Between lo ns hi) {a b : Node} (ha : a ∈ ns) (hb : b ∈ ns)
    (hne : a ≠ b) : a.stop ≤ b.start ∨ b.stop ≤ a.start := by
  induction ns generalizing lo with
  | nil => simp at ha
  | cons n ns ih =>
    rcases List.mem_cons.1 ha with rfl | hain <;> rcases List.mem_cons.1 hb with rfl | hbin
    · exact absurd rfl hne
    · exact Or.inl (h.2.2.mem hbin).1
    · exact Or.inr (h.2.2.mem hain).1
    · exact ih h.2.2 hain hbin

/-- a call names what is called, and has arguments -/
theorem Node.Shaped.two_children {n : Node} (h : n.Shaped) (hn : n.kind.isCallSite = true) :
    ∃ a ∈ n.children, ∃ b ∈ n.children, a ≠ b := by
  have slots : ∃ f r r', n.kind.form? = some f ∧ ChildSlot.role r ∈ f.needed ∧ ChildSlot.role r' ∈ f.needed ∧ r ≠ r' := by
    revert hn
    cases n.kind <;> intro hn <;> first
      | exact absurd hn (by decide)
      | exact ⟨_, .name, .arguments, rfl, by decide⟩
      | exact ⟨_, .type, .arguments, rfl, by decide⟩
      | exact ⟨_, .constructor, .arguments, rfl, by decide⟩
  obtain ⟨f, r, r', hf, hr, hr', hne⟩ := slots
  obtain ⟨a, ha, has⟩ := (h.form hf).needed _ hr
  obtain ⟨b, hb, hbs⟩ := (h.form hf).needed _ hr'
  refine ⟨a, (mem_codeNodes.1 ha).1, b, (mem_codeNodes.1 hb).1, ?_⟩
  rintro rfl
  exact hne (ChildSlot.role.inj (has.symm.trans hbs))

/-- a call site comes before all that lies in one of its children -/
theorem Node.Shaped.before_inner {n c m : Node} (h : n.Shaped) (ho : n.InOrder) (hn : n.kind.isCallSite = true)
    (hc : c ∈ n.children) (hm : c.Holds m) : n.Before m := by
  obtain ⟨hstart, hne, hstop⟩ := hm
  have other : ∃ e ∈ n.children, c ≠ e := by
    obtain ⟨a, ha, b, hb, hab⟩ := h.two_children hn
    by_cases hca : c = a
    · exact ⟨b, hb, hca ▸ hab⟩
    · exact ⟨a, ha, hca⟩
  obtain ⟨e, he, hce⟩ := other
  obtain ⟨hc1, hc2, hc3⟩ := ho.children.mem hc
  obtain ⟨he1, he2, he3⟩ := ho.children.mem he
  unfold Before
  -- when the other child comes later, the first ends earlier than the node; else it starts later
  rcases ho.children.apart hc he hce with hapart | hapart <;> omega

/-! ## All call sites of a tree -/

mutual

theorem Node.callSites_ordered : ∀ (n : Node), n.Shaped → n.InOrder → n.start < n.stop →
    n.callSites.Pairwise Node.Before ∧ ∀ m ∈ n.callSites, n.Holds m
  | .mk kind role start stop children, h, ho, hne => by
    obtain ⟨ordered, inside⟩ := callSitesIn_ordered children start stop (fun c hc => h.child hc)
      (fun c hc => ho.child hc) ho.children
    -- each inner site is held by one child, and by the node with it
    have held : ∀ m ∈ callSitesIn children, (Node.mk kind role start stop children).Holds m := by
      intro m hm
      obtain ⟨c, hc, hcm⟩ := inside m hm
      obtain ⟨hlo, -, hhi⟩ := ho.children.mem hc
      exact ⟨hlo.trans hcm.1, hcm.2.1, hcm.2.2.trans hhi⟩
    rw [Node.callSites]
    split_ifs with hk
    · refine ⟨List.pairwise_cons.2 ⟨fun m hm => ?_, ordered⟩, fun m hm => ?_⟩
      · obtain ⟨c, hc, hcm⟩ := inside m hm
        exact h.before_inner ho hk hc hcm
      · rcases List.mem_cons.1 hm with rfl | hm
        · exact ⟨le_rfl, hne, le_rfl⟩
        · exact held m hm
    · exact ⟨ordered, held⟩
termination_by structural n => n

theorem callSitesIn_ordered : ∀ (ns : List Node) (lo hi : Nat), (∀ n ∈ ns, n.Shaped) → (∀ n ∈ ns, n.InOrder) →
    Between lo ns hi → (callSitesIn ns).Pairwise Node.Before ∧ ∀ m ∈ callSitesIn ns, ∃ n ∈ ns, n.Holds m
  | [], _, _, _, _, _ => ⟨.nil, by simp [callSitesIn]⟩
  | n :: ns, lo, hi, h, ho, hb => by
    obtain ⟨-, hne, hrest⟩ := hb
    obtain ⟨first, held⟩ := Node.callSites_ordered n (h n List.mem_cons_self) (ho n List.mem_cons_self) hne
    obtain ⟨others, inside⟩ := callSitesIn_ordered ns n.stop hi (fun m hm => h m (List.mem_cons_of_mem _ hm))
      (fun m hm => ho m (List.mem_cons_of_mem _ hm)) hrest
    rw [callSitesIn]
    refine ⟨List.pairwise_append.2 ⟨first, others, fun a ha b hb => Or.inl ?_⟩, fun m hm => ?_⟩
    · obtain ⟨c, hc, hcb⟩ := inside b hb
      obtain ⟨-, ha2, ha3⟩ := held a ha
      exact (ha2.trans_le ha3).trans_le ((hrest.mem hc).1.trans hcb.1)
    · rcases List.mem_append.1 hm with hm | hm
      · exact ⟨n, List.mem_cons_self, held m hm⟩
      · obtain ⟨c, hc, hcm⟩ := inside m hm
        exact ⟨c, List.mem_cons_of_mem _ hc, hcm⟩
termination_by structural ns => ns

end

/-- the call sites of a file are strictly ascending -/
theorem Source.sites_ordered (s : Source) : (s.sites.map Site.node).Pairwise Node.Before := by
  unfold sites
  cases hroot : s.tree? with
  | none => exact .nil
  | some root =>
    have hn := tree_shaped hroot
    have ho := tree_inOrder hroot
    have inner := (callSitesIn_ordered root.children root.start root.stop (fun c hc => hn.child hc)
      (fun c hc => ho.child hc) ho.children).1
    have hk := tree_kind hroot
    obtain ⟨kind, role, start, stop, children⟩ := root
    obtain rfl : kind = .program := hk
    rw [Node.sites_nodes, Node.callSites]
    exact inner

/-- **The calls of a unit** are written at the kept sites of its file, in the order of the text. -/
theorem Source.unit_calls [Recovery] (s : Source) (path : String) :
    Safe (s.root.Faulty s)
      (fun u => u.hasParseErrors = false →
        u.calls.map Call.written = (s.sites.filter Site.isKept).map fun site => site.node.written s)
      (s.unit path) := by
  refine s.unit_of_tree path fun root hroot => ?_
  have tree := CompilationUnit.ofTree_calls (s := s) (tree_shaped hroot) (tree_inOrder hroot) path
  refine tree.mono (fun _ => trivial) fun u hu => ?_
  rw [sites, hroot]
  exact hu

/-- **Calls come in document order.** Unless lowering stops at a faulty string, the unit of a file is there, and when the
file has no syntax errors, the spans of its calls, in the order of a walk, ascend strictly: outer calls come before those
in their receivers and arguments, other calls in the order of the text, and no two calls have one span. -/
theorem Source.calls_ordered [Recovery] (s : Source) (path : String) :
    Safe (s.root.Faulty s) (fun u => u.hasParseErrors = false → (u.calls.map (·.span)).Pairwise Span.Before)
      (s.unit path) := by
  refine (s.unit_calls path).mono id fun u written parsed => ?_
  have hu := written parsed
  have spans : u.calls.map (·.span) = (s.sites.filter Site.isKept).map fun site => s.spanOf site.node := by
    have h := congrArg (List.map Written.span) hu
    rwa [List.map_map, List.map_map] at h
  have sites : s.sites.Pairwise fun a b => a.node.Before b.node := List.pairwise_map.1 s.sites_ordered
  rw [spans, List.pairwise_map]
  exact sites.sublist List.filter_sublist

end CallLint
