/-
Which call sites a unit represents. A site is reached when it stands as a statement or an expression of a body, less deep
than the nesting limit; `isKept_iff_isReached` says that for the sites of a file nothing else matters.

`Source.sites_represented`: a unit has exactly one call for each site that is reached, and none for the others. Sites
that are lost in a body (see `Position`) are among the others, so not all call sites of a body are represented.
-/
import CallLint.Proofs.CallSites.Order

namespace CallLint

/-- whether the position is in the code of a body, less deep than the nesting limit -/
def Position.isReached : Position → Bool
  | statement depth | expression depth => depth < nestingLimit
  | _ => false

/-- the call sites of the whole syntax tree of a file; none when it has syntax errors -/
def Source.callSites (s : Source) : List Node :=
  match s.tree? with
  | none => []
  | some root => root.callSites

theorem Source.sites_nodes (s : Source) : s.sites.map Site.node = s.callSites := by
  unfold sites callSites
  cases s.tree? with
  | none => rfl
  | some root => exact root.sites_nodes s .file

/-! ## Calls of other constructors -/

namespace Position

variable {s : Source} {n c : Node} {p : Position}

/-- a call of another constructor stands as no expression, and the body of a constructor as no list of expressions -/
def Suits (n : Node) (p : Position) : Prop :=
  (n.kind = .explicitConstructorInvocation → ∀ d, p ≠ .expression d) ∧
    (n.kind = .constructorBody → ∀ d, p ≠ .arguments d ∧ p ≠ .declarator d)

theorem Suits.enter (h : p.Suits n) : (p.enter n.kind).Suits n := by
  obtain ⟨hcall, hbody⟩ := h
  constructor
  · intro hk d
    have hcall := hcall hk d
    rw [hk]
    cases p <;> exact hcall
  · intro hk d
    have hbody := hbody hk d
    rw [hk]
    cases p <;> exact hbody

/-- what stands in the body of a constructor stands as a statement, unless the body is a list of expressions -/
theorem child_of_constructorBody (hn : n.kind = .constructorBody) (hc : c.kind = .explicitConstructorInvocation)
    (hp : ∀ d, p ≠ .arguments d ∧ p ≠ .declarator d) (d : Nat) : p.child s n c ≠ .expression d := by
  cases p with
  | arguments e => exact absurd rfl (hp e).1
  | declarator e => exact absurd rfl (hp e).2
  | statement e =>
    rw [Position.child, inStatement_kind hn rfl]
    simp
  | expression e => simp [Position.child, inExpression, hn]
  | members => simp [Position.child, ofMember, hc, NodeKind.isTypeDeclaration]
  | file | type | fields | routine | constant =>
    simp only [Position.child]
    split_ifs <;> simp
  | _ => simp [Position.child]

/-- the body of a constructor is no list of expressions -/
theorem child_body (hc : c.kind = .constructorBody) (hr : c.role = some .body) (d : Nat) :
    p.child s n c ≠ .arguments d ∧ p.child s n c ≠ .declarator d := by
  cases p with
  | statement e =>
    rw [Position.child, inStatement, hr]
    split
    · simp
    · split <;> simp
  | expression e =>
    rw [Position.child, inExpression, hr]
    repeat' split
    all_goals simp_all
  | file | members => simp [Position.child, ofMember, hc, NodeKind.isTypeDeclaration]
  | _ => simp [Position.child, hr]

theorem Suits.child (h : p.Suits n) (hn : n.Shaped) (hc : c ∈ n.children) : (p.child s n c).Suits c := by
  obtain ⟨hcall, hbody⟩ := hn.delegates_child hc
  refine ⟨fun hk d => ?_, fun hk d => child_body hk (hbody hk) d⟩
  exact child_of_constructorBody (hcall hk) hk (h.2 (hcall hk)) d

end Position

/-- at a position that suits a call site, only the position decides whether the site is kept -/
theorem Position.Suits.isKept {n : Node} {p : Position} (h : p.Suits n) (hn : n.kind.isCallSite = true) :
    Site.isKept ⟨n, p⟩ = p.isReached := by
  cases p with
  | expression d =>
    have hexp : n.kind.isExpression = true := by
      have hcall : n.kind ≠ .explicitConstructorInvocation := fun hk => h.1 hk d rfl
      revert hn hcall
      cases n.kind <;> decide
    simp [Site.isKept, isReached, hexp]
  | _ => rfl

mutual

theorem Node.sites_isKept (s : Source) : ∀ (n : Node) (p : Position), n.Shaped → p.Suits n →
    ∀ site ∈ n.sites s p, site.isKept = site.position.isReached
  | .mk kind role start stop children, p, hn, hp => by
    have inner := sitesIn_isKept s children (.mk kind role start stop children) (p.enter kind)
      fun c hc => ⟨hn.child hc, hp.enter.child hn hc⟩
    rw [Node.sites]
    split_ifs with hk
    · intro site hsite
      rcases List.mem_cons.1 hsite with rfl | hsite
      · exact hp.enter.isKept hk
      · exact inner site hsite
    · exact inner
termination_by structural n => n

theorem sitesIn_isKept (s : Source) : ∀ (cs : List Node) (parent : Node) (p : Position),
    (∀ c ∈ cs, c.Shaped ∧ (p.child s parent c).Suits c) →
      ∀ site ∈ sitesIn s parent p cs, site.isKept = site.position.isReached
  | [], _, _, _ => by simp [sitesIn]
  | c :: cs, parent, p, h => by
    obtain ⟨hc, hp⟩ := h c List.mem_cons_self
    intro site hsite
    rw [sitesIn] at hsite
    rcases List.mem_append.1 hsite with hsite | hsite
    · exact Node.sites_isKept s c _ hc hp site hsite
    · exact sitesIn_isKept s cs parent p (fun c hc => h c (List.mem_cons_of_mem _ hc)) site hsite
termination_by structural cs => cs

end

theorem Source.isKept_iff_isReached {s : Source} {site : Site} (h : site ∈ s.sites) :
    site.isKept = site.position.isReached := by
  unfold sites at h
  cases hroot : s.tree? with
  | none => simp [hroot] at h
  | some root =>
    rw [hroot] at h
    refine Node.sites_isKept s root .file (tree_shaped hroot) ⟨fun hk => ?_, fun hk => ?_⟩ site h
    · simp [tree_kind hroot] at hk
    · simp [tree_kind hroot] at hk

/-! ## One call for each site -/

theorem Span.Before.ne {a b : Span} (h : a.Before b) : a ≠ b := by
  rintro rfl
  rcases h with h | h <;> omega

/-- no two sites of a file have one span -/
theorem Source.sites_nodup (s : Source) : (s.sites.map fun site => s.spanOf site.node).Nodup := by
  have sites : s.sites.Pairwise fun a b => a.node.Before b.node := List.pairwise_map.1 s.sites_ordered
  exact List.pairwise_map.2 (sites.imp fun h => (spanOf_before.2 h).ne)

/-- **The call sites of a file** are all in `sites`, and unless lowering stops at a faulty string the unit of a file
without syntax errors has one call for each of them that is reached, in the order of the text, and no other calls. Call
sites that are lost or lie outside bodies have none. -/
theorem Source.sites_represented [Recovery] (s : Source) (path : String) :
    s.sites.map Site.node = s.callSites ∧
      Safe (s.root.Faulty s)
        (fun u => u.hasParseErrors = false →
          u.calls.map Call.written =
            (s.sites.filter fun site => site.position.isReached).map (fun site => site.node.written s) ∧
          ∀ site ∈ s.sites, (u.calls.countP fun c => c.span = s.spanOf site.node) =
            if site.position.isReached then 1 else 0)
        (s.unit path) := by
  refine ⟨s.sites_nodes, (s.unit_calls path).mono id fun u written parsed => ?_⟩
  have hu := written parsed
  rw [List.filter_congr fun site hsite => isKept_iff_isReached hsite] at hu
  refine ⟨hu, fun site hsite => ?_⟩
  have spans : u.calls.map (·.span) =
      (s.sites.filter fun site => site.position.isReached).map fun site => s.spanOf site.node := by
    have h := congrArg (List.map Written.span) hu
    rwa [List.map_map, List.map_map] at h
  have nodup : (u.calls.map (·.span)).Nodup := by
    rw [spans]
    exact s.sites_nodup.sublist (List.filter_sublist.map _)
  have mem : s.spanOf site.node ∈ u.calls.map (·.span) ↔ site.position.isReached = true := by
    rw [spans, List.mem_map]
    constructor
    · rintro ⟨other, hother, hspan⟩
      obtain ⟨hin, hreached⟩ := List.mem_filter.1 hother
      obtain rfl := List.inj_on_of_nodup_map s.sites_nodup hin hsite hspan
      exact hreached
    · exact fun h => ⟨site, List.mem_filter.2 ⟨hsite, h⟩, rfl⟩
  have count : (u.calls.countP fun c => c.span = s.spanOf site.node) =
      (u.calls.map (·.span)).count (s.spanOf site.node) := by
    rw [List.count, List.countP_map]
    rfl
  rw [count, nodup.count, if_congr mem rfl rfl]

-- the qualifier of an object creation is lost
example : (Source.ofBytes "class T \x7b Object o = q().new I(); \x7d".toUTF8.toList).sites.map
    (fun site => (site.node.start, site.node.stop, site.position)) = [(21, 32, .expression 0), (21, 24, .lost)] := by
  decide +kernel

end CallLint
