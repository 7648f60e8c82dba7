/-
The trees of files that are written alike. Twins are nodes over the same tokens with the same parts, comments left out.
A run of a grammar goes the same way in both files (`runsAlongside`), by one induction on its fuel: it takes as many
tokens from each and gives twins.

Comments could only make a difference where a grammar looks at the last of the nodes before it. `Grammar.steady` checks
that this is never a comment.
-/
import CallLint.Proofs.Correspondence.Nodes
import CallLint.Proofs.Grammar.Trees
import CallLint.Proofs.Layout.Tokens

namespace CallLint

/-! ## Twins -/

/-- nodes over the same tokens with the same parts; comments do not count -/
inductive Node.Twin (ts ts' : List Token) : Node → Node → Prop where
  | mk {kind : NodeKind} {role : Option Role} {j k : Nat} {children children' : List Node} :
    j ≤ ts.length → k ≤ ts.length → List.Forall₂ (Twin ts ts') (codeNodes children) (codeNodes children') →
    Twin ts ts' (.mk kind role (startAt ts j) (stopAt ts k) children)
      (.mk kind role (startAt ts' j) (stopAt ts' k) children')

/-- twins among comments -/
def TwinLists (ts ts' : List Token) (ns ns' : List Node) : Prop :=
  List.Forall₂ (Node.Twin ts ts') (codeNodes ns) (codeNodes ns')

/-- both runs fail in the same way, or they take as many tokens and give twins -/
def Outcome.Alongside (ts ts' : List Token) : Outcome → Outcome → Prop
  | .matched ns i, .matched ns' i' =>
    TwinLists ts ts' ns ns' ∧ ∃ k ≤ ts.length, i = inputAt ts k ∧ i' = inputAt ts' k
  | .unmatched, .unmatched => True
  | .broken, .broken => True
  | _, _ => False

theorem Outcome.Alongside.cases {ts ts' : List Token} {o o' : Outcome} (h : o.Alongside ts ts' o') :
    (o = .unmatched ∧ o' = .unmatched) ∨ (o = .broken ∧ o' = .broken) ∨
      ∃ ns ns' k, k ≤ ts.length ∧ TwinLists ts ts' ns ns' ∧ o = .matched ns (inputAt ts k) ∧
        o' = .matched ns' (inputAt ts' k) := by
  cases o <;> cases o'
  case matched.matched ns i ns' i' =>
    obtain ⟨htwins, k, hk, rfl, rfl⟩ := h
    exact Or.inr (Or.inr ⟨ns, ns', k, hk, htwins, rfl, rfl⟩)
  case unmatched.unmatched => exact Or.inl ⟨rfl, rfl⟩
  case broken.broken => exact Or.inr (Or.inl ⟨rfl, rfl⟩)
  all_goals exact h.elim

section Steps

variable {ts ts' : List Token} {o o' p p' : Outcome} {next next' : List Node → Input → Outcome}

theorem Outcome.Alongside.andThen (h : o.Alongside ts ts' o')
    (hnext : ∀ ns ns' k, k ≤ ts.length → TwinLists ts ts' ns ns' → o = .matched ns (inputAt ts k) →
      o' = .matched ns' (inputAt ts' k) → (next ns (inputAt ts k)).Alongside ts ts' (next' ns' (inputAt ts' k))) :
    (o.andThen next).Alongside ts ts' (o'.andThen next') := by
  rcases h.cases with ⟨rfl, rfl⟩ | ⟨rfl, rfl⟩ | ⟨ns, ns', k, hk, hns, ho, ho'⟩
  · trivial
  · trivial
  · have after := hnext ns ns' k hk hns ho ho'
    rw [ho, ho']
    exact after

theorem Outcome.Alongside.orElse (h : o.Alongside ts ts' o') (hp : p.Alongside ts ts' p') :
    (o.orElse p).Alongside ts ts' (o'.orElse p') := by
  rcases h.cases with ⟨rfl, rfl⟩ | ⟨rfl, rfl⟩ | ⟨ns, ns', k, hk, hns, rfl, rfl⟩
  · exact hp
  · trivial
  · exact h

theorem Outcome.Alongside.strict (h : o.Alongside ts ts' o') (committed : Bool) :
    (o.strict committed).Alongside ts ts' (o'.strict committed) := by
  rcases h.cases with ⟨rfl, rfl⟩ | ⟨rfl, rfl⟩ | ⟨ns, ns', k, hk, hns, rfl, rfl⟩
  · cases committed <;> trivial
  · trivial
  · exact h

end Steps

section Twins

variable {ts ts' : List Token} {ns ns' ms ms' : List Node} {n n' : Node}

theorem Node.Twin.kind (h : n.Twin ts ts' n') : n.kind = n'.kind := by
  cases h
  rfl

theorem Node.Twin.role (h : n.Twin ts ts' n') : n.role = n'.role := by
  cases h
  rfl

theorem Node.Twin.isComment (h : n.Twin ts ts' n') : n.isComment = n'.isComment := by
  rw [Node.isComment, Node.isComment, h.kind]

theorem Node.Twin.withRole (h : n.Twin ts ts' n') (r : Role) : (n.withRole r).Twin ts ts' (n'.withRole r) := by
  cases h with
  | mk hj hk hc => exact .mk hj hk hc

theorem TwinLists.comments (hn : ∀ n ∈ ns, n.isComment = true) (hn' : ∀ n ∈ ns', n.isComment = true) :
    TwinLists ts ts' ns ns' := by
  rw [TwinLists, codeNodes_eq_nil hn, codeNodes_eq_nil hn']
  exact .nil

theorem TwinLists.nil : TwinLists ts ts' [] [] :=
  List.Forall₂.nil

theorem TwinLists.append (h : TwinLists ts ts' ns ns') (k : TwinLists ts ts' ms ms') :
    TwinLists ts ts' (ns ++ ms) (ns' ++ ms') := by
  rw [TwinLists, codeNodes_append, codeNodes_append]
  exact List.rel_append h k

theorem TwinLists.single (h : n.Twin ts ts' n') : TwinLists ts ts' [n] [n'] :=
  List.rel_filter (fun a b hab => by simp [hab.isComment]) (.cons h .nil)

theorem TwinLists.assignRole (h : TwinLists ts ts' ns ns') (r : Role) :
    TwinLists ts ts' (assignRole r ns) (CallLint.assignRole r ns') := by
  rw [TwinLists, codeNodes_assignRole, codeNodes_assignRole, List.forall₂_map_left_iff, List.forall₂_map_right_iff]
  refine h.imp fun a b hab => ?_
  rw [hab.role]
  split_ifs
  · exact hab
  · exact hab.withRole r

theorem TwinLists.assignLeft (h : TwinLists ts ts' ns ns') (l : Link Grammar) :
    TwinLists ts ts' (Grammar.assignLeft l ns) (Grammar.assignLeft l ns') := by
  unfold Grammar.assignLeft
  split
  · exact h
  · exact h.assignRole _

/-- nodes of one kind after comments, over the same tokens -/
theorem TwinLists.made {outside outside' inside inside' : List Node} (ho : ∀ n ∈ outside, n.isComment = true)
    (ho' : ∀ n ∈ outside', n.isComment = true) (hi : TwinLists ts ts' inside inside') (kind : NodeKind) {j k : Nat}
    (hj : j ≤ ts.length) (hk : k ≤ ts.length) :
    TwinLists ts ts' (outside ++ [.mk kind none (startAt ts j) (stopAt ts k) inside])
      (outside' ++ [.mk kind none (startAt ts' j) (stopAt ts' k) inside']) :=
  (TwinLists.comments ho ho').append (.single (.mk hj hk hi))

theorem TwinLists.wrap (h : TwinLists ts ts' ns ns') (kind : NodeKind) {j k : Nat} (hj : j ≤ ts.length)
    (hk : k ≤ ts.length) :
    TwinLists ts ts' (CallLint.wrap kind (startAt ts j) (stopAt ts k) ns)
      (CallLint.wrap kind (startAt ts' j) (stopAt ts' k) ns') := by
  have inside : TwinLists ts ts' (splitNodes (startAt ts j) ns).2 (splitNodes (startAt ts' j) ns').2 := by
    rw [TwinLists, splitNodes_code, splitNodes_code]
    exact h
  exact .made splitNodes_isComment splitNodes_isComment inside kind hj hk

end Twins

/-! ## The last node -/

/-- the last of the nodes is there and is no comment -/
def EndsInCode (ns : List Node) : Prop :=
  ∃ before n, ns = before ++ [n] ∧ n.isComment = false

theorem EndsInCode.append {ns ms : List Node} (h : EndsInCode ms) : EndsInCode (ns ++ ms) := by
  obtain ⟨before, n, rfl, hn⟩ := h
  exact ⟨ns ++ before, n, by rw [List.append_assoc], hn⟩

theorem EndsInCode.made {kind : NodeKind} (h : kind.isComment = false) (ns : List Node) (start stop : Nat)
    (children : List Node) : EndsInCode (ns ++ [.mk kind none start stop children]) :=
  ⟨ns, _, rfl, h⟩

theorem EndsInCode.wrap {kind : NodeKind} (h : kind.isComment = false) (start stop : Nat) (ns : List Node) :
    EndsInCode (CallLint.wrap kind start stop ns) :=
  .made h _ _ _ _

theorem EndsInCode.getLast? {ns : List Node} (h : EndsInCode ns) : ns.getLast? = (codeNodes ns).getLast? := by
  obtain ⟨before, n, rfl, hn⟩ := h
  have code : codeNodes [n] = [n] := List.filter_eq_self.2 (by simp [hn])
  rw [codeNodes_append, code, List.getLast?_concat, List.getLast?_concat]

theorem EndsInCode.assignRole {ns : List Node} (h : EndsInCode ns) (r : Role) : EndsInCode (assignRole r ns) := by
  obtain ⟨before, n, rfl, hn⟩ := h
  refine ⟨CallLint.assignRole r before, if n.isComment || n.role.isSome then n else n.withRole r,
    by simp [CallLint.assignRole], ?_⟩
  split_ifs
  · exact hn
  · rwa [isComment_withRole]

/-- the last nodes of twins are of one kind -/
theorem TwinLists.lastKind {ts ts' : List Token} {ns ns' : List Node} (h : TwinLists ts ts' ns ns') (he : EndsInCode ns)
    (he' : EndsInCode ns') : ns.getLast?.map (·.kind) = ns'.getLast?.map (·.kind) := by
  rw [he.getLast?, he'.getLast?, List.getLast?_eq_head?_reverse, List.getLast?_eq_head?_reverse]
  exact optionRel_eq.1 (optionRel_map (fun a b hab => hab.kind) (forall₂_head? (List.rel_reverse h)))

namespace Grammar

/-- whether a grammar only looks ahead, or not even that -/
def givesNothing : Grammar → Bool
  | ahead _ | notAhead _ | aheadArrow | commit => true
  | _ => false

mutual

/-- whether the nodes of a grammar end in one that is no comment; `known` says so of nonterminals -/
def endsInNode (known : Symbol → Bool) : Grammar → Bool
  | leaf kind _ => !kind.isComment
  | node kind _ => !kind.isComment
  | solid kind _ => !kind.isComment
  | seq parts => lastEndsInNode known parts
  | choice options => allEndInNode known options
  | role _ g => endsInNode known g
  | among _ g => endsInNode known g
  | ref s => known s
  | chain first links => endsInNode known first && links.all fun l => !l.kind.isComment
  | _ => false
termination_by structural g => g

def lastEndsInNode (known : Symbol → Bool) : List Grammar → Bool
  | [] => false
  | g :: gs => lastEndsInNode known gs || (endsInNode known g && gs.all givesNothing)
termination_by structural gs => gs

def allEndInNode (known : Symbol → Bool) : List Grammar → Bool
  | [] => true
  | g :: gs => endsInNode known g && allEndInNode known gs
termination_by structural gs => gs

end

mutual

/-- whether what looks at the last node always finds one that is no comment -/
def steady (known : Symbol → Bool) : Grammar → Bool
  | seq parts => allSteady known parts
  | choice options => allSteady known options
  | maybe g => steady known g
  | many g => steady known g
  | node _ g => steady known g
  | solid _ g => steady known g
  | role _ g => steady known g
  | ahead g => steady known g
  | notAhead g => steady known g
  | among _ g => endsInNode known g && steady known g
  | chain first links =>
    (links.all (·.lefts.isNone) || (endsInNode known first && links.all fun l => !l.kind.isComment)) &&
      steady known first && linksSteady known links
  | _ => true
termination_by structural g => g

def allSteady (known : Symbol → Bool) : List Grammar → Bool
  | [] => true
  | g :: gs => steady known g && allSteady known gs
termination_by structural gs => gs

def linksSteady (known : Symbol → Bool) : List (Link Grammar) → Bool
  | [] => true
  | l :: ls => linkSteady known l && linksSteady known ls
termination_by structural ls => ls

def linkSteady (known : Symbol → Bool) : Link Grammar → Bool
  | ⟨_, _, _, rest⟩ => steady known rest
termination_by structural l => l

end

/-- the rules of all nonterminals are steady, and end in a node where that is known of them -/
def RulesSteady (known : Symbol → Bool) (rule : Symbol → Grammar) : Prop :=
  ∀ s, steady known (rule s) = true ∧ (known s = true → endsInNode known (rule s) = true)

variable {known : Symbol → Bool} {rule : Symbol → Grammar}

theorem endsInNode_of_mem {gs : List Grammar} (h : allEndInNode known gs = true) {g : Grammar} (hg : g ∈ gs) :
    endsInNode known g = true := by
  induction gs with
  | nil => simp at hg
  | cons g' gs ih =>
    rw [allEndInNode, Bool.and_eq_true] at h
    rcases List.mem_cons.1 hg with rfl | hg
    · exact h.1
    · exact ih h.2 hg

theorem Derives.nothing {gs : List Grammar} (hgs : ∀ g ∈ gs, givesNothing g = true) {i j : Input} {ns : List Node}
    (h : Derives rule (.seq gs) i ns j) : ns = [] := by
  induction gs generalizing i ns with
  | nil =>
    cases h
    rfl
  | cons g gs ih =>
    cases h with
    | seqCons hg hrest =>
      have none := hgs g List.mem_cons_self
      rw [ih (fun g hg => hgs g (List.mem_cons_of_mem _ hg)) hrest, List.append_nil]
      cases hg <;> first | rfl | simp [givesNothing] at none

theorem Derives.endsInNode (hrule : RulesSteady known rule) {g : Grammar} {i j : Input} {ns : List Node}
    (h : Derives rule g i ns j) (hg : endsInNode known g = true) : EndsInCode ns := by
  have code {kind : NodeKind} (hk : (!kind.isComment) = true) : kind.isComment = false := by simpa using hk
  induction h with
  | leaf _ => exact .made (code hg) _ _ _ _
  | @seqCons g gs i j k ns ms _ hms ih ih' =>
    rw [Grammar.endsInNode, lastEndsInNode, Bool.or_eq_true, Bool.and_eq_true] at hg
    rcases hg with hgs | ⟨hg, hgs⟩
    · exact (ih' hgs).append
    · rw [hms.nothing (List.all_eq_true.1 hgs), List.append_nil]
      exact ih hg
  | choice hm _ ih => exact ih (endsInNode_of_mem hg hm)
  | node _ _ => exact .wrap (code hg) _ _ _
  | solid _ _ => exact .made (code hg) _ _ _ _
  | role _ ih => exact (ih hg).assignRole _
  | @ref s i j ns _ ih => exact ih ((hrule s).2 hg)
  | among _ ih => exact ih hg
  | chainFirst _ ih =>
    rw [Grammar.endsInNode, Bool.and_eq_true] at hg
    exact ih hg.1
  | chainLink _ hl _ _ _ =>
    rw [Grammar.endsInNode, Bool.and_eq_true] at hg
    exact .wrap (code (List.all_eq_true.1 hg.2 _ hl)) _ _ _
  | _ => simp [Grammar.endsInNode, lastEndsInNode] at hg

/-! ## Runs -/

/-- what looks at the last node sees the same in both files -/
def LinksSeeAlike (links : List (Link Grammar)) (ns ns' : List Node) : Prop :=
  (∀ l ∈ links, l.lefts = none) ∨ (EndsInCode ns ∧ EndsInCode ns' ∧ ∀ l ∈ links, l.kind.isComment = false)

theorem LinksSeeAlike.takes {links : List (Link Grammar)} {ns ns' : List Node} {ts ts' : List Token}
    (h : LinksSeeAlike links ns ns') (ht : TwinLists ts ts' ns ns') {l : Link Grammar} (hl : l ∈ links) :
    l.takes ns = l.takes ns' := by
  rw [Link.takes, Link.takes]
  cases hlefts : l.lefts with
  | none => rfl
  | some kinds =>
    rcases h with h | ⟨he, he', -⟩
    · simp [h l hl] at hlefts
    · have last := congrArg (fun o => (o.map fun k => kinds.contains k).getD false) (ht.lastKind he he')
      simpa only [Option.map_map, Function.comp_def] using last

/-- runs with so much fuel go the same way in both files -/
structure RunsAlongside (known : Symbol → Bool) (rule : Symbol → Grammar) (ts ts' : List Token) (fuel : Nat) : Prop where
  one : ∀ g k, steady known g = true → k ≤ ts.length →
    (run rule fuel g (inputAt ts k)).Alongside ts ts' (run rule fuel g (inputAt ts' k))
  seq : ∀ committed gs k, allSteady known gs = true → k ≤ ts.length →
    (runSeq rule fuel committed gs (inputAt ts k)).Alongside ts ts' (runSeq rule fuel committed gs (inputAt ts' k))
  choice : ∀ gs k, allSteady known gs = true → k ≤ ts.length →
    (runChoice rule fuel gs (inputAt ts k)).Alongside ts ts' (runChoice rule fuel gs (inputAt ts' k))
  many : ∀ g k, steady known g = true → k ≤ ts.length →
    (runMany rule fuel g (inputAt ts k)).Alongside ts ts' (runMany rule fuel g (inputAt ts' k))
  links : ∀ start k links rest ns ns', linksSteady known links = true → rest ⊆ links → start ≤ ts.length →
    k ≤ ts.length → LinksSeeAlike links ns ns' → TwinLists ts ts' ns ns' →
    (runLinks rule fuel (startAt ts start) links rest ns (inputAt ts k)).Alongside ts ts'
      (runLinks rule fuel (startAt ts' start) links rest ns' (inputAt ts' k))

theorem linksSteady_iff {ls : List (Link Grammar)} :
    linksSteady known ls = true ↔ ∀ l ∈ ls, steady known l.rest = true := by
  induction ls with
  | nil => simp [linksSteady]
  | cons l ls ih =>
    obtain ⟨_, _, _, rest⟩ := l
    rw [linksSteady, Bool.and_eq_true, ih, List.forall_mem_cons, linkSteady]

/-- a chain with fewer links is steady when one with more is -/
theorem steady_chain_subset {first : Grammar} {links more : List (Link Grammar)} (h : links ⊆ more)
    (hm : steady known (.chain first more) = true) : steady known (.chain first links) = true := by
  have all {p : Link Grammar → Bool} (hp : more.all p = true) : links.all p = true :=
    List.all_eq_true.2 fun l hl => List.all_eq_true.1 hp l (h hl)
  rw [steady, Bool.and_eq_true, Bool.and_eq_true, Bool.or_eq_true, Bool.and_eq_true] at hm ⊢
  exact ⟨⟨hm.1.1.imp all (And.imp_right all), hm.1.2⟩, linksSteady_iff.2 fun l hl => linksSteady_iff.1 hm.2 l (h hl)⟩

section Runs

variable {s s' : Source} {ts ts' : List Token} {fuel : Nat}

/-- both runs take a token, or neither does -/
theorem takes_alike (hw : WrittenAlike s s' ts ts') (t : Terminal) (k : Nat) :
    (t.take (inputAt ts k).rest = none ∧ t.take (inputAt ts' k).rest = none) ∨
      ∃ found found' rest rest' m, m ≤ ts.length ∧ t.take (inputAt ts k).rest = some (found, rest) ∧
        t.take (inputAt ts' k).rest = some (found', rest') ∧ ⟨rest, found.stop⟩ = inputAt ts m ∧
        ⟨rest', found'.stop⟩ = inputAt ts' m ∧ found.start = startAt ts k ∧ found'.start = startAt ts' k := by
  rcases optionRel_cases (hw.take t k) with ⟨ht, ht'⟩ | ⟨⟨found, rest⟩, ⟨found', rest'⟩, ht, ht', htaken⟩
  · exact .inl ⟨ht, ht'⟩
  · obtain ⟨m, -, hm, hi, hi'⟩ := htaken.taken
    exact .inr ⟨found, found', rest, rest', m, hm, ht, ht', hi.symm, hi'.symm, htaken.start, htaken.start'⟩

/-- both runs have taken something, or neither has -/
theorem took_alike (ha : TokensAfter 0 ts) (ha' : TokensAfter 0 ts') (hlen : ts.length = ts'.length) {k m : Nat}
    (hk : k ≤ ts.length) (hm : m ≤ ts.length) :
    (inputAt ts k).stop < (inputAt ts m).stop ↔ (inputAt ts' k).stop < (inputAt ts' m).stop :=
  (ha.stopAt_lt_iff hk hm).trans (ha'.stopAt_lt_iff (hlen ▸ hk) (hlen ▸ hm)).symm

namespace RunsAlongside

theorem runSeq_succ (h : RunsAlongside known rule ts ts' fuel) (committed : Bool) {gs : List Grammar} {k : Nat}
    (hg : allSteady known gs = true) (hk : k ≤ ts.length) :
    (runSeq rule (fuel + 1) committed gs (inputAt ts k)).Alongside ts ts'
      (runSeq rule (fuel + 1) committed gs (inputAt ts' k)) := by
  cases gs with
  | nil => exact ⟨.nil, k, hk, rfl, rfl⟩
  | cons g gs =>
    rw [allSteady, Bool.and_eq_true] at hg
    obtain ⟨c, hrun⟩ := runSeq_cons rule fuel g committed gs
    rw [hrun, hrun]
    refine ((h.one g k hg.1 hk).strict c).andThen fun ns ns' m hm hns _ _ => ?_
    exact (h.seq c gs m hg.2 hm).andThen fun ms ms' l hl hms _ _ => ⟨hns.append hms, l, hl, rfl, rfl⟩

theorem runChoice_succ (h : RunsAlongside known rule ts ts' fuel) {gs : List Grammar} {k : Nat}
    (hg : allSteady known gs = true) (hk : k ≤ ts.length) :
    (runChoice rule (fuel + 1) gs (inputAt ts k)).Alongside ts ts' (runChoice rule (fuel + 1) gs (inputAt ts' k)) := by
  cases gs with
  | nil => exact trivial
  | cons g gs =>
    rw [allSteady, Bool.and_eq_true] at hg
    rw [runChoice_cons, runChoice_cons]
    exact (h.one g k hg.1 hk).orElse (h.choice gs k hg.2 hk)

theorem runMany_succ (ha : TokensAfter 0 ts) (ha' : TokensAfter 0 ts') (hlen : ts.length = ts'.length)
    (h : RunsAlongside known rule ts ts' fuel) {g : Grammar} {k : Nat} (hg : steady known g = true)
    (hk : k ≤ ts.length) :
    (runMany rule (fuel + 1) g (inputAt ts k)).Alongside ts ts' (runMany rule (fuel + 1) g (inputAt ts' k)) := by
  simp only [runMany]
  rcases (h.one g k hg hk).cases with ⟨ho, ho'⟩ | ⟨ho, ho'⟩ | ⟨ns, ns', m, hm, hns, ho, ho'⟩ <;> rw [ho, ho']
  · exact ⟨.nil, k, hk, rfl, rfl⟩
  · exact trivial
  · dsimp only
    have on := took_alike ha ha' hlen hk hm
    by_cases hlt : (inputAt ts k).stop < (inputAt ts m).stop
    · rw [if_pos hlt, if_pos (on.1 hlt)]
      rcases (h.many g m hg hm).cases with ⟨hr, hr'⟩ | ⟨hr, hr'⟩ | ⟨ms, ms', l, hl, hms, hr, hr'⟩ <;> rw [hr, hr']
      · exact trivial
      · exact trivial
      · exact ⟨hns.append hms, l, hl, rfl, rfl⟩
    · rw [if_neg hlt, if_neg (mt on.2 hlt)]
      exact ⟨hns, m, hm, rfl, rfl⟩

theorem runLinks_succ (ha : TokensAfter 0 ts) (ha' : TokensAfter 0 ts') (hlen : ts.length = ts'.length)
    (h : RunsAlongside known rule ts ts' fuel) {start k : Nat} {links rest : List (Link Grammar)} {ns ns' : List Node}
    (hg : linksSteady known links = true) (hsub : rest ⊆ links) (hstart : start ≤ ts.length) (hk : k ≤ ts.length)
    (hsee : LinksSeeAlike links ns ns') (hns : TwinLists ts ts' ns ns') :
    (runLinks rule (fuel + 1) (startAt ts start) links rest ns (inputAt ts k)).Alongside ts ts'
      (runLinks rule (fuel + 1) (startAt ts' start) links rest ns' (inputAt ts' k)) := by
  cases rest with
  | nil => exact ⟨hns, k, hk, rfl, rfl⟩
  | cons l ls =>
    obtain ⟨hl, hls⟩ := List.cons_subset.1 hsub
    have others := h.links start k links ls ns ns' hg hls hstart hk hsee hns
    simp only [runLinks]
    rw [hsee.takes hns hl]
    split_ifs
    · rcases (h.one l.rest k (linksSteady_iff.1 hg l hl) hk).cases with
        ⟨ho, ho'⟩ | ⟨ho, ho'⟩ | ⟨ms, ms', m, hm, hms, ho, ho'⟩ <;> rw [ho, ho']
      · exact others
      · exact trivial
      · dsimp only
        have on := took_alike ha ha' hlen hk hm
        by_cases hlt : (inputAt ts k).stop < (inputAt ts m).stop
        · rw [if_pos hlt, if_pos (on.1 hlt)]
          refine h.links start m links links _ _ hg (List.Subset.refl links) hstart hm ?_
            (((hns.assignLeft l).append hms).wrap l.kind hstart hm)
          rcases hsee with hsee | ⟨-, -, hkinds⟩
          · exact Or.inl hsee
          · exact Or.inr ⟨.wrap (hkinds l hl) _ _ _, .wrap (hkinds l hl) _ _ _, hkinds⟩
        · rw [if_neg hlt, if_neg (mt on.2 hlt)]
          exact ⟨hns, k, hk, rfl, rfl⟩
    · exact others

theorem run_succ (hw : WrittenAlike s s' ts ts') (hrule : RulesSteady known rule)
    (h : RunsAlongside known rule ts ts' fuel) {g : Grammar} {k : Nat} (hg : steady known g = true) (hk : k ≤ ts.length) :
    (run rule (fuel + 1) g (inputAt ts k)).Alongside ts ts' (run rule (fuel + 1) g (inputAt ts' k)) := by
  cases g with
  | token t =>
    simp only [run]
    rcases takes_alike hw t k with ⟨ht, ht'⟩ | ⟨found, found', rest, rest', m, hm, ht, ht', hi, hi', -⟩ <;> rw [ht, ht']
    · exact trivial
    · exact ⟨.comments (comments_isComment _) (comments_isComment _), m, hm, hi, hi'⟩
  | leaf kind t =>
    simp only [run]
    rcases takes_alike hw t k with ⟨ht, ht'⟩ | ⟨found, found', rest, rest', m, hm, ht, ht', hi, hi', start, start'⟩ <;>
      rw [ht, ht']
    · exact trivial
    · have stop : found.stop = stopAt ts m := congrArg Input.stop hi
      have stop' : found'.stop = stopAt ts' m := congrArg Input.stop hi'
      refine ⟨?_, m, hm, hi, hi'⟩
      rw [start, start', stop, stop']
      exact .made (comments_isComment _) (comments_isComment _) .nil kind hk hm
  | seq parts => exact h.seq false parts k hg hk
  | choice options => exact h.choice options k hg hk
  | many g => exact h.many g k hg hk
  | ref s => exact h.one (rule s) k (hrule s).1 hk
  | maybe g =>
    rw [run_maybe, run_maybe]
    exact (h.one g k hg hk).orElse ⟨.nil, k, hk, rfl, rfl⟩
  | node kind g =>
    rw [run_node, run_node]
    exact (h.one g k hg hk).andThen fun ns ns' m hm hns _ _ => ⟨hns.wrap kind hk hm, m, hm, rfl, rfl⟩
  | solid kind g =>
    rw [run_solid, run_solid]
    exact (h.one g k hg hk).andThen fun ns ns' m hm _ _ _ =>
      ⟨.made splitNodes_isComment splitNodes_isComment .nil kind hk hm, m, hm, rfl, rfl⟩
  | role r g =>
    rw [run_role, run_role]
    exact (h.one g k hg hk).andThen fun ns ns' m hm hns _ _ => ⟨hns.assignRole r, m, hm, rfl, rfl⟩
  | ahead g =>
    simp only [run]
    rcases (h.one g k hg hk).cases with ⟨ho, ho'⟩ | ⟨ho, ho'⟩ | ⟨ns, ns', m, hm, hns, ho, ho'⟩ <;> rw [ho, ho']
    · exact trivial
    · exact trivial
    · exact ⟨.nil, k, hk, rfl, rfl⟩
  | notAhead g =>
    simp only [run]
    rcases (h.one g k hg hk).cases with ⟨ho, ho'⟩ | ⟨ho, ho'⟩ | ⟨ns, ns', m, hm, hns, ho, ho'⟩ <;> rw [ho, ho']
    · exact ⟨.nil, k, hk, rfl, rfl⟩
    · exact ⟨.nil, k, hk, rfl, rfl⟩
    · exact trivial
  | among kinds g =>
    obtain ⟨hends, hg⟩ := Bool.and_eq_true_iff.1 (show (endsInNode known g && steady known g) = true from hg)
    rw [run_among, run_among]
    refine (h.one g k hg hk).andThen fun ns ns' m hm hns ho ho' => ?_
    have last := hns.lastKind ((derives_of_run ho).endsInNode hrule hends) ((derives_of_run ho').endsInNode hrule hends)
    have same := congrArg (fun o => (o.map fun k => kinds.contains k).getD false) last
    simp only [Option.map_map, Function.comp_def] at same
    rw [same]
    split_ifs
    · exact ⟨hns, m, hm, rfl, rfl⟩
    · exact trivial
  | aheadArrow =>
    simp only [run]
    rw [show (inputAt ts k).rest = ts.drop k from rfl, show (inputAt ts' k).rest = ts'.drop k from rfl,
      hw.arrowAfterGroup]
    split_ifs
    · exact ⟨.nil, k, hk, rfl, rfl⟩
    · exact trivial
  | commit => exact ⟨.nil, k, hk, rfl, rfl⟩
  | chain first links =>
    rw [steady, Bool.and_eq_true, Bool.and_eq_true, Bool.or_eq_true] at hg
    obtain ⟨⟨hsee, hfirst⟩, hlinks⟩ := hg
    rw [run_chain, run_chain]
    refine (h.one first k hfirst hk).andThen fun ns ns' m hm hns ho ho' => ?_
    refine h.links k m links links ns ns' hlinks (List.Subset.refl links) hk hm ?_ hns
    rcases hsee with hsee | hsee
    · exact Or.inl fun l hl => Option.isNone_iff_eq_none.1 (List.all_eq_true.1 hsee l hl)
    · rw [Bool.and_eq_true] at hsee
      exact Or.inr ⟨(derives_of_run ho).endsInNode hrule hsee.1, (derives_of_run ho').endsInNode hrule hsee.1,
        fun l hl => by simpa using List.all_eq_true.1 hsee.2 l hl⟩

end RunsAlongside

/-- **Runs go the same way in files that are written alike.** -/
theorem runsAlongside (hw : WrittenAlike s s' ts ts') (ha : TokensAfter 0 ts) (ha' : TokensAfter 0 ts')
    (hrule : RulesSteady known rule) (fuel : Nat) : RunsAlongside known rule ts ts' fuel := by
  induction fuel with
  | zero => constructor <;> intros <;> exact trivial
  | succ fuel ih =>
    exact ⟨fun _ _ => ih.run_succ hw hrule, fun committed _ _ => ih.runSeq_succ committed, fun _ _ => ih.runChoice_succ,
      fun _ _ => ih.runMany_succ ha ha' hw.length_eq,
      fun _ _ _ _ _ _ => ih.runLinks_succ ha ha' hw.length_eq⟩

end Runs

end Grammar

/-! ## Trees -/

open Grammar

/-- nonterminals whose nodes end in one that is no comment -/
def Symbol.endsInNode : Symbol → Bool
  | .type | .unannotatedType | .simpleType | .primary | .string | .typeArguments | .annotationForm => true
  | _ => false

/-- whether a rule is steady, and ends in a node when its nonterminal does -/
def Symbol.isSteady (s : Symbol) (g : Grammar) : Bool :=
  steady Symbol.endsInNode g && (!s.endsInNode || Grammar.endsInNode Symbol.endsInNode g)

theorem Symbol.rules_steady (s : Symbol) : s.isSteady s.rule = true := by
  cases s with
  | operand arrow signs => cases arrow <;> cases signs <;> decide
  | expression level arrow signs =>
    have all : ∀ arrow signs, (Symbol.expression 0 true .free).isSteady
        (.chain (.ref (.operand arrow signs)) ((operatorLinks arrow).map (·.2))) = true := by
      intro arrow signs
      cases arrow <;> cases signs <;> decide
    have h := all arrow signs
    rw [isSteady, Bool.and_eq_true] at h
    rw [isSteady, Bool.and_eq_true]
    exact ⟨steady_chain_subset (expressionAt_links level arrow) h.1, rfl⟩
  | _ => decide

theorem rules_steady : RulesSteady Symbol.endsInNode Symbol.rule := by
  intro s
  have h := s.rules_steady
  rw [Symbol.isSteady, Bool.and_eq_true, Bool.or_eq_true, Bool.not_eq_true'] at h
  exact ⟨h.1, fun hs => h.2.resolve_left (by simp [hs])⟩

/-- **Files that are written alike have twin trees**, or neither has a tree. -/
theorem WrittenAlike.tree {s s' : Source} {ts ts' : Tokens} (h : WrittenAlike s s' ts.tokens ts'.tokens)
    (ha : TokensAfter 0 ts.tokens) (ha' : TokensAfter 0 ts'.tokens) :
    Option.Rel (Node.Twin ts.tokens ts'.tokens) ts.tree? ts'.tree? := by
  have runs := (runsAlongside h ha ha' rules_steady (depthPerToken * (ts.tokens.length + 2))).one (.ref .program) 0 rfl
    (Nat.zero_le _)
  have fuel : depthPerToken * (ts'.tokens.length + 2) = depthPerToken * (ts.tokens.length + 2) := by rw [h.length_eq]
  have input (ts : List Token) : (⟨ts, 0⟩ : Input) = inputAt ts 0 := rfl
  delta Tokens.tree?
  rw [fuel, input, input]
  rcases runs.cases with ⟨ho, ho'⟩ | ⟨ho, ho'⟩ | ⟨ns, ns', k, hk, hns, ho, ho'⟩ <;> rw [ho, ho']
  · exact .none
  · exact .none
  · have find (ns : List Node) : ns.find? (·.kind == .program) = (codeNodes ns).find? (·.kind == .program) :=
      Node.childOfKind?_eq (.mk .program none 0 0 ns) rfl
    rcases h.front k with ⟨hd, hd'⟩ | ⟨t, t', hf⟩
    · rw [inputAt, inputAt, hd, hd']
      dsimp only
      rw [find ns, find ns']
      exact forall₂_find? (fun a b hab => by rw [hab.kind]) hns
    · rw [inputAt, inputAt, hf.left, hf.right]
      exact .none

end CallLint
