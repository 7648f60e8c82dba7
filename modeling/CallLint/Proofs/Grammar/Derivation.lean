/-
What a grammar takes, without fuel and without the order in which choices are tried. `Derives rule g i nodes j` says that
`g` leads from the input `i` to the input `j` and gives `nodes`. `derives_of_run`: every match of a run is a derivation.
What holds of all derivations therefore holds of every tree that is read, and it is proved by one induction in which each
construct of grammars is one case.

The reader allows less than the relation: it takes the first choice that fits, and looks ahead. Nothing below needs that.
-/
import CallLint.Source.Grammar
import Mathlib.Tactic

namespace CallLint

/-! ## Steps of a run -/

namespace Outcome

/-- goes on from a match -/
def andThen : Outcome → (List Node → Input → Outcome) → Outcome
  | .matched nodes i, next => next nodes i
  | .unmatched, _ => .unmatched
  | .broken, _ => .broken

/-- takes another outcome when there is no match -/
def orElse : Outcome → Outcome → Outcome
  | .matched nodes i, _ => .matched nodes i
  | .unmatched, other => other
  | .broken, _ => .broken

/-- once committed, there must be a match -/
def strict : Outcome → Bool → Outcome
  | .matched nodes i, _ => .matched nodes i
  | .unmatched, committed => if committed then .broken else .unmatched
  | .broken, _ => .broken

variable {o other : Outcome} {next : List Node → Input → Outcome} {ns : List Node} {j : Input}

theorem andThen_eq_matched :
    o.andThen next = .matched ns j ↔ ∃ ms i, o = .matched ms i ∧ next ms i = .matched ns j := by
  cases o <;> simp [andThen]

theorem orElse_eq_matched (h : o.orElse other = .matched ns j) : o = .matched ns j ∨ other = .matched ns j := by
  cases o with
  | matched ms i => exact .inl h
  | unmatched => exact .inr h
  | broken => cases h

theorem strict_eq_matched {committed : Bool} (h : o.strict committed = .matched ns j) : o = .matched ns j := by
  cases o with
  | matched ms i => exact h
  | unmatched =>
    rw [strict] at h
    split_ifs at h
  | broken => cases h

end Outcome

namespace Grammar

section Steps

variable (rule : Symbol → Grammar) (fuel : Nat) (g : Grammar) (i : Input)

theorem run_node (kind : NodeKind) : run rule (fuel + 1) (.node kind g) i =
    (run rule fuel g i).andThen fun nodes j => .matched (wrap kind i.next j.stop nodes) j := by
  rw [run]
  cases run rule fuel g i <;> rfl

theorem run_solid (kind : NodeKind) : run rule (fuel + 1) (.solid kind g) i =
    (run rule fuel g i).andThen fun nodes j =>
      .matched ((splitNodes i.next nodes).1 ++ [.mk kind none i.next j.stop []]) j := by
  rw [run]
  cases run rule fuel g i <;> rfl

theorem run_role (r : Role) : run rule (fuel + 1) (.role r g) i =
    (run rule fuel g i).andThen fun nodes j => .matched (assignRole r nodes) j := by
  rw [run]
  cases run rule fuel g i <;> rfl

theorem run_among (kinds : List NodeKind) : run rule (fuel + 1) (.among kinds g) i =
    (run rule fuel g i).andThen fun nodes j =>
      if (nodes.getLast?.map fun n => kinds.contains n.kind).getD false then .matched nodes j else .unmatched := by
  rw [run]
  cases run rule fuel g i <;> rfl

theorem run_chain (links : List (Link Grammar)) : run rule (fuel + 1) (.chain g links) i =
    (run rule fuel g i).andThen (runLinks rule fuel i.next links links) := by
  rw [run]
  cases run rule fuel g i <;> rfl

theorem run_maybe : run rule (fuel + 1) (.maybe g) i = (run rule fuel g i).orElse (.matched [] i) := by
  rw [run]
  cases run rule fuel g i <;> rfl

theorem runChoice_cons (gs : List Grammar) :
    runChoice rule (fuel + 1) (g :: gs) i = (run rule fuel g i).orElse (runChoice rule fuel gs i) := by
  rw [runChoice]
  cases run rule fuel g i <;> rfl

/-- the parts of a sequence after the first one know whether a commit stands before them -/
theorem runSeq_eq_match (committed : Bool) (gs : List Grammar) :
    ∃ c : Bool, ∀ i, runSeq rule (fuel + 1) committed (g :: gs) i =
      match run rule fuel g i with
      | .matched nodes j =>
        match runSeq rule fuel c gs j with
        | .matched more k => .matched (nodes ++ more) k
        | outcome => outcome
      | .unmatched => if c then .broken else .unmatched
      | .broken => .broken :=
  ⟨_, fun _ => rfl⟩

theorem runSeq_cons (committed : Bool) (gs : List Grammar) : ∃ c : Bool, ∀ i, runSeq rule (fuel + 1) committed (g :: gs) i =
    ((run rule fuel g i).strict c).andThen fun nodes j =>
      (runSeq rule fuel c gs j).andThen fun more k => .matched (nodes ++ more) k := by
  obtain ⟨c, hc⟩ := runSeq_eq_match rule fuel g committed gs
  refine ⟨c, fun i => ?_⟩
  rw [hc]
  cases run rule fuel g i with
  | matched nodes j =>
    dsimp only [Outcome.strict, Outcome.andThen]
    cases runSeq rule fuel c gs j <;> rfl
  | unmatched => cases c <;> rfl
  | broken => rfl

end Steps

/-! ## Derivations -/

inductive Derives (rule : Symbol → Grammar) : Grammar → Input → List Node → Input → Prop where
  | token {t : Terminal} {i : Input} {found : Token} {rest : List Token} :
    t.take i.rest = some (found, rest) →
    Derives rule (.token t) i (found.comments.map Comment.node) ⟨rest, found.stop⟩
  | leaf {kind : NodeKind} {t : Terminal} {i : Input} {found : Token} {rest : List Token} :
    t.take i.rest = some (found, rest) →
    Derives rule (.leaf kind t) i (found.comments.map Comment.node ++ [.mk kind none found.start found.stop []])
      ⟨rest, found.stop⟩
  | seqNil {i : Input} : Derives rule (.seq []) i [] i
  | seqCons {g : Grammar} {gs : List Grammar} {i j k : Input} {nodes more : List Node} :
    Derives rule g i nodes j → Derives rule (.seq gs) j more k → Derives rule (.seq (g :: gs)) i (nodes ++ more) k
  | choice {g : Grammar} {options : List Grammar} {i j : Input} {nodes : List Node} :
    g ∈ options → Derives rule g i nodes j → Derives rule (.choice options) i nodes j
  | maybeNone {g : Grammar} {i : Input} : Derives rule (.maybe g) i [] i
  | maybeSome {g : Grammar} {i j : Input} {nodes : List Node} :
    Derives rule g i nodes j → Derives rule (.maybe g) i nodes j
  | manyNil {g : Grammar} {i : Input} : Derives rule (.many g) i [] i
  | manyCons {g : Grammar} {i j k : Input} {nodes more : List Node} :
    Derives rule g i nodes j → Derives rule (.many g) j more k → Derives rule (.many g) i (nodes ++ more) k
  | node {kind : NodeKind} {g : Grammar} {i j : Input} {nodes : List Node} :
    Derives rule g i nodes j → Derives rule (.node kind g) i (wrap kind i.next j.stop nodes) j
  | solid {kind : NodeKind} {g : Grammar} {i j : Input} {nodes : List Node} :
    Derives rule g i nodes j →
    Derives rule (.solid kind g) i ((splitNodes i.next nodes).1 ++ [.mk kind none i.next j.stop []]) j
  | role {r : Role} {g : Grammar} {i j : Input} {nodes : List Node} :
    Derives rule g i nodes j → Derives rule (.role r g) i (assignRole r nodes) j
  | ref {s : Symbol} {i j : Input} {nodes : List Node} :
    Derives rule (rule s) i nodes j → Derives rule (.ref s) i nodes j
  | ahead {g : Grammar} {i : Input} : Derives rule (.ahead g) i [] i
  | notAhead {g : Grammar} {i : Input} : Derives rule (.notAhead g) i [] i
  | among {kinds : List NodeKind} {g : Grammar} {i j : Input} {nodes : List Node} :
    Derives rule g i nodes j → Derives rule (.among kinds g) i nodes j
  | aheadArrow {i : Input} : Derives rule .aheadArrow i [] i
  | commit {i : Input} : Derives rule .commit i [] i
  | chainFirst {first : Grammar} {links : List (Link Grammar)} {i j : Input} {nodes : List Node} :
    Derives rule first i nodes j → Derives rule (.chain first links) i nodes j
  | chainLink {first : Grammar} {links : List (Link Grammar)} {l : Link Grammar} {i j k : Input}
    {nodes more : List Node} :
    Derives rule (.chain first links) i nodes j → l ∈ links → Derives rule l.rest j more k →
    Derives rule (.chain first links) i (wrap l.kind i.next k.stop (assignLeft l nodes ++ more)) k

/-- all matches of runs with so much fuel are derivations; links go on from a chain that is derived already -/
structure RunsDerive (rule : Symbol → Grammar) (fuel : Nat) : Prop where
  one : ∀ g i nodes j, run rule fuel g i = .matched nodes j → Derives rule g i nodes j
  seq : ∀ committed gs i nodes j, runSeq rule fuel committed gs i = .matched nodes j → Derives rule (.seq gs) i nodes j
  choice : ∀ gs i nodes j, runChoice rule fuel gs i = .matched nodes j → Derives rule (.choice gs) i nodes j
  many : ∀ g i nodes j, runMany rule fuel g i = .matched nodes j → Derives rule (.many g) i nodes j
  links : ∀ first links rest start i j nodes more, rest ⊆ links → Derives rule (.chain first links) start nodes i →
    runLinks rule fuel start.next links rest nodes i = .matched more j → Derives rule (.chain first links) start more j

variable {rule : Symbol → Grammar} {fuel : Nat}

namespace RunsDerive

theorem runSeq_succ (h : RunsDerive rule fuel) {committed : Bool} {gs : List Grammar} {i j : Input} {nodes : List Node}
    (hr : runSeq rule (fuel + 1) committed gs i = .matched nodes j) : Derives rule (.seq gs) i nodes j := by
  cases gs with
  | nil =>
    simp only [runSeq, Outcome.matched.injEq] at hr
    obtain ⟨rfl, rfl⟩ := hr
    exact .seqNil
  | cons g gs =>
    obtain ⟨c, hrun⟩ := runSeq_cons rule fuel g committed gs
    rw [hrun] at hr
    obtain ⟨first, k, hg, hr⟩ := Outcome.andThen_eq_matched.1 hr
    obtain ⟨more, l, hgs, ⟨⟩⟩ := Outcome.andThen_eq_matched.1 hr
    exact .seqCons (h.one _ _ _ _ (Outcome.strict_eq_matched hg)) (h.seq _ _ _ _ _ hgs)

theorem runChoice_succ (h : RunsDerive rule fuel) {gs : List Grammar} {i j : Input} {nodes : List Node}
    (hr : runChoice rule (fuel + 1) gs i = .matched nodes j) : Derives rule (.choice gs) i nodes j := by
  cases gs with
  | nil => simp [runChoice] at hr
  | cons g gs =>
    rw [runChoice_cons] at hr
    rcases Outcome.orElse_eq_matched hr with hg | hgs
    · exact .choice List.mem_cons_self (h.one _ _ _ _ hg)
    · cases h.choice _ _ _ _ hgs with
      | choice hmem hd => exact .choice (List.mem_cons_of_mem g hmem) hd

theorem runMany_succ (h : RunsDerive rule fuel) {g : Grammar} {i j : Input} {nodes : List Node}
    (hr : runMany rule (fuel + 1) g i = .matched nodes j) : Derives rule (.many g) i nodes j := by
  simp only [runMany] at hr
  split at hr
  · simp only [Outcome.matched.injEq] at hr
    obtain ⟨rfl, rfl⟩ := hr
    exact .manyNil
  · simp at hr
  · rename_i first k hg
    have hfirst := h.one _ _ _ _ hg
    split_ifs at hr
    · split at hr
      · rename_i more l hmore
        simp only [Outcome.matched.injEq] at hr
        obtain ⟨rfl, rfl⟩ := hr
        exact .manyCons hfirst (h.many _ _ _ _ hmore)
      · rename_i hno
        exact absurd hr (hno _ _)
    · simp only [Outcome.matched.injEq] at hr
      obtain ⟨rfl, rfl⟩ := hr
      simpa using Derives.manyCons hfirst .manyNil

theorem runLinks_succ (h : RunsDerive rule fuel) {first : Grammar} {links rest : List (Link Grammar)}
    {start i j : Input} {nodes more : List Node} (hsub : rest ⊆ links)
    (hd : Derives rule (.chain first links) start nodes i)
    (hr : runLinks rule (fuel + 1) start.next links rest nodes i = .matched more j) :
    Derives rule (.chain first links) start more j := by
  cases rest with
  | nil =>
    simp only [runLinks, Outcome.matched.injEq] at hr
    obtain ⟨rfl, rfl⟩ := hr
    exact hd
  | cons l ls =>
    obtain ⟨hl, hls⟩ := List.cons_subset.1 hsub
    simp only [runLinks] at hr
    split_ifs at hr
    · split at hr
      · rename_i taken k hrest
        split_ifs at hr
        · exact h.links _ _ _ _ _ _ _ _ (List.Subset.refl links) (.chainLink hd hl (h.one _ _ _ _ hrest)) hr
        · simp only [Outcome.matched.injEq] at hr
          obtain ⟨rfl, rfl⟩ := hr
          exact hd
      · exact h.links _ _ _ _ _ _ _ _ hls hd hr
      · simp at hr
    · exact h.links _ _ _ _ _ _ _ _ hls hd hr

theorem run_succ (h : RunsDerive rule fuel) {g : Grammar} {i j : Input} {nodes : List Node}
    (hr : run rule (fuel + 1) g i = .matched nodes j) : Derives rule g i nodes j := by
  cases g with
  | token t =>
    simp only [run] at hr
    split at hr
    · cases hr
    · rename_i found rest ht
      cases hr
      exact .token ht
  | leaf kind t =>
    simp only [run] at hr
    split at hr
    · cases hr
    · rename_i found rest ht
      cases hr
      exact .leaf ht
  | seq parts => exact h.seq _ _ _ _ _ hr
  | choice options => exact h.choice _ _ _ _ hr
  | many g => exact h.many _ _ _ _ hr
  | ref s => exact .ref (h.one _ _ _ _ hr)
  | maybe g =>
    rw [run_maybe] at hr
    rcases Outcome.orElse_eq_matched hr with hg | hnone
    · exact .maybeSome (h.one _ _ _ _ hg)
    · cases hnone
      exact .maybeNone
  | node kind g =>
    rw [run_node] at hr
    obtain ⟨inner, k, hg, ⟨⟩⟩ := Outcome.andThen_eq_matched.1 hr
    exact .node (h.one _ _ _ _ hg)
  | solid kind g =>
    rw [run_solid] at hr
    obtain ⟨inner, k, hg, ⟨⟩⟩ := Outcome.andThen_eq_matched.1 hr
    exact .solid (h.one _ _ _ _ hg)
  | role r g =>
    rw [run_role] at hr
    obtain ⟨inner, k, hg, ⟨⟩⟩ := Outcome.andThen_eq_matched.1 hr
    exact .role (h.one _ _ _ _ hg)
  | ahead g =>
    simp only [run] at hr
    split at hr
    · cases hr
      exact .ahead
    · cases hr
  | notAhead g =>
    simp only [run] at hr
    split at hr
    · cases hr
    · cases hr
      exact .notAhead
  | among kinds g =>
    rw [run_among] at hr
    obtain ⟨inner, k, hg, hr⟩ := Outcome.andThen_eq_matched.1 hr
    split_ifs at hr
    cases hr
    exact .among (h.one _ _ _ _ hg)
  | aheadArrow =>
    simp only [run] at hr
    split_ifs at hr
    cases hr
    exact .aheadArrow
  | commit =>
    cases hr
    exact .commit
  | chain first links =>
    rw [run_chain] at hr
    obtain ⟨inner, k, hg, hr⟩ := Outcome.andThen_eq_matched.1 hr
    exact h.links _ _ _ _ _ _ _ _ (List.Subset.refl links) (.chainFirst (h.one _ _ _ _ hg)) hr

end RunsDerive

theorem runsDerive (rule : Symbol → Grammar) (fuel : Nat) : RunsDerive rule fuel := by
  induction fuel with
  | zero => constructor <;> intros <;> simp_all [run, runSeq, runChoice, runMany, runLinks]
  | succ fuel ih =>
    exact ⟨fun _ _ _ _ => ih.run_succ, fun _ _ _ _ _ => ih.runSeq_succ, fun _ _ _ _ => ih.runChoice_succ,
      fun _ _ _ _ => ih.runMany_succ, fun _ _ _ _ _ _ _ _ => ih.runLinks_succ⟩

/-- **Every match of a run is a derivation.** -/
theorem derives_of_run {g : Grammar} {i j : Input} {nodes : List Node} (h : run rule fuel g i = .matched nodes j) :
    Derives rule g i nodes j :=
  (runsDerive rule fuel).one g i nodes j h

end Grammar

end CallLint
