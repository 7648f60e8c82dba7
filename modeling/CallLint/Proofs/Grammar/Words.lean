/-
Words of grammars. `words` gives a finite list of words such that the nodes of each derivation fit one of them, and
`checked` looks at each place where a grammar makes a node whether its kind allows all words that may stand under it.
A table gives the words of nonterminals; `RulesShaped` says that it agrees with their rules.

`Derives.shaped`: the nodes of all derivations are then shaped, by one induction on derivations.
-/
import CallLint.Proofs.Grammar.Ranges
import CallLint.Proofs.Grammar.Form

namespace CallLint

namespace Part

/-- one node of a kind, still without a role -/
def of (kind : NodeKind) : Part :=
  ⟨none, kind.load, false⟩

/-- the part in a role, unless it has one -/
def inRole (r : Role) (p : Part) : Part :=
  { p with role := p.role.or (some r) }

/-- whether nodes of the second part can be nodes of the first -/
def covers (p q : Part) : Bool :=
  p.role == q.role && p.load.covers q.load && (p.many || !q.many)

end Part

namespace Word

def inRole (r : Role) (w : Word) : Word :=
  w.map (·.inRole r)

/-- whether nodes that fit the second word fit the first -/
def covers : Word → Word → Bool
  | [], [] => true
  | p :: v, q :: w => p.covers q && covers v w
  | _, _ => false

/-- a word for any number of words, one after the other: one part that takes all their nodes -/
def star (ws : List Word) : Word :=
  match ws.flatten with
  | [] => []
  | p :: ps => [⟨p.role, ps.foldl (fun l q => if l.covers q.load then l else q.load) p.load, true⟩]

/-- whether the star of some words takes all their nodes -/
def starCovers (ws : List Word) : Bool :=
  ws.flatten.all fun q => (star ws).any fun p => p.many && p.role == q.role && p.load.covers q.load

end Word

namespace Grammar

mutual

/-- words for the nodes that a grammar gives -/
def words (σ : Symbol → List Word) : Grammar → List Word
  | token _ => [[]]
  | leaf kind _ => [[.of kind]]
  | seq parts => seqWords σ parts
  | choice options => choiceWords σ options
  | maybe g => [] :: words σ g
  | many g => [Word.star (words σ g)]
  | node kind _ => [[.of kind]]
  | solid kind _ => [[.of kind]]
  | role r g => (words σ g).map (Word.inRole r)
  | ref s => σ s
  | ahead _ => [[]]
  | notAhead _ => [[]]
  | among _ g => words σ g
  | aheadArrow => [[]]
  | commit => [[]]
  | chain first links => words σ first ++ links.map fun l => [.of l.kind]
termination_by structural g => g

def seqWords (σ : Symbol → List Word) : List Grammar → List Word
  | [] => [[]]
  | g :: gs => (words σ g).flatMap fun v => (seqWords σ gs).map (v ++ ·)
termination_by structural gs => gs

def choiceWords (σ : Symbol → List Word) : List Grammar → List Word
  | [] => []
  | g :: gs => words σ g ++ choiceWords σ gs
termination_by structural gs => gs

end

/-- words for what stands before a link, in the role that the link gives it -/
def leftWords (role : Option Role) (ws : List Word) : List Word :=
  match role with
  | none => ws
  | some r => ws.map (Word.inRole r)

mutual

/-- whether all nodes that a grammar makes are of kinds that allow what may stand under them -/
def checked (σ : Symbol → List Word) : Grammar → Bool
  | token _ => true
  | leaf kind _ => !kind.isComment && kind.allows []
  | seq parts => allChecked σ parts
  | choice options => allChecked σ options
  | maybe g => checked σ g
  | many g => checked σ g && Word.starCovers (words σ g)
  | node kind g => !kind.isComment && checked σ g && (words σ g).all kind.allows
  | solid kind g => !kind.isComment && checked σ g && kind.allows []
  | role _ g => checked σ g
  | ref _ => true
  | ahead _ => true
  | notAhead _ => true
  | among _ g => checked σ g
  | aheadArrow => true
  | commit => true
  | chain first links =>
    checked σ first && linksChecked σ (words σ first ++ links.map fun l => [.of l.kind]) links
termination_by structural g => g

def allChecked (σ : Symbol → List Word) : List Grammar → Bool
  | [] => true
  | g :: gs => checked σ g && allChecked σ gs
termination_by structural gs => gs

/-- `lefts` are the words of what may stand before a link -/
def linksChecked (σ : Symbol → List Word) (lefts : List Word) : List (Link Grammar) → Bool
  | [] => true
  | l :: ls => linkChecked σ lefts l && linksChecked σ lefts ls
termination_by structural ls => ls

def linkChecked (σ : Symbol → List Word) (lefts : List Word) : Link Grammar → Bool
  | ⟨_, kind, left, rest⟩ =>
    !kind.isComment && checked σ rest &&
      (leftWords left lefts).all fun v => (words σ rest).all fun w => kind.allows (v ++ w)
termination_by structural l => l

end

/-- the rules of all nonterminals are checked, and the table covers their words -/
def RulesShaped (σ : Symbol → List Word) (rule : Symbol → Grammar) : Prop :=
  ∀ s, checked σ (rule s) = true ∧ ∀ w ∈ words σ (rule s), ∃ v ∈ σ s, Word.covers v w = true

end Grammar

/-! ## Words and lists of nodes -/

theorem Load.covers_trans {a b c : Load} (h : a.covers b = true) (k : b.covers c = true) : a.covers c = true := by
  revert h k
  cases a <;> cases b <;> cases c <;> decide

theorem Part.covers_takes {p q : Part} (h : p.covers q = true) {n : Node} (hq : q.Takes n) : p.Takes n := by
  simp only [Part.covers, Bool.and_eq_true, beq_iff_eq] at h
  exact ⟨hq.1.trans h.1.1.symm, Load.covers_trans h.1.2 hq.2⟩

theorem Part.covers_many {p q : Part} (h : p.covers q = true) (hq : q.many = true) : p.many = true := by
  simpa [Part.covers, hq] using And.right (Bool.and_eq_true_iff.1 h)

theorem Word.covers_fits {v w : Word} {ns : List Node} (h : Word.covers v w = true) (hw : Fits w ns) : Fits v ns := by
  induction hw generalizing v with
  | nil =>
    cases v with
    | nil => exact .nil
    | cons p v => simp [Word.covers] at h
  | one ht _ ih =>
    cases v with
    | nil => simp [Word.covers] at h
    | cons p v =>
      rw [Word.covers, Bool.and_eq_true] at h
      exact .one (Part.covers_takes h.1 ht) (ih h.2)
  | skip hm _ ih =>
    cases v with
    | nil => simp [Word.covers] at h
    | cons p v =>
      rw [Word.covers, Bool.and_eq_true] at h
      exact .skip (Part.covers_many h.1 hm) (ih h.2)
  | more hm ht _ ih =>
    cases v with
    | nil => simp [Word.covers] at h
    | cons p v =>
      have hp := (Bool.and_eq_true_iff.1 (show (_ && _) = true from h)).1
      exact .more (Part.covers_many hp hm) (Part.covers_takes hp ht) (ih h)

theorem Word.star_eq (ws : List Word) : Word.star ws = [] ∨ ∃ p : Part, p.many = true ∧ Word.star ws = [p] := by
  unfold Word.star
  split
  · exact Or.inl rfl
  · exact Or.inr ⟨_, rfl, rfl⟩

theorem Word.star_nil (ws : List Word) : Fits (Word.star ws) [] := by
  rcases Word.star_eq ws with h | ⟨p, hm, h⟩ <;> rw [h]
  · exact .nil
  · exact .skip hm .nil

/-- one more word before the others -/
theorem Word.star_append {ws : List Word} (h : Word.starCovers ws = true) {w : Word} (hw : w ∈ ws) {ns ms : List Node}
    (hns : Fits w ns) (hms : Fits (Word.star ws) ms) : Fits (Word.star ws) (ns ++ ms) := by
  have takes : ∀ n ∈ ns, ∃ p ∈ Word.star ws, p.many = true ∧ p.Takes n := by
    intro n hn
    obtain ⟨q, hq, hqn⟩ := hns.mem hn
    have hstar := List.all_eq_true.1 h q (List.mem_flatten.2 ⟨w, hw, hq⟩)
    obtain ⟨p, hp, hpq⟩ := List.any_eq_true.1 hstar
    simp only [Bool.and_eq_true, beq_iff_eq] at hpq
    exact ⟨p, hp, hpq.1.1, hqn.1.trans hpq.1.2.symm, Load.covers_trans hpq.2 hqn.2⟩
  clear hns
  induction ns with
  | nil => exact hms
  | cons n ns ih =>
    have rest := ih fun m hm => takes m (List.mem_cons_of_mem _ hm)
    obtain ⟨p, hp, hm, ht⟩ := takes n List.mem_cons_self
    rcases Word.star_eq ws with hstar | ⟨q, -, hstar⟩ <;> rw [hstar] at hp rest ⊢
    · simp at hp
    · obtain rfl := List.mem_singleton.1 hp
      exact .more hm ht rest

/-! ## Roles and wrapping -/

theorem codeNodes_eq_nil {ns : List Node} (h : ∀ n ∈ ns, n.isComment = true) : codeNodes ns = [] := by
  rw [codeNodes, List.filter_eq_nil_iff]
  exact fun n hn => by simp [h n hn]

theorem codeNodes_assignRole (r : Role) (ns : List Node) :
    codeNodes (assignRole r ns) = (codeNodes ns).map fun n => if n.role.isSome then n else n.withRole r := by
  have same (n : Node) :
      (if n.isComment || n.role.isSome then n else n.withRole r).isComment = n.isComment := by
    split_ifs
    · rfl
    · exact isComment_withRole r n
  rw [codeNodes, assignRole, List.filter_map, codeNodes]
  simp only [Function.comp_def, same]
  refine List.map_congr_left fun n hn => ?_
  have hn : n.isComment = false := by simpa using (List.mem_filter.1 hn).2
  simp [hn]

theorem Fits.inRole {w : Word} {ns : List Node} (h : Fits w ns) (r : Role) :
    Fits (w.inRole r) (ns.map fun n => if n.role.isSome then n else n.withRole r) := by
  have takes {p : Part} {n : Node} (ht : p.Takes n) :
      (p.inRole r).Takes (if n.role.isSome then n else n.withRole r) := by
    obtain ⟨kind, role, start, stop, children⟩ := n
    obtain ⟨hr, hl⟩ := ht
    change role = p.role at hr
    cases role <;> exact ⟨by simp [Part.inRole, ← hr, Node.withRole, Node.role], hl⟩
  induction h with
  | nil => exact .nil
  | one ht _ ih => exact .one (takes ht) ih
  | skip hm _ ih => exact .skip hm ih
  | more hm ht _ ih => exact .more hm (takes ht) ih

theorem Node.Shaped.withRole {n : Node} (h : n.Shaped) (hn : n.isComment = false) (r : Role) :
    (n.withRole r).Shaped := by
  obtain ⟨kind, role, start, stop, children⟩ := n
  cases h with
  | mk _ ha hw hc =>
    refine .mk (fun hcom => ?_) ha hw hc
    change kind.isComment = false at hn
    rw [hn] at hcom
    exact absurd hcom (by decide)

theorem assignRole_shaped {r : Role} {ns : List Node} (h : ∀ n ∈ ns, n.Shaped) : ∀ n ∈ assignRole r ns, n.Shaped := by
  intro m hm
  obtain ⟨n, hn, rfl⟩ := List.mem_map.1 hm
  split_ifs with hc
  · exact h n hn
  · exact (h n hn).withRole (by simp_all) r

theorem assignLeft_shaped {l : Link Grammar} {ns : List Node} (h : ∀ n ∈ ns, n.Shaped) :
    ∀ n ∈ Grammar.assignLeft l ns, n.Shaped := by
  unfold Grammar.assignLeft
  split
  · exact h
  · exact assignRole_shaped h

theorem leftWords_fits {ws : List Word} {w : Word} (hw : w ∈ ws) {ns : List Node} (h : Fits w (codeNodes ns))
    (l : Link Grammar) : ∃ v ∈ Grammar.leftWords l.role ws, Fits v (codeNodes (Grammar.assignLeft l ns)) := by
  unfold Grammar.leftWords Grammar.assignLeft
  cases l.role with
  | none => exact ⟨w, hw, h⟩
  | some r =>
    refine ⟨w.inRole r, List.mem_map.2 ⟨w, hw, rfl⟩, ?_⟩
    rw [codeNodes_assignRole]
    exact h.inRole r

theorem splitNodes_isComment {a : Nat} {ns : List Node} : ∀ n ∈ (splitNodes a ns).1, n.isComment = true := by
  intro n hn
  have hp := List.all_eq_true.1 List.all_takeWhile n hn
  exact (Bool.and_eq_true_iff.1 hp).2

theorem splitNodes_code (a : Nat) (ns : List Node) : codeNodes (splitNodes a ns).2 = codeNodes ns := by
  have all : codeNodes ((splitNodes a ns).1 ++ (splitNodes a ns).2) = codeNodes ns := by
    rw [splitNodes, List.takeWhile_append_dropWhile]
  rwa [codeNodes_append, codeNodes_eq_nil splitNodes_isComment] at all

namespace Grammar

/-- what is shown of a derivation: its nodes fit a word of its grammar, and they are shaped -/
def ShapedBy (σ : Symbol → List Word) (g : Grammar) (ns : List Node) : Prop :=
  (∃ w ∈ words σ g, Fits w (codeNodes ns)) ∧ ∀ n ∈ ns, n.Shaped

/-- a new node after comments -/
theorem shaped_made {kind : NodeKind} (hk : kind.isComment = false) {w : Word} (ha : kind.allows w = true)
    {outside inside : List Node} (hcom : ∀ n ∈ outside, n.isComment = true) (hout : ∀ n ∈ outside, n.Shaped)
    (hw : Fits w (codeNodes inside)) (hin : ∀ n ∈ inside, n.Shaped) (start stop : Nat) :
    Fits [.of kind] (codeNodes (outside ++ [.mk kind none start stop inside])) ∧
      ∀ n ∈ outside ++ [.mk kind none start stop inside], n.Shaped := by
  constructor
  · have code : codeNodes [.mk kind none start stop inside] = [.mk kind none start stop inside] :=
      List.filter_eq_self.2 (by simp [Node.isComment, Node.kind, hk])
    rw [codeNodes_append, codeNodes_eq_nil hcom, code]
    refine .one ⟨rfl, ?_⟩ .nil
    change kind.load.covers kind.load = true
    simp [Load.covers]
  · intro n hn
    rcases List.mem_append.1 hn with hn | hn
    · exact hout n hn
    · obtain rfl := List.mem_singleton.1 hn
      exact .mk (fun hcom => absurd hcom (by simp [hk])) ha hw hin

theorem comments_shaped (cs : List Comment) : ∀ n ∈ cs.map Comment.node, n.isComment = true ∧ n.Shaped := by
  intro n hn
  obtain ⟨c, -, rfl⟩ := List.mem_map.1 hn
  refine ⟨c.node_isComment, ?_⟩
  rw [Comment.node]
  refine .mk (w := []) (fun _ => ⟨rfl, rfl⟩) ?_ .nil (by simp)
  cases c.isLine <;> decide

theorem comments_isComment (cs : List Comment) : ∀ n ∈ cs.map Comment.node, n.isComment = true :=
  fun n hn => (comments_shaped cs n hn).1

variable {σ : Symbol → List Word} {rule : Symbol → Grammar}

theorem checked_of_mem {gs : List Grammar} (h : allChecked σ gs = true) {g : Grammar} (hg : g ∈ gs) :
    checked σ g = true := by
  induction gs with
  | nil => simp at hg
  | cons g' gs ih =>
    rw [allChecked, Bool.and_eq_true] at h
    rcases List.mem_cons.1 hg with rfl | hg
    · exact h.1
    · exact ih h.2 hg

theorem mem_choiceWords {gs : List Grammar} {g : Grammar} (hg : g ∈ gs) {w : Word} (hw : w ∈ words σ g) :
    w ∈ choiceWords σ gs := by
  induction gs with
  | nil => simp at hg
  | cons g' gs ih =>
    rw [choiceWords, List.mem_append]
    rcases List.mem_cons.1 hg with rfl | hg
    · exact Or.inl hw
    · exact Or.inr (ih hg)

theorem linkChecked_of_mem {lefts : List Word} {ls : List (Link Grammar)} (h : linksChecked σ lefts ls = true)
    {l : Link Grammar} (hl : l ∈ ls) :
    l.kind.isComment = false ∧ checked σ l.rest = true ∧
      ∀ v ∈ leftWords l.role lefts, ∀ w ∈ words σ l.rest, l.kind.allows (v ++ w) = true := by
  induction ls with
  | nil => simp at hl
  | cons l' ls ih =>
    rw [linksChecked, Bool.and_eq_true] at h
    rcases List.mem_cons.1 hl with rfl | hl
    · obtain ⟨lefts', kind, left, rest⟩ := l
      have h := h.1
      simp only [linkChecked, Bool.and_eq_true, Bool.not_eq_true', List.all_eq_true] at h
      exact ⟨h.1.1, h.1.2, h.2⟩
    · exact ih h.2 hl

/-- **Trees are shaped.** When the table agrees with the rules, the nodes of every derivation fit a word of its grammar,
and they and all nodes in them have children that their kinds allow. -/
theorem Derives.shaped (hrule : RulesShaped σ rule) {g : Grammar} {i j : Input} {ns : List Node}
    (h : Derives rule g i ns j) (hg : checked σ g = true) : ShapedBy σ g ns := by
  induction h with
  | @token t i found rest ht =>
    have hc := comments_shaped found.comments
    refine ⟨⟨[], by simp [words], ?_⟩, fun n hn => (hc n hn).2⟩
    rw [codeNodes_eq_nil fun n hn => (hc n hn).1]
    exact .nil
  | @leaf kind t i found rest ht =>
    rw [checked, Bool.and_eq_true, Bool.not_eq_true'] at hg
    have hc := comments_shaped found.comments
    obtain ⟨hw, hs⟩ := shaped_made hg.1 hg.2 (fun n hn => (hc n hn).1) (fun n hn => (hc n hn).2)
      (show Fits [] (codeNodes []) from .nil) (by simp) found.start found.stop
    exact ⟨⟨_, by simp [words], hw⟩, hs⟩
  | seqNil | ahead | notAhead | aheadArrow | commit => exact ⟨⟨[], by simp [words, seqWords], .nil⟩, by simp⟩
  | maybeNone => exact ⟨⟨[], by simp [words], .nil⟩, by simp⟩
  | manyNil => exact ⟨⟨_, by rw [words]; exact List.mem_singleton_self _, Word.star_nil _⟩, by simp⟩
  | @seqCons g gs i j k ns ms _ _ ih ih' =>
    rw [checked, allChecked, Bool.and_eq_true] at hg
    obtain ⟨⟨v, hv, hvn⟩, hs⟩ := ih hg.1
    obtain ⟨⟨w, hw, hwm⟩, hs'⟩ := ih' hg.2
    rw [words] at hw
    refine ⟨⟨v ++ w, ?_, codeNodes_append ns ms ▸ hvn.append hwm⟩, fun n hn => ?_⟩
    · rw [words, seqWords, List.mem_flatMap]
      exact ⟨v, hv, List.mem_map.2 ⟨w, hw, rfl⟩⟩
    · exact (List.mem_append.1 hn).elim (hs n) (hs' n)
  | choice hm _ ih =>
    rw [checked] at hg
    obtain ⟨⟨w, hw, hwn⟩, hs⟩ := ih (checked_of_mem hg hm)
    exact ⟨⟨w, by rw [words]; exact mem_choiceWords hm hw, hwn⟩, hs⟩
  | maybeSome _ ih =>
    obtain ⟨⟨w, hw, hwn⟩, hs⟩ := ih hg
    exact ⟨⟨w, by rw [words]; exact List.mem_cons_of_mem _ hw, hwn⟩, hs⟩
  | @manyCons g i j k ns ms _ _ ih ih' =>
    have star := (Bool.and_eq_true_iff.1 (show (checked σ g && Word.starCovers (words σ g)) = true from hg))
    obtain ⟨⟨v, hv, hvn⟩, hs⟩ := ih star.1
    obtain ⟨⟨w, hw, hwm⟩, hs'⟩ := ih' hg
    rw [words, List.mem_singleton] at hw
    subst hw
    refine ⟨⟨_, by simp [words], codeNodes_append ns ms ▸ Word.star_append star.2 hv hvn hwm⟩, fun n hn => ?_⟩
    exact (List.mem_append.1 hn).elim (hs n) (hs' n)
  | @node kind g i j ns _ ih =>
    rw [checked, Bool.and_eq_true, Bool.and_eq_true, Bool.not_eq_true'] at hg
    obtain ⟨⟨w, hw, hwn⟩, hs⟩ := ih hg.1.2
    obtain ⟨hfits, hshaped⟩ := shaped_made hg.1.1 (List.all_eq_true.1 hg.2 w hw) splitNodes_isComment
      (fun n hn => hs n (mem_splitNodes.2 (Or.inl hn))) (splitNodes_code i.next ns ▸ hwn)
      (fun n hn => hs n (mem_splitNodes.2 (Or.inr hn))) i.next j.stop
    exact ⟨⟨_, by simp [words], hfits⟩, hshaped⟩
  | @solid kind g i j ns _ ih =>
    rw [checked, Bool.and_eq_true, Bool.and_eq_true, Bool.not_eq_true'] at hg
    obtain ⟨-, hs⟩ := ih hg.1.2
    obtain ⟨hfits, hshaped⟩ := shaped_made hg.1.1 hg.2 splitNodes_isComment
      (fun n hn => hs n (mem_splitNodes.2 (Or.inl hn))) (show Fits [] (codeNodes []) from .nil) (by simp) i.next j.stop
    exact ⟨⟨_, by simp [words], hfits⟩, hshaped⟩
  | @role r g i j ns _ ih =>
    obtain ⟨⟨w, hw, hwn⟩, hs⟩ := ih hg
    refine ⟨⟨w.inRole r, by rw [words]; exact List.mem_map.2 ⟨w, hw, rfl⟩, ?_⟩, assignRole_shaped hs⟩
    rw [codeNodes_assignRole]
    exact hwn.inRole r
  | @ref s i j ns _ ih =>
    obtain ⟨hc, hcov⟩ := hrule s
    obtain ⟨⟨w, hw, hwn⟩, hs⟩ := ih hc
    obtain ⟨v, hv, hvw⟩ := hcov w hw
    exact ⟨⟨v, hv, Word.covers_fits hvw hwn⟩, hs⟩
  | among _ ih => exact ih hg
  | chainFirst _ ih =>
    rw [checked, Bool.and_eq_true] at hg
    obtain ⟨⟨w, hw, hwn⟩, hs⟩ := ih hg.1
    exact ⟨⟨w, by rw [words]; exact List.mem_append_left _ hw, hwn⟩, hs⟩
  | @chainLink first links l i j k ns ms _ hl _ ih ih' =>
    obtain ⟨⟨v, hv, hvn⟩, hs⟩ := ih hg
    rw [checked, Bool.and_eq_true] at hg
    obtain ⟨hk, hrest, hallow⟩ := linkChecked_of_mem hg.2 hl
    obtain ⟨⟨w, hw, hwm⟩, hs'⟩ := ih' hrest
    rw [words] at hv
    obtain ⟨v', hv', hvn'⟩ := leftWords_fits hv hvn l
    have all : ∀ n ∈ assignLeft l ns ++ ms, n.Shaped := fun n hn =>
      (List.mem_append.1 hn).elim (assignLeft_shaped hs n) (hs' n)
    have fits : Fits (v' ++ w) (codeNodes (splitNodes i.next (assignLeft l ns ++ ms)).2) := by
      rw [splitNodes_code, codeNodes_append]
      exact hvn'.append hwm
    obtain ⟨hfits, hshaped⟩ := shaped_made hk (hallow v' hv' w hw) splitNodes_isComment
      (fun n hn => all n (mem_splitNodes.2 (Or.inl hn))) fits (fun n hn => all n (mem_splitNodes.2 (Or.inr hn)))
      i.next k.stop
    refine ⟨⟨_, ?_, hfits⟩, hshaped⟩
    rw [words]
    exact List.mem_append_right _ (List.mem_map.2 ⟨l, hl, rfl⟩)

end Grammar

end CallLint
