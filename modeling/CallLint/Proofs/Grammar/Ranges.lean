/-
The byte ranges of the nodes that a grammar gives. When the tokens ascend (`TokensAfter`), so do the nodes: siblings
follow one another without overlap, no node is empty, and the children of a node lie between its ends (`InOrder`).
`Derives.ascends` says this of all derivations in grammars that make no node out of nothing (`wrapsText`).

A node starts at the next token and not at the comments before it, so the invariant also says where nodes start: all
nodes of a derivation start at the first token it takes, or later, but for comments that end before that token.
-/
import CallLint.Proofs.Grammar.Derivation

namespace CallLint

/-! ## Nodes and tokens in order -/

/-- nodes that follow one another between two offsets, none of them empty -/
def Between : Nat → List Node → Nat → Prop
  | lo, [], hi => lo ≤ hi
  | lo, n :: ns, hi => lo ≤ n.start ∧ n.start < n.stop ∧ Between n.stop ns hi

/-- the children of the node and of all nodes in it follow one another between the ends of their parent -/
inductive Node.InOrder : Node → Prop where
  | mk {kind : NodeKind} {role : Option Role} {start stop : Nat} {children : List Node} :
    Between start children stop → (∀ c ∈ children, c.InOrder) → InOrder (.mk kind role start stop children)

/-- tokens that follow one another from an offset on, each after the comments before it -/
def TokensAfter : Nat → List Token → Prop
  | _, [] => True
  | lo, t :: ts => Between lo (t.comments.map Comment.node) t.start ∧ t.start < t.stop ∧ TokensAfter t.stop ts

theorem Between.le {lo hi : Nat} {ns : List Node} (h : Between lo ns hi) : lo ≤ hi := by
  induction ns generalizing lo with
  | nil => exact h
  | cons n ns ih => exact h.1.trans (h.2.1.le.trans (ih h.2.2))

theorem Between.mono {lo lo' hi hi' : Nat} {ns : List Node} (h : Between lo ns hi) (hlo : lo' ≤ lo) (hhi : hi ≤ hi') :
    Between lo' ns hi' := by
  induction ns generalizing lo lo' with
  | nil => exact hlo.trans (le_trans h hhi)
  | cons n ns ih => exact ⟨hlo.trans h.1, h.2.1, ih h.2.2 le_rfl⟩

theorem Between.append {lo mid hi : Nat} {ns ms : List Node} (h : Between lo ns mid) (k : Between mid ms hi) :
    Between lo (ns ++ ms) hi := by
  induction ns generalizing lo with
  | nil => exact k.mono h le_rfl
  | cons n ns ih => exact ⟨h.1, h.2.1, ih h.2.2⟩

theorem Between.mem {lo hi : Nat} {ns : List Node} (h : Between lo ns hi) {n : Node} (hn : n ∈ ns) :
    lo ≤ n.start ∧ n.start < n.stop ∧ n.stop ≤ hi := by
  induction ns generalizing lo with
  | nil => simp at hn
  | cons m ns ih =>
    rcases List.mem_cons.1 hn with rfl | hn
    · exact ⟨h.1, h.2.1, h.2.2.le⟩
    · obtain ⟨h1, h2, h3⟩ := ih h.2.2 hn
      exact ⟨(h.1.trans h.2.1.le).trans h1, h2, h3⟩

theorem Between.sublist {lo hi : Nat} {ns ms : List Node} (h : Between lo ns hi) (hs : ms.Sublist ns) :
    Between lo ms hi := by
  induction hs generalizing lo with
  | slnil => exact h
  | cons n _ ih => exact (ih h.2.2).mono (h.1.trans h.2.1.le) le_rfl
  | cons_cons n _ ih => exact ⟨h.1, h.2.1, ih h.2.2⟩

theorem Node.InOrder.children {n : Node} (h : n.InOrder) : Between n.start n.children n.stop := by
  cases h with
  | mk hb _ => exact hb

theorem Node.InOrder.child {n c : Node} (h : n.InOrder) (hc : c ∈ n.children) : c.InOrder := by
  cases h with
  | mk _ hch => exact hch c hc

@[simp] theorem Comment.node_children (c : Comment) : c.node.children = [] := rfl

@[simp] theorem Comment.node_isComment (c : Comment) : c.node.isComment = true := by
  cases h : c.isLine <;> simp [Comment.node, Node.isComment, Node.kind, NodeKind.isComment, h]

/-- a node without children is in order when it is not empty -/
theorem Node.InOrder.of_leaf {n : Node} (hc : n.children = []) (h : n.start < n.stop) : n.InOrder := by
  obtain ⟨kind, role, start, stop, children⟩ := n
  obtain rfl : children = [] := hc
  exact .mk h.le (by simp)

/-! ## Roles do not matter -/

theorem start_withRole (r : Role) (n : Node) : (n.withRole r).start = n.start := by
  cases n; rfl

theorem stop_withRole (r : Role) (n : Node) : (n.withRole r).stop = n.stop := by
  cases n; rfl

theorem isComment_withRole (r : Role) (n : Node) : (n.withRole r).isComment = n.isComment := by
  cases n; rfl

theorem Node.InOrder.withRole {n : Node} (h : n.InOrder) (r : Role) : (n.withRole r).InOrder := by
  cases h with
  | mk hb hc => exact .mk hb hc

/-- the nodes of `assignRole` are those it was given, some in another role -/
theorem mem_assignRole {r : Role} {ns : List Node} {m : Node} (h : m ∈ assignRole r ns) :
    ∃ n ∈ ns, m = n ∨ m = n.withRole r := by
  obtain ⟨n, hn, rfl⟩ := List.mem_map.1 h
  refine ⟨n, hn, ?_⟩
  split_ifs
  · exact Or.inl rfl
  · exact Or.inr rfl

theorem Between.assignRole {lo hi : Nat} {ns : List Node} (h : Between lo ns hi) (r : Role) :
    Between lo (assignRole r ns) hi := by
  induction ns generalizing lo with
  | nil => exact h
  | cons n ns ih =>
    simp only [CallLint.assignRole, List.map_cons]
    split_ifs
    · exact ⟨h.1, h.2.1, ih h.2.2⟩
    · refine ⟨?_, ?_, ?_⟩
      · rw [start_withRole]; exact h.1
      · rw [start_withRole, stop_withRole]; exact h.2.1
      · rw [stop_withRole]; exact ih h.2.2

/-! ## New nodes -/

/-- the node starts at an offset or later, or is a comment before it -/
def Node.StartsFrom (a : Nat) (n : Node) : Prop :=
  (n.isComment = true ∧ n.stop ≤ a) ∨ a ≤ n.start

theorem Node.StartsFrom.withRole {a : Nat} {n : Node} (h : n.StartsFrom a) (r : Role) : (n.withRole r).StartsFrom a := by
  rw [StartsFrom, isComment_withRole, start_withRole, stop_withRole]
  exact h

/-- what nodes in a new node that starts at `a` must satisfy -/
structure Wrappable (lo a hi : Nat) (ns : List Node) : Prop where
  between : Between lo ns hi
  starts : ∀ n ∈ ns, n.StartsFrom a
  inOrder : ∀ n ∈ ns, n.InOrder

theorem Wrappable.tail {lo a hi : Nat} {n : Node} {ns : List Node} (h : Wrappable lo a hi (n :: ns)) :
    Wrappable n.stop a hi ns :=
  ⟨h.between.2.2, fun m hm => h.starts m (List.mem_cons_of_mem n hm),
    fun m hm => h.inOrder m (List.mem_cons_of_mem n hm)⟩

theorem Wrappable.assignRole {lo a hi : Nat} {ns : List Node} (h : Wrappable lo a hi ns) (r : Role) :
    Wrappable lo a hi (assignRole r ns) := by
  refine ⟨h.between.assignRole r, fun m hm => ?_, fun m hm => ?_⟩
  · obtain ⟨n, hn, rfl | rfl⟩ := mem_assignRole hm
    · exact h.starts _ hn
    · exact (h.starts n hn).withRole r
  · obtain ⟨n, hn, rfl | rfl⟩ := mem_assignRole hm
    · exact h.inOrder _ hn
    · exact (h.inOrder n hn).withRole r

/-- nodes without the comments before an offset, and those comments, in order -/
theorem Wrappable.split {lo a hi : Nat} {ns : List Node} (h : Wrappable lo a hi ns) (hlo : lo ≤ a) (hhi : a ≤ hi) :
    Between lo (splitNodes a ns).1 a ∧ Between a (splitNodes a ns).2 hi := by
  induction ns generalizing lo with
  | nil => exact ⟨hlo, hhi⟩
  | cons n ns ih =>
    simp only [splitNodes, List.takeWhile_cons, List.dropWhile_cons]
    split_ifs with hp
    · simp only [Bool.and_eq_true, decide_eq_true_eq] at hp
      obtain ⟨h1, h2⟩ := ih h.tail hp.1
      exact ⟨⟨h.between.1, h.between.2.1, h1⟩, h2⟩
    · refine ⟨hlo, ?_, h.between.2⟩
      rcases h.starts n List.mem_cons_self with hn | hn
      · simp [hn.1, hn.2] at hp
      · exact hn

theorem mem_splitNodes {a : Nat} {ns : List Node} {n : Node} :
    n ∈ ns ↔ n ∈ (splitNodes a ns).1 ∨ n ∈ (splitNodes a ns).2 := by
  rw [← List.mem_append, splitNodes, List.takeWhile_append_dropWhile]

/-- a node around the nodes that start at `a` or later, after the comments before it -/
theorem Wrappable.wrapped {lo a hi : Nat} {ns children : List Node} {kind : NodeKind} (h : Wrappable lo a hi ns)
    (hlo : lo ≤ a) (hhi : a < hi) (hc : Between a children hi) (hin : ∀ c ∈ children, c.InOrder) :
    Wrappable lo a hi ((splitNodes a ns).1 ++ [.mk kind none a hi children]) := by
  have hout {n : Node} (hn : n ∈ (splitNodes a ns).1) : n ∈ ns := mem_splitNodes.2 (Or.inl hn)
  refine ⟨(h.split hlo hhi.le).1.append ⟨le_rfl, hhi, le_rfl⟩, fun n hn => ?_, fun n hn => ?_⟩
  · rcases List.mem_append.1 hn with hn | hn
    · exact h.starts n (hout hn)
    · rw [List.mem_singleton] at hn
      subst hn
      exact Or.inr le_rfl
  · rcases List.mem_append.1 hn with hn | hn
    · exact h.inOrder n (hout hn)
    · rw [List.mem_singleton] at hn
      subst hn
      exact .mk hc hin

theorem Wrappable.wrap {lo a hi : Nat} {ns : List Node} (kind : NodeKind) (h : Wrappable lo a hi ns) (hlo : lo ≤ a)
    (hhi : a < hi) : Wrappable lo a hi (wrap kind a hi ns) :=
  h.wrapped hlo hhi (h.split hlo hhi.le).2 fun c hc => h.inOrder c (mem_splitNodes.2 (Or.inr hc))

/-! ## Tokens taken -/

/-- the token is the first of a list, or the first ones in one: it has the start and the comments of the first and the
end of the last of them. The rest is what follows them. -/
inductive Joined : List Token → Token → List Token → Prop
  | one (t : Token) (rest : List Token) : Joined (t :: rest) t rest
  | more {ts rest : List Token} {found last : Token} : Joined ts found (last :: rest) → ∀ kind,
    Joined ts ⟨kind, found.start, last.stop, found.comments⟩ rest

section

variable {ts rest : List Token} {found : Token}

/-- the last angle bracket has a start of its own and the comments before it, so those of the whole are kept apart -/
theorem takeAngles_joined {n start : Nat} {comments : List Comment} {last : Token} {after : List Token}
    (h : Joined ts ⟨last.kind, start, last.stop, comments⟩ after) (ht : takeAngles n last after = some (found, rest)) :
    Joined ts ⟨found.kind, start, found.stop, comments⟩ rest := by
  induction n generalizing last after with
  | zero =>
    cases ht
    exact h
  | succ n ih =>
    cases after with
    | nil => cases ht
    | cons t after =>
      rw [takeAngles] at ht
      split_ifs at ht
      let next : Token := { t with start := last.start }
      have whole : Joined ts ⟨next.kind, start, next.stop, comments⟩ after := h.more t.kind
      exact ih whole ht

theorem takeOperator_joined {t : Token} {count : Nat} {equals : Bool}
    (ht : Terminal.takeOperator count equals t ts = some (found, rest)) : Joined (t :: ts) found rest := by
  simp only [Terminal.takeOperator] at ht
  split at ht
  · cases ht
  split at ht
  · cases ht
  rename_i last more hangles
  have whole := takeAngles_joined (.one t ts) hangles
  cases equals with
  | true =>
    rw [if_pos rfl] at ht
    split at ht
    · split_ifs at ht
      cases ht
      exact whole.more last.kind
    · cases ht
  | false =>
    rw [if_neg Bool.false_ne_true] at ht
    split_ifs at ht
    cases ht
    exact whole

/-- a terminal takes tokens from the front and gives them as one -/
theorem Terminal.take_joined {terminal : Terminal} (ht : terminal.take ts = some (found, rest)) :
    Joined ts found rest := by
  cases ts with
  | nil => cases ht
  | cons t ts =>
    have head {p : Prop} [Decidable p] (ht : (if p then some (t, ts) else none) = some (found, rest)) :
        Joined (t :: ts) found rest := by
      split_ifs at ht
      cases ht
      exact .one _ _
    cases terminal with
    | word text => exact head ht
    | mark text => exact head ht
    | kind k => exact head ht
    | name excluded =>
      simp only [take] at ht
      split at ht
      · split_ifs at ht
        cases ht
        exact .one _ _
      · cases ht
    | oneOf texts =>
      simp only [take] at ht
      split at ht
      · exact head ht
      · cases ht
    | angles count equals => exact takeOperator_joined ht
    | nonSealed =>
      simp only [take] at ht
      split at ht
      · rename_i hyphen last more
        split_ifs at ht
        cases ht
        exact ((Joined.one t _).more t.kind).more t.kind
      · cases ht

theorem Joined.subset (h : Joined ts found rest) : rest ⊆ ts := by
  induction h with
  | one t rest => exact List.subset_cons_self t rest
  | more _ _ ih => exact List.Subset.trans (List.subset_cons_self _ _) ih

/-- the token starts with the next token and ends before the rest -/
structure TokenTaken (lo : Nat) (ts : List Token) (found : Token) (rest : List Token) : Prop where
  comments : Between lo (found.comments.map Comment.node) found.start
  nonempty : found.start < found.stop
  rest : TokensAfter found.stop rest
  first : ∀ stop, Input.next ⟨ts, stop⟩ = found.start

theorem Joined.taken {lo : Nat} (h : Joined ts found rest) (hts : TokensAfter lo ts) : TokenTaken lo ts found rest := by
  induction h with
  | one t rest => exact ⟨hts.1, hts.2.1, hts.2.2, fun _ => rfl⟩
  | more _ kind ih =>
    obtain ⟨before, nonempty, after⟩ := (ih hts).rest
    exact ⟨(ih hts).comments, (ih hts).nonempty.trans_le (before.le.trans nonempty.le), after, (ih hts).first⟩

end

/-! ## Derivations -/

theorem Input.stop_le_next {i : Input} (h : TokensAfter i.stop i.rest) : i.stop ≤ i.next := by
  obtain ⟨rest, stop⟩ := i
  cases rest with
  | nil => exact le_rfl
  | cons t ts => exact h.1.le

/-- tokens were taken from `i` to `j`, and the nodes lie between them -/
structure Took (i : Input) (ns : List Node) (j : Input) : Prop where
  tokens : TokensAfter j.stop j.rest
  past : i.next < j.stop
  nodes : Wrappable i.stop i.next j.stop ns

/-- nothing was taken, or tokens were taken -/
def Advances (i : Input) (ns : List Node) (j : Input) : Prop :=
  (j = i ∧ ns = []) ∨ Took i ns j

theorem Advances.nothing (i : Input) : Advances i [] i :=
  Or.inl ⟨rfl, rfl⟩

theorem Advances.tokens {i j : Input} {ns : List Node} (h : Advances i ns j) (hi : TokensAfter i.stop i.rest) :
    TokensAfter j.stop j.rest := by
  rcases h with ⟨rfl, -⟩ | h
  · exact hi
  · exact h.tokens

theorem Advances.stop_le {i j : Input} {ns : List Node} (h : Advances i ns j) (hi : TokensAfter i.stop i.rest) :
    i.stop ≤ j.stop := by
  rcases h with ⟨rfl, -⟩ | h
  · exact le_rfl
  · exact (Input.stop_le_next hi).trans h.past.le

theorem Advances.next_le {i j : Input} {ns : List Node} (h : Advances i ns j) (hi : TokensAfter i.stop i.rest) :
    i.next ≤ j.next := by
  rcases h with ⟨rfl, -⟩ | h
  · exact le_rfl
  · exact h.past.le.trans (Input.stop_le_next h.tokens)

theorem Advances.took {i j : Input} {ns : List Node} (h : Advances i ns j) (hp : i.next < j.stop)
    (hi : TokensAfter i.stop i.rest) : Took i ns j := by
  rcases h with ⟨rfl, -⟩ | h
  · cases hr : j.rest with
    | nil => simp [Input.next, hr] at hp
    | cons t ts =>
      have := Input.stop_le_next hi
      omega
  · exact h

theorem Took.append {i j k : Input} {ns ms : List Node} (h : Took i ns j) (h' : Took j ms k) : Took i (ns ++ ms) k := by
  have hj : j.stop < k.stop := (Input.stop_le_next h.tokens).trans_lt h'.past
  refine ⟨h'.tokens, h.past.trans hj, h.nodes.between.append h'.nodes.between, fun n hn => ?_, fun n hn => ?_⟩
  · rcases List.mem_append.1 hn with hn | hn
    · exact h.nodes.starts n hn
    · exact Or.inr (h.past.le.trans (h'.nodes.between.mem hn).1)
  · rcases List.mem_append.1 hn with hn | hn
    · exact h.nodes.inOrder n hn
    · exact h'.nodes.inOrder n hn

theorem Advances.append {i j k : Input} {ns ms : List Node} (h : Advances i ns j) (h' : Advances j ms k) :
    Advances i (ns ++ ms) k := by
  rcases h with ⟨rfl, rfl⟩ | h
  · exact h'
  · rcases h' with ⟨rfl, rfl⟩ | h'
    · exact Or.inr (by simpa using h)
    · exact Or.inr (h.append h')

theorem Took.of_token {i : Input} {found : Token} {rest : List Token} {ns : List Node}
    (h : TokenTaken i.stop i.rest found rest) (hb : Between found.start ns found.stop) (hin : ∀ n ∈ ns, n.InOrder) :
    Took i (found.comments.map Comment.node ++ ns) ⟨rest, found.stop⟩ := by
  have hnext : i.next = found.start := h.first i.stop
  have hcomment {n : Node} (hn : n ∈ found.comments.map Comment.node) : n.isComment = true ∧ n.children = [] := by
    obtain ⟨c, -, rfl⟩ := List.mem_map.1 hn
    exact ⟨c.node_isComment, c.node_children⟩
  refine ⟨h.rest, hnext ▸ h.nonempty, h.comments.append hb, fun n hn => ?_, fun n hn => ?_⟩
  · rw [hnext]
    rcases List.mem_append.1 hn with hn | hn
    · exact Or.inl ⟨(hcomment hn).1, (h.comments.mem hn).2.2⟩
    · exact Or.inr (hb.mem hn).1
  · rcases List.mem_append.1 hn with hn | hn
    · exact .of_leaf (hcomment hn).2 (h.comments.mem hn).2.1
    · exact hin n hn

theorem Took.wrap {i j : Input} {ns : List Node} (h : Took i ns j) (hi : TokensAfter i.stop i.rest) (kind : NodeKind) :
    Took i (wrap kind i.next j.stop ns) j :=
  ⟨h.tokens, h.past, h.nodes.wrap kind (Input.stop_le_next hi) h.past⟩

namespace Grammar

/-! ## Grammars that make no node out of nothing -/

mutual

/-- whether a grammar may take nothing; `empty` says it of nonterminals -/
def mayTakeNothing (empty : Symbol → Bool) : Grammar → Bool
  | token _ => false
  | leaf _ _ => false
  | seq parts => allMayTakeNothing empty parts
  | choice options => anyMayTakeNothing empty options
  | maybe _ => true
  | many _ => true
  | node _ g => mayTakeNothing empty g
  | solid _ g => mayTakeNothing empty g
  | role _ g => mayTakeNothing empty g
  | ref s => empty s
  | ahead _ => true
  | notAhead _ => true
  | among _ g => mayTakeNothing empty g
  | aheadArrow => true
  | commit => true
  | chain first _ => mayTakeNothing empty first
termination_by structural g => g

def allMayTakeNothing (empty : Symbol → Bool) : List Grammar → Bool
  | [] => true
  | g :: gs => mayTakeNothing empty g && allMayTakeNothing empty gs
termination_by structural gs => gs

def anyMayTakeNothing (empty : Symbol → Bool) : List Grammar → Bool
  | [] => false
  | g :: gs => mayTakeNothing empty g || anyMayTakeNothing empty gs
termination_by structural gs => gs

end

mutual

/-- whether all nodes that a grammar makes hold a token; only nonterminals that are `known` may occur -/
def wrapsText (empty known : Symbol → Bool) : Grammar → Bool
  | token _ => true
  | leaf _ _ => true
  | seq parts => allWrapText empty known parts
  | choice options => allWrapText empty known options
  | maybe g => wrapsText empty known g
  | many g => wrapsText empty known g
  | node _ g => !mayTakeNothing empty g && wrapsText empty known g
  | solid _ g => !mayTakeNothing empty g && wrapsText empty known g
  | role _ g => wrapsText empty known g
  | ref s => known s
  | ahead _ => true
  | notAhead _ => true
  | among _ g => wrapsText empty known g
  | aheadArrow => true
  | commit => true
  | chain first links => !mayTakeNothing empty first && wrapsText empty known first && linksWrapText empty known links
termination_by structural g => g

def allWrapText (empty known : Symbol → Bool) : List Grammar → Bool
  | [] => true
  | g :: gs => wrapsText empty known g && allWrapText empty known gs
termination_by structural gs => gs

def linksWrapText (empty known : Symbol → Bool) : List (Link Grammar) → Bool
  | [] => true
  | l :: ls => linkWrapsText empty known l && linksWrapText empty known ls
termination_by structural ls => ls

def linkWrapsText (empty known : Symbol → Bool) : Link Grammar → Bool
  | ⟨_, _, _, rest⟩ => wrapsText empty known rest
termination_by structural l => l

end

/-- the rules of all known nonterminals wrap text, and `empty` covers those that may take nothing -/
def RulesWrapText (rule : Symbol → Grammar) (empty known : Symbol → Bool) : Prop :=
  ∀ s, known s = true →
    wrapsText empty known (rule s) = true ∧ (mayTakeNothing empty (rule s) = true → empty s = true)

variable {rule : Symbol → Grammar} {empty known : Symbol → Bool}

theorem wrapsText_of_mem {gs : List Grammar} (h : allWrapText empty known gs = true) {g : Grammar} (hg : g ∈ gs) :
    wrapsText empty known g = true := by
  induction gs with
  | nil => simp at hg
  | cons g' gs ih =>
    rw [allWrapText, Bool.and_eq_true] at h
    rcases List.mem_cons.1 hg with rfl | hg
    · exact h.1
    · exact ih h.2 hg

theorem linkWrapsText_of_mem {ls : List (Link Grammar)} (h : linksWrapText empty known ls = true) {l : Link Grammar}
    (hl : l ∈ ls) : wrapsText empty known l.rest = true := by
  induction ls with
  | nil => simp at hl
  | cons l' ls ih =>
    rw [linksWrapText, Bool.and_eq_true] at h
    rcases List.mem_cons.1 hl with rfl | hl
    · cases l
      exact h.1
    · exact ih h.2 hl

theorem not_mayTakeNothing_of_mem {gs : List Grammar} (h : anyMayTakeNothing empty gs = false) {g : Grammar}
    (hg : g ∈ gs) : mayTakeNothing empty g = false := by
  induction gs with
  | nil => simp at hg
  | cons g' gs ih =>
    rw [anyMayTakeNothing, Bool.or_eq_false_iff] at h
    rcases List.mem_cons.1 hg with rfl | hg
    · exact h.1
    · exact ih h.2 hg

/-- what is shown of a derivation: it advances, and takes something when its grammar must -/
def Ascends (empty : Symbol → Bool) (g : Grammar) (i : Input) (ns : List Node) (j : Input) : Prop :=
  Advances i ns j ∧ (mayTakeNothing empty g = false → i.next < j.stop)

theorem Ascends.took {g : Grammar} {i j : Input} {ns : List Node} (h : Ascends empty g i ns j)
    (hg : (!mayTakeNothing empty g) = true) (hi : TokensAfter i.stop i.rest) : Took i ns j :=
  h.1.took (h.2 (by simpa using hg)) hi

theorem Ascends.of_took {g : Grammar} {i j : Input} {ns : List Node} (h : Took i ns j) : Ascends empty g i ns j :=
  ⟨Or.inr h, fun _ => h.past⟩

theorem assignLeft_wrappable {lo a hi : Nat} {ns : List Node} (h : Wrappable lo a hi ns) (l : Link Grammar) :
    Wrappable lo a hi (assignLeft l ns) := by
  unfold assignLeft
  split
  · exact h
  · exact h.assignRole _

/-- **Nodes ascend.** A derivation over ascending tokens gives nodes that follow one another in the order of the text
and whose children do so inside them. -/
theorem Derives.ascends (hrule : RulesWrapText rule empty known) {g : Grammar} {i j : Input} {ns : List Node}
    (h : Derives rule g i ns j) (hg : wrapsText empty known g = true) (hi : TokensAfter i.stop i.rest) :
    Ascends empty g i ns j := by
  induction h with
  | token ht =>
    have taken := (Terminal.take_joined ht).taken hi
    have took := Took.of_token taken (show Between _ [] _ from taken.nonempty.le) (fun n hn => by simp at hn)
    rw [List.append_nil] at took
    exact .of_took took
  | leaf ht =>
    have taken := (Terminal.take_joined ht).taken hi
    refine .of_took (.of_token taken ⟨le_rfl, taken.nonempty, le_rfl⟩ fun n hn => ?_)
    rw [List.mem_singleton] at hn
    subst hn
    exact .of_leaf rfl taken.nonempty
  | seqNil | maybeNone | manyNil | ahead | notAhead | aheadArrow | commit =>
    exact ⟨.nothing _, by simp [mayTakeNothing, allMayTakeNothing]⟩
  | @seqCons g gs i j k ns ms _ _ ih ih' =>
    rw [wrapsText, allWrapText, Bool.and_eq_true] at hg
    have first := ih hg.1 hi
    have rest := ih' hg.2 (first.1.tokens hi)
    refine ⟨first.1.append rest.1, fun hn => ?_⟩
    rw [mayTakeNothing, allMayTakeNothing, Bool.and_eq_false_iff] at hn
    rcases hn with hn | hn
    · exact (first.2 hn).trans_le (rest.1.stop_le (first.1.tokens hi))
    · exact (first.1.next_le hi).trans_lt (rest.2 hn)
  | choice hm _ ih =>
    rw [wrapsText] at hg
    have h := ih (wrapsText_of_mem hg hm) hi
    refine ⟨h.1, fun hn => h.2 ?_⟩
    rw [mayTakeNothing] at hn
    exact not_mayTakeNothing_of_mem hn hm
  | maybeSome _ ih => exact ⟨(ih hg hi).1, by simp [mayTakeNothing]⟩
  | manyCons _ _ ih ih' =>
    have first := ih hg hi
    exact ⟨first.1.append (ih' hg (first.1.tokens hi)).1, by simp [mayTakeNothing]⟩
  | node _ ih =>
    rw [wrapsText, Bool.and_eq_true] at hg
    exact .of_took (((ih hg.2 hi).took hg.1 hi).wrap hi _)
  | solid _ ih =>
    rw [wrapsText, Bool.and_eq_true] at hg
    have took := (ih hg.2 hi).took hg.1 hi
    exact .of_took ⟨took.tokens, took.past,
      took.nodes.wrapped (Input.stop_le_next hi) took.past took.past.le (by simp)⟩
  | role _ ih =>
    have h := ih hg hi
    refine ⟨?_, h.2⟩
    rcases h.1 with ⟨rfl, rfl⟩ | took
    · exact .nothing _
    · exact Or.inr ⟨took.tokens, took.past, took.nodes.assignRole _⟩
  | ref _ ih =>
    obtain ⟨hw, hn⟩ := hrule _ hg
    have h := ih hw hi
    refine ⟨h.1, fun he => h.2 ?_⟩
    rw [mayTakeNothing] at he
    by_contra hc
    simp [hn (by simpa using hc)] at he
  | among _ ih => exact ih hg hi
  | chainFirst _ ih =>
    rw [wrapsText, Bool.and_eq_true, Bool.and_eq_true] at hg
    exact ih hg.1.2 hi
  | @chainLink first links l i j k ns ms _ hl _ ih ih' =>
    have took := (ih hg hi).took (by rw [wrapsText, Bool.and_eq_true, Bool.and_eq_true] at hg; exact hg.1.1) hi
    rw [wrapsText, Bool.and_eq_true] at hg
    have all : Took i (assignLeft l ns ++ ms) k := by
      have left : Took i (assignLeft l ns) j := ⟨took.tokens, took.past, assignLeft_wrappable took.nodes l⟩
      rcases (ih' (linkWrapsText_of_mem hg.2 hl) took.tokens).1 with ⟨rfl, rfl⟩ | right
      · simpa using left
      · exact left.append right
    exact .of_took (all.wrap hi l.kind)

end Grammar

end CallLint
