/-
Names start with words. The grammar gives the role of a name only to nodes that start where a word does, which is
checked of all rules (`namesWords`) and carried to all derivations (`Derives.names_start`). Where a word starts there is
a letter or a sign like one in the text, and no angle bracket: the cursor of the scan has the characters of the text
from its offset on (`Cursor.At`).

So no name in a tree reads `<init>`, which stands for constructors (`Source.tree_name`).
-/
import CallLint.Proofs.Grammar.Trees
import CallLint.Proofs.Layout.Texts

namespace CallLint

open Text (Glyph)

/-- whether only words fit -/
def Terminal.isWord : Terminal → Bool
  | .word _ | .name _ | .oneOf _ => true
  | _ => false

/-- a terminal that only words fit takes a word from the front -/
theorem Terminal.take_word {terminal : Terminal} (hw : terminal.isWord = true) {ts rest : List Token} {found : Token}
    (h : terminal.take ts = some (found, rest)) : ts = found :: rest ∧ found.kind.isWord = true := by
  cases ts with
  | nil => cases h
  | cons t ts =>
    cases terminal with
    | word text =>
      simp only [take] at h
      split_ifs at h with hk
      cases h
      rw [beq_iff_eq] at hk
      exact ⟨rfl, by rw [hk]; rfl⟩
    | name excluded =>
      simp only [take] at h
      split at h
      · rename_i hk
        split_ifs at h
        cases h
        exact ⟨rfl, by rw [hk]; rfl⟩
      · cases h
    | oneOf texts =>
      simp only [take] at h
      split at h
      · rename_i hk
        split_ifs at h
        cases h
        exact ⟨rfl, by rw [hk]; rfl⟩
      · cases h
    | _ => cases hw

namespace Grammar

/-! ## Grammars of names -/

/-- whether the first token is a word -/
def startsWithWord : Grammar → Bool
  | seq (token t :: _) => t.isWord
  | _ => false

mutual

/-- whether each node that the grammar makes starts with a word -/
def makesWords : Grammar → Bool
  | leaf _ t => t.isWord
  | solid _ g => startsWithWord g
  | seq parts => allMakeWords parts
  | choice options => allMakeWords options
  | notAhead _ => true
  | _ => false
termination_by structural g => g

def allMakeWords : List Grammar → Bool
  | [] => true
  | g :: gs => makesWords g && allMakeWords gs
termination_by structural gs => gs

end

mutual

/-- whether all nodes that the grammar gives the role of a name start with a word -/
def namesWords : Grammar → Bool
  | token _ => true
  | leaf _ _ => true
  | seq parts => allNameWords parts
  | choice options => allNameWords options
  | maybe g => namesWords g
  | many g => namesWords g
  | node _ g => namesWords g
  | solid _ g => namesWords g
  | role r g => (r != .name || makesWords g) && namesWords g
  | ref _ => true
  | ahead _ => true
  | notAhead _ => true
  | among _ g => namesWords g
  | aheadArrow => true
  | commit => true
  | chain first links => namesWords first && linksNameWords links
termination_by structural g => g

def allNameWords : List Grammar → Bool
  | [] => true
  | g :: gs => namesWords g && allNameWords gs
termination_by structural gs => gs

def linksNameWords : List (Link Grammar) → Bool
  | [] => true
  | l :: ls => linkNamesWords l && linksNameWords ls
termination_by structural ls => ls

def linkNamesWords : Link Grammar → Bool
  | ⟨_, _, left, rest⟩ => left != some .name && namesWords rest
termination_by structural l => l

end

theorem allMakeWords_iff {gs : List Grammar} : allMakeWords gs = true ↔ ∀ g ∈ gs, makesWords g = true := by
  induction gs with
  | nil => simp [allMakeWords]
  | cons g gs ih => simp [allMakeWords, ih]

theorem allNameWords_iff {gs : List Grammar} : allNameWords gs = true ↔ ∀ g ∈ gs, namesWords g = true := by
  induction gs with
  | nil => simp [allNameWords]
  | cons g gs ih => simp [allNameWords, ih]

theorem linksNameWords_iff {ls : List (Link Grammar)} :
    linksNameWords ls = true ↔ ∀ l ∈ ls, l.role ≠ some .name ∧ namesWords l.rest = true := by
  induction ls with
  | nil => simp [linksNameWords]
  | cons l ls ih =>
    obtain ⟨lefts, kind, left, rest⟩ := l
    simp [linksNameWords, linkNamesWords, ih]

/-- all rules give the role of a name to words only -/
theorem rules_nameWords (s : Symbol) : namesWords s.rule = true := by
  cases s with
  | operand arrow signs => cases arrow <;> cases signs <;> decide
  | expression level arrow signs =>
    have all : ∀ arrow, linksNameWords ((operatorLinks arrow).map (·.2)) = true := by
      intro arrow
      cases arrow <;> decide
    change (true && linksNameWords _) = true
    rw [Bool.true_and, linksNameWords_iff]
    exact fun l hl => linksNameWords_iff.1 (all arrow) l (expressionAt_links level arrow hl)
  | _ => decide

/-! ## Derivations -/

/-- words start where the property holds -/
def WordsAt (starts : Nat → Prop) (ts : List Token) : Prop :=
  ∀ t ∈ ts, t.kind.isWord = true → starts t.start

theorem WordsAt.mono {starts : Nat → Prop} {ts rest : List Token} (h : WordsAt starts ts) (hr : rest ⊆ ts) :
    WordsAt starts rest :=
  fun t ht => h t (hr ht)

variable {rule : Symbol → Grammar} {starts : Nat → Prop} {g : Grammar} {i j : Input} {ns : List Node}

/-- what is left after a derivation was there before it -/
theorem Derives.rest_subset (h : Derives rule g i ns j) : j.rest ⊆ i.rest := by
  induction h with
  | token ht | leaf ht => exact (Terminal.take_joined ht).subset
  | seqNil | maybeNone | manyNil | ahead | notAhead | aheadArrow | commit => exact List.Subset.refl _
  | seqCons _ _ ih ih' | manyCons _ _ ih ih' | chainLink _ _ _ ih ih' => exact List.Subset.trans ih' ih
  | choice _ _ ih | maybeSome _ ih | node _ ih | solid _ ih | role _ ih | ref _ ih | among _ ih | chainFirst _ ih =>
    exact ih

theorem Derives.next_word (h : Derives rule g i ns j) (hg : startsWithWord g = true) (hi : WordsAt starts i.rest) :
    starts i.next := by
  unfold startsWithWord at hg
  split at hg
  · cases h with
    | seqCons first _ =>
      cases first with
      | token ht =>
        obtain ⟨hrest, hword⟩ := Terminal.take_word hg ht
        rw [hrest] at hi
        rw [Input.next, hrest]
        exact hi _ List.mem_cons_self hword
  · cases hg

/-- the nodes of a grammar of words start with words -/
theorem Derives.words_start (h : Derives rule g i ns j) (hg : makesWords g = true) (hi : WordsAt starts i.rest) :
    ∀ n ∈ ns, n.isComment = false → starts n.start := by
  induction h with
  | @leaf kind t i found rest ht =>
    intro n hn hcode
    rcases List.mem_append.1 hn with hn | hn
    · rw [comments_isComment found.comments n hn] at hcode
      cases hcode
    · obtain rfl := List.mem_singleton.1 hn
      obtain ⟨hrest, hword⟩ := Terminal.take_word hg ht
      exact hi found (hrest ▸ List.mem_cons_self) hword
  | solid inside =>
    intro n hn hcode
    rcases List.mem_append.1 hn with hn | hn
    · rw [splitNodes_isComment n hn] at hcode
      cases hcode
    · obtain rfl := List.mem_singleton.1 hn
      exact inside.next_word hg hi
  | seqNil | notAhead => simp
  | seqCons first _ ih ih' =>
    rw [makesWords, allMakeWords, Bool.and_eq_true] at hg
    intro n hn
    exact (List.mem_append.1 hn).elim (ih hg.1 hi n) (ih' hg.2 (hi.mono first.rest_subset) n)
  | choice hmem _ ih =>
    rw [makesWords] at hg
    exact ih (allMakeWords_iff.1 hg _ hmem) hi
  | _ => simp [makesWords] at hg

/-- the nodes in the node that have the role of a name start where the property holds -/
def NamesAt (starts : Nat → Prop) (n : Node) : Prop :=
  ∀ m ∈ n.within, m.role = some .name → starts m.start

theorem NamesAt.mk {kind : NodeKind} {role : Option Role} {start stop : Nat} {children : List Node}
    (hrole : role = some .name → starts start) (h : ∀ c ∈ children, NamesAt starts c) :
    NamesAt starts (.mk kind role start stop children) := by
  intro m hm hname
  rcases Node.mem_within_iff.1 hm with rfl | ⟨c, hc, hm⟩
  · exact hrole hname
  · exact h c hc m hm hname

theorem NamesAt.withRole {n : Node} (h : NamesAt starts n) {r : Role} (hr : r = .name → starts n.start) :
    NamesAt starts (n.withRole r) := by
  obtain ⟨kind, role, start, stop, children⟩ := n
  refine .mk (fun hrole => hr (Option.some.inj hrole)) fun c hc m hm => h m ?_
  exact Node.mem_within_iff.2 (.inr ⟨c, hc, hm⟩)

theorem namesAt_comments (cs : List Comment) : ∀ n ∈ cs.map Comment.node, NamesAt starts n := by
  intro n hn
  obtain ⟨c, -, rfl⟩ := List.mem_map.1 hn
  exact .mk nofun (by simp)

/-- nodes that get a role, as names only where the property holds -/
theorem namesAt_assignRole {r : Role} (h : ∀ n ∈ ns, NamesAt starts n)
    (hr : r = .name → ∀ n ∈ ns, n.isComment = false → starts n.start) : ∀ n ∈ assignRole r ns, NamesAt starts n := by
  intro m hm
  obtain ⟨n, hn, rfl⟩ := List.mem_map.1 hm
  split_ifs with hold
  · exact h n hn
  · rw [Bool.or_eq_true, not_or, Bool.not_eq_true] at hold
    exact (h n hn).withRole fun hname => hr hname n hn hold.1

theorem namesAt_wrap {kind : NodeKind} {start stop : Nat} (h : ∀ n ∈ ns, NamesAt starts n) :
    ∀ n ∈ wrap kind start stop ns, NamesAt starts n := by
  intro n hn
  rcases List.mem_append.1 hn with hn | hn
  · exact h n (mem_splitNodes.2 (.inl hn))
  · obtain rfl := List.mem_singleton.1 hn
    exact .mk nofun fun c hc => h c (mem_splitNodes.2 (.inr hc))

/-- **Names start with words** in all nodes of a derivation, when words start where the property holds. -/
theorem Derives.names_start (hrule : ∀ s, namesWords (rule s) = true) (h : Derives rule g i ns j)
    (hg : namesWords g = true) (hi : WordsAt starts i.rest) : ∀ n ∈ ns, NamesAt starts n := by
  induction h with
  | token => exact namesAt_comments _
  | leaf =>
    intro n hn
    rcases List.mem_append.1 hn with hn | hn
    · exact namesAt_comments _ n hn
    · obtain rfl := List.mem_singleton.1 hn
      exact .mk nofun (by simp)
  | seqNil | maybeNone | manyNil | ahead | notAhead | aheadArrow | commit => simp
  | seqCons first _ ih ih' =>
    rw [namesWords, allNameWords, Bool.and_eq_true] at hg
    intro n hn
    exact (List.mem_append.1 hn).elim (ih hg.1 hi n) (ih' hg.2 (hi.mono first.rest_subset) n)
  | choice hmem _ ih =>
    rw [namesWords] at hg
    exact ih (allNameWords_iff.1 hg _ hmem) hi
  | manyCons first _ ih ih' =>
    intro n hn
    exact (List.mem_append.1 hn).elim (ih hg hi n) (ih' hg (hi.mono first.rest_subset) n)
  | node _ ih => exact namesAt_wrap (ih hg hi)
  | solid _ ih =>
    intro n hn
    rcases List.mem_append.1 hn with hn | hn
    · exact ih hg hi n (mem_splitNodes.2 (.inl hn))
    · obtain rfl := List.mem_singleton.1 hn
      exact .mk nofun (by simp)
  | @role r g i j ns inside ih =>
    rw [namesWords, Bool.and_eq_true, Bool.or_eq_true, bne_iff_ne] at hg
    refine namesAt_assignRole (ih hg.2 hi) fun hname => ?_
    exact inside.words_start (hg.1.resolve_left (not_not.2 hname)) hi
  | ref _ ih => exact ih (hrule _) hi
  | maybeSome _ ih | among _ ih => exact ih hg hi
  | chainFirst _ ih =>
    rw [namesWords, Bool.and_eq_true] at hg
    exact ih hg.1 hi
  | @chainLink first links l i j k ns ms before hl _ ih ih' =>
    have left := ih hg hi
    rw [namesWords, Bool.and_eq_true] at hg
    obtain ⟨hrole, hrest⟩ := linksNameWords_iff.1 hg.2 l hl
    refine namesAt_wrap fun n hn => ?_
    rcases List.mem_append.1 hn with hn | hn
    · rw [assignLeft] at hn
      split at hn
      · exact left n hn
      · rename_i r hr
        exact namesAt_assignRole left (fun hname => absurd (hname ▸ hr) hrole) n hn
    · exact ih' hrest (hi.mono before.rest_subset) n hn

end Grammar

/-! ## Characters at offsets -/

namespace Text

theorem glyphsFrom_eq (acc : Array Glyph) (skip : Nat) (bytes : List UInt8) :
    (glyphsFrom acc skip bytes).toList = acc.toList ++ glyphs (bytes.drop skip) := by
  induction bytes generalizing acc skip with
  | nil => simp [glyphsFrom, glyphs]
  | cons b rest ih =>
    cases skip with
    | succ skip => exact ih acc skip
    | zero =>
      rw [List.drop_zero, glyphs, glyphsFrom, glyphsFrom]
      split
      · rw [ih, ih]
        simp
      · rw [ih, ih]
        simp

/-- the first character, or what stands for it -/
def firstGlyph (bytes : List UInt8) : Glyph :=
  (readGlyph bytes).getD ⟨replacement, 1⟩

/-- the characters of a text are the first one and those of the bytes after it -/
theorem glyphs_cons (b : UInt8) (rest : List UInt8) :
    glyphs (b :: rest) = firstGlyph (b :: rest) :: glyphs ((b :: rest).drop (firstGlyph (b :: rest)).width) := by
  rw [glyphs, glyphsFrom, firstGlyph]
  cases hg : readGlyph (b :: rest) with
  | none => simp [glyphsFrom_eq]
  | some g =>
    obtain ⟨w, hw⟩ : ∃ w, g.width = w + 1 := Nat.exists_eq_succ_of_ne_zero (Nat.ne_of_gt (readGlyph_width hg))
    simp [glyphsFrom_eq, hw]

/-- an opening angle bracket of one byte is the byte 60 -/
theorem readGlyph_angle {b : UInt8} {rest : List UInt8} {g : Glyph} (h : readGlyph (b :: rest) = some g)
    (hchar : g.char = '<') (hwidth : g.width = 1) : b = 60 := by
  have ascii {n : Nat} (hn : n < 128) (hc : Char.ofNat n = '<') : n = 60 := by
    have valid : n.isValidChar := .inl (by omega)
    rw [Char.ofNat, dif_pos valid] at hc
    exact congrArg Char.toNat hc
  by_cases hb : b < 0x80
  · rw [readGlyph.eq_def] at h
    dsimp only at h
    rw [if_pos hb] at h
    obtain rfl := Option.some.inj h
    exact UInt8.toNat_inj.1 (ascii hb hchar)
  · -- characters beyond take more than one byte
    rw [readGlyph.eq_def] at h
    dsimp only at h
    rw [if_neg hb] at h
    repeat' split at h
    all_goals first
      | (cases h; done)
      | (obtain rfl := Option.some.inj h; simp at hwidth)

/-- a text that starts with an angle bracket is one of bytes that do -/
theorem decode?_angle {bytes : List UInt8} {text : String} {cs : List Char} (h : decode? bytes = some text)
    (ht : text.toList = '<' :: cs) : bytes[0]? = some 60 := by
  rw [decode?] at h
  split_ifs at h with hwhole
  obtain rfl := Option.some.inj h
  rw [String.toList_ofList] at ht
  cases bytes with
  | nil => simp [glyphs, glyphsFrom] at ht
  | cons b rest =>
    rw [glyphs_cons, List.map_cons] at ht
    rw [glyphs_cons, List.all_cons, Bool.and_eq_true, beq_iff_eq] at hwhole
    obtain ⟨hchar, -⟩ := List.cons_eq_cons.1 ht
    rw [hchar] at hwhole
    rw [firstGlyph] at hchar hwhole
    cases hread : readGlyph (b :: rest) with
    | none =>
      rw [hread] at hchar
      exact absurd hchar (by decide)
    | some g =>
      rw [hread] at hchar hwhole
      rw [List.getElem?_cons_zero, readGlyph_angle hread hchar hwhole.1.symm]

end Text

/-! ## Words in the text -/

/-- no angle bracket opens at the offset -/
def Source.NoAngleAt (s : Source) (offset : Nat) : Prop :=
  s.bytes[offset]? ≠ some 60

/-- the cursor has the characters of the text from its offset on -/
def Cursor.At (c : Cursor) (s : Source) : Prop :=
  c.rest = Text.glyphs (s.bytes.toList.drop c.offset)

theorem Cursor.At.advance {c : Cursor} {s : Source} (h : c.At s) (n : Nat) : (c.advance n).At s := by
  induction n generalizing c with
  | zero => exact h
  | succ n ih =>
    obtain ⟨rest, offset⟩ := c
    cases rest with
    | nil => exact h
    | cons g gs =>
      have next : Cursor.At ⟨gs, offset + g.width⟩ s := by
        have h : g :: gs = Text.glyphs (s.bytes.toList.drop offset) := h
        cases hbytes : s.bytes.toList.drop offset with
        | nil =>
          rw [hbytes] at h
          cases h
        | cons b others =>
          rw [hbytes, Text.glyphs_cons] at h
          obtain ⟨rfl, rfl⟩ := List.cons_eq_cons.1 h
          rw [At, ← List.drop_drop, hbytes]
      exact ih next

/-- a word stands between the offsets -/
def Source.WordAt (s : Source) (start stop : Nat) : Prop :=
  ∃ c : Cursor, c.At s ∧ Lexeme.word c.rest ≠ 0 ∧ c.offset = start ∧ (c.advance (Lexeme.word c.rest)).offset = stop

/-- where a word starts there is no angle bracket -/
theorem Cursor.At.noAngle {c : Cursor} {s : Source} (h : c.At s) (hword : Lexeme.word c.rest ≠ 0) :
    s.NoAngleAt c.offset := by
  intro hangle
  have bytes : s.bytes.toList.drop c.offset = 60 :: s.bytes.toList.drop (c.offset + 1) := by
    rw [← Array.getElem?_toList] at hangle
    obtain ⟨hlt, hbyte⟩ := List.getElem?_eq_some_iff.1 hangle
    rw [List.drop_eq_getElem_cons hlt, hbyte]
  have first : Text.firstGlyph (60 :: s.bytes.toList.drop (c.offset + 1)) = ⟨'<', 1⟩ := rfl
  have angle : Lexeme.isWordStart '<' = false := by decide
  rw [h, bytes, Text.glyphs_cons, first, Lexeme.word, Lexeme.nextIs, angle] at hword
  exact hword rfl

/-! ## The scan -/

/-- the invariant of the scan: the cursor stands in the text, and so do the words -/
structure WordsScanned (source : Source) (c : Cursor) (s : LexState) : Prop where
  cursor : c.At source
  words : ∀ t ∈ s.tokens, t.kind.isWord = true → source.WordAt t.start t.stop

variable {source : Source} {c c' : Cursor} {s s' : LexState}

theorem WordsScanned.move (hm : LexMove c s c' s') (h : WordsScanned source c s) : WordsScanned source c' s' := by
  cases hm with
  | skip n => exact ⟨h.cursor.advance n, h.words⟩
  | comment _ _ _ => exact ⟨h.cursor.advance _, h.words⟩
  | @token kind n _ hn hlength =>
    refine ⟨h.cursor.advance n, fun t ht hword => ?_⟩
    rcases List.mem_cons.1 ht with rfl | ht
    · obtain rfl := hlength hword
      exact ⟨c, h.cursor, hn, rfl, rfl⟩
    · exact h.words t ht hword

/-- **Words stand in the text.** -/
theorem Source.tokens_words {ts : Tokens} (h : source.tokens? = some ts) :
    ∀ t ∈ ts.tokens, t.kind.isWord = true → source.WordAt t.start t.stop := by
  obtain ⟨c, s, moves, rfl⟩ := source.tokens_moves h
  have start : WordsScanned source ⟨source.glyphs, 0⟩ ⟨[], []⟩ := ⟨rfl, List.forall_mem_nil _⟩
  exact fun t ht => (moves.keeps WordsScanned.move start).words t (List.mem_reverse.1 ht)

/-- words start with no angle bracket -/
theorem Source.tokens_wordsAt {ts : Tokens} (h : source.tokens? = some ts) :
    Grammar.WordsAt source.NoAngleAt ts.tokens := by
  intro t ht hword
  obtain ⟨c, hc, hc', hstart, -⟩ := Source.tokens_words h t ht hword
  exact hstart ▸ hc.noAngle hc'

/-- **No name in a tree stands for constructors.** -/
theorem Source.tree_name {root n m : Node} (h : source.tree? = some root) (hn : n ∈ root.within)
    (hm : n.child? .name = some m) : source.textOf m ≠ constructorName := by
  obtain ⟨ts, htokens, htree⟩ := Source.tree_tokens h
  obtain ⟨nodes, j, hd, -, hroot, -⟩ := Tokens.tree_derives htree
  have names : Grammar.NamesAt source.NoAngleAt root :=
    hd.names_start Grammar.rules_nameWords rfl (Source.tokens_wordsAt htokens) root hroot
  have role : m.role = some .name := by simpa using List.find?_some hm
  intro htext
  refine names m (Node.within_role hn hm) role ?_
  rw [textOf, slice] at htext
  cases hdecode : Text.decode? (source.bytes.extract m.start m.stop).toList with
  | none =>
    rw [hdecode] at htext
    exact absurd htext (by decide)
  | some text =>
    rw [hdecode, Option.getD_some] at htext
    subst htext
    have first := Text.decode?_angle hdecode (show constructorName.toList = '<' :: _ from rfl)
    rw [Array.getElem?_toList, Array.getElem?_extract] at first
    split_ifs at first
    exact first

end CallLint
