/-
Positions of a unit and the lines of its file. All spans lie in the bytes of the file, with lines and columns told by its
line feeds (`Source.unit_located`), and the lines that suppressions are read from are those between the same line feeds,
however the file is encoded. So a suppression of its own line covers the findings that start there
(`Source.unit_positions`).
-/
import CallLint.Proofs.Positions.Lines
import CallLint.Proofs.Positions.Spans
import CallLint.Proofs.Scans.Silenced

namespace CallLint

/-! ## Suppressions of lines -/

namespace Suppression

variable {file content : String} {sup : Suppression} {k : Nat} {inHeader : Bool} {line : List Char}

/-- a suppression is read from a line of the text -/
theorem exists_line (h : sup ∈ ofText file content) :
    ∃ k line, (Text.lines content.toList)[k]? = some line ∧
      ofLine? file (k + 1) (headerThrough (Text.lines content.toList) k) line = some sup := by
  rw [ofText_eq, List.reduceOption_mem_iff] at h
  obtain ⟨k, hk⟩ := List.mem_iff_getElem?.1 h
  rw [lineYields, List.getElem?_mapIdx, Option.map_eq_some_iff] at hk
  obtain ⟨line, hline, hyields⟩ := hk
  exact ⟨k, line, hline, hyields⟩

/-- a suppression says in which file it stands, and one of its own line also on which line -/
theorem ofLine?_placed (h : ofLine? file k inHeader line = some sup) :
    sup.file = file ∧ (sup.scope = .line → sup.line = k) := by
  unfold ofLine? at h
  split at h
  · unfold ofDirective? at h
    dsimp only at h
    split at h
    · split_ifs at h
      cases h
      exact ⟨rfl, nofun⟩
    · cases h
      exact ⟨rfl, nofun⟩
    · cases h
      exact ⟨rfl, fun _ => rfl⟩
  · obtain ⟨reason, -, rfl⟩ := Option.map_eq_some_iff.1 h
    exact ⟨rfl, fun _ => rfl⟩

theorem ofLine?_line (h : ofLine? file k inHeader line = some sup) (hscope : sup.scope = .line) :
    sup.file = file ∧ sup.line = k :=
  (ofLine?_placed h).imp_right fun hline => hline hscope

/-- a suppression of its own line covers what its rule finds there -/
theorem covers_line_iff (hscope : sup.scope = .line) {f : Finding} (hfile : f.file = sup.file) :
    sup.covers f = true ↔ (sup.rule = "*" ∨ sameKey sup.rule f.rule = true) ∧ f.line = sup.line := by
  simp [covers, hscope, hfile]

end Suppression

/-! ## Units -/

/-- spans lie in the bytes, and calls and methods are named inside -/
structure CompilationUnit.Located (bytes : List UInt8) (u : CompilationUnit) : Prop where
  spans : ∀ a ∈ u.spans, a.LiesIn bytes
  methods : ∀ m ∈ u.methods, m.nameSpan.Within m.span
  calls : ∀ call ∈ listCalls u.code, call.nameSpan.Within call.span

namespace Source

/-- **Spans lie in their file**, those of names in those of what they name. -/
theorem unit_located [Recovery] (bytes : List UInt8) (path : String) :
    Safe ((ofBytes bytes).root.Faulty (ofBytes bytes)) (fun u => u.hasParseErrors = false → u.Located bytes)
      ((ofBytes bytes).unit path) := by
  refine unit_of_tree _ path fun root hroot => ?_
  have spans := CompilationUnit.ofTree_spans hroot path
  have names := CompilationUnit.ofTree_names (s := ofBytes bytes) (tree_inOrder hroot) path
  refine (spans.and names).mono id fun u ⟨hspans, hmethods, hcalls⟩ => ⟨fun a ha => ?_, hmethods, hcalls⟩
  obtain ⟨n, hn, rfl⟩ := hspans a ha
  exact node_liesIn hroot hn

/-- **Positions and suppressions speak of the same lines.** The lines of the text of a file are those of its bytes, decoded
one by one. When it has no syntax errors, the spans of its unit lie in the bytes, with the lines and columns of their ends;
and a suppression of its own line covers a finding of its rule exactly if the finding starts on the line that it is read
from. -/
theorem unit_positions [Recovery] (bytes : List UInt8) (path : String) :
    let s := ofBytes bytes
    let lines := Text.lines s.lossyText.toList
    (∀ k line, lines[k]? = some line ↔
      ∃ before piece after, LineOf bytes k before piece after ∧ Text.LineText piece after line) ∧
    Safe (s.root.Faulty s) (fun u => u.hasParseErrors = false → u.Located bytes ∧
      ∀ rule : Rule, ∀ f ∈ rule.check u, ∃ a ∈ u.spans,
        f = .ofSpan rule.kind.key rule.kind.severity path a rule.kind.message ∧
        ∀ sup ∈ Suppression.ofText path s.lossyText, sup.scope = .line →
          ∃ k line before piece after, lines[k]? = some line ∧
            Suppression.ofLine? path (k + 1) (Suppression.headerThrough lines k) line = some sup ∧
            LineOf bytes k before piece after ∧
            (sup.covers f = true ↔ (sup.rule = "*" ∨ Suppression.sameKey sup.rule f.rule = true) ∧
              before.length ≤ a.startByte ∧ a.startByte ≤ before.length + piece.length)) (s.unit path) := by
  intro s lines
  have decoded : lines = Text.lines (Text.lossy bytes) := rfl
  have ofLines (k : Nat) (line : List Char) : lines[k]? = some line ↔
      ∃ before piece after, LineOf bytes k before piece after ∧ Text.LineText piece after line := by
    rw [decoded]
    exact Text.lines_lossy
  refine ⟨ofLines, ((unit_located bytes path).and (s.unit_path path)).mono id fun u ⟨located, hpath⟩ parsed => ?_⟩
  have located := located parsed
  refine ⟨located, fun rule f hf => ?_⟩
  obtain ⟨a, ha, rfl⟩ := List.mem_map.1 hf
  have inUnit := u.violations_subset rule ha
  have lies := located.spans a inUnit
  refine ⟨a, inUnit, by rw [hpath], fun sup hsup hscope => ?_⟩
  obtain ⟨k, line, hline, hread⟩ := Suppression.exists_line hsup
  obtain ⟨hfile, hnumber⟩ := Suppression.ofLine?_line hread hscope
  obtain ⟨before, piece, after, hof, -⟩ := (ofLines k line).1 hline
  refine ⟨k, line, before, piece, after, hline, hread, hof, ?_⟩
  rw [Suppression.covers_line_iff hscope (hpath.trans hfile.symm), hnumber, ← hof.lineAt_eq (lies.ordered.trans lies.inside),
    ← lies.startLine]
  rfl

end Source

end CallLint
