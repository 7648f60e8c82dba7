/-
The plain report loses nothing. Another program reads the text as JSON and takes the report from its members
(`PlainReport.decode?`): each member by its name, in any order, none of them twice, those that it does not know left aside,
and those that a report leaves out when they are empty with the empty value in their place.

`PlainReport.render_lossless`: the text of the report on a scan is JSON, the report that is taken from it is the report that
was printed, and no other report has the same text.
-/
import CallLint.Proofs.Reports.Printed
import CallLint.Report.Plain

namespace CallLint

/-! ## Taking values from members -/

namespace Json

def text? : Json → Option String
  | text value => some value
  | _ => none

/-- a whole number that is not negative -/
def number? : Json → Option Nat
  | number literal => Text.digitsValue? 10 literal
  | _ => none

def list? {α : Type} (decode : Json → Option α) : Json → Option (List α)
  | list elements => elements.mapM decode
  | _ => none

/-- the values of all members with a name -/
def valuesOf (name : String) (members : List (String × Json)) : List Json :=
  (members.filter fun m => m.1 == name).map Prod.snd

/-- the value of a member that must be there -/
def required {α : Type} (name : String) (decode : Json → Option α) (members : List (String × Json)) : Option α :=
  match valuesOf name members with
  | [v] => decode v
  | _ => none

/-- the value of a member that may be missing -/
def defaulted {α : Type} (name : String) (value : α) (decode : Json → Option α) (members : List (String × Json)) :
    Option α :=
  match valuesOf name members with
  | [] => some value
  | [v] => decode v
  | _ => none

/-- the value of a member of an object, if it has one with the name -/
def member? (name : String) : Json → Option Json
  | object members => (valuesOf name members).head?
  | _ => none

end Json

open Json (text? number? list? required defaulted valuesOf)

/-- the severity that is reported with a word -/
def Severity.ofWord? (word : String) : Option Severity :=
  Severity.all.find? fun s => s.render == word

def Finding.ofJson? : Json → Option Finding
  | .object members => do
    let rule ← required "rule" text? members
    let severity ← required "severity" (fun v => (text? v).bind Severity.ofWord?) members
    let file ← required "file" text? members
    let line ← required "line" number? members
    let column ← required "column" number? members
    let message ← required "message" text? members
    return { rule, message, file, line, column, severity }
  | _ => none

def ReportedSuppression.ofJson? : Json → Option ReportedSuppression
  | .object members => do
    let rule ← required "rule" text? members
    let reason ← defaulted "reason" "" text? members
    let line ← required "line" number? members
    let scope ← required "type" (fun v => (text? v).bind SuppressionScope.read?) members
    return { rule, reason, line, scope }
  | _ => none

namespace PlainReport

/-- a suppressed finding and its suppression -/
def entryOfJson? : Json → Option (Finding × ReportedSuppression)
  | .object members => do
    let finding ← required "finding" Finding.ofJson? members
    let suppression ← required "suppression" ReportedSuppression.ofJson? members
    return (finding, suppression)
  | _ => none

def ofJson? : Json → Option PlainReport
  | .object members => do
    let version ← required "version" text? members
    let path ← required "path" text? members
    let filesScanned ← required "files_scanned" number? members
    let findings ← required "findings" (list? Finding.ofJson?) members
    let suppressed ← defaulted "suppressed" [] (list? entryOfJson?) members
    let suppressedCount ← required "suppressed_count" number? members
    let failed ← defaulted "failed" [] (list? text?) members
    return { version, path, filesScanned, findings, suppressed, suppressedCount, failed }
  | _ => none

/-- the report that a text holds -/
def decode? (text : String) : Option PlainReport :=
  (Json.read? text).bind ofJson?

end PlainReport

/-! ## What is printed is taken back -/

namespace Json

variable (name : String)

@[simp]
theorem valuesOf_nil : valuesOf name [] = [] :=
  rfl

@[simp]
theorem valuesOf_cons (m : String × Json) (ms : List (String × Json)) :
    valuesOf name (m :: ms) = if m.1 = name then m.2 :: valuesOf name ms else valuesOf name ms := by
  by_cases h : m.1 = name
  · simp [valuesOf, h]
  · simp [valuesOf, h]

@[simp]
theorem valuesOf_append (ms ns : List (String × Json)) :
    valuesOf name (ms ++ ns) = valuesOf name ms ++ valuesOf name ns := by
  rw [valuesOf, List.filter_append, List.map_append, valuesOf, valuesOf]

end Json

namespace JsonValue

/-- elements are taken back from a list when each is taken back from its value -/
theorem list?_map {α : Type} {encode : α → JsonValue} {decode : Json → Option α}
    (h : ∀ x, decode (encode x).toJson = some x) (xs : List α) :
    list? decode (JsonValue.list (xs.map encode)).toJson = some xs := by
  rw [toJson_list, list?]
  induction xs with
  | nil => rfl
  | cons x xs ih =>
    rw [List.map_cons, List.map_cons, List.mapM_cons, ih, h]
    rfl

@[simp]
theorem number?_number (n : Nat) : number? (number n).toJson = some n :=
  Text.digitsValue?_toDigits n

end JsonValue

open JsonValue (toJson toJsonMember list?_map)

@[simp]
theorem Severity.ofWord?_render (s : Severity) : Severity.ofWord? s.render = some s := by
  cases s <;> decide

@[simp]
theorem SuppressionScope.read?_render (s : SuppressionScope) : SuppressionScope.read? s.render = some s := by
  cases s <;> decide

namespace PlainReport

@[simp]
theorem ofJson?_findingValue (f : Finding) : Finding.ofJson? (findingValue f).toJson = some f := by
  simp [findingValue, Finding.ofJson?, required, text?]

@[simp]
theorem ofJson?_suppressionValue (s : ReportedSuppression) :
    ReportedSuppression.ofJson? (suppressionValue s).toJson = some s := by
  obtain ⟨rule, reason, line, scope⟩ := s
  by_cases h : reason = "" <;>
    simp [suppressionValue, h, ReportedSuppression.ofJson?, required, defaulted, text?]

theorem entryOfJson?_suppressedValue (entry : Finding × ReportedSuppression) :
    entryOfJson? (suppressedValue entry).toJson = some entry := by
  simp [suppressedValue, entryOfJson?, required]

/-- the values that the member with a list leaves under a name -/
theorem valuesOf_listMember (name other : String) (elements : List JsonValue) :
    valuesOf name ((listMember other elements).map toJsonMember) =
      if elements.isEmpty ∨ other ≠ name then [] else [(JsonValue.list elements).toJson] := by
  cases elements with
  | nil => simp [listMember]
  | cons v vs => by_cases h : other = name <;> simp [listMember, h]

/-- a list is taken back whether its member is there or was left out -/
theorem defaulted_list {α : Type} {encode : α → JsonValue} {decode : Json → Option α} {name : String}
    {members : List (String × Json)} {xs : List α} (h : ∀ x, decode (encode x).toJson = some x)
    (hm : valuesOf name members = if (xs.map encode).isEmpty then [] else [(JsonValue.list (xs.map encode)).toJson]) :
    defaulted name [] (list? decode) members = some xs := by
  cases xs with
  | nil => simp [defaulted, hm]
  | cons x xs =>
    rw [List.map_cons, List.isEmpty_cons, if_neg Bool.false_ne_true, ← List.map_cons] at hm
    simp only [defaulted, hm, list?_map h]

/-- the members of the object that is printed -/
def members (r : PlainReport) : List (String × Json) :=
  [("version", .text r.version), ("path", .text r.path), ("files_scanned", (JsonValue.number r.filesScanned).toJson),
    ("findings", (JsonValue.list (r.findings.map findingValue)).toJson)] ++
  (listMember "suppressed" (r.suppressed.map suppressedValue)).map toJsonMember ++
  [("suppressed_count", (JsonValue.number r.suppressedCount).toJson)] ++
  (listMember "failed" (r.failed.map .text)).map toJsonMember

theorem toJson_toValue (r : PlainReport) : r.toValue.toJson = .object r.members := by
  simp [toValue, members]

theorem ofJson?_toValue (r : PlainReport) : ofJson? r.toValue.toJson = some r := by
  have findings : list? Finding.ofJson? (JsonValue.list (r.findings.map findingValue)).toJson = some r.findings :=
    list?_map ofJson?_findingValue _
  have suppressed : defaulted "suppressed" [] (list? entryOfJson?) r.members = some r.suppressed :=
    defaulted_list entryOfJson?_suppressedValue (by simp [members, valuesOf_listMember])
  have texts (t : String) : text? (JsonValue.text t).toJson = some t := rfl
  have failed : defaulted "failed" [] (list? text?) r.members = some r.failed :=
    defaulted_list texts (by simp [members, valuesOf_listMember])
  rw [toJson_toValue, ofJson?, suppressed, failed]
  simp [members, valuesOf_listMember, required, findings, text?]

theorem decode?_render (r : PlainReport) : decode? r.render = some r := by
  rw [decode?, render, Json.read?_of_document r.toValue.document_render, Option.bind_some, ofJson?_toValue]

theorem render_injective : Function.Injective render := by
  intro r s h
  exact Option.some.inj ((decode?_render r).symm.trans ((congrArg decode? h).trans (decode?_render s)))

/-- what a report leaves out of its object: empty lists, and in the suppressions empty reasons -/
def LeavesOut (r : PlainReport) (v : Json) : Prop :=
  (v.member? "failed" = none ↔ r.failed = []) ∧
  (v.member? "suppressed" = none ↔ r.suppressed = []) ∧
  ∀ entries, v.member? "suppressed" = some (.list entries) →
    List.Forall₂ (fun entry s => (entry.member? "suppression").bind (·.member? "reason") = none ↔ s.2.reason = "")
      entries r.suppressed

theorem leavesOut_members (r : PlainReport) : r.LeavesOut (.object r.members) := by
  refine ⟨?_, ?_, fun entries h => ?_⟩
  · cases hf : r.failed <;> simp [Json.member?, members, valuesOf_listMember, hf]
  · cases hs : r.suppressed <;> simp [Json.member?, members, valuesOf_listMember, hs]
  · have listed : entries = r.suppressed.map fun s => (suppressedValue s).toJson := by
      cases hs : r.suppressed with
      | nil => simp [Json.member?, members, valuesOf_listMember, hs] at h
      | cons s others =>
        simpa [Json.member?, members, valuesOf_listMember, hs, JsonValue.toJson_list, Function.comp_def] using h.symm
    rw [listed, List.forall₂_map_left_iff]
    refine List.forall₂_same.mpr fun s _ => ?_
    by_cases hr : s.2.reason = "" <;> simp [hr, suppressedValue, suppressionValue, Json.member?]

/--
**The report loses nothing.** Its text is JSON, from which only lists and reasons that are empty are left out. The report
that is taken from the text has all that was reported of the scan, and no two reports have one text.
-/
theorem render_lossless (path : String) (result : ScanResult) :
    (∃ v, Json.Document v (ofResult path result).render ∧ (ofResult path result).LeavesOut v) ∧
    (∃ r, decode? (ofResult path result).render = some r ∧ r = ofResult path result ∧
      r.path = path ∧ r.findings = result.findings ∧ r.filesScanned = result.scanned ∧ r.failed = result.failed ∧
      r.suppressedCount = result.suppressed.length ∧
      List.Forall₂ (fun reported s => reported.1 = s.finding ∧ reported.2.rule = s.suppression.rule ∧
        reported.2.reason = s.suppression.reason ∧ reported.2.line = s.suppression.line ∧
        reported.2.scope = s.suppression.scope) r.suppressed result.suppressed) ∧
    Function.Injective render := by
  refine ⟨⟨_, (ofResult path result).toValue.document_render, ?_⟩,
    ⟨_, decode?_render _, rfl, rfl, rfl, rfl, rfl, rfl, ?_⟩, render_injective⟩
  · rw [toJson_toValue]
    exact leavesOut_members _
  · exact List.forall₂_map_left_iff.mpr (List.forall₂_same.mpr fun s _ => ⟨rfl, rfl, rfl, rfl, rfl⟩)

end PlainReport

end CallLint
