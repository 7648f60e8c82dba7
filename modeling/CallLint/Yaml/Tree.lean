/-
From tokens to trees. A node is an alias, or properties and content; in a block mapping the items of a sequence need no
indentation. A text holds at most one document, and an empty one counts as an empty scalar.
-/
import CallLint.Yaml.Layout
import CallLint.Yaml.Node

namespace CallLint.Yaml

structure TreeState where
  rest : List Token
  /-- names of nodes so far, each with its latest number -/
  names : List (String × Nat)

abbrev TreeReader := StateT TreeState Option

namespace TreeReader

def peek : TreeReader (Option Token) := do
  return (← get).rest.head?

def skip : TreeReader Unit :=
  modify fun s => { s with rest := s.rest.drop 1 }

def expect (t : Token) : TreeReader Unit := do
  if (← peek) == some t then skip else failure

/-- the next token is one of these, or there is none -/
def atAny (ts : List Token) : TreeReader Bool := do
  return (← peek).any ts.contains

/-- numbers a name: the number of different names before -/
def register (name : String) : TreeReader Nat := do
  let names := (← get).names
  modify fun s => { s with names := (name, names.length) :: names.filter (·.1 != name) }
  return names.length

def numberOf (name : String) : TreeReader Nat := do
  match (← get).names.lookup name with
  | some number => return number
  | none => failure

/-- name and tag of a node, in either order -/
def properties : TreeReader (Option String × Option Tag) := do
  let s ← get
  let (properties, rest) : (Option String × Option Tag) × List Token :=
    match s.rest with
    | .anchor name :: .tag t :: rest => ((some name, some t), rest)
    | .tag t :: .anchor name :: rest => ((some name, some t), rest)
    | .anchor name :: rest => ((some name, none), rest)
    | .tag t :: rest => ((none, some t), rest)
    | rest => ((none, none), rest)
  set { s with rest := rest }
  return properties

mutual

/-- a node; `block` admits block collections, `flat` the items of a sequence without indentation -/
def node (handles : List (String × String)) : Nat → Bool → Bool → TreeReader Node
  | 0, _, _ => failure
  | fuel + 1, block, flat => do
    if let some (.alias name) ← peek then
      skip
      return .alias (← numberOf name)
    let (name, tag) ← properties
    let number ← name.mapM register
    let tagText ← (tag.mapM (·.expand? handles) : Option (Option String))
    let content ←
      match ← peek, block, flat with
      | some .item, _, true => Node.sequence <$> flatItems handles fuel
      | some (.scalar s), _, _ => do
        skip
        pure (.scalar s tagText)
      | some .flowSequence, _, _ => do
        skip
        Node.sequence <$> flowItems handles fuel true
      | some .flowMapping, _, _ => do
        skip
        Node.mapping <$> flowEntries handles fuel true
      | some .blockSequence, true, _ => do
        skip
        Node.sequence <$> blockItems handles fuel
      | some .blockMapping, true, _ => do
        skip
        Node.mapping <$> blockEntries handles fuel
      | _, _, _ => if name.isSome || tag.isSome then pure (.scalar .missing tagText) else failure
    return match number with
      | some n => .anchored n content
      | none => content

/-- a node, or nothing where one of these tokens follows -/
def nodeUnless (handles : List (String × String)) : Nat → List Token → Bool → Bool → TreeReader Node
  | 0, _, _, _ => failure
  | fuel + 1, ends, block, flat => do
    if ← atAny ends then return .missing else node handles fuel block flat

def blockItems (handles : List (String × String)) : Nat → TreeReader (List Node)
  | 0 => failure
  | fuel + 1 => do
    if ← atAny [.blockEnd] then
      skip
      return []
    expect .item
    let n ← nodeUnless handles fuel [.item, .blockEnd] true false
    return n :: (← blockItems handles fuel)

/-- items of a sequence that is not indented in its mapping -/
def flatItems (handles : List (String × String)) : Nat → TreeReader (List Node)
  | 0 => failure
  | fuel + 1 => do
    if ← atAny [.item] then
      skip
      let n ← nodeUnless handles fuel [.item, .key, .value, .blockEnd] true false
      return n :: (← flatItems handles fuel)
    else return []

def blockEntries (handles : List (String × String)) : Nat → TreeReader (List (Node × Node))
  | 0 => failure
  | fuel + 1 => do
    if ← atAny [.blockEnd] then
      skip
      return []
    expect .key
    let k ← nodeUnless handles fuel [.key, .value, .blockEnd] true true
    let v ← valueUnless handles fuel [.key, .value, .blockEnd] true
    return (k, v) :: (← blockEntries handles fuel)

/-- the value of an entry, if there is one -/
def valueUnless (handles : List (String × String)) : Nat → List Token → Bool → TreeReader Node
  | 0, _, _ => failure
  | fuel + 1, ends, block => do
    if ← atAny [.value] then
      skip
      nodeUnless handles fuel ends block block
    else return .missing

def flowItems (handles : List (String × String)) : Nat → Bool → TreeReader (List Node)
  | 0, _ => failure
  | fuel + 1, first => do
    if !first && !(← atAny [.flowSequenceEnd]) then expect .separator
    if ← atAny [.flowSequenceEnd] then
      skip
      return []
    let n ←
      if ← atAny [.key] then do
        skip
        let k ← nodeUnless handles fuel [.value, .separator, .flowSequenceEnd] false false
        let v ← valueUnless handles fuel [.separator, .flowSequenceEnd] false
        pure (.mapping [(k, v)])
      else node handles fuel false false
    return n :: (← flowItems handles fuel false)

def flowEntries (handles : List (String × String)) : Nat → Bool → TreeReader (List (Node × Node))
  | 0, _ => failure
  | fuel + 1, first => do
    if !first && !(← atAny [.flowMappingEnd]) then expect .separator
    if ← atAny [.flowMappingEnd] then
      skip
      return []
    let entry ←
      if ← atAny [.key] then do
        skip
        let k ← nodeUnless handles fuel [.value, .separator, .flowMappingEnd] false false
        let v ← valueUnless handles fuel [.separator, .flowMappingEnd] false
        pure (k, v)
      else do
        let k ← node handles fuel false false
        pure (k, .missing)
    return entry :: (← flowEntries handles fuel false)

end

/-- what the directives at the front define: at most one version, which must be known, and each handle once -/
def directives : List Directive → Bool → List (String × String) → Option (List (String × String))
  | [], _, handles => some (handles ++ Tag.standardHandles)
  | .version major minor :: ds, versioned, handles =>
    if versioned || major != 1 || (minor != 1 && minor != 2) then none else directives ds true handles
  | .shorthand handle expansion :: ds, versioned, handles =>
    if (handles.lookup handle).isSome then none else directives ds versioned (handles ++ [(handle, expansion)])

/-- the directives at the front of tokens, and the tokens after them -/
def splitDirectives : List Token → List Directive × List Token
  | .directive d :: ts =>
    let (ds, rest) := splitDirectives ts
    (d :: ds, rest)
  | ts => ([], ts)

/-- whether the content of a document is missing: its end or the next document follows -/
def endsDocument : List Token → Bool
  | [] => true
  | .directive _ :: _ => true
  | .documentStart :: _ => true
  | .documentEnd :: _ => true
  | _ => false

/-- the root of the only document -/
def root (fuel : Nat) : TreeReader Node := do
  let (ds, rest) := splitDirectives (← get).rest
  let handles ← (directives ds false [] : Option (List (String × String)))
  match rest with
  | .documentStart :: content =>
    modify fun s => { s with rest := content }
    if endsDocument content then return .missing else node handles fuel true false
  | _ => if ds.isEmpty then (if rest.isEmpty then return .missing else node handles fuel true false) else failure

end TreeReader

/-- the document of a text -/
def Document.ofText? (text : String) : Option Document := do
  let tokens ← tokens? text
  let (root, s) ← (TreeReader.root (4 * tokens.length + 4)).run ⟨tokens, []⟩
  if s.rest.all (· == .documentEnd) then return .ofRoot root else none

end CallLint.Yaml
