/-
Grammars as values, and the one reader that runs them. A grammar is built from tokens by sequence, ordered choice and
repetition, and says which parts become nodes. The reader gives the nodes of what it takes, with the rest of the tokens.

Left-recursive constructs are chains: a first part and then links, each of which makes a node whose first child is all
that stands before it. After `commit` in a sequence no other choice is tried, so nothing is read again and again when
the text is in error. Comments become nodes before the token they precede; a node keeps those that follow its start.
-/
import CallLint.Source.Node
import CallLint.Source.Token

namespace CallLint

/-- what one token, or several that touch, must be -/
inductive Terminal where
  | word (text : String)
  /-- any word but some -/
  | name (excluded : List String)
  /-- one of some words -/
  | oneOf (texts : List String)
  | mark (text : String)
  | kind (kind : TokenKind)
  /-- so many closing angle brackets in one operator, with an equals sign or without -/
  | angles (count : Nat) (equals : Bool)
  /-- the words `non` and `sealed` with a hyphen between, in one piece -/
  | nonSealed
deriving Repr

/-- whether a sign after a dotted name in parentheses makes a cast of a signed operand -/
inductive SignCast where
  /-- it does -/
  | free
  /-- it does, since it stands in the value of another cast -/
  | inCast
  /-- it does not: an operator before it binds as tightly as a sum -/
  | never
deriving DecidableEq, Repr

/-- the nonterminals of the Java grammar -/
inductive Symbol where
  | program
  | statement
  | blockStatements
  | block
  | localVariable
  | declaration
  | modifiers
  | annotationForm
  | elementValue
  | type
  | unannotatedType
  | simpleType
  | typeArguments
  | classBody
  | member
  | interfaceMember
  | annotationMember
  | enumConstant
  | method
  | formalParameters
  | declarators
  | variableInitializer
  | arrayInitializer
  | recordPattern
  | switchExpression
  | arguments
  | string
  /-- operands of operators; whether a lambda may start with a bare name -/
  | operand (arrow : Bool) (signs : SignCast)
  | primary
  /-- expressions whose operators bind more tightly than `level` -/
  | expression (level : Nat) (arrow : Bool) (signs : SignCast)
deriving Repr

/-- a way to continue a chain -/
structure Link (γ : Type) where
  /-- kinds that what stands before may have; none when all may -/
  lefts : Option (List NodeKind)
  /-- kind of the node that is made -/
  kind : NodeKind
  /-- role of what stands before -/
  role : Option Role
  rest : γ
deriving Repr

inductive Grammar where
  /-- a token without a node -/
  | token (t : Terminal)
  /-- a token as a node -/
  | leaf (kind : NodeKind) (t : Terminal)
  | seq (parts : List Grammar)
  | choice (options : List Grammar)
  | maybe (g : Grammar)
  | many (g : Grammar)
  | node (kind : NodeKind) (g : Grammar)
  /-- a node without children -/
  | solid (kind : NodeKind) (g : Grammar)
  /-- the nodes of a grammar in a role -/
  | role (r : Role) (g : Grammar)
  | ref (s : Symbol)
  /-- takes nothing; the grammar must fit -/
  | ahead (g : Grammar)
  /-- takes nothing; the grammar must not fit -/
  | notAhead (g : Grammar)
  /-- the node that is made must be of one of some kinds -/
  | among (kinds : List NodeKind) (g : Grammar)
  /-- takes nothing; a parenthesised group with an arrow after it must follow -/
  | aheadArrow
  | commit
  | chain (first : Grammar) (links : List (Link Grammar))
deriving Repr

/-- tokens still to read, and the offset after the last one read -/
structure Input where
  rest : List Token
  stop : Nat
deriving Repr, Inhabited

inductive Outcome where
  | matched (nodes : List Node) (input : Input)
  /-- does not fit; another choice may -/
  | unmatched
  /-- does not fit after a commit -/
  | broken
deriving Repr, Inhabited

/-- whether two tokens have nothing between them -/
def Token.touches (a b : Token) : Bool :=
  a.stop == b.start

/-- takes closing angle brackets that touch each other -/
def takeAngles : Nat → Token → List Token → Option (Token × List Token)
  | 0, last, rest => some (last, rest)
  | n + 1, last, t :: rest =>
    if t.kind == .mark ">" && last.touches t then takeAngles n { t with start := last.start } rest else none
  | _ + 1, _, [] => none

/-- whether an operator of closing angle brackets goes on -/
def anglesGoOn (last : Token) : List Token → Bool
  | t :: _ => last.touches t && (t.kind == .mark ">" || t.kind == .mark "=" || t.kind == .mark "==")
  | [] => false

namespace Terminal

/-- the operator of closing angle brackets at the front as one token -/
def takeOperator (count : Nat) (equals : Bool) (t : Token) (rest : List Token) : Option (Token × List Token) :=
  if t.kind != .mark ">" then none
  else
    match takeAngles (count - 1) t rest with
    | none => none
    | some (last, rest) =>
      let whole : Token := { last with start := t.start, comments := t.comments }
      if equals then
        match rest with
        | e :: rest =>
          if e.kind == .mark "=" && last.touches e then some ({ whole with stop := e.stop }, rest) else none
        | [] => none
      else if anglesGoOn last rest then none
      else some (whole, rest)

/-- a token that fits, as one token, and what follows it -/
def take (terminal : Terminal) : List Token → Option (Token × List Token)
  | [] => none
  | t :: rest =>
    match terminal with
    | word text => if t.kind == .word text then some (t, rest) else none
    | name excluded =>
      match t.kind with
      | .word text => if excluded.contains text then none else some (t, rest)
      | _ => none
    | oneOf texts =>
      match t.kind with
      | .word text => if texts.contains text then some (t, rest) else none
      | _ => none
    | mark text => if t.kind == .mark text then some (t, rest) else none
    | kind k => if t.kind == k then some (t, rest) else none
    | angles count equals => takeOperator count equals t rest
    | nonSealed =>
      match rest with
      | hyphen :: last :: rest =>
        if t.kind == .word "non" && hyphen.kind == .mark "-" && last.kind == .word "sealed" && t.touches hyphen
          && hyphen.touches last then some ({ t with stop := last.stop }, rest)
        else none
      | _ => none

end Terminal

def Comment.node (c : Comment) : Node :=
  .mk (if c.isLine then .lineComment else .blockComment) none c.start c.stop []

/-- whether the parenthesis that opens here, with `depth` more open, is closed before an arrow -/
def arrowAfterGroup : Nat → List Token → Bool
  | _, [] => false
  | depth, t :: rest =>
    if t.kind == .mark "(" then arrowAfterGroup (depth + 1) rest
    else if t.kind == .mark ")" then
      if depth == 1 then
        match rest with
        | arrow :: _ => arrow.kind == .mark "->"
        | [] => false
      else arrowAfterGroup (depth - 1) rest
    else if depth == 0 then false
    else arrowAfterGroup depth rest

/-- nodes that stand before an offset, and the others -/
def splitNodes (offset : Nat) (nodes : List Node) : List Node × List Node :=
  (nodes.takeWhile fun n => n.stop ≤ offset && n.isComment, nodes.dropWhile fun n => n.stop ≤ offset && n.isComment)

/-- offset of the next token; at the end of the text the offset after the last token -/
def Input.next (i : Input) : Nat :=
  match i.rest with
  | t :: _ => t.start
  | [] => i.stop

/-- nodes put under a new node that starts at an offset; comments before it stay outside -/
def wrap (kind : NodeKind) (start stop : Nat) (nodes : List Node) : List Node :=
  let (outside, inside) := splitNodes start nodes
  outside ++ [.mk kind none start stop inside]

/-- nodes that are no comments get a role, unless they have one -/
def assignRole (r : Role) (nodes : List Node) : List Node :=
  nodes.map fun n => if n.isComment || n.role.isSome then n else n.withRole r

/-- whether the node before a link is of a kind that the link takes -/
def Link.takes {γ : Type} (l : Link γ) (nodes : List Node) : Bool :=
  match l.lefts with
  | none => true
  | some kinds => (nodes.getLast?.map fun n => kinds.contains n.kind).getD false

namespace Grammar

/-- optional role of the left part of a link -/
def assignLeft (l : Link Grammar) (nodes : List Node) : List Node :=
  match l.role with
  | none => nodes
  | some r => assignRole r nodes

mutual

/-- runs a grammar on tokens; `fuel` bounds the depth of the run -/
def run (rule : Symbol → Grammar) : Nat → Grammar → Input → Outcome
  | 0, _, _ => .broken
  | fuel + 1, g, i =>
    match g with
    | token t =>
      match t.take i.rest with
      | none => .unmatched
      | some (t, rest) => .matched (t.comments.map Comment.node) ⟨rest, t.stop⟩
    | leaf kind t =>
      match t.take i.rest with
      | none => .unmatched
      | some (t, rest) => .matched (t.comments.map Comment.node ++ [.mk kind none t.start t.stop []]) ⟨rest, t.stop⟩
    | seq parts => runSeq rule fuel false parts i
    | choice options => runChoice rule fuel options i
    | maybe g =>
      match run rule fuel g i with
      | .unmatched => .matched [] i
      | outcome => outcome
    | many g => runMany rule fuel g i
    | node kind g =>
      match run rule fuel g i with
      | .matched nodes j => .matched (wrap kind i.next j.stop nodes) j
      | outcome => outcome
    | solid kind g =>
      match run rule fuel g i with
      | .matched nodes j =>
        .matched ((splitNodes i.next nodes).1 ++ [.mk kind none i.next j.stop []]) j
      | outcome => outcome
    | role r g =>
      match run rule fuel g i with
      | .matched nodes j => .matched (assignRole r nodes) j
      | outcome => outcome
    | ref s => run rule fuel (rule s) i
    | ahead g =>
      match run rule fuel g i with
      | .matched _ _ => .matched [] i
      | _ => .unmatched
    | notAhead g =>
      match run rule fuel g i with
      | .matched _ _ => .unmatched
      | _ => .matched [] i
    | among kinds g =>
      match run rule fuel g i with
      | .matched nodes j =>
        if (nodes.getLast?.map fun n => kinds.contains n.kind).getD false then .matched nodes j else .unmatched
      | outcome => outcome
    | aheadArrow => if arrowAfterGroup 0 i.rest then .matched [] i else .unmatched
    | commit => .matched [] i
    | chain first links =>
      match run rule fuel first i with
      | .matched nodes j => runLinks rule fuel i.next links links nodes j
      | outcome => outcome
termination_by structural fuel => fuel

/-- the parts one after the other; once committed, a part that does not fit breaks the run -/
def runSeq (rule : Symbol → Grammar) : Nat → Bool → List Grammar → Input → Outcome
  | 0, _, _, _ => .broken
  | _ + 1, _, [], i => .matched [] i
  | fuel + 1, committed, g :: gs, i =>
    let committed := committed || (match g with | commit => true | _ => false)
    match run rule fuel g i with
    | .matched nodes j =>
      match runSeq rule fuel committed gs j with
      | .matched more k => .matched (nodes ++ more) k
      | outcome => outcome
    | .unmatched => if committed then .broken else .unmatched
    | .broken => .broken
termination_by structural fuel => fuel

/-- the first option that fits -/
def runChoice (rule : Symbol → Grammar) : Nat → List Grammar → Input → Outcome
  | 0, _, _ => .broken
  | _ + 1, [], _ => .unmatched
  | fuel + 1, g :: gs, i =>
    match run rule fuel g i with
    | .unmatched => runChoice rule fuel gs i
    | outcome => outcome
termination_by structural fuel => fuel

/-- as often as it fits and takes something -/
def runMany (rule : Symbol → Grammar) : Nat → Grammar → Input → Outcome
  | 0, _, _ => .broken
  | fuel + 1, g, i =>
    match run rule fuel g i with
    | .unmatched => .matched [] i
    | .broken => .broken
    | .matched nodes j =>
      if i.stop < j.stop then
        match runMany rule fuel g j with
        | .matched more k => .matched (nodes ++ more) k
        | outcome => outcome
      else .matched nodes j
termination_by structural fuel => fuel

/-- goes on with the first of the links left to try that fits, then with all links again -/
def runLinks (rule : Symbol → Grammar) : Nat → Nat → List (Link Grammar) → List (Link Grammar) → List Node → Input →
    Outcome
  | 0, _, _, _, _, _ => .broken
  | _ + 1, _, _, [], nodes, i => .matched nodes i
  | fuel + 1, start, links, l :: ls, nodes, i =>
    if l.takes nodes then
      match run rule fuel l.rest i with
      | .matched more j =>
        if i.stop < j.stop then
          runLinks rule fuel start links links (wrap l.kind start j.stop (assignLeft l nodes ++ more)) j
        else .matched nodes i
      | .unmatched => runLinks rule fuel start links ls nodes i
      | .broken => .broken
    else runLinks rule fuel start links ls nodes i
termination_by structural fuel => fuel

end

end Grammar

end CallLint
