/-
Class types and their names. A class type is a chain of names with points between them, each with or without type
arguments, and type arguments hold types again, wildcards and bounds (`ClassType`). As written it is a row of tokens with
blanks between them (`WrittenType.text`); array brackets and an ellipsis may follow it.

Erasure keeps one counter of open angle brackets and never looks at the grammar. `erasedFrom` is the same counter over
tokens (`eraseFrom_spaced`), and each part of a class type brings it back to where it was: outside of all type arguments a
class type leaves its names (`ClassType.erasedFrom_tokens`), inside of some it leaves nothing. So what is erased from a type
as written is the dotted name of the type (`TypeName.erase_written`).
-/
import CallLint.Proofs.Owners.Origins
import CallLint.Proofs.TypeNames.Paths

namespace CallLint

namespace TypeName

/-! ## Class types -/

/-- a name or a segment of one -/
abbrev Word := { text : List Char // Lexeme.IsWord text }

abbrev Blank := { c : Char // Text.isBlank c = true }

mutual

inductive ClassType where
  | simple (name : Word) (arguments : Option (List TypeArgument))
  | member (outer : ClassType) (name : Word) (arguments : Option (List TypeArgument))

inductive TypeArgument where
  | type (type : ClassType) (dimensions : Nat)
  | wildcard
  | upper (bound : ClassType) (dimensions : Nat)
  | lower (bound : ClassType) (dimensions : Nat)

end

/-- a class type, or an array of arrays of it, perhaps as the type of a variable number of parameters -/
structure WrittenType where
  type : ClassType
  dimensions : Nat
  spread : Bool

/-- the names in the chain, without what their type arguments name -/
def ClassType.names : ClassType → List Word
  | .simple name _ => [name]
  | .member outer name _ => outer.names ++ [name]

/-- the names with points between them -/
def ClassType.dotted (t : ClassType) : List Char :=
  Text.joinWith '.' (t.names.map (·.val))

/-! ## Tokens -/

inductive TypeToken where
  | word (w : Word)
  | point
  | less
  | greater
  | comma
  | question
  | extendsKeyword
  | superKeyword
  | opening
  | closing
  | ellipsis

def TypeToken.text : TypeToken → List Char
  | word w => w.val
  | point => ['.']
  | less => ['<']
  | greater => ['>']
  | comma => [',']
  | question => ['?']
  | extendsKeyword => "extends".toList
  | superKeyword => "super".toList
  | opening => ['[']
  | closing => [']']
  | ellipsis => "...".toList

/-- so many pairs of array brackets -/
def brackets : Nat → List TypeToken
  | 0 => []
  | n + 1 => .opening :: .closing :: brackets n

mutual

def ClassType.tokens : ClassType → List TypeToken
  | .simple name arguments => .word name :: argumentTokens arguments
  | .member outer name arguments => outer.tokens ++ .point :: .word name :: argumentTokens arguments
termination_by structural t => t

/-- the type arguments after a name, if it has any -/
def argumentTokens : Option (List TypeArgument) → List TypeToken
  | none => []
  | some arguments => .less :: (listTokens arguments ++ [.greater])
termination_by structural arguments => arguments

/-- type arguments with commas between them -/
def listTokens : List TypeArgument → List TypeToken
  | [] => []
  | a :: as => a.tokens ++ tailTokens as
termination_by structural as => as

/-- type arguments with a comma before each -/
def tailTokens : List TypeArgument → List TypeToken
  | [] => []
  | a :: as => .comma :: (a.tokens ++ tailTokens as)
termination_by structural as => as

def TypeArgument.tokens : TypeArgument → List TypeToken
  | .type type dimensions => type.tokens ++ brackets dimensions
  | .wildcard => [.question]
  | .upper bound dimensions => .question :: .extendsKeyword :: (bound.tokens ++ brackets dimensions)
  | .lower bound dimensions => .question :: .superKeyword :: (bound.tokens ++ brackets dimensions)
termination_by structural a => a

end

def WrittenType.tokens (t : WrittenType) : List TypeToken :=
  t.type.tokens ++ (brackets t.dimensions ++ if t.spread then [.ellipsis] else [])

/-- the text of tokens, with blanks before, between and after them -/
def spaced (gaps : Nat → List Blank) : List TypeToken → List Char
  | [] => (gaps 0).map (·.val)
  | t :: ts => (gaps 0).map (·.val) ++ (t.text ++ spaced (fun i => gaps (i + 1)) ts)

def WrittenType.text (t : WrittenType) (gaps : Nat → List Blank) : List Char :=
  spaced gaps t.tokens

/-! ## The counter over tokens -/

/-- what is left of tokens outside of angle brackets, without array brackets; `depth` angle brackets are open -/
def erasedFrom : Nat → List TypeToken → List Char
  | _, [] => []
  | depth, .less :: ts => erasedFrom (depth + 1) ts
  | depth, .greater :: ts => erasedFrom (depth - 1) ts
  | depth, .opening :: ts => erasedFrom depth ts
  | depth, .closing :: ts => erasedFrom depth ts
  | depth, t :: ts => (if depth = 0 then t.text else []) ++ erasedFrom depth ts

theorem eraseFrom_blanks (depth : Nat) (blanks : List Blank) (rest : List Char) :
    eraseFrom depth (blanks.map (·.val) ++ rest) = eraseFrom depth rest := by
  induction blanks with
  | nil => rfl
  | cons b blanks ih => rw [List.map_cons, List.cons_append, eraseFrom_cons_blank b.2, ih]

/-- characters that mean only themselves are kept outside of angle brackets, and dropped in them -/
theorem eraseFrom_plain {cs : List Char} (h : ∀ c ∈ cs, IsPlain c) (depth : Nat) (rest : List Char) :
    eraseFrom depth (cs ++ rest) = (if depth = 0 then cs else []) ++ eraseFrom depth rest := by
  induction cs with
  | nil => simp
  | cons c cs ih =>
    obtain ⟨⟨hopen, hclose, hleft, hright, hblank⟩, hcs⟩ := List.forall_mem_cons.1 h
    rw [List.cons_append, eraseFrom, if_neg hopen, if_neg hclose, ih hcs]
    cases depth with
    | zero => simp [hleft, hright, hblank]
    | succ depth => simp

/-- **The two counters agree.** Blanks between tokens do not matter, and each token does to the text what it does to the
row of tokens. -/
theorem eraseFrom_spaced (depth : Nat) (gaps : Nat → List Blank) (ts : List TypeToken) :
    eraseFrom depth (spaced gaps ts) = erasedFrom depth ts := by
  induction ts generalizing depth gaps with
  | nil =>
    have blanks := eraseFrom_blanks depth (gaps 0) []
    rwa [List.append_nil] at blanks
  | cons t ts ih =>
    rw [spaced, eraseFrom_blanks]
    cases t with
    | less => exact ih (depth + 1) _
    | greater => exact ih (depth - 1) _
    | opening => exact ih depth _
    | closing => exact ih depth _
    | word w => exact (eraseFrom_plain (fun c hc => isPlain_of_isWordPart (w.2.2 c hc)) _ _).trans (by rw [ih]; rfl)
    | _ => exact (eraseFrom_plain (List.forall_iff_forall_mem.1 (by decide)) _ _).trans (by rw [ih]; rfl)

/-! ## Parts of types -/

theorem erasedFrom_brackets (depth n : Nat) (rest : List TypeToken) :
    erasedFrom depth (brackets n ++ rest) = erasedFrom depth rest := by
  induction n with
  | zero => rfl
  | succ n ih => exact ih

theorem ClassType.names_ne_nil (t : ClassType) : t.names ≠ [] := by
  cases t <;> simp [ClassType.names]

theorem ClassType.dotted_member (outer : ClassType) (name : Word) (arguments : Option (List TypeArgument)) :
    (ClassType.member outer name arguments).dotted = outer.dotted ++ '.' :: name.val := by
  have names : outer.names.map (·.val) ≠ [] := List.map_eq_nil_iff.not.2 outer.names_ne_nil
  rw [dotted, ClassType.names, List.map_append, List.map_singleton, Text.joinWith_concat names]
  rfl

mutual

/-- **A class type leaves its dotted name** outside of type arguments, and nothing in them. -/
theorem ClassType.erasedFrom_tokens : ∀ (t : ClassType) (depth : Nat) (rest : List TypeToken),
    erasedFrom depth (t.tokens ++ rest) = (if depth = 0 then t.dotted else []) ++ erasedFrom depth rest
  | .simple name arguments, depth, rest => by
    rw [ClassType.tokens, List.cons_append, erasedFrom, erasedFrom_arguments arguments]
    · rfl
    all_goals simp
  | .member outer name arguments, depth, rest => by
    rw [ClassType.tokens, List.append_assoc, ClassType.erasedFrom_tokens outer, ClassType.dotted_member]
    change _ ++ ((if depth = 0 then ['.'] else []) ++ ((if depth = 0 then name.val else []) ++
      erasedFrom depth (argumentTokens arguments ++ rest))) = _
    rw [erasedFrom_arguments arguments]
    split_ifs <;> simp
termination_by structural t => t

/-- type arguments leave nothing, and the counter as it was -/
theorem erasedFrom_arguments : ∀ (arguments : Option (List TypeArgument)) (depth : Nat) (rest : List TypeToken),
    erasedFrom depth (argumentTokens arguments ++ rest) = erasedFrom depth rest
  | none, _, _ => rfl
  | some arguments, depth, rest => by
    rw [argumentTokens, List.cons_append, erasedFrom, List.append_assoc, erasedFrom_list arguments]
    rfl
termination_by structural arguments => arguments

theorem erasedFrom_list : ∀ (arguments : List TypeArgument) (depth : Nat) (rest : List TypeToken),
    erasedFrom (depth + 1) (listTokens arguments ++ rest) = erasedFrom (depth + 1) rest
  | [], _, _ => rfl
  | a :: as, depth, rest => by
    rw [listTokens, List.append_assoc, TypeArgument.erasedFrom_tokens a, erasedFrom_tail as]
termination_by structural arguments => arguments

theorem erasedFrom_tail : ∀ (arguments : List TypeArgument) (depth : Nat) (rest : List TypeToken),
    erasedFrom (depth + 1) (tailTokens arguments ++ rest) = erasedFrom (depth + 1) rest
  | [], _, _ => rfl
  | a :: as, depth, rest => by
    change [] ++ erasedFrom (depth + 1) (a.tokens ++ tailTokens as ++ rest) = _
    rw [List.nil_append, List.append_assoc, TypeArgument.erasedFrom_tokens a, erasedFrom_tail as]
termination_by structural arguments => arguments

/-- a type argument leaves nothing -/
theorem TypeArgument.erasedFrom_tokens : ∀ (a : TypeArgument) (depth : Nat) (rest : List TypeToken),
    erasedFrom (depth + 1) (a.tokens ++ rest) = erasedFrom (depth + 1) rest
  | .type type dimensions, depth, rest => by
    rw [TypeArgument.tokens, List.append_assoc, ClassType.erasedFrom_tokens type, erasedFrom_brackets]
    rfl
  | .wildcard, _, _ => rfl
  | .upper bound dimensions, depth, rest => by
    change erasedFrom (depth + 1) (bound.tokens ++ brackets dimensions ++ rest) = _
    rw [List.append_assoc, ClassType.erasedFrom_tokens bound, erasedFrom_brackets]
    rfl
  | .lower bound dimensions, depth, rest => by
    change erasedFrom (depth + 1) (bound.tokens ++ brackets dimensions ++ rest) = _
    rw [List.append_assoc, ClassType.erasedFrom_tokens bound, erasedFrom_brackets]
    rfl
termination_by structural a => a

end

/-! ## Types as written -/

/-- the last name of a type does not end with a point -/
theorem ClassType.getLast?_dotted (t : ClassType) : t.dotted.getLast? ≠ some '.' := by
  have word (name : Word) : name.val.getLast? ≠ some '.' :=
    fun h => point_not_mem name.2 (List.mem_of_getLast? h)
  cases t with
  | simple name arguments => exact word name
  | member outer name arguments =>
    obtain ⟨c, cs, hname⟩ := List.exists_cons_of_ne_nil name.2.1
    have last := word name
    rw [ClassType.dotted_member, List.getLast?_append_of_ne_nil _ (List.cons_ne_nil _ _), hname, List.getLast?_cons_cons]
    rwa [hname] at last

/-- an ellipsis at the end is dropped, and only there -/
theorem dropEllipses_spread {name : List Char} (h : name.getLast? ≠ some '.') (spread : Bool) :
    (dropEllipses (name ++ if spread then "...".toList else []).reverse).reverse = name := by
  cases spread with
  | true =>
    have dropped : dropEllipses (name ++ "...".toList).reverse = dropEllipses name.reverse := by
      rw [List.reverse_append]
      exact dropEllipses.eq_1 name.reverse
    rw [if_pos rfl, dropped, dropEllipses_reverse h, List.reverse_reverse]
  | false => rw [if_neg Bool.false_ne_true, List.append_nil, dropEllipses_reverse h, List.reverse_reverse]

/-- **Erasing a type as written gives its dotted name**, whatever type arguments its names have, however deeply these are
nested, whatever array brackets or ellipsis follow, and wherever blanks stand; and erasing that name changes nothing. -/
theorem erase_written (t : WrittenType) (gaps : Nat → List Blank) :
    erase (t.text gaps) = Text.joinWith '.' (t.type.names.map (·.val)) ∧
      erase (erase (t.text gaps)) = erase (t.text gaps) := by
  refine ⟨?_, erase_erase _⟩
  have left : erasedFrom 0 t.tokens = t.type.dotted ++ if t.spread then "...".toList else [] := by
    rw [WrittenType.tokens, ClassType.erasedFrom_tokens, erasedFrom_brackets, if_pos rfl]
    cases t.spread <;> rfl
  rw [erase, WrittenType.text, eraseFrom_spaced, left, dropEllipses_spread t.type.getLast?_dotted]
  rfl

example : erase "java . util.Map<String, ? extends List<T[]>>.Entry<K> [ ] ...".toList = "java.util.Map.Entry".toList := by
  decide +kernel

end TypeName

end CallLint
