import NoteQuery.Regex.Basic

namespace NoteQuery.Regex

inductive CharKind where
  | digit
  | blank
  | word

inductive Member where
  | char (c : Char)
  | kind (k : CharKind) (negated : Bool)

inductive Anchor where
  | start
  | finish
  | veryStart
  | veryEnd
  | wordBoundary
  | noWordBoundary
  | wordStart
  | wordEnd
  | wordStartHalf
  | wordEndHalf

inductive Times where
  | zeroOrOne
  | zeroOrMore
  | oneOrMore
  | exactly (n : Nat)
  | atLeast (n : Nat)
  | between (m n : Nat)

/-- What a regular expression is read as. The branches of an expression or a group are lists of
operands. -/
inductive Node where
  | char (c : Char)
  /-- Any character but a line feed. -/
  | anyChar
  | oneOf (negated : Bool) (members : List Member)
  | anchor (a : Anchor)
  | repeated (times : Times) (isLazy : Bool) (operand : Node)
  | group (captures : Bool) (branches : List (List Node))

inductive Token where
  | operand (n : Node)
  | times (n : Times)
  | opening (captures : Bool)
  | closing
  | bar

def kindOf? : Char → Option Member
  | 'd' => some (.kind .digit false)
  | 'D' => some (.kind .digit true)
  | 's' => some (.kind .blank false)
  | 'S' => some (.kind .blank true)
  | 'w' => some (.kind .word false)
  | 'W' => some (.kind .word true)
  | _ => none

def anchorOf? : Char → Option Anchor
  | 'A' => some .veryStart
  | 'z' => some .veryEnd
  | 'b' => some .wordBoundary
  | 'B' => some .noWordBoundary
  | _ => none

def namedBoundaries : List (Text × Anchor) :=
  [("b\x7bstart\x7d".toList, .wordStart), ("b\x7bend\x7d".toList, .wordEnd),
   ("b\x7bstart-half\x7d".toList, .wordStartHalf), ("b\x7bend-half\x7d".toList, .wordEndHalf)]

def readEscape : Text → Option (Node × Nat)
  | [] => none
  | c :: t =>
    if metaChars.contains c then some (.char c, 1)
    else match namedBoundaries.find? fun (name, _) => name.isPrefixOf (c :: t) with
      | some (name, a) => some (.anchor a, name.length)
      | none =>
        match anchorOf? c with
        | some a => some (.anchor a, 1)
        | none => (kindOf? c).map fun m => (.oneOf false [m], 1)

def classChars : Text := "\\[&-~".toList

def readMembers : Text → Option (List Member × Nat)
  | [] => none
  | ']' :: _ => some ([], 1)
  | '\\' :: c :: t =>
    match if metaChars.contains c then some (.char c) else kindOf? c with
    | some m => (readMembers t).map fun (ms, n) => (m :: ms, n + 2)
    | none => none
  | c :: t =>
    if classChars.contains c then none
    else (readMembers t).map fun (ms, n) => (.char c :: ms, n + 1)

def readClass (negated : Bool) (t : Text) : Option (Node × Nat) :=
  match readMembers t with
  | some (m :: ms, n) => some (.oneOf negated (m :: ms), n)
  | _ => none

def readNumber (t : Text) : Option (Nat × Nat) :=
  let digits := t.takeWhile Text.isDigit
  if digits.isEmpty then none else (Text.readDigits 0 digits).map fun n => (n, digits.length)

def readTimes (t : Text) : Option (Times × Nat) :=
  (readNumber t).bind fun (m, taken) =>
    match t.drop taken with
    | '\x7d' :: _ => some (.exactly m, taken + 1)
    | ',' :: '\x7d' :: _ => some (.atLeast m, taken + 2)
    | ',' :: t =>
      (readNumber t).bind fun (n, more) =>
        if m ≤ n ∧ (t.drop more).head? = some '\x7d' then some (.between m n, taken + more + 2)
        else none
    | _ => none

def readToken (c : Char) (t : Text) : Option (Token × Nat) :=
  match c, t with
  | '(', '?' :: ':' :: _ => some (.opening false, 2)
  | '(', '?' :: _ => none
  | '(', _ => some (.opening true, 0)
  | ')', _ => some (.closing, 0)
  | '|', _ => some (.bar, 0)
  | '?', _ => some (.times .zeroOrOne, 0)
  | '*', _ => some (.times .zeroOrMore, 0)
  | '+', _ => some (.times .oneOrMore, 0)
  | '\x7b', t => (readTimes t).map fun (n, taken) => (.times n, taken)
  | '[', '^' :: t => (readClass true t).map fun (n, taken) => (.operand n, taken + 1)
  | '[', t => (readClass false t).map fun (n, taken) => (.operand n, taken)
  | '\\', t => (readEscape t).map fun (n, taken) => (.operand n, taken)
  | '.', _ => some (.operand .anyChar, 0)
  | '^', _ => some (.operand (.anchor .start), 0)
  | '$', _ => some (.operand (.anchor .finish), 0)
  | c, _ => some (.operand (.char c), 0)

def tokens : Text → Option (List Token)
  | [] => some []
  | c :: t => (readToken c t).bind fun (k, taken) => (tokens (t.drop taken)).map (k :: ·)
termination_by t => t.length
decreasing_by
  rw [List.length_drop, List.length_cons]
  omega

structure OpenGroup where
  captures : Bool
  branches : List (List Node)
  items : List Node

namespace OpenGroup

def add (g : OpenGroup) (n : Node) : OpenGroup := { g with items := g.items ++ [n] }

def repeatLast (g : OpenGroup) (times : Times) (isLazy : Bool) : Option OpenGroup :=
  g.items.getLast?.map fun n => { g with items := g.items.dropLast ++ [.repeated times isLazy n] }

def nextBranch (g : OpenGroup) : OpenGroup :=
  { g with branches := g.branches ++ [g.items], items := [] }

def all (g : OpenGroup) : List (List Node) := g.branches ++ [g.items]

def close (g : OpenGroup) : Node := .group g.captures g.all

end OpenGroup

/-- The branches that the tokens spell with `inner` the group at hand and `outer` the groups around
it. The outermost one is the whole expression. -/
def readFrom : (inner : OpenGroup) → (outer : List OpenGroup) → List Token →
    Option (List (List Node))
  | inner, [], [] => some inner.all
  | _, _ :: _, [] => none
  | inner, outer, .operand n :: rest => readFrom (inner.add n) outer rest
  | inner, outer, .opening captures :: rest => readFrom ⟨captures, [], []⟩ (inner :: outer) rest
  | _, [], .closing :: _ => none
  | inner, next :: outer, .closing :: rest => readFrom (next.add inner.close) outer rest
  | inner, outer, .bar :: rest => readFrom inner.nextBranch outer rest
  | inner, outer, .times n :: .times .zeroOrOne :: rest =>
    (inner.repeatLast n true).bind fun inner => readFrom inner outer rest
  | inner, outer, .times n :: rest =>
    (inner.repeatLast n false).bind fun inner => readFrom inner outer rest

def readBranches (t : Text) : Option (List (List Node)) :=
  (tokens t).bind (readFrom ⟨false, [], []⟩ [])

def Times.fits : Times → Bool
  | .zeroOrOne | .zeroOrMore | .oneOrMore => true
  | .exactly n | .atLeast n | .between _ n => n < countBound

mutual

def Node.timesFit : Node → Bool
  | .repeated n _ operand => n.fits && operand.timesFit
  | .group _ branches => allBranchesFit branches
  | _ => true

def allTimesFit : List Node → Bool
  | [] => true
  | n :: rest => n.timesFit && allTimesFit rest

def allBranchesFit : List (List Node) → Bool
  | [] => true
  | b :: rest => allTimesFit b && allBranchesFit rest

end

/-- The branches that a text spells as a regular expression, in which counts have 32 bits. Left out
are flags and names of groups, look-around, ranges, nested classes and set operations, classes by
Unicode property, characters given by their number, and blanks within a count: a text that uses one
of them is not read. How deep an expression may be nested is no part of the rules. -/
def parse (t : Text) : Option (List (List Node)) := (readBranches t).filter allBranchesFit

example : parse "a|b(?:c*?|)\x7b2,\x7d".toList =
    some [[.char 'a'], [.char 'b', .repeated (.atLeast 2) false
      (.group false [[.repeated .zeroOrMore true (.char 'c')], []])]] := by cbv

mutual

/-- What an item is meant to be read as. -/
def node : Regex → Node
  | .char c => .char c
  | .anyRun => .repeated .zeroOrMore false .anyChar
  | .anyTimes n => .repeated (.exactly n) false .anyChar
  | .separator => .oneOf false [.kind .word true, .char '_']
  | .never => .oneOf true [.kind .blank false, .kind .blank true]
  | .textStart => .anchor .start
  | .textEnd => .anchor .finish
  | .veryEnd => .anchor .veryEnd
  | .wordStartHalf => .anchor .wordStartHalf
  | .wordEndHalf => .anchor .wordEndHalf
  | .group isOptional branches =>
    let g := Node.group false (branchNodes branches)
    if isOptional then .repeated .zeroOrOne false g else g

def nodes : List Regex → List Node
  | [] => []
  | r :: rest => r.node :: nodes rest

def branchNodes : List (List Regex) → List (List Node)
  | [] => []
  | b :: rest => nodes b :: branchNodes rest

end

end NoteQuery.Regex
