import NoteQuery.Keyword.Basic
import NoteQuery.Text.CharClass

namespace NoteQuery.Keyword

inductive Token where
  | opening
  | closing
  | bare (word : Text)
  | quoted (text : Text)
deriving DecidableEq, Repr

namespace Token

inductive Mode where
  | between
  | inWord (reversed : Text)
  | inQuotes (reversed : Text)

def Mode.pending : Mode → List Token
  | .inWord w => [.bare w.reverse]
  | _ => []

/-- The tokens of the rest of a text; nothing if a quote is left open. -/
def scanFrom : Mode → Text → Option (List Token)
  | .inQuotes _, [] => none
  | mode, [] => some mode.pending
  | .inQuotes q, c :: rest =>
    if c = '"' then (scanFrom .between rest).map (.quoted q.reverse :: ·)
    else scanFrom (.inQuotes (c :: q)) rest
  | mode, c :: rest =>
    if c = '(' then (scanFrom .between rest).map (mode.pending ++ .opening :: ·)
    else if c = ')' then (scanFrom .between rest).map (mode.pending ++ .closing :: ·)
    else if c = '"' then (scanFrom (.inQuotes []) rest).map (mode.pending ++ ·)
    else if Text.isBlank c then (scanFrom .between rest).map (mode.pending ++ ·)
    else match mode with
      | .inWord w => scanFrom (.inWord (c :: w)) rest
      | _ => scanFrom (.inWord [c]) rest

def scan (t : Text) : Option (List Token) := scanFrom .between t

end Token

namespace Expr

abbrev Rest (tokens : List Token) := { rest : List Token // rest.length < tokens.length }

def takeOperator : List Token → Op × List Token
  | .bare w :: rest =>
    match Op.ofName? w with
    | some op => (op, rest)
    | none => (.and, .bare w :: rest)
  | tokens => (.and, tokens)

theorem length_takeOperator (tokens : List Token) :
    (takeOperator tokens).2.length ≤ tokens.length := by
  unfold takeOperator
  split
  · split
    · exact Nat.le_succ _
    · exact Nat.le_refl _
  · exact Nat.le_refl _

mutual

def readOne : (tokens : List Token) → Except Fault (Expr × Rest tokens)
  | [] => .error .unexpectedEnd
  | .closing :: _ => .error .unexpectedClose
  | .bare w :: rest => .ok (.word w, ⟨rest, Nat.lt_succ_self _⟩)
  | .quoted w :: rest => .ok (.word w, ⟨rest, Nat.lt_succ_self _⟩)
  | .opening :: rest =>
    have hle := length_takeOperator rest
    (readGroup (takeOperator rest).2).map fun (children, ⟨behind, h⟩) =>
      (.group (takeOperator rest).1 children,
        ⟨behind, Nat.lt_succ_of_lt (Nat.lt_of_lt_of_le h hle)⟩)
termination_by tokens => (tokens.length, 0)

def readGroup : (tokens : List Token) → Except Fault (List Expr × Rest tokens)
  | [] => .error .missingClose
  | .closing :: rest => .ok ([], ⟨rest, Nat.lt_succ_self _⟩)
  | tokens =>
    match readOne tokens with
    | .error fault => .error fault
    | .ok (first, ⟨rest, h⟩) =>
      (readGroup rest).map fun (others, ⟨behind, h'⟩) =>
        (first :: others, ⟨behind, Nat.lt_trans h' h⟩)
termination_by tokens => (tokens.length, 1)

end

def readAll : List Token → Except Fault (List Expr)
  | [] => .ok []
  | token :: more =>
    match readOne (token :: more) with
    | .error fault => .error fault
    | .ok (first, ⟨rest, _⟩) => (readAll rest).map (first :: ·)
termination_by tokens => tokens.length
decreasing_by assumption

def ofTokens (tokens : List Token) : Except Fault Expr :=
  match readAll tokens with
  | .error fault => .error fault
  | .ok [] => .error .nothing
  | .ok [e] => .ok e
  | .ok es => .ok (.group .and es)

/-- The expression that a text such as `(or agenda (and project "in progress"))` spells. A group
whose first bare word is an operator is that operator over the rest; any other group, and several
expressions side by side, are conjunctions. -/
def parse (t : Text) : Except Fault Expr :=
  match Token.scan t with
  | none => .error .openQuote
  | some tokens => ofTokens tokens

end Expr

end NoteQuery.Keyword
