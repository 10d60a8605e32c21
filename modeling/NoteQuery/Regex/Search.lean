import NoteQuery.Regex.Basic
import NoteQuery.Text.CharClass

namespace NoteQuery.Regex

def OneLine (t : Text) (i j : Nat) : Prop := ∀ k, i ≤ k → k < j → t[k]? ≠ some '\n'

mutual

/-- The item matches from position `i` up to position `j` of the text. -/
def Matches (t : Text) : Regex → Nat → Nat → Prop
  | .char c, i, j => t[i]? = some c ∧ j = i + 1
  | .anyRun, i, j => i ≤ j ∧ j ≤ t.length ∧ OneLine t i j
  | .anyTimes n, i, j => j = i + n ∧ j ≤ t.length ∧ OneLine t i j
  | .separator, i, j => (∃ c, t[i]? = some c ∧ Text.isSeparator c = true) ∧ j = i + 1
  | .never, _, _ => False
  | .textStart, i, j => i = 0 ∧ i = j
  | .textEnd, i, j => i = t.length ∧ i = j
  | .veryEnd, i, j => i = t.length ∧ i = j
  | .wordStartHalf, i, j =>
    (∀ k c, i = k + 1 → t[k]? = some c → Text.isWordChar c = false) ∧ i = j
  | .wordEndHalf, i, j => (∀ c, t[i]? = some c → Text.isWordChar c = false) ∧ i = j
  | .group isOptional branches, i, j =>
    (isOptional = true ∧ i = j) ∨ MatchesSome t branches i j

def MatchesSeq (t : Text) : List Regex → Nat → Nat → Prop
  | [], i, j => i = j
  | r :: rest, i, j => ∃ k, Matches t r i k ∧ MatchesSeq t rest k j

def MatchesSome (t : Text) : List (List Regex) → Nat → Nat → Prop
  | [], _, _ => False
  | b :: rest, i, j => MatchesSeq t b i j ∨ MatchesSome t rest i j

end

def Finds (items : List Regex) (t : Text) : Prop :=
  ∃ i j, i ≤ t.length ∧ MatchesSeq t items i j

/-- A set of positions: the entry at `i` says whether position `i` belongs to it. A text of `n`
characters has `n + 1` positions. -/
abbrev Positions := List Bool

namespace Positions

def none (t : Text) : Positions := List.replicate (t.length + 1) false

def all (t : Text) : Positions := List.replicate (t.length + 1) true

def union (a b : Positions) : Positions := List.zipWith (· || ·) a b

def restrict (a b : Positions) : Positions := List.zipWith (· && ·) a b

def advance (p : Char → Bool) (t : Text) (s : Positions) : Positions :=
  false :: List.zipWith (fun here c => here && p c) s t

def advanceTimes (p : Char → Bool) (t : Text) : Nat → Positions → Positions
  | 0, s => s
  | n + 1, s => let next := s.advance p t; if next = s then s else advanceTimes p t n next

/-- The positions after any number of characters that satisfy `p`; `reached` says whether the
position before the first entry is reached and its character satisfies `p`. -/
def sweep (p : Char → Bool) (reached : Bool) : Text → Positions → Positions
  | _, [] => []
  | [], here :: _ => [here || reached]
  | c :: t, here :: rest => (here || reached) :: sweep p ((here || reached) && p c) t rest

def first (t : Text) : Positions := true :: List.replicate t.length false

def last (t : Text) : Positions := List.replicate t.length false ++ [true]

def notAfter (p : Char → Bool) (t : Text) : Positions := true :: t.map (fun c => !p c)

def notBefore (p : Char → Bool) (t : Text) : Positions := t.map (fun c => !p c) ++ [true]

end Positions

def notLineFeed (c : Char) : Bool := c != '\n'

open Positions in
mutual

/-- The positions where a match of the item can end that begins at one of `s`. -/
def reach (t : Text) : Regex → Positions → Positions
  | .char c, s => s.advance (· == c) t
  | .anyRun, s => s.sweep notLineFeed false t
  | .anyTimes n, s => s.advanceTimes notLineFeed t n
  | .separator, s => s.advance Text.isSeparator t
  | .never, _ => Positions.none t
  | .textStart, s => s.restrict (first t)
  | .textEnd, s => s.restrict (last t)
  | .veryEnd, s => s.restrict (last t)
  | .wordStartHalf, s => s.restrict (notAfter Text.isWordChar t)
  | .wordEndHalf, s => s.restrict (notBefore Text.isWordChar t)
  | .group isOptional branches, s =>
    if isOptional then s.union (reachSome t branches s) else reachSome t branches s

def reachSeq (t : Text) : List Regex → Positions → Positions
  | [], s => s
  | r :: rest, s => reachSeq t rest (reach t r s)

def reachSome (t : Text) : List (List Regex) → Positions → Positions
  | [], _ => Positions.none t
  | b :: rest, s => (reachSeq t b s).union (reachSome t rest s)

end

def isMatch (items : List Regex) (t : Text) : Bool :=
  (reachSeq t items (Positions.all t)).any id

end NoteQuery.Regex
