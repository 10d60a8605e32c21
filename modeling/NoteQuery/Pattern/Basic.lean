import NoteQuery.Text.CharClass
import NoteQuery.Text.Basic

namespace NoteQuery

/-- A pattern for names of notes. -/
inductive Pattern where
  | seq (parts : List Pattern)
  | alt (branches : List Pattern)
  | literal (text : Text)
  /-- Any characters, or none. -/
  | anyRun
  /-- Exactly so many characters, whichever they are. -/
  | anyExactly (count : Nat)
  | wordStart
  | wordEnd
  | nameEnd

namespace Pattern

def unconstrained : Pattern := .seq []

def isUnconstrained : Pattern → Bool
  | .seq [] => true
  | _ => false

def isAnyRun : Pattern → Bool
  | .anyRun => true
  | _ => false

def withGaps : List Pattern → List Pattern
  | [] => []
  | [p] => [p]
  | p :: q :: more => p :: .anyRun :: withGaps (q :: more)

def separated (parts : List Pattern) : Pattern := .seq (withGaps parts)

def gaps : Pattern → Nat
  | .seq parts => parts.countP isAnyRun
  | _ => 0

def wholeWord (word : Text) : Pattern := .seq [.wordStart, .literal word, .wordEnd]

def StartsWord (name : Text) (i : Nat) : Prop :=
  ∀ k c, i = k + 1 → name[k]? = some c → Text.isAlphanumeric c = false

def EndsWord (name : Text) (i : Nat) : Prop :=
  ∀ c, name[i]? = some c → Text.isAlphanumeric c = false

mutual

/-- The pattern describes what stands from position `i` up to position `j` of the name. -/
def Covers (name : Text) : Pattern → Nat → Nat → Prop
  | .seq parts, i, j => CoversAll name parts i j
  | .alt branches, i, j => CoversSome name branches i j
  | .literal t, i, j => j = i + t.length ∧ j ≤ name.length ∧ t <+: name.drop i
  | .anyRun, i, j => i ≤ j ∧ j ≤ name.length
  | .anyExactly n, i, j => j = i + n ∧ j ≤ name.length
  | .wordStart, i, j => i = j ∧ StartsWord name i
  | .wordEnd, i, j => i = j ∧ EndsWord name i
  | .nameEnd, i, j => i = j ∧ i = name.length

def CoversAll (name : Text) : List Pattern → Nat → Nat → Prop
  | [], i, j => i = j
  | p :: rest, i, j => ∃ k, Covers name p i k ∧ CoversAll name rest k j

def CoversSome (name : Text) : List Pattern → Nat → Nat → Prop
  | [], _, _ => False
  | p :: rest, i, j => Covers name p i j ∨ CoversSome name rest i j

end

/-- Some stretch of the name is as the pattern describes it. -/
def Selects (p : Pattern) (name : Text) : Prop :=
  ∃ i j, i ≤ name.length ∧ Covers name p i j

end Pattern

end NoteQuery
