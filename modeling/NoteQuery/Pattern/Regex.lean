import NoteQuery.Pattern.Edge
import NoteQuery.Regex.Basic

namespace NoteQuery.Pattern

/-- What is known to the left of a position. -/
structure Behind where
  edge : Edge
  /-- The item before ends by asking for the end of a word. -/
  wordEnds : Bool

structure Ahead where
  edge : Edge
  /-- A gap comes next and takes over the end of a word. -/
  gap : Bool
  /-- The next item begins by asking for the start of a word. -/
  wordStarts : Bool

mutual

def ahead (after : Ahead) : Pattern → Ahead
  | .seq parts => aheadOfSeq after parts
  | p => ⟨p.firstEdge after.edge, p.isAnyRun, p.leadsWithWordStart⟩

def aheadOfSeq (after : Ahead) : List Pattern → Ahead
  | [] => after
  | p :: rest => p.ahead (aheadOfSeq after rest)

end

/-- How the start or the end of a word is settled at its place. In the names of notes the low line
separates words, while a regular expression counts it as a part of a word, so the word boundaries
of regular expressions are the last resort. -/
inductive Boundary where
  | holds
  | fails
  /-- It costs a separator unless the name ends there. -/
  | consumes
  /-- It is left to a test of the regular expression. -/
  | tested
  /-- The gap that follows takes it over. -/
  | deferred
deriving DecidableEq, Repr

def startBoundary : Edge → Boundary
  | .separator => .holds
  | .word => .fails
  | .opening => .consumes
  | .closing | .unknown => .tested

def endBoundary (after : Ahead) : Boundary :=
  if after.gap then .deferred
  else match after.edge with
    | .separator => .holds
    | .word => .fails
    | .closing => .consumes
    | .opening | .unknown => .tested

def Boundary.startItems : Boundary → List Regex
  | .holds | .deferred => []
  | .fails => [.never]
  | .consumes => [.group false [[.textStart], [.separator]]]
  | .tested => [.wordStartHalf]

def Boundary.endItems : Boundary → List Regex
  | .holds | .deferred => []
  | .fails => [.never]
  | .consumes => [.group false [[.separator], [.textEnd]]]
  | .tested => [.wordEndHalf]

/-- A gap between `left` and `next`; `afterWord` and `beforeWord` say whether it takes over the end
of a word on its left and the start of one on its right. -/
def gapItems (afterWord beforeWord : Bool) (left next : Edge) : List Regex :=
  match afterWord, beforeWord with
  | false, false => [.anyRun]
  | false, true =>
    match left with
    | .separator => [.group true [[.anyRun, .separator]]]
    | .opening => [.group false [[.textStart], [.anyRun, .separator]]]
    | _ => [.anyRun, .separator]
  | true, false =>
    match next with
    | .separator => [.group true [[.separator, .anyRun]]]
    | .closing => [.group false [[.separator, .anyRun], [.textEnd]]]
    | _ => [.separator, .anyRun]
  | true, true =>
    let body := [.separator, .group true [[.anyRun, .separator]]]
    if left = .separator ∧ next = .separator then [.group true [body]] else body

def gapEdge (beforeWord : Bool) : Edge := if beforeWord then .separator else .unknown

mutual

/-- The items of the pattern between `behind` and `after`, and what is then known on the left. -/
def items (behind : Behind) (after : Ahead) : Pattern → List Regex × Behind
  | .seq parts => itemsOfSeq behind after parts
  | .alt branches =>
    let trails := (Pattern.alt branches).trailsWithWordEnd
    let rows := itemsOfAlt behind.edge ⟨after.edge, after.gap && trails, false⟩ branches
    (if branches.isEmpty then [.never] else [.group false rows.1], ⟨rows.2, trails⟩)
  | .literal t =>
    (t.map .char, ⟨match t.getLast? with | some c => .ofChar c | none => behind.edge, false⟩)
  | .anyRun =>
    (gapItems behind.wordEnds after.wordStarts behind.edge after.edge,
      ⟨gapEdge after.wordStarts, false⟩)
  | .anyExactly 0 => ([], ⟨behind.edge, false⟩)
  | .anyExactly (n + 1) => ([.anyTimes (n + 1)], ⟨.unknown, false⟩)
  | .wordStart =>
    ((startBoundary behind.edge).startItems,
      ⟨if behind.edge = .opening then .separator else behind.edge, false⟩)
  | .wordEnd => ((endBoundary after).endItems, ⟨behind.edge, true⟩)
  | .nameEnd => ([.veryEnd], ⟨behind.edge, false⟩)

def itemsOfSeq (behind : Behind) (after : Ahead) : List Pattern → List Regex × Behind
  | [] => ([], behind)
  | p :: rest =>
    let here := items behind (aheadOfSeq after rest) p
    let there := itemsOfSeq here.2 after rest
    (here.1 ++ there.1, there.2)

def itemsOfAlt (left : Edge) (after : Ahead) : List Pattern → List (List Regex) × Edge
  | [] => ([], .unknown)
  | [b] => let row := items ⟨left, false⟩ after b; ([row.1], row.2.edge)
  | b :: c :: more =>
    let row := items ⟨left, false⟩ after b
    let rows := itemsOfAlt left after (c :: more)
    (row.1 :: rows.1, row.2.edge.join rows.2)

end

def toRegex (p : Pattern) : List Regex := (p.items ⟨.opening, false⟩ ⟨.closing, false, false⟩).1

def toText (p : Pattern) : Text := Regex.textOfSeq p.toRegex

end NoteQuery.Pattern
