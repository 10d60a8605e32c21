import NoteQuery.Pattern.Basic

namespace NoteQuery

/-- What is known of the character on one side of a position. -/
inductive Edge where
  /-- The start of the pattern; the name may go on to the left. -/
  | opening
  /-- The end of the pattern; the name may go on to the right. -/
  | closing
  /-- No character, or one that is not alphanumeric. -/
  | separator
  | word
  | unknown
deriving DecidableEq, Repr

namespace Edge

def ofChar (c : Char) : Edge := if Text.isAlphanumeric c then .word else .separator

def join (a b : Edge) : Edge :=
  if a = b then a
  else match a, b with
    | .separator, .closing | .closing, .separator => .closing
    | _, _ => .unknown

end Edge

namespace Pattern

mutual

/-- The first character that the pattern can produce, or `after` if it produces none. -/
def firstEdge (after : Edge) : Pattern → Edge
  | .seq parts => firstEdgeOfSeq after parts
  | .alt branches => firstEdgeOfAlt after branches
  | .literal [] => after
  | .literal (c :: _) => .ofChar c
  | .anyRun => .unknown
  | .anyExactly 0 => after
  | .anyExactly (_ + 1) => .unknown
  | .wordStart => after
  | .wordEnd => after
  | .nameEnd => .separator

def firstEdgeOfSeq (after : Edge) : List Pattern → Edge
  | [] => after
  | p :: rest => p.firstEdge (firstEdgeOfSeq after rest)

def firstEdgeOfAlt (after : Edge) : List Pattern → Edge
  | [] => .unknown
  | [p] => p.firstEdge after
  | p :: q :: more => (p.firstEdge after).join (firstEdgeOfAlt after (q :: more))

end

mutual

def leadsWithWordStart : Pattern → Bool
  | .wordStart => true
  | .seq parts => firstLeads parts
  | .alt branches => !branches.isEmpty && allLead branches
  | _ => false

def firstLeads : List Pattern → Bool
  | [] => false
  | p :: _ => p.leadsWithWordStart

def allLead : List Pattern → Bool
  | [] => true
  | p :: rest => p.leadsWithWordStart && allLead rest

end

mutual

def trailsWithWordEnd : Pattern → Bool
  | .wordEnd => true
  | .seq parts => lastTrails parts
  | .alt branches => !branches.isEmpty && allTrail branches
  | _ => false

def lastTrails : List Pattern → Bool
  | [] => false
  | [p] => p.trailsWithWordEnd
  | _ :: q :: more => lastTrails (q :: more)

def allTrail : List Pattern → Bool
  | [] => true
  | p :: rest => p.trailsWithWordEnd && allTrail rest

end

end Pattern

end NoteQuery
