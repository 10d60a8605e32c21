import NoteQuery.Text.Basic

namespace NoteQuery

/-- One item of a regular expression; a regular expression is a list of items. -/
inductive Regex where
  | char (c : Char)
  /-- Any characters but line feeds, or none. -/
  | anyRun
  /-- So many characters, none of them a line feed. -/
  | anyTimes (count : Nat)
  | separator
  /-- A character of the empty class. -/
  | never
  | textStart
  /-- The end of the text, written `$`. -/
  | textEnd
  /-- The end of the text, written `\z`. -/
  | veryEnd
  /-- No word character just before. -/
  | wordStartHalf
  /-- No word character just after. -/
  | wordEndHalf
  /-- One of the branches; an optional group may also be passed over. -/
  | group (isOptional : Bool) (branches : List (List Regex))

namespace Regex

def metaChars : Text := "\\.+*?()|[]\x7b\x7d^$#&-~".toList

def charText (c : Char) : Text := if metaChars.contains c then ['\\', c] else [c]

mutual

def text : Regex → Text
  | .char c => charText c
  | .anyRun => ".*".toList
  | .anyTimes n => ".\x7b".toList ++ Text.ofNat n ++ "\x7d".toList
  | .separator => "[\\W_]".toList
  | .never => "[^\\s\\S]".toList
  | .textStart => "^".toList
  | .textEnd => "$".toList
  | .veryEnd => "\\z".toList
  | .wordStartHalf => "\\b\x7bstart-half\x7d".toList
  | .wordEndHalf => "\\b\x7bend-half\x7d".toList
  | .group isOptional branches =>
    "(?:".toList ++ textOfBranches branches ++ (if isOptional then ")?".toList else ")".toList)

def textOfSeq : List Regex → Text
  | [] => []
  | r :: rest => text r ++ textOfSeq rest

def textOfBranches : List (List Regex) → Text
  | [] => []
  | [b] => textOfSeq b
  | b :: c :: more => textOfSeq b ++ '|' :: textOfBranches (c :: more)

end

mutual

/-- How deep the levels of an item are nested. A repetition, a group and a bracketed class are a
level each, and so are a sequence of several items, several branches, and several members of a
class. -/
def depth : Regex → Nat
  | .char _ | .textStart | .textEnd | .veryEnd | .wordStartHalf | .wordEndHalf => 0
  | .anyRun | .anyTimes _ => 1
  | .separator | .never => 2
  | .group isOptional branches =>
    (if isOptional then 2 else 1) + (if branches.length ≤ 1 then 0 else 1) +
      depthOfBranches branches

def depthOfItems : List Regex → Nat
  | [] => 0
  | r :: rest => max r.depth (depthOfItems rest)

def depthOfBranches : List (List Regex) → Nat
  | [] => 0
  | b :: rest => max ((if b.length ≤ 1 then 0 else 1) + depthOfItems b) (depthOfBranches rest)

end

def depthOfSeq (items : List Regex) : Nat :=
  (if items.length ≤ 1 then 0 else 1) + depthOfItems items

def maxDepth : Nat := 250

def countBound : Nat := 4294967296

mutual

/-- The test holds of an item and of all that are inside it. -/
def everywhere (test : Regex → Bool) : Regex → Bool
  | .group isOptional branches => test (.group isOptional branches) && everyBranch test branches
  | r => test r

def everyItem (test : Regex → Bool) : List Regex → Bool
  | [] => true
  | r :: rest => r.everywhere test && everyItem test rest

def everyBranch (test : Regex → Bool) : List (List Regex) → Bool
  | [] => true
  | b :: rest => everyItem test b && everyBranch test rest

end

def countFits : Regex → Bool
  | .anyTimes n => n < countBound
  | _ => true

def usable (items : List Regex) : Bool :=
  everyItem countFits items && depthOfSeq items ≤ maxDepth

section Everywhere

variable {test : Regex → Bool} {xs ys : List Regex}

theorem everyItem_append :
    everyItem test (xs ++ ys) = (everyItem test xs && everyItem test ys) := by
  induction xs with
  | nil => rfl
  | cons r rest ih => rw [List.cons_append, everyItem, everyItem, ih, Bool.and_assoc]

theorem everyItem_chars (h : ∀ c, test (.char c) = true) (w : Text) :
    everyItem test (w.map .char) = true := by
  induction w with
  | nil => rfl
  | cons c w ih => exact Bool.and_eq_true_iff.2 ⟨h c, ih⟩

theorem everyBranch_iff {branches : List (List Regex)} :
    everyBranch test branches = true ↔ ∀ b ∈ branches, everyItem test b = true := by
  induction branches with
  | nil => simp [everyBranch]
  | cons b rest ih => simp [everyBranch, ih]

theorem everyItem_group_iff {isOptional : Bool} {branches : List (List Regex)} :
    everyItem test [.group isOptional branches] = true ↔
      test (.group isOptional branches) = true ∧ ∀ b ∈ branches, everyItem test b = true := by
  rw [everyItem, everywhere, everyItem, Bool.and_true, Bool.and_eq_true, everyBranch_iff]

end Everywhere

end Regex

end NoteQuery
