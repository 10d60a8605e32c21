import NoteQuery.Proofs.Stretch

namespace NoteQuery.Pattern

/-- The items of a pattern that has a separator before it and a gap behind it, which takes over the
end of its last word. -/
def stem (p : Pattern) : List Regex := (p.items ⟨.separator, false⟩ ⟨.unknown, true, false⟩).1

mutual

def anchorFree : Pattern → Bool
  | .seq parts => allAnchorFree parts
  | .alt branches => allAnchorFree branches
  | .wordStart | .wordEnd => false
  | _ => true

def allAnchorFree : List Pattern → Bool
  | [] => true
  | p :: rest => p.anchorFree && allAnchorFree rest

end

theorem allAnchorFree_cons {p : Pattern} {rest : List Pattern} :
    allAnchorFree (p :: rest) = true ↔ p.anchorFree = true ∧ allAnchorFree rest = true := by
  rw [allAnchorFree, Bool.and_eq_true]

theorem leads_eq_false : (p : Pattern) → p.anchorFree = true → p.leadsWithWordStart = false
  | .seq [], _ => rfl
  | .seq (p :: _), h => leads_eq_false p (allAnchorFree_cons.1 h).1
  | .alt [], _ => rfl
  | .alt (p :: _), h => by
      simp [leadsWithWordStart, allLead, leads_eq_false p (allAnchorFree_cons.1 h).1]
  | .literal _, _ | .anyRun, _ | .anyExactly _, _ | .nameEnd, _ => rfl

mutual

theorem trails_eq_false : (p : Pattern) → p.anchorFree = true → p.trailsWithWordEnd = false
  | .seq parts, h => lastTrails_eq_false parts h
  | .alt [], _ => rfl
  | .alt (p :: _), h => by
      simp [trailsWithWordEnd, allTrail, trails_eq_false p (allAnchorFree_cons.1 h).1]
  | .literal _, _ | .anyRun, _ | .anyExactly _, _ | .nameEnd, _ => rfl

theorem lastTrails_eq_false : (parts : List Pattern) → allAnchorFree parts = true →
    lastTrails parts = false
  | [], _ => rfl
  | [p], h => trails_eq_false p (allAnchorFree_cons.1 h).1
  | _ :: q :: more, h => lastTrails_eq_false (q :: more) (allAnchorFree_cons.1 h).2

end

mutual

theorem ahead_wordStarts {a : Ahead} (ha : a.wordStarts = false) :
    (p : Pattern) → p.anchorFree = true → (p.ahead a).wordStarts = false
  | .seq parts, h => aheadOfSeq_wordStarts ha parts h
  | .alt branches, h => leads_eq_false (.alt branches) h
  | .literal _, _ | .anyRun, _ | .anyExactly _, _ | .nameEnd, _ => rfl

theorem aheadOfSeq_wordStarts {a : Ahead} (ha : a.wordStarts = false) :
    (parts : List Pattern) → allAnchorFree parts = true → (aheadOfSeq a parts).wordStarts = false
  | [], _ => ha
  | p :: rest, h =>
      ahead_wordStarts (aheadOfSeq_wordStarts ha rest (allAnchorFree_cons.1 h).2) p
        (allAnchorFree_cons.1 h).1

end

mutual

theorem items_congr {b b' : Behind} {a a' : Ahead} (hb : b.wordEnds = false)
    (hb' : b'.wordEnds = false) (ha : a.wordStarts = false) (ha' : a'.wordStarts = false) :
    (p : Pattern) → p.anchorFree = true →
      (p.items b a).1 = (p.items b' a').1 ∧ (p.items b a).2.wordEnds = false
  | .seq parts, h => itemsOfSeq_congr hb hb' ha ha' parts h
  | .alt branches, h => by
      have ht := trails_eq_false (.alt branches) h
      simp only [items, ht, Bool.and_false]
      have hrows : (itemsOfAlt b.edge ⟨a.edge, false, false⟩ branches).1 =
          (itemsOfAlt b'.edge ⟨a'.edge, false, false⟩ branches).1 :=
        itemsOfAlt_congr rfl rfl branches h
      exact ⟨by rw [hrows], trivial⟩
  | .literal _, _ | .nameEnd, _ | .anyExactly 0, _ | .anyExactly (_ + 1), _ => ⟨rfl, rfl⟩
  | .anyRun, _ => by simp [items, hb, hb', ha, ha', gapItems]

theorem itemsOfSeq_congr {b b' : Behind} {a a' : Ahead} (hb : b.wordEnds = false)
    (hb' : b'.wordEnds = false) (ha : a.wordStarts = false) (ha' : a'.wordStarts = false) :
    (parts : List Pattern) → allAnchorFree parts = true →
      (itemsOfSeq b a parts).1 = (itemsOfSeq b' a' parts).1 ∧
        (itemsOfSeq b a parts).2.wordEnds = false
  | [], _ => ⟨rfl, hb⟩
  | p :: rest, h => by
      obtain ⟨hp, hrest⟩ := allAnchorFree_cons.1 h
      have hw := aheadOfSeq_wordStarts ha rest hrest
      have hw' := aheadOfSeq_wordStarts ha' rest hrest
      obtain ⟨h₁, h₂⟩ := items_congr hb hb' hw hw' p hp
      obtain ⟨_, h₂'⟩ := items_congr hb' hb hw' hw p hp
      obtain ⟨h₃, h₄⟩ := itemsOfSeq_congr h₂ h₂' ha ha' rest hrest
      exact ⟨by simp only [itemsOfSeq, h₁, h₃], h₄⟩

theorem itemsOfAlt_congr {left left' : Edge} {a a' : Ahead} (ha : a.wordStarts = false)
    (ha' : a'.wordStarts = false) : (branches : List Pattern) → allAnchorFree branches = true →
      (itemsOfAlt left a branches).1 = (itemsOfAlt left' a' branches).1
  | [], _ => rfl
  | [p], h => by
      have hp : (p.items ⟨left, false⟩ a).1 = (p.items ⟨left', false⟩ a').1 :=
        (items_congr rfl rfl ha ha' p (allAnchorFree_cons.1 h).1).1
      simp only [itemsOfAlt, hp]
  | p :: q :: more, h => by
      have hp : (p.items ⟨left, false⟩ a).1 = (p.items ⟨left', false⟩ a').1 :=
        (items_congr rfl rfl ha ha' p (allAnchorFree_cons.1 h).1).1
      have hrest : (itemsOfAlt left a (q :: more)).1 = (itemsOfAlt left' a' (q :: more)).1 :=
        itemsOfAlt_congr ha ha' (q :: more) (allAnchorFree_cons.1 h).2
      simp only [itemsOfAlt, hp, hrest]

end

theorem oneLine_of_not_mem {t : Text} (ht : '\n' ∉ t) (i j : Nat) : Regex.OneLine t i j :=
  fun _ _ _ hk => ht (List.mem_of_getElem? hk)

mutual

/-- In a text without line feeds, what an anchor-free pattern is written as means what the pattern
means. -/
theorem matchesSeq_items {t : Text} (ht : '\n' ∉ t) {b : Behind} {a : Ahead}
    (hb : b.wordEnds = false) (ha : a.wordStarts = false) {i j : Nat} (hi : i ≤ t.length) :
    (p : Pattern) → p.anchorFree = true →
      (Regex.MatchesSeq t (p.items b a).1 i j ↔ Covers t p i j)
  | .seq parts, h => matchesSeq_itemsOfSeq ht hb ha hi parts h
  | .alt [], _ => by simp [items, Covers, CoversSome, Regex.MatchesSeq, Regex.Matches]
  | .alt (q :: more), h => by
      have ht' := trails_eq_false (.alt (q :: more)) h
      have hrows : Regex.MatchesSome t
          (itemsOfAlt b.edge ⟨a.edge, false, false⟩ (q :: more)).1 i j ↔
            CoversSome t (q :: more) i j :=
        matchesSome_itemsOfAlt ht rfl hi (q :: more) h
      simp only [items, ht', Bool.and_false, List.isEmpty_cons, Bool.false_eq_true, if_false,
        Regex.matchesSeq_singleton, Regex.Matches, false_and, false_or]
      exact hrows
  | .literal _, _ => matchesSeq_chars hi
  | .anyRun, _ => by
      simp [items, hb, ha, gapItems, Regex.matchesSeq_singleton, Regex.Matches, Covers,
        oneLine_of_not_mem ht]
  | .anyExactly 0, _ => by
      simp only [items, Regex.MatchesSeq, Covers, Nat.add_zero]
      constructor
      · rintro rfl
        exact ⟨rfl, hi⟩
      · rintro ⟨rfl, _⟩
        rfl
  | .anyExactly (n + 1), _ => by
      simp [items, Regex.matchesSeq_singleton, Regex.Matches, Covers, oneLine_of_not_mem ht]
  | .nameEnd, _ => by
      simp only [items, Regex.matchesSeq_singleton, Regex.Matches, Covers]
      exact and_comm

theorem matchesSeq_itemsOfSeq {t : Text} (ht : '\n' ∉ t) {b : Behind} {a : Ahead}
    (hb : b.wordEnds = false) (ha : a.wordStarts = false) {i j : Nat} (hi : i ≤ t.length) :
    (parts : List Pattern) → allAnchorFree parts = true →
      (Regex.MatchesSeq t (itemsOfSeq b a parts).1 i j ↔ CoversAll t parts i j)
  | [], _ => Iff.rfl
  | p :: rest, h => by
      obtain ⟨hp, hrest⟩ := allAnchorFree_cons.1 h
      have hw := aheadOfSeq_wordStarts ha rest hrest
      have hb' := (items_congr hb hb hw hw p hp).2
      simp only [itemsOfSeq, Regex.matchesSeq_append, CoversAll]
      refine exists_congr fun k => ?_
      constructor
      · rintro ⟨h₁, h₂⟩
        have hk := (Regex.MatchesSeq.le hi _ h₁).2
        exact ⟨(matchesSeq_items ht hb hw hi p hp).1 h₁,
          (matchesSeq_itemsOfSeq ht hb' ha hk rest hrest).1 h₂⟩
      · rintro ⟨h₁, h₂⟩
        have hk := (Covers.le hi p h₁).2
        exact ⟨(matchesSeq_items ht hb hw hi p hp).2 h₁,
          (matchesSeq_itemsOfSeq ht hb' ha hk rest hrest).2 h₂⟩

theorem matchesSome_itemsOfAlt {t : Text} (ht : '\n' ∉ t) {left : Edge} {a : Ahead}
    (ha : a.wordStarts = false) {i j : Nat} (hi : i ≤ t.length) :
    (branches : List Pattern) → allAnchorFree branches = true →
      (Regex.MatchesSome t (itemsOfAlt left a branches).1 i j ↔ CoversSome t branches i j)
  | [], _ => Iff.rfl
  | [p], h => by
      have hp : Regex.MatchesSeq t (p.items ⟨left, false⟩ a).1 i j ↔ Covers t p i j :=
        matchesSeq_items ht rfl ha hi p (allAnchorFree_cons.1 h).1
      exact or_congr hp Iff.rfl
  | p :: q :: more, h => by
      have hp : Regex.MatchesSeq t (p.items ⟨left, false⟩ a).1 i j ↔ Covers t p i j :=
        matchesSeq_items ht rfl ha hi p (allAnchorFree_cons.1 h).1
      exact or_congr hp
        (matchesSome_itemsOfAlt ht ha hi (q :: more) (allAnchorFree_cons.1 h).2)

end

theorem items_eq_stem {b : Behind} {a : Ahead} (hb : b.wordEnds = false)
    (ha : a.wordStarts = false) {p : Pattern} (hp : p.anchorFree = true) :
    (p.items b a).1 = p.stem ∧ (p.items b a).2.wordEnds = false :=
  items_congr hb rfl ha rfl p hp

end NoteQuery.Pattern
