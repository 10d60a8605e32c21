import NoteQuery.Proofs.Boundary

namespace NoteQuery

open Pattern Regex Text

variable {t : Text} {i j : Nat}

namespace Edge

/-- What is known of the character just behind position `i` is so. -/
def HoldsAhead (t : Text) (i : Nat) : Edge → Prop
  | .separator => EndsWord t i
  | .word => ¬ EndsWord t i
  | .opening | .closing | .unknown => True

theorem of_join_eq {a b e : Edge} (h : a.join b = e) :
    (a = e ∧ b = e) ∨ (e = .closing ∧ (a = .closing ∨ b = .closing)) ∨ e = .unknown := by
  subst h
  cases a <;> cases b <;> simp [join]

theorem holdsAhead_join {a b : Edge} (h : a.HoldsAhead t i ∨ b.HoldsAhead t i) :
    (a.join b).HoldsAhead t i := by
  rcases of_join_eq (rfl : a.join b = a.join b) with ⟨ha, hb⟩ | ⟨he, -⟩ | he
  · rcases h with h | h
    · rwa [← ha]
    · rwa [← hb]
  · rw [he]
    trivial
  · rw [he]
    trivial

theorem holdsAhead_ofChar {c : Char} (h : t[i]? = some c) : (ofChar c).HoldsAhead t i := by
  by_cases hc : isAlphanumeric c = true
  · rw [ofChar, if_pos hc]
    intro hend
    exact Bool.false_ne_true ((hend c h).symm.trans hc)
  · rw [ofChar, if_neg hc]
    intro d hd
    obtain rfl : c = d := Option.some.inj (h.symm.trans hd)
    simpa using hc

end Edge

namespace Pattern

variable {p : Pattern} {ps : List Pattern} {b : Behind} {a : Ahead} {e : Edge} {w : Text}

/-- Induction on patterns in which a sequence is taken apart like a list. -/
@[elab_as_elim]
theorem induction_seq {P : Pattern → Prop} (nil : P (.seq []))
    (cons : ∀ p ps, P p → P (.seq ps) → P (.seq (p :: ps)))
    (alt : ∀ ps, (∀ p ∈ ps, P p) → P (.alt ps)) (literal : ∀ w, P (.literal w))
    (anyRun : P .anyRun) (anyExactly : ∀ n, P (.anyExactly n)) (wordStart : P .wordStart)
    (wordEnd : P .wordEnd) (nameEnd : P .nameEnd) (p : Pattern) : P p :=
  @Pattern.rec P (fun ps => P (.seq ps) ∧ ∀ p ∈ ps, P p) (fun _ h => h.1) (fun ps h => alt ps h.2)
    literal anyRun anyExactly wordStart wordEnd nameEnd ⟨nil, fun _ h => nomatch h⟩
    (fun p ps hp hps => ⟨cons p ps hp hps.1, List.forall_mem_cons.2 ⟨hp, hps.2⟩⟩) p

section Sequences

theorem ahead_seq_cons : (Pattern.seq (p :: ps)).ahead a = p.ahead ((Pattern.seq ps).ahead a) := rfl

theorem covers_seq_cons :
    Covers t (.seq (p :: ps)) i j ↔ ∃ k, Covers t p i k ∧ Covers t (.seq ps) k j := Iff.rfl

theorem matchesSeq_seq_cons : MatchesSeq t ((Pattern.seq (p :: ps)).items b a).1 i j ↔
    ∃ k, MatchesSeq t (p.items b ((Pattern.seq ps).ahead a)).1 i k ∧
      MatchesSeq t ((Pattern.seq ps).items (p.items b ((Pattern.seq ps).ahead a)).2 a).1 k j :=
  matchesSeq_append

theorem ahead_edge (p : Pattern) (a : Ahead) : (p.ahead a).edge = p.firstEdge a.edge := by
  induction p using induction_seq generalizing a with
  | cons p ps hp hps =>
      rw [ahead_seq_cons, hp, hps]
      rfl
  | _ => rfl

end Sequences

section Alternatives

theorem rows_itemsOfAlt {left : Edge} (ps : List Pattern) : (itemsOfAlt left a ps).1 =
    ps.map fun p => (p.items ⟨left, false⟩ a).1 := by
  induction ps with
  | nil => rfl
  | cons p rest ih =>
      cases rest with
      | nil => rfl
      | cons q more =>
          rw [itemsOfAlt, ih]
          rfl

def branchAhead (ps : List Pattern) (a : Ahead) : Ahead :=
  ⟨a.edge, a.gap && (Pattern.alt ps).trailsWithWordEnd, false⟩

theorem items_alt_cons : ((Pattern.alt (p :: ps)).items b a).1 = [.group false
    ((p :: ps).map fun q => (q.items ⟨b.edge, false⟩ (branchAhead (p :: ps) a)).1)] := by
  rw [← rows_itemsOfAlt]
  rfl

theorem matchesSeq_alt : MatchesSeq t ((Pattern.alt ps).items b a).1 i j ↔
    ∃ p ∈ ps, MatchesSeq t (p.items ⟨b.edge, false⟩ (branchAhead ps a)).1 i j := by
  cases ps with
  | nil => simp [items, MatchesSeq, Matches]
  | cons p rest =>
      rw [items_alt_cons, matchesSeq_singleton, matches_group]
      constructor
      · rintro (⟨hf, -⟩ | ⟨row, hrow, hm⟩)
        · exact Bool.noConfusion hf
        · obtain ⟨p', hp, rfl⟩ := List.mem_map.1 hrow
          exact ⟨p', hp, hm⟩
      · rintro ⟨p', hp, hm⟩
        exact .inr ⟨_, List.mem_map_of_mem hp, hm⟩

theorem edge_of_itemsOfAlt {left : Edge} (he : e = .separator ∨ e = .word ∨ e = .opening)
    (h : (itemsOfAlt left a ps).2 = e) :
    ps ≠ [] ∧ ∀ p ∈ ps, (p.items ⟨left, false⟩ a).2.edge = e := by
  induction ps with
  | nil =>
      subst h
      simp [itemsOfAlt] at he
  | cons p rest ih =>
      refine ⟨List.cons_ne_nil _ _, ?_⟩
      cases rest with
      | nil => exact List.forall_mem_singleton.2 h
      | cons q more =>
          rcases Edge.of_join_eq h with ⟨hp, hrest⟩ | ⟨rfl, -⟩ | rfl
          · exact List.forall_mem_cons.2 ⟨hp, (ih hrest).2⟩
          · simp at he
          · simp at he

theorem edge_of_alt (he : e = .separator ∨ e = .word ∨ e = .opening)
    (h : ((Pattern.alt ps).items b a).2.edge = e) :
    ps ≠ [] ∧ ∀ p ∈ ps, (p.items ⟨b.edge, false⟩ (branchAhead ps a)).2.edge = e :=
  edge_of_itemsOfAlt he h

end Alternatives

section Ahead

theorem getElem?_of_prefix_drop {c : Char} (h : c :: w <+: t.drop i) : t[i]? = some c := by
  obtain ⟨v, hv⟩ := h
  rw [← List.head?_drop, ← hv]
  rfl

theorem holdsAhead_firstEdgeOfAlt (hp : p ∈ ps) (h : (p.firstEdge e).HoldsAhead t i) :
    (firstEdgeOfAlt e ps).HoldsAhead t i := by
  induction ps with
  | nil => simp at hp
  | cons q rest ih =>
      cases rest with
      | nil =>
          obtain rfl := List.mem_singleton.1 hp
          exact h
      | cons q' more =>
          apply Edge.holdsAhead_join
          rcases List.mem_cons.1 hp with rfl | hp
          · exact .inl h
          · exact .inr (ih hp)

theorem holdsAhead_firstEdge (p : Pattern) (h : Covers t p i j) (he : e.HoldsAhead t j) :
    (p.firstEdge e).HoldsAhead t i := by
  induction p using induction_seq generalizing i j e with
  | nil =>
      obtain rfl : i = j := h
      exact he
  | cons p ps hp hps =>
      obtain ⟨k, hk, hj⟩ := covers_seq_cons.1 h
      exact hp hk (hps hj he)
  | alt ps ih =>
      obtain ⟨p, hp, h⟩ := coversSome_iff.1 h
      exact holdsAhead_firstEdgeOfAlt hp (ih p hp h he)
  | literal w =>
      cases w with
      | nil =>
          obtain ⟨rfl, -⟩ := h
          exact he
      | cons c w => exact Edge.holdsAhead_ofChar (getElem?_of_prefix_drop h.2.2)
  | anyExactly n =>
      cases n with
      | zero =>
          obtain ⟨rfl, -⟩ := h
          exact he
      | succ n => trivial
  | anyRun => trivial
  | wordStart | wordEnd =>
      obtain ⟨rfl, -⟩ := h
      exact he
  | nameEnd =>
      obtain ⟨-, rfl⟩ := h
      exact endsWord_of_length_le (Nat.le_refl _)

theorem endsWord_iff_of_le (hi : i ≤ t.length) :
    EndsWord t i ↔ i = t.length ∨ ∃ c, t[i]? = some c ∧ isAlphanumeric c = false := by
  constructor
  · intro h
    rcases Nat.eq_or_lt_of_le hi with heq | hlt
    · exact .inl heq
    · exact .inr ⟨t[i], List.getElem?_eq_getElem hlt, h _ (List.getElem?_eq_getElem hlt)⟩
  · rintro (rfl | ⟨c, hc, hsep⟩)
    · exact endsWord_of_length_le (Nat.le_refl _)
    · intro d hd
      obtain rfl : c = d := Option.some.inj (hc.symm.trans hd)
      exact hsep

theorem holdsAhead_iff_of_le (hi : i ≤ t.length) : e.HoldsAhead t i ↔
    (e = .word → ∃ c, t[i]? = some c ∧ isAlphanumeric c = true) ∧
      (e = .separator → i = t.length ∨ ∃ c, t[i]? = some c ∧ isAlphanumeric c = false) := by
  cases e with
  | separator => simp [Edge.HoldsAhead, endsWord_iff_of_le hi]
  | word => simp [Edge.HoldsAhead, EndsWord]
  | opening | closing | unknown => simp [Edge.HoldsAhead]

/-- What is told of the first character of some items, knowing what the character behind them is,
is so at the start of whatever the items cover. -/
theorem firstEdgeOfSeq_sound (name : Text) (items : List Pattern) (right : Edge) (i j : Nat)
    (hi : i ≤ name.length) (hitems : CoversAll name items i j)
    (hword : right = .word → ∃ c, name[j]? = some c ∧ isAlphanumeric c = true)
    (hseparator : right = .separator →
      j = name.length ∨ ∃ c, name[j]? = some c ∧ isAlphanumeric c = false) :
    (firstEdgeOfSeq right items = .word → ∃ c, name[i]? = some c ∧ isAlphanumeric c = true) ∧
      (firstEdgeOfSeq right items = .separator →
        i = name.length ∨ ∃ c, name[i]? = some c ∧ isAlphanumeric c = false) := by
  have hj : j ≤ name.length := (CoversAll.le hi items hitems).2
  have hright : right.HoldsAhead name j := (holdsAhead_iff_of_le hj).2 ⟨hword, hseparator⟩
  have hfirst : (firstEdgeOfSeq right items).HoldsAhead name i :=
    holdsAhead_firstEdge (.seq items) hitems hright
  exact (holdsAhead_iff_of_le hi).1 hfirst

theorem firstEdgeOfSeq_sound_of_plan :
    let name : Text := "plan_b".toList
    let word : List Pattern := [.anyExactly 0, .alt [.literal "pen".toList,
      .seq [.wordStart, .seq [.literal [], .literal "plan".toList]]], .wordEnd]
    let rest : List Pattern := [.wordEnd, .alt [.seq [.literal [], .nameEnd],
      .seq [.literal "_b".toList, .nameEnd]]]
    CoversAll name word 0 4 ∧ CoversAll name rest 4 6 ∧
      firstEdgeOfSeq .separator word = .word ∧ firstEdgeOfSeq .closing rest = .separator ∧
      (∃ c, name[0]? = some c ∧ isAlphanumeric c = true) ∧
      (4 = name.length ∨ ∃ c, name[4]? = some c ∧ isAlphanumeric c = false) := by
  intro name word rest
  have hsep : ∃ c, name[4]? = some c ∧ isAlphanumeric c = false := ⟨'_', rfl, by decide⟩
  have hend : EndsWord name 4 := (endsWord_iff_of_le (by decide)).2 (.inr hsep)
  have hword : CoversAll name word 0 4 :=
    ⟨0, ⟨rfl, by decide⟩, 4, .inr (.inl ⟨0, ⟨rfl, startsWord_zero⟩, 4,
      ⟨0, ⟨rfl, by decide, List.nil_prefix⟩, 4, ⟨rfl, by decide, by decide⟩, rfl⟩, rfl⟩),
      4, ⟨rfl, hend⟩, rfl⟩
  have hrest : CoversAll name rest 4 6 :=
    ⟨4, ⟨rfl, hend⟩, 6, .inr (.inl ⟨6, ⟨rfl, by decide, by decide⟩, 6, ⟨rfl, rfl⟩, rfl⟩), rfl⟩
  have hfirst : firstEdgeOfSeq .separator word = .word := by decide
  have hfirst' : firstEdgeOfSeq .closing rest = .separator := by decide
  exact ⟨hword, hrest, hfirst, hfirst',
    (firstEdgeOfSeq_sound name word .separator 0 4 (by decide) hword nofun fun _ => .inr hsep).1
      hfirst,
    (firstEdgeOfSeq_sound name rest .closing 4 6 (by decide) hrest nofun nofun).2 hfirst'⟩

theorem endsWord_of_trails (p : Pattern) (hp : p.trailsWithWordEnd = true) (h : Covers t p i j) :
    EndsWord t j := by
  induction p using induction_seq generalizing i j with
  | cons p ps ihp ihps =>
      obtain ⟨k, hk, hj⟩ := covers_seq_cons.1 h
      cases ps with
      | nil =>
          obtain rfl : k = j := hj
          exact ihp hp hk
      | cons q more => exact ihps hp hj
  | alt ps ih =>
      obtain ⟨p, hmem, h⟩ := coversSome_iff.1 h
      rw [trailsWithWordEnd, Bool.and_eq_true] at hp
      exact ih p hmem (allTrail_iff.1 hp.2 p hmem) h
  | wordEnd =>
      obtain ⟨rfl, h⟩ := h
      exact h
  | _ => exact Bool.noConfusion hp

end Ahead

section Behind

theorem startsWord_of_covers_literal {c : Char} (h : Covers t (.literal w) i j)
    (hc : w.getLast? = some c) : StartsWord t j ↔ isAlphanumeric c = false := by
  obtain ⟨rfl, -, v, hv⟩ := h
  obtain ⟨u, rfl⟩ := List.getLast?_eq_some_iff.1 hc
  have hat : t[i + u.length]? = some c := by
    rw [← List.getElem?_drop, ← hv]
    simp
  rw [List.length_append, List.length_singleton, ← Nat.add_assoc, startsWord_succ]
  constructor
  · intro h
    exact h c hat
  · intro h d hd
    obtain rfl : c = d := Option.some.inj (hat.symm.trans hd)
    exact h

theorem not_startsWord_of_edge (p : Pattern) (h : Covers t p i j)
    (hb : b.edge = .word → ¬ StartsWord t i) (he : (p.items b a).2.edge = .word) :
    ¬ StartsWord t j := by
  induction p using induction_seq generalizing i j b a with
  | nil =>
      obtain rfl : i = j := h
      exact hb he
  | cons p ps hp hps =>
      obtain ⟨k, hk, hj⟩ := covers_seq_cons.1 h
      exact hps hj (hp hk hb) he
  | alt ps ih =>
      obtain ⟨p, hp, h⟩ := coversSome_iff.1 h
      exact ih p hp h (b := ⟨b.edge, false⟩) hb ((edge_of_alt (.inr (.inl rfl)) he).2 p hp)
  | literal w =>
      rw [items] at he
      cases hw : w.getLast? with
      | none =>
          rw [List.getLast?_eq_none_iff.1 hw] at h
          obtain ⟨rfl, -⟩ := h
          rw [hw] at he
          exact hb he
      | some c =>
          rw [startsWord_of_covers_literal h hw]
          intro hc
          simp [hw, Edge.ofChar, hc] at he
  | anyExactly n =>
      cases n with
      | zero =>
          obtain ⟨rfl, -⟩ := h
          exact hb he
      | succ n => simp [items] at he
  | anyRun =>
      rw [items, gapEdge] at he
      split at he <;> simp at he
  | wordStart =>
      obtain ⟨rfl, -⟩ := h
      rw [items] at he
      split at he
      · simp at he
      · exact hb he
  | wordEnd | nameEnd =>
      obtain ⟨rfl, -⟩ := h
      exact hb he

theorem endsWord_of_wordEnds (p : Pattern) (h : Covers t p i j)
    (hb : b.wordEnds = true → EndsWord t i) (he : (p.items b a).2.wordEnds = true) :
    EndsWord t j := by
  induction p using induction_seq generalizing i j b a with
  | nil =>
      obtain rfl : i = j := h
      exact hb he
  | cons p ps hp hps =>
      obtain ⟨k, hk, hj⟩ := covers_seq_cons.1 h
      exact hps hj (hp hk hb) he
  | alt ps ih => exact endsWord_of_trails (.alt ps) he h
  | wordEnd =>
      obtain ⟨rfl, h⟩ := h
      exact h
  | anyExactly n => cases n <;> exact Bool.noConfusion he
  | _ => exact Bool.noConfusion he

end Behind

end Pattern

end NoteQuery
