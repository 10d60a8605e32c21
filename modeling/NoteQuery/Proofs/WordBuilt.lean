import NoteQuery.Proofs.FirmGap

namespace NoteQuery.Pattern

open Regex Text

variable {t : Text} {i j : Nat} {p : Pattern} {ps : List Pattern} {b : Behind} {a : Ahead}
  {e : Edge} {w : Text} {c : Char}

/-- Starts and ends of words are asked for around non-empty literals alone. -/
inductive WordBuilt : Pattern → Prop
  | word {w : Text} (h : w ≠ []) : WordBuilt (wholeWord w)
  | seq {ps : List Pattern} (h : ∀ p ∈ ps, WordBuilt p) : WordBuilt (.seq ps)
  | alt {ps : List Pattern} (h : ∀ p ∈ ps, WordBuilt p) : WordBuilt (.alt ps)
  | literal (w : Text) : WordBuilt (.literal w)
  | anyRun : WordBuilt .anyRun
  | anyExactly (n : Nat) : WordBuilt (.anyExactly n)
  | nameEnd : WordBuilt .nameEnd

@[elab_as_elim]
theorem WordBuilt.induction_seq {P : (p : Pattern) → WordBuilt p → Prop}
    (word : ∀ w (h : w ≠ []), P (wholeWord w) (.word h)) (nil : ∀ h, P (.seq []) h)
    (cons : ∀ p ps (hp : WordBuilt p) (hps : WordBuilt (.seq ps)) h,
      P p hp → P (.seq ps) hps → P (.seq (p :: ps)) h)
    (alt : ∀ ps (h : ∀ p ∈ ps, WordBuilt p), (∀ p (hp : p ∈ ps), P p (h p hp)) →
      P (.alt ps) (.alt h))
    (literal : ∀ w, P (.literal w) (.literal w)) (anyRun : P .anyRun .anyRun)
    (anyExactly : ∀ n, P (.anyExactly n) (.anyExactly n)) (nameEnd : P .nameEnd .nameEnd)
    {p : Pattern} (h : WordBuilt p) : P p h := by
  induction h with
  | word h => exact word _ h
  | @seq ps h ih =>
      induction ps with
      | nil => exact nil _
      | cons p ps ihps =>
          obtain ⟨hp, hps⟩ := List.forall_mem_cons.1 h
          apply cons p ps hp (.seq hps)
          · exact ih p (List.mem_cons_self ..)
          · exact ihps hps fun q hq => ih q (List.mem_cons_of_mem p hq)
  | alt h ih => exact alt _ h ih
  | literal w => exact literal w
  | anyRun => exact anyRun
  | anyExactly n => exact anyExactly n
  | nameEnd => exact nameEnd

section Words

theorem covers_wholeWord : Covers t (wholeWord w) i j ↔
    StartsWord t i ∧ Covers t (.literal w) i j ∧ EndsWord t j := by
  constructor
  · rintro ⟨_, ⟨rfl, hstart⟩, _, hw, _, ⟨rfl, hend⟩, rfl⟩
    exact ⟨hstart, hw, hend⟩
  · rintro ⟨hstart, hw, hend⟩
    exact ⟨i, ⟨rfl, hstart⟩, j, hw, j, ⟨rfl, hend⟩, rfl⟩

theorem lt_length_of_covers_literal (hw : w ≠ []) (h : Covers t (.literal w) i j) :
    i < t.length := by
  obtain ⟨rfl, hj, -⟩ := h
  have := List.length_pos_iff.2 hw
  omega

theorem items_wholeWord (hc : w.getLast? = some c) : (wholeWord w).items b a =
    ((startBoundary b.edge).startItems ++ (w.map .char ++ (endBoundary a).endItems),
      ⟨.ofChar c, true⟩) := by
  simp [wholeWord, items, itemsOfSeq, aheadOfSeq, hc]

theorem edge_wholeWord (hw : w ≠ []) (he : ((wholeWord w).items b a).2.edge = e) :
    e = .word ∨ e = .separator := by
  subst he
  rw [items_wholeWord (List.getLast?_eq_some_getLast hw), Edge.ofChar]
  split
  · exact .inl rfl
  · exact .inr rfl

theorem firstEdge_wholeWord (hw : w ≠ []) (he : (wholeWord w).firstEdge e ≠ .word) :
    (wholeWord w).firstEdge e = .separator := by
  obtain ⟨c, w, rfl⟩ := List.exists_cons_of_ne_nil hw
  change Edge.ofChar c = .separator
  change Edge.ofChar c ≠ .word at he
  rw [Edge.ofChar] at he ⊢
  split
  · next hc => simp [hc] at he
  · rfl

end Words

theorem WordBuilt.startsWord_of_leads (h : WordBuilt p) (hcov : Covers t p i j)
    (hp : p.leadsWithWordStart = true) : StartsWord t i ∧ i < t.length := by
  induction h using WordBuilt.induction_seq generalizing i j with
  | word w hw =>
      obtain ⟨hstart, hlit, -⟩ := covers_wholeWord.1 hcov
      exact ⟨hstart, lt_length_of_covers_literal hw hlit⟩
  | cons p ps _ _ _ ihp =>
      obtain ⟨k, hk, -⟩ := covers_seq_cons.1 hcov
      exact ihp hk hp
  | alt ps _ ih =>
      obtain ⟨p, hmem, hcov⟩ := coversSome_iff.1 hcov
      rw [leadsWithWordStart, Bool.and_eq_true] at hp
      exact ih p hmem hcov (allLead_iff.1 hp.2 p hmem)
  | _ => exact Bool.noConfusion hp

theorem WordBuilt.startsWord_of_wordStarts (h : WordBuilt p) (hcov : Covers t p i j)
    (ha : a.wordStarts = true → StartsWord t j ∧ j < t.length)
    (hp : (p.ahead a).wordStarts = true) : StartsWord t i ∧ i < t.length := by
  induction h using WordBuilt.induction_seq generalizing i j a with
  | word w hw => exact WordBuilt.startsWord_of_leads (.word hw) hcov rfl
  | nil =>
      obtain rfl : i = j := hcov
      exact ha hp
  | cons p ps _ _ _ ihp ihps =>
      obtain ⟨k, hk, hj⟩ := covers_seq_cons.1 hcov
      exact ihp hk (ihps hj ha) hp
  | alt ps h => exact WordBuilt.startsWord_of_leads (.alt h) hcov hp
  | _ => exact Bool.noConfusion hp

/-- If the pattern still opens behind some items, then it opens in front of them, and they take up
nothing; unless they ask for the end of the name they do so anywhere. -/
theorem WordBuilt.of_edge_opening (h : WordBuilt p) (he : (p.items b a).2.edge = .opening) :
    b.edge = .opening ∧ ∀ i j, i ≤ t.length →
      MatchesSeq t (p.items b a).1 i j ∨ Covers t (p.firm b a) i j →
      j = i ∧ (i < t.length → ∀ k ≤ t.length,
        MatchesSeq t (p.items b a).1 k k ∧ Covers t (p.firm b a) k k) := by
  induction h using WordBuilt.induction_seq generalizing b a with
  | word w hw => rcases edge_wholeWord hw he with he | he <;> cases he
  | nil =>
      refine ⟨he, ?_⟩
      intro i j _ h
      obtain rfl : i = j := h.elim id id
      exact ⟨rfl, fun _ k _ => ⟨rfl, rfl⟩⟩
  | cons p ps _ _ _ ihp ihps =>
      obtain ⟨hp, hps⟩ := ihps he
      obtain ⟨hb, hp⟩ := ihp hp
      refine ⟨hb, ?_⟩
      intro i j hi h
      obtain ⟨k, hk, hj⟩ : ∃ k, (MatchesSeq t (p.items b ((Pattern.seq ps).ahead a)).1 i k ∨
          Covers t (p.firm b ((Pattern.seq ps).ahead a)) i k) ∧
          (MatchesSeq t ((Pattern.seq ps).items _ a).1 k j ∨
          Covers t ((Pattern.seq ps).firm _ a) k j) := by
        rcases h with h | h
        · obtain ⟨k, hk, hj⟩ := matchesSeq_seq_cons.1 h
          exact ⟨k, .inl hk, .inl hj⟩
        · obtain ⟨k, hk, hj⟩ := covers_firm_cons.1 h
          exact ⟨k, .inr hk, .inr hj⟩
      obtain ⟨rfl, hp⟩ := hp i k hi hk
      obtain ⟨rfl, hps⟩ := hps k j hi hj
      refine ⟨rfl, fun hlt l hl => ⟨?_, ?_⟩⟩
      · exact matchesSeq_seq_cons.2 ⟨l, (hp hlt l hl).1, (hps hlt l hl).1⟩
      · exact covers_firm_cons.2 ⟨l, (hp hlt l hl).2, (hps hlt l hl).2⟩
  | alt ps _ ih =>
      obtain ⟨hne, hedge⟩ := edge_of_alt (.inr (.inr rfl)) he
      obtain ⟨q, hq⟩ := List.exists_mem_of_ne_nil ps hne
      refine ⟨(ih q hq (hedge q hq)).1, ?_⟩
      intro i j hi h
      obtain ⟨p, hp, h⟩ : ∃ p ∈ ps,
          MatchesSeq t (p.items ⟨b.edge, false⟩ (branchAhead ps a)).1 i j ∨
          Covers t (p.firm ⟨b.edge, false⟩ (branchAhead ps a)) i j := by
        rcases h with h | h
        · obtain ⟨p, hp, h⟩ := matchesSeq_alt.1 h
          exact ⟨p, hp, .inl h⟩
        · obtain ⟨p, hp, h⟩ := covers_firm_alt.1 h
          exact ⟨p, hp, .inr h⟩
      obtain ⟨hj, hp'⟩ := (ih p hp (hedge p hp)).2 i j hi h
      refine ⟨hj, fun hlt k hk => ⟨?_, ?_⟩⟩
      · exact matchesSeq_alt.2 ⟨p, hp, (hp' hlt k hk).1⟩
      · exact covers_firm_alt.2 ⟨p, hp, (hp' hlt k hk).2⟩
  | literal w =>
      cases hw : w.getLast? with
      | none =>
          obtain rfl := List.getLast?_eq_none_iff.1 hw
          refine ⟨he, ?_⟩
          intro i j hi h
          have hcov : Covers t (.literal []) i j := h.elim (matchesSeq_chars hi).1 id
          obtain ⟨rfl, -⟩ := hcov
          exact ⟨rfl, fun _ k hk => ⟨rfl, rfl, hk, List.nil_prefix⟩⟩
      | some c =>
          simp only [items, hw, Edge.ofChar] at he
          split at he <;> cases he
  | anyRun =>
      simp only [items, gapEdge] at he
      split at he <;> cases he
  | anyExactly n =>
      cases n with
      | zero =>
          refine ⟨he, ?_⟩
          intro i j _ h
          obtain rfl : j = i := h.elim Eq.symm And.left
          exact ⟨rfl, fun _ k hk => ⟨rfl, rfl, hk⟩⟩
      | succ n => cases he
  | nameEnd =>
      refine ⟨he, ?_⟩
      intro i j _ h
      obtain ⟨rfl, rfl⟩ : i = t.length ∧ i = j :=
        h.elim matchesSeq_singleton.1 fun h => ⟨h.2, h.1⟩
      exact ⟨rfl, fun hlt => absurd hlt (Nat.lt_irrefl _)⟩

theorem exists_of_firstEdgeOfAlt (h : firstEdgeOfAlt e ps = .closing) :
    ∃ p ∈ ps, p.firstEdge e = .closing := by
  induction ps with
  | nil => cases h
  | cons p rest ih =>
      cases rest with
      | nil => exact ⟨p, List.mem_cons_self .., h⟩
      | cons q more =>
          rcases Edge.of_join_eq h with ⟨hp, -⟩ | ⟨-, hp | hrest⟩ | h
          · exact ⟨p, List.mem_cons_self .., hp⟩
          · exact ⟨p, List.mem_cons_self .., hp⟩
          · obtain ⟨p', hp, he⟩ := ih hrest
            exact ⟨p', List.mem_cons_of_mem p hp, he⟩
          · cases h

theorem WordBuilt.of_firstEdge_closing (h : WordBuilt p) (he : p.firstEdge a.edge = .closing) :
    a.edge = .closing ∧ ∀ b, ∀ k ≤ t.length,
      MatchesSeq t (p.items b a).1 k k ∧ Covers t (p.firm b a) k k := by
  induction h using WordBuilt.induction_seq generalizing a with
  | word w hw =>
      have := firstEdge_wholeWord hw (by rw [he]; exact nofun)
      rw [he] at this
      cases this
  | nil => exact ⟨he, fun b k _ => ⟨rfl, rfl⟩⟩
  | cons p ps _ _ _ ihp ihps =>
      have hp : p.firstEdge ((Pattern.seq ps).ahead a).edge = .closing := by
        rw [ahead_edge]
        exact he
      obtain ⟨hps, hp⟩ := ihp hp
      rw [ahead_edge] at hps
      obtain ⟨ha, hps⟩ := ihps hps
      refine ⟨ha, fun b k hk => ⟨?_, ?_⟩⟩
      · exact matchesSeq_seq_cons.2 ⟨k, (hp b k hk).1, (hps _ k hk).1⟩
      · exact covers_firm_cons.2 ⟨k, (hp b k hk).2, (hps _ k hk).2⟩
  | alt ps _ ih =>
      obtain ⟨p, hp, he⟩ := exists_of_firstEdgeOfAlt he
      obtain ⟨ha, hcov⟩ := ih p hp (a := branchAhead ps a) he
      refine ⟨ha, fun b k hk => ⟨?_, ?_⟩⟩
      · exact matchesSeq_alt.2 ⟨p, hp, (hcov _ k hk).1⟩
      · exact covers_firm_alt.2 ⟨p, hp, (hcov _ k hk).2⟩
  | literal w =>
      cases w with
      | nil => exact ⟨he, fun b k hk => ⟨rfl, rfl, hk, List.nil_prefix⟩⟩
      | cons c w =>
          simp only [firstEdge, Edge.ofChar] at he
          split at he <;> cases he
  | anyExactly n =>
      cases n with
      | zero => exact ⟨he, fun b k hk => ⟨rfl, rfl, hk⟩⟩
      | succ n => cases he
  | anyRun | nameEnd => cases he

end NoteQuery.Pattern
