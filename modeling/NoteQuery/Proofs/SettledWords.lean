import NoteQuery.Proofs.QuerySegments
import NoteQuery.Proofs.UntestedPattern

namespace NoteQuery

namespace Pattern

open Regex

variable {p q : Pattern} {ps : List Pattern} {b b' : Behind} {a a' : Ahead} {w : Text}
  {W : Text → Prop}

/-- On the way of writing a pattern between two places, `q` is written between `b'` and `a'`. -/
inductive ComesTo (q : Pattern) (b' : Behind) (a' : Ahead) : Pattern → Behind → Ahead → Prop
  | here : ComesTo q b' a' q b' a'
  | first {p : Pattern} {ps : List Pattern} {b : Behind} {a : Ahead}
      (h : ComesTo q b' a' p b ((Pattern.seq ps).ahead a)) : ComesTo q b' a' (.seq (p :: ps)) b a
  | later {p : Pattern} {ps : List Pattern} {b : Behind} {a : Ahead}
      (h : ComesTo q b' a' (.seq ps) (p.items b ((Pattern.seq ps).ahead a)).2 a) :
      ComesTo q b' a' (.seq (p :: ps)) b a
  | branch {p : Pattern} {ps : List Pattern} {b : Behind} {a : Ahead} (hp : p ∈ ps)
      (h : ComesTo q b' a' p ⟨b.edge, false⟩ (branchAhead ps a)) : ComesTo q b' a' (.alt ps) b a

def Boundary.Plain (x : Boundary) : Prop := x ≠ .tested ∧ x ≠ .fails

instance (x : Boundary) : Decidable x.Plain := inferInstanceAs (Decidable (_ ∧ _))

/-- Every start and every end of a word that writing the pattern comes to is a plain boundary. -/
structure Settled (p : Pattern) (b : Behind) (a : Ahead) : Prop where
  starts : ∀ b' a', ComesTo .wordStart b' a' p b a → (startBoundary b'.edge).Plain
  ends : ∀ b' a', ComesTo .wordEnd b' a' p b a → (endBoundary a').Plain

section Parts

theorem settled_nil : (Pattern.seq []).Settled b a :=
  ⟨fun _ _ h => (nomatch h), fun _ _ h => (nomatch h)⟩

theorem settled_literal : (Pattern.literal w).Settled b a :=
  ⟨fun _ _ h => (nomatch h), fun _ _ h => (nomatch h)⟩

theorem settled_anyRun : Pattern.anyRun.Settled b a :=
  ⟨fun _ _ h => (nomatch h), fun _ _ h => (nomatch h)⟩

theorem settled_cons : (Pattern.seq (p :: ps)).Settled b a ↔ p.Settled b ((Pattern.seq ps).ahead a) ∧
    (Pattern.seq ps).Settled (p.items b ((Pattern.seq ps).ahead a)).2 a := by
  constructor
  · intro h
    exact ⟨⟨fun _ _ hc => h.starts _ _ (.first hc), fun _ _ hc => h.ends _ _ (.first hc)⟩,
      ⟨fun _ _ hc => h.starts _ _ (.later hc), fun _ _ hc => h.ends _ _ (.later hc)⟩⟩
  · rintro ⟨hp, hps⟩
    constructor
    · rintro _ _ (_ | hc | hc | _)
      · exact hp.starts _ _ hc
      · exact hps.starts _ _ hc
    · rintro _ _ (_ | hc | hc | _)
      · exact hp.ends _ _ hc
      · exact hps.ends _ _ hc

theorem settled_alt : (Pattern.alt ps).Settled b a ↔
    ∀ p ∈ ps, p.Settled ⟨b.edge, false⟩ (branchAhead ps a) := by
  constructor
  · intro h p hp
    exact ⟨fun _ _ hc => h.starts _ _ (.branch hp hc), fun _ _ hc => h.ends _ _ (.branch hp hc)⟩
  · intro h
    constructor
    · rintro _ _ (_ | _ | _ | ⟨hp, hc⟩)
      exact (h _ hp).starts _ _ hc
    · rintro _ _ (_ | _ | _ | ⟨hp, hc⟩)
      exact (h _ hp).ends _ _ hc

theorem settled_wordStart : Pattern.wordStart.Settled b a ↔ (startBoundary b.edge).Plain := by
  constructor
  · intro h
    exact h.starts _ _ .here
  · intro h
    refine ⟨?_, fun _ _ h => (nomatch h)⟩
    rintro _ _ ⟨⟩
    exact h

theorem settled_wordEnd : Pattern.wordEnd.Settled b a ↔ (endBoundary a).Plain := by
  constructor
  · intro h
    exact h.ends _ _ .here
  · intro h
    refine ⟨fun _ _ h => (nomatch h), ?_⟩
    rintro _ _ ⟨⟩
    exact h

theorem settled_wholeWord :
    (wholeWord w).Settled b a ↔ (startBoundary b.edge).Plain ∧ (endBoundary a).Plain := by
  rw [wholeWord, settled_cons, settled_cons, settled_cons, settled_wordStart, settled_wordEnd]
  constructor
  · rintro ⟨hs, -, he, -⟩
    exact ⟨hs, he⟩
  · rintro ⟨hs, he⟩
    exact ⟨hs, settled_literal, he, settled_nil⟩

theorem settled_of_anchorFree (h : p.anchorFree = true) : p.Settled b a := by
  induction p using induction_seq generalizing b a with
  | cons p ps hp hps =>
      obtain ⟨hfree, hfrees⟩ := allAnchorFree_cons.1 h
      exact settled_cons.2 ⟨hp hfree, hps hfrees⟩
  | alt ps ih =>
      refine settled_alt.2 fun p hp => ih p hp ?_
      clear ih
      induction ps with
      | nil => exact absurd hp List.not_mem_nil
      | cons q ps ihps =>
          obtain ⟨hq, hps⟩ := allAnchorFree_cons.1 h
          rcases List.mem_cons.1 hp with rfl | hp
          · exact hq
          · exact ihps hps hp
  | wordStart | wordEnd => exact Bool.noConfusion h
  | _ => exact ⟨fun _ _ h => (nomatch h), fun _ _ h => (nomatch h)⟩

theorem Settled.testFree (h : p.Settled b a) : everyItem testFree (p.items b a).1 = true := by
  induction p using induction_seq generalizing b a with
  | nil => rfl
  | cons p ps hp hps =>
      obtain ⟨h, hs⟩ := settled_cons.1 h
      exact everyItem_append.trans (Bool.and_eq_true_iff.2 ⟨hp h, hps hs⟩)
  | alt ps ih =>
      cases ps with
      | nil => rfl
      | cons p rest =>
          rw [items_alt_cons, everyItem_group_iff, List.forall_mem_map]
          exact ⟨rfl, fun q hq => ih q hq (settled_alt.1 h q hq)⟩
  | literal w => exact everyItem_chars (fun _ => rfl) w
  | anyRun =>
      rw [items]
      cases b.wordEnds <;> cases a.wordStarts <;> cases b.edge <;> cases a.edge <;> rfl
  | anyExactly n => cases n <;> rfl
  | wordStart =>
      have hplain := (settled_wordStart.1 h).1
      rw [items]
      cases he : startBoundary b.edge with
      | tested => exact absurd he hplain
      | _ => rfl
  | wordEnd =>
      have hplain := (settled_wordEnd.1 h).1
      rw [items]
      cases he : endBoundary a with
      | tested => exact absurd he hplain
      | _ => rfl
  | nameEnd => rfl

end Parts

def Ahead.TakesEnd (a : Ahead) : Prop := a.gap = true ∨ a.edge = .closing

theorem Ahead.TakesEnd.plain (h : a.TakesEnd) : (endBoundary a).Plain := by
  rw [endBoundary]
  split
  · decide
  · next hgap =>
    rw [h.resolve_left hgap]
    decide

theorem settled_withGaps {P : Behind → Prop}
    (h : ∀ p ∈ ps, ∀ b a, P b → a.TakesEnd → p.Settled b a)
    (hgap : ∀ p ∈ ps, ∀ a, P ⟨gapEdge (p.ahead a).wordStarts, false⟩) (hb : P b)
    (ha : a.TakesEnd) : (Pattern.separated ps).Settled b a := by
  rw [Pattern.separated]
  induction ps generalizing b with
  | nil => exact settled_nil
  | cons p rest ih =>
      obtain ⟨hp, hrest⟩ := List.forall_mem_cons.1 h
      cases rest with
      | nil => exact settled_cons.2 ⟨hp b a hb ha, settled_nil⟩
      | cons q more =>
          obtain ⟨tail, he⟩ := withGaps_cons q more
          have hq : P ⟨gapEdge ((Pattern.seq (withGaps (q :: more))).ahead a).wordStarts, false⟩ := by
            rw [he]
            exact hgap q (by simp) _
          have hmore := ih hrest (fun p hp => hgap p (List.mem_cons_of_mem _ hp)) hq
          exact settled_cons.2 ⟨hp _ _ hb (.inl rfl), settled_cons.2 ⟨settled_anyRun, hmore⟩⟩

theorem WordTree.wordStarts (h : WordTree W p) : (p.ahead a).wordStarts = true := by
  induction h generalizing a with
  | word _ => rfl
  | alt hne h _ => exact (WordTree.alt hne h).leads
  | separated hne _ ih =>
      obtain ⟨p, hp, rest, he⟩ := exists_withGaps hne
      rw [Pattern.separated, he]
      exact ih p hp

theorem WordTree.settled (h : WordTree W p) (hb : b.edge = .separator) (ha : a.TakesEnd) :
    p.Settled b a := by
  induction h generalizing b a with
  | word _ =>
      rw [settled_wholeWord, hb]
      exact ⟨by decide, ha.plain⟩
  | @alt ps hne h ih =>
      refine settled_alt.2 fun p hp => ih p hp hb ?_
      rw [Ahead.TakesEnd, branchAhead, (WordTree.alt hne h).trails, Bool.and_true]
      exact ha
  | separated _ h ih =>
      refine settled_withGaps (P := fun b => b.edge = .separator) (fun p hp b a => ih p hp) ?_ hb ha
      intro p hp a
      rw [(h p hp).wordStarts]
      rfl

end Pattern

namespace Query

open Pattern

variable {c : Convention} {normalize : Normalizer} {q : Query} {p : Pattern} {b : Behind} {a : Ahead}

theorem settled_of_segment (hq : q.AnchorFree) {f : Field}
    (h : q.segment c normalize f = .ok (some p)) (ha : a.TakesEnd) : p.Settled b a := by
  rcases anchorFree_or_keywords (W := (· ≠ [])) (fun _ h => h) hq h with
    ⟨-, hfree⟩ | ⟨-, k, htree, rfl⟩
  · exact settled_of_anchorFree hfree
  · have hstarts : ((Pattern.seq [k]).ahead a).wordStarts = true := htree.wordStarts
    refine settled_cons.2 ⟨settled_literal, settled_cons.2 ⟨settled_anyRun,
      settled_cons.2 ⟨htree.settled ?_ ha, settled_nil⟩⟩⟩
    change gapEdge ((Pattern.seq [k]).ahead a).wordStarts = .separator
    rw [hstarts]
    rfl

/-- Whatever keywords normalise to, the pattern of a keyword expression begins with the start of a
word and ends with the end of one, and in the pattern of a query that brings along neither no start
or end of a word is bound to fail or left to a test. -/
theorem words_settled (hq : q.AnchorFree) (hp : q.pattern c normalize = .ok p) :
    (∀ (e : Keyword.Expr) (k : Pattern), e.pattern normalize c.sort = .ok k →
      k.leadsWithWordStart = true ∧ k.trailsWithWordEnd = true) ∧
      p.Settled ⟨.opening, false⟩ ⟨.closing, false, false⟩ ∧
        Regex.everyItem Regex.testFree p.toRegex = true := by
  have hsettled : p.Settled ⟨.opening, false⟩ ⟨.closing, false, false⟩ := by
    obtain ⟨ps, hps, rfl⟩ := pattern_eq_ok.1 hp
    refine settled_withGaps (P := fun _ => True) ?_ (fun _ _ _ => trivial) trivial (.inr rfl)
    intro p hp b a _ ha
    obtain ⟨f, _, h⟩ := mem_segments hps hp
    exact settled_of_segment hq h ha
  refine ⟨?_, hsettled, hsettled.testFree⟩
  intro e k hk
  have htree := Keyword.Expr.wordTree_of_pattern (W := (· ≠ [])) (fun _ h => h) e k hk
  exact ⟨htree.leads, htree.trails⟩

def draftsOrPlans : Query where
  title := some (.pattern (.seq [.literal "draft".toList, .anyRun]))
  keywords := some (.group .and [.group .or [.word "-x-".toList, .word "plan".toList],
    .group .and [.word "b".toList, .word "A".toList]])

theorem words_settled_of_draftsOrPlans :
    draftsOrPlans.AnchorFree ∧ ∃ p, draftsOrPlans.pattern .standard (fun _ raw => raw) = .ok p ∧
      (∀ (e : Keyword.Expr) (k : Pattern),
        e.pattern (fun _ raw => raw) Convention.standard.sort = .ok k →
          k.leadsWithWordStart = true ∧ k.trailsWithWordEnd = true) ∧
        p.Settled ⟨.opening, false⟩ ⟨.closing, false, false⟩ ∧
          Regex.everyItem Regex.testFree p.toRegex = true := by
  have hfree : draftsOrPlans.AnchorFree := by
    refine ⟨nofun, ?_⟩
    rintro _ ⟨⟩
    rfl
  obtain ⟨p, hp⟩ : ∃ p, draftsOrPlans.pattern .standard (fun _ raw => raw) = .ok p := ⟨_, by cbv⟩
  exact ⟨hfree, p, hp, words_settled hfree hp⟩

end Query

end NoteQuery
