import NoteQuery.Keyword.Pattern
import NoteQuery.Proofs.AnchorFree

namespace NoteQuery

structure Text.IsWord (w : Text) : Prop where
  ne_nil : w ≠ []
  alphanumeric : ∀ c ∈ w, Text.isAlphanumeric c = true

theorem Text.IsWord.ofChar_head {c : Char} {w : Text} (hw : Text.IsWord (c :: w)) :
    Edge.ofChar c = .word := by
  simp [Edge.ofChar, hw.alphanumeric c (by simp)]

theorem Text.IsWord.ofChar_last {w : Text} (hw : Text.IsWord w) :
    ∃ c, w.getLast? = some c ∧ Edge.ofChar c = .word := by
  refine ⟨w.getLast hw.ne_nil, List.getLast?_eq_some_getLast hw.ne_nil, ?_⟩
  simp [Edge.ofChar, hw.alphanumeric _ (List.getLast_mem hw.ne_nil)]

namespace Pattern

/-- Whole words, alternations and gapped sequences; no alternation or sequence is empty. -/
inductive WordTree (W : Text → Prop) : Pattern → Prop
  | word {w : Text} (hw : W w) : WordTree W (.wholeWord w)
  | alt {ps : List Pattern} (hne : ps ≠ []) (h : ∀ p ∈ ps, WordTree W p) : WordTree W (.alt ps)
  | separated {ps : List Pattern} (hne : ps ≠ []) (h : ∀ p ∈ ps, WordTree W p) :
      WordTree W (.separated ps)

variable {W : Text → Prop} {p : Pattern}

theorem withGaps_cons (p : Pattern) (ps : List Pattern) :
    ∃ rest, withGaps (p :: ps) = p :: rest := by
  cases ps <;> exact ⟨_, rfl⟩

theorem exists_withGaps {ps : List Pattern} (hne : ps ≠ []) :
    ∃ p ∈ ps, ∃ rest, withGaps ps = p :: rest := by
  obtain ⟨p, more, rfl⟩ := List.exists_cons_of_ne_nil hne
  exact ⟨p, List.mem_cons_self .., withGaps_cons p more⟩

theorem aheadOfSeq_withGaps (p : Pattern) (ps : List Pattern) (a : Ahead) :
    ∃ a', aheadOfSeq a (withGaps (p :: ps)) = p.ahead a' := by
  obtain ⟨rest, he⟩ := withGaps_cons p ps
  exact ⟨aheadOfSeq a rest, by rw [he, aheadOfSeq]⟩

theorem allLead_iff {ps : List Pattern} :
    allLead ps = true ↔ ∀ p ∈ ps, p.leadsWithWordStart = true := by
  induction ps with
  | nil => simp [allLead]
  | cons p rest ih => simp [allLead, ih]

theorem allTrail_iff {ps : List Pattern} :
    allTrail ps = true ↔ ∀ p ∈ ps, p.trailsWithWordEnd = true := by
  induction ps with
  | nil => simp [allTrail]
  | cons p rest ih => simp [allTrail, ih]

theorem lastTrails_cons {p : Pattern} {ps : List Pattern} (hne : ps ≠ []) :
    lastTrails (p :: ps) = lastTrails ps := by
  cases ps with
  | nil => exact absurd rfl hne
  | cons q more => rfl

theorem withGaps_ne_nil {ps : List Pattern} (hne : ps ≠ []) : withGaps ps ≠ [] := by
  obtain ⟨p, -, rest, he⟩ := exists_withGaps hne
  simp [he]

theorem lastTrails_withGaps {ps : List Pattern} (hne : ps ≠ [])
    (h : ∀ p ∈ ps, p.trailsWithWordEnd = true) : lastTrails (withGaps ps) = true := by
  induction ps with
  | nil => exact absurd rfl hne
  | cons p rest ih =>
      cases rest with
      | nil => exact h p (by simp)
      | cons q more =>
          have hq := withGaps_ne_nil (List.cons_ne_nil q more)
          rw [withGaps, lastTrails_cons (by simp), lastTrails_cons hq]
          exact ih (by simp) (fun p hp => h p (by simp [hp]))

theorem WordTree.leads (h : WordTree W p) : p.leadsWithWordStart = true := by
  induction h with
  | word _ => rfl
  | alt hne _ ih => simpa [leadsWithWordStart, hne, allLead_iff] using ih
  | separated hne _ ih =>
      obtain ⟨p, hp, rest, he⟩ := exists_withGaps hne
      rw [Pattern.separated, leadsWithWordStart, he, firstLeads]
      exact ih p hp

theorem WordTree.trails (h : WordTree W p) : p.trailsWithWordEnd = true := by
  induction h with
  | word _ => rfl
  | alt hne _ ih => simpa [trailsWithWordEnd, hne, allTrail_iff] using ih
  | separated hne _ ih => exact lastTrails_withGaps hne ih

theorem firstEdgeOfAlt_eq {e e' : Edge} {ps : List Pattern} (hne : ps ≠ [])
    (h : ∀ p ∈ ps, p.firstEdge e = e') : firstEdgeOfAlt e ps = e' := by
  induction ps with
  | nil => exact absurd rfl hne
  | cons p rest ih =>
      cases rest with
      | nil => exact h p (by simp)
      | cons q more =>
          rw [firstEdgeOfAlt, h p (by simp), ih (by simp) (fun p hp => h p (by simp [hp]))]
          simp [Edge.join]

theorem WordTree.firstEdge (h : WordTree Text.IsWord p) (e : Edge) : p.firstEdge e = .word := by
  induction h generalizing e with
  | @word w hw =>
      cases w with
      | nil => exact absurd rfl hw.ne_nil
      | cons c w => exact hw.ofChar_head
  | alt hne _ ih => exact firstEdgeOfAlt_eq hne (fun p hp => ih p hp e)
  | separated hne _ ih =>
      obtain ⟨p, hp, rest, he⟩ := exists_withGaps hne
      rw [Pattern.separated, Pattern.firstEdge, he, firstEdgeOfSeq]
      exact ih p hp _

theorem WordTree.ahead (h : WordTree Text.IsWord p) (a : Ahead) :
    p.ahead a = ⟨.word, false, true⟩ := by
  induction h generalizing a with
  | @word w hw =>
      cases w with
      | nil => exact absurd rfl hw.ne_nil
      | cons c w =>
          simp [wholeWord, Pattern.ahead, aheadOfSeq, Pattern.firstEdge, isAnyRun,
            leadsWithWordStart, hw.ofChar_head]
  | @alt ps hne h _ =>
      have hp := WordTree.alt hne h
      change Ahead.mk ((Pattern.alt ps).firstEdge a.edge) false
        (Pattern.alt ps).leadsWithWordStart = _
      rw [hp.firstEdge, hp.leads]
  | separated hne _ ih =>
      obtain ⟨p, hp, rest, he⟩ := exists_withGaps hne
      rw [Pattern.separated, Pattern.ahead, he, aheadOfSeq]
      exact ih p hp _

def wordGap : List Regex := [.separator, .group true [[.anyRun, .separator]]]

def stems : List Pattern → List Regex
  | [] => []
  | [p] => p.stem
  | p :: q :: more => p.stem ++ (wordGap ++ stems (q :: more))

theorem itemsOfAlt_of_gap {ps : List Pattern} {e : Edge} (hne : ps ≠ [])
    (h : ∀ p ∈ ps, p.items ⟨.separator, false⟩ ⟨e, true, false⟩ = (p.stem, ⟨.word, true⟩)) :
    itemsOfAlt .separator ⟨e, true, false⟩ ps = (ps.map stem, .word) := by
  induction ps with
  | nil => exact absurd rfl hne
  | cons p rest ih =>
      cases rest with
      | nil => simp [itemsOfAlt, h p (by simp)]
      | cons q more =>
          have hrest := ih (by simp) (fun p hp => h p (by simp [hp]))
          simp [itemsOfAlt, h p (by simp), hrest, Edge.join]

theorem itemsOfSeq_of_gap {ps : List Pattern} {a : Ahead} (ha : a.gap = true) (hne : ps ≠ [])
    (hahead : ∀ p ∈ ps, ∀ a, p.ahead a = ⟨.word, false, true⟩)
    (h : ∀ p ∈ ps, ∀ w a, a.gap = true →
      p.items ⟨.separator, w⟩ a = (p.stem, ⟨.word, true⟩)) (w : Bool) :
    itemsOfSeq ⟨.separator, w⟩ a (withGaps ps) = (stems ps, ⟨.word, true⟩) := by
  induction ps generalizing w with
  | nil => exact absurd rfl hne
  | cons p rest ih =>
      cases rest with
      | nil => simp [withGaps, itemsOfSeq, aheadOfSeq, stems, h p (by simp) w a ha]
      | cons q more =>
          have hrest := ih (by simp) (fun p hp => hahead p (by simp [hp]))
            (fun p hp => h p (by simp [hp])) false
          have hq : aheadOfSeq a (withGaps (q :: more)) = ⟨.word, false, true⟩ := by
            obtain ⟨a', he⟩ := aheadOfSeq_withGaps q more a
            rw [he, hahead q (by simp)]
          have hp := h p (by simp) w (aheadOfSeq a (.anyRun :: withGaps (q :: more))) rfl
          simp [withGaps, itemsOfSeq, hp, items, hq, gapItems, gapEdge, hrest, stems, wordGap]

/-- Between a separator and a gap a tree is written as its stem, and a word ends behind it. -/
theorem WordTree.items_of_gap (h : WordTree Text.IsWord p) (w : Bool) (a : Ahead)
    (ha : a.gap = true) : p.items ⟨.separator, w⟩ a = (p.stem, ⟨.word, true⟩) := by
  induction h generalizing w a with
  | @word v hv =>
      obtain ⟨c, hc, he⟩ := hv.ofChar_last
      simp [stem, wholeWord, items, itemsOfSeq, startBoundary, Boundary.startItems, endBoundary,
        aheadOfSeq, ha, Boundary.endItems, hc, he]
  | @alt ps hne h ih =>
      have ht := (WordTree.alt hne h).trails
      have hrows (e : Edge) := itemsOfAlt_of_gap hne (fun p hp => ih p hp false ⟨e, true, false⟩ rfl)
      simp [stem, items, ht, ha, hrows, hne]
  | @separated ps hne h ih =>
      have hahead : ∀ p ∈ ps, ∀ a, p.ahead a = ⟨.word, false, true⟩ := fun p hp => (h p hp).ahead
      simp only [stem, Pattern.separated, items]
      rw [itemsOfSeq_of_gap ha hne hahead ih, itemsOfSeq_of_gap rfl hne hahead ih]

theorem stem_word {w : Text} : (wholeWord w).stem = w.map .char := by
  simp [stem, wholeWord, items, itemsOfSeq, startBoundary, Boundary.startItems, endBoundary,
    aheadOfSeq, Boundary.endItems]

theorem stem_alt {ps : List Pattern} (hne : ps ≠ []) (h : ∀ p ∈ ps, WordTree Text.IsWord p) :
    (Pattern.alt ps).stem = [.group false (ps.map stem)] := by
  have ht := (WordTree.alt hne h).trails
  have hrows := itemsOfAlt_of_gap (e := .unknown) hne (fun p hp => (h p hp).items_of_gap false _ rfl)
  simp [stem, items, ht, hrows, hne]

theorem stem_separated {ps : List Pattern} (hne : ps ≠ [])
    (h : ∀ p ∈ ps, WordTree Text.IsWord p) : (Pattern.separated ps).stem = stems ps := by
  rw [stem, Pattern.separated, items,
    itemsOfSeq_of_gap rfl hne (fun p hp => (h p hp).ahead) (fun p hp => (h p hp).items_of_gap)]

variable {t : Text} {i j : Nat}

theorem itemsOfAlt_matches {ps : List Pattern} {a : Ahead} (hne : ps ≠ [])
    (h : ∀ p ∈ ps, (p.items ⟨.separator, false⟩ a).2 = ⟨.word, true⟩ ∧
      (Regex.MatchesSeq t (p.items ⟨.separator, false⟩ a).1 i j ↔
        ∃ k, Regex.MatchesSeq t p.stem i k ∧ Regex.MatchesSeq t (endBoundary a).endItems k j)) :
    (itemsOfAlt .separator a ps).2 = .word ∧
      (Regex.MatchesSome t (itemsOfAlt .separator a ps).1 i j ↔
        ∃ k, Regex.MatchesSome t (ps.map stem) i k ∧
          Regex.MatchesSeq t (endBoundary a).endItems k j) := by
  induction ps with
  | nil => exact absurd rfl hne
  | cons p rest ih =>
      obtain ⟨hp, hm⟩ := h p (by simp)
      cases rest with
      | nil => simp [itemsOfAlt, hp, Regex.MatchesSome, hm]
      | cons q more =>
          obtain ⟨he, hrest⟩ := ih (by simp) (fun p hp => h p (by simp [hp]))
          refine ⟨by simp [itemsOfAlt, hp, he, Edge.join], ?_⟩
          simp only [itemsOfAlt, List.map_cons, Regex.MatchesSome, hm] at hrest ⊢
          rw [hrest]
          constructor
          · rintro (⟨k, hk, hj⟩ | ⟨k, hk, hj⟩)
            · exact ⟨k, .inl hk, hj⟩
            · exact ⟨k, .inr hk, hj⟩
          · rintro ⟨k, hk | hk, hj⟩
            · exact .inl ⟨k, hk, hj⟩
            · exact .inr ⟨k, hk, hj⟩

theorem itemsOfSeq_matches {ps : List Pattern} {a : Ahead} (hne : ps ≠ [])
    (hps : ∀ p ∈ ps, WordTree Text.IsWord p)
    (h : ∀ p ∈ ps, ∀ w i, (p.items ⟨.separator, w⟩ a).2 = ⟨.word, true⟩ ∧
      (Regex.MatchesSeq t (p.items ⟨.separator, w⟩ a).1 i j ↔
        ∃ k, Regex.MatchesSeq t p.stem i k ∧ Regex.MatchesSeq t (endBoundary a).endItems k j))
    (w : Bool) :
    (itemsOfSeq ⟨.separator, w⟩ a (withGaps ps)).2 = ⟨.word, true⟩ ∧
      (Regex.MatchesSeq t (itemsOfSeq ⟨.separator, w⟩ a (withGaps ps)).1 i j ↔
        ∃ k, Regex.MatchesSeq t (stems ps) i k ∧
          Regex.MatchesSeq t (endBoundary a).endItems k j) := by
  induction ps generalizing w i with
  | nil => exact absurd rfl hne
  | cons p rest ih =>
      cases rest with
      | nil =>
          obtain ⟨hp, hm⟩ := h p (by simp) w i
          simp [withGaps, itemsOfSeq, aheadOfSeq, hp, hm, stems]
      | cons q more =>
          have hrest (i : Nat) := ih (i := i) (by simp) (fun p hp => hps p (by simp [hp]))
            (fun p hp => h p (by simp [hp])) false
          have hq : aheadOfSeq a (withGaps (q :: more)) = ⟨.word, false, true⟩ := by
            obtain ⟨a', he⟩ := aheadOfSeq_withGaps q more a
            rw [he, (hps q (by simp)).ahead]
          have hp := (hps p (by simp)).items_of_gap w
            (aheadOfSeq a (.anyRun :: withGaps (q :: more))) rfl
          have hitems : itemsOfSeq ⟨.separator, w⟩ a (withGaps (p :: q :: more)) =
              (p.stem ++ (wordGap ++ (itemsOfSeq ⟨.separator, false⟩ a (withGaps (q :: more))).1),
                (itemsOfSeq ⟨.separator, false⟩ a (withGaps (q :: more))).2) := by
            simp [withGaps, itemsOfSeq, hp, items, hq, gapItems, gapEdge, wordGap]
          rw [hitems]
          refine ⟨(hrest i).1, ?_⟩
          simp only [Regex.matchesSeq_append, (hrest _).2, stems]
          constructor
          · rintro ⟨k, hk, l, hl, m, hm, hj⟩
            exact ⟨m, ⟨k, hk, l, hl, hm⟩, hj⟩
          · rintro ⟨m, ⟨k, hk, l, hl, hm⟩, hj⟩
            exact ⟨k, hk, l, hl, m, hm, hj⟩

theorem WordTree.items_matches (h : WordTree Text.IsWord p) (w : Bool) (a : Ahead) (i : Nat) :
    (p.items ⟨.separator, w⟩ a).2 = ⟨.word, true⟩ ∧
      (Regex.MatchesSeq t (p.items ⟨.separator, w⟩ a).1 i j ↔
        ∃ k, Regex.MatchesSeq t p.stem i k ∧
          Regex.MatchesSeq t (endBoundary a).endItems k j) := by
  induction h generalizing w a i with
  | @word v hv =>
      obtain ⟨c, hc, he⟩ := hv.ofChar_last
      have hitems : (wholeWord v).items ⟨.separator, w⟩ a =
          (v.map .char ++ (endBoundary a).endItems, ⟨.word, true⟩) := by
        simp [wholeWord, items, itemsOfSeq, startBoundary, Boundary.startItems, aheadOfSeq, hc, he]
      rw [hitems, stem_word, Regex.matchesSeq_append]
      exact ⟨rfl, Iff.rfl⟩
  | @alt ps hne h ih =>
      have ht := (WordTree.alt hne h).trails
      obtain ⟨he, hm⟩ := itemsOfAlt_matches (t := t) (i := i) (j := j) hne
        (fun p hp => ih p hp false ⟨a.edge, a.gap, false⟩ i)
      have hend : endBoundary ⟨a.edge, a.gap, false⟩ = endBoundary a := rfl
      rw [hend] at hm
      rw [stem_alt hne h]
      simpa [items, ht, hne, he, Regex.matchesSeq_singleton, Regex.Matches] using hm
  | @separated ps hne h ih =>
      rw [stem_separated hne h]
      exact itemsOfSeq_matches hne h (fun p hp w i => ih p hp w a i) w

end Pattern

end NoteQuery
