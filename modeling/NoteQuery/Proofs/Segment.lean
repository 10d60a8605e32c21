import NoteQuery.Note
import NoteQuery.Proofs.Boundary

namespace NoteQuery.Pattern

open Regex Text

/-- The pattern of one field: anchor-free, or keywords behind their mark. -/
inductive Segment : Pattern → Prop
  | plain {p : Pattern} (h : p.anchorFree = true) : Segment p
  | keywords {p : Pattern} (h : WordTree IsWord p) :
      Segment (.seq [.literal Field.keywords.mark, .anyRun, p])

def opening (p : Pattern) : Edge := (p.ahead ⟨.closing, false, false⟩).edge

/-- A gap before the segment learns its opening, whatever follows the segment. -/
def Marked (p : Pattern) : Prop := ∀ a, p.ahead a = ⟨p.opening, false, false⟩

variable {t : Text} {i j k : Nat} {p : Pattern}

theorem mark_chars : Field.keywords.mark = ['_', '_'] := by decide

theorem items_keywords (h : WordTree IsWord p) (b : Behind) (a : Ahead) :
    (Pattern.seq [.literal Field.keywords.mark, .anyRun, p]).items b a =
      (Field.keywords.mark.map .char ++ (gapItems false true .separator .unknown ++
        (p.items ⟨.separator, false⟩ a).1), (p.items ⟨.separator, false⟩ a).2) := by
  have he : Edge.ofChar '_' = .separator := by decide
  simp [items, itemsOfSeq, aheadOfSeq, h.ahead, gapItems, gapEdge, mark_chars, he]

theorem stem_keywords (h : WordTree IsWord p) :
    (Pattern.seq [.literal Field.keywords.mark, .anyRun, p]).stem =
      Field.keywords.mark.map .char ++ (gapItems false true .separator .unknown ++ p.stem) := by
  rw [stem, items_keywords h, h.items_of_gap _ _ rfl]

theorem trails_keywords (h : WordTree IsWord p) :
    (Pattern.seq [.literal Field.keywords.mark, .anyRun, p]).trailsWithWordEnd = true :=
  h.trails

theorem matches_keyword {w : Text} (hw : IsWord w) (hi : i ≤ t.length) :
    MatchesSeq t (Pattern.seq [.literal Field.keywords.mark, .anyRun, wholeWord w]).stem i k ↔
      Field.keywords.mark <+: t.drop i ∧ ∃ m, w <+: t.drop m ∧ k = m + w.length ∧ k ≤ t.length ∧
        SkipsTo t (i + 2) m := by
  rw [stem_keywords (.word hw), stem_word, matchesSeq_append]
  constructor
  · rintro ⟨_, hmark, hrest⟩
    obtain ⟨m, hskip, hword⟩ := matchesSeq_append.1 hrest
    obtain ⟨rfl, hmarked, hmark⟩ := (matchesSeq_chars hi).1 hmark
    have hm := (MatchesSeq.le hmarked _ hskip).2
    obtain ⟨rfl, hk, hword⟩ := (matchesSeq_chars hm).1 hword
    exact ⟨hmark, m, hword, rfl, hk, matchesSeq_skip_to_word.1 hskip⟩
  · rintro ⟨hmark, m, hword, rfl, hk, hskip⟩
    have hmarked : i + 2 ≤ t.length := by
      have hlen := hmark.length_le
      rw [mark_chars, List.length_drop] at hlen
      have : ['_', '_'].length = 2 := rfl
      omega
    refine ⟨i + 2, (matchesSeq_chars hi).2 ⟨rfl, hmarked, hmark⟩, ?_⟩
    rw [matchesSeq_append]
    exact ⟨m, matchesSeq_skip_to_word.2 hskip, (matchesSeq_chars (by omega)).2 ⟨rfl, hk, hword⟩⟩

theorem Segment.items_matches (h : Segment p) {b : Behind} {a : Ahead} (hb : b.wordEnds = false)
    (ha : a.wordStarts = false) :
    (p.items b a).2.wordEnds = p.trailsWithWordEnd ∧
      (MatchesSeq t (p.items b a).1 i j ↔ ∃ k, MatchesSeq t p.stem i k ∧
        MatchesSeq t (if p.trailsWithWordEnd then (endBoundary a).endItems else []) k j) := by
  cases h with
  | plain h =>
      obtain ⟨hitems, hends⟩ := items_eq_stem hb ha h
      simp [hitems, hends, trails_eq_false p h, MatchesSeq]
  | @keywords p h =>
      have hitems (i : Nat) := h.items_matches (t := t) (j := j) false a i
      rw [items_keywords h, stem_keywords h, trails_keywords h]
      refine ⟨by rw [(hitems i).1], ?_⟩
      simp only [matchesSeq_append, (hitems _).2, if_true]
      constructor
      · rintro ⟨l, hl, m, hm, k, hk, hj⟩
        exact ⟨k, ⟨l, hl, m, hm, hk⟩, hj⟩
      · rintro ⟨k, ⟨l, hl, m, hm, hk⟩, hj⟩
        exact ⟨l, hl, m, hm, k, hk, hj⟩

/-- The segments match one after another. A gap between two of them takes over the end of a word
before it, and the end of the last word is settled behind the last segment. -/
def Chain (t : Text) : List Pattern → Nat → Nat → Prop
  | [], i, j => i = j
  | [p], i, j => ∃ k, MatchesSeq t p.stem i k ∧
      MatchesSeq t (if p.trailsWithWordEnd then Boundary.consumes.endItems else []) k j
  | p :: q :: more, i, j => ∃ k l, MatchesSeq t p.stem i k ∧
      MatchesSeq t (gapItems p.trailsWithWordEnd false .unknown q.opening) k l ∧
      Chain t (q :: more) l j

theorem exists_chain_of_append {xs ys : List Pattern} {p : Pattern} (hi : i ≤ t.length)
    (h : Chain t (xs ++ p :: ys) i j) : ∃ l, l ≤ t.length ∧ Chain t (p :: ys) l j := by
  induction xs generalizing i with
  | nil => exact ⟨i, hi, h⟩
  | cons x xs ih =>
      obtain ⟨q, more, he⟩ : ∃ q more, xs ++ p :: ys = q :: more :=
        List.exists_cons_of_ne_nil (by simp)
      rw [List.cons_append, he] at h
      obtain ⟨k, l, hk, hgap, hchain⟩ := h
      have hl := (MatchesSeq.le (MatchesSeq.le hi _ hk).2 _ hgap).2
      exact ih hl (he ▸ hchain)

theorem exists_matches_of_chain {ps : List Pattern} (hi : i ≤ t.length) (h : Chain t ps i j)
    (hp : p ∈ ps) : ∃ l k, l ≤ t.length ∧ MatchesSeq t p.stem l k := by
  obtain ⟨xs, ys, rfl⟩ := List.append_of_mem hp
  obtain ⟨l, hl, hchain⟩ := exists_chain_of_append hi h
  cases ys with
  | nil =>
      obtain ⟨k, hk, _⟩ := hchain
      exact ⟨l, k, hl, hk⟩
  | cons q more =>
      obtain ⟨k, _, hk, _⟩ := hchain
      exact ⟨l, k, hl, hk⟩

theorem gapItems_left (afterWord : Bool) (left next : Edge) :
    gapItems afterWord false left next = gapItems afterWord false .unknown next := by
  cases afterWord <;> rfl

theorem itemsOfSeq_cons_gap (b : Behind) (a : Ahead) (p : Pattern) (rest : List Pattern) :
    (itemsOfSeq b a (p :: .anyRun :: rest)).1 =
      (p.items b ⟨.unknown, true, false⟩).1 ++
        (gapItems (p.items b ⟨.unknown, true, false⟩).2.wordEnds (aheadOfSeq a rest).wordStarts
            (p.items b ⟨.unknown, true, false⟩).2.edge (aheadOfSeq a rest).edge ++
          (itemsOfSeq ⟨gapEdge (aheadOfSeq a rest).wordStarts, false⟩ a rest).1) := rfl

theorem matchesSeq_withGaps {ps : List Pattern} (hps : ∀ p ∈ ps, Segment p)
    (hmarked : ∀ p ∈ ps.tail, Marked p) {b : Behind} (hb : b.wordEnds = false) :
    MatchesSeq t (itemsOfSeq b ⟨.closing, false, false⟩ (withGaps ps)).1 i j ↔ Chain t ps i j := by
  induction ps generalizing b i with
  | nil => exact Iff.rfl
  | cons p rest ih =>
      have hp := hps p (by simp)
      cases rest with
      | nil =>
          simpa [withGaps, itemsOfSeq, aheadOfSeq, Chain, endBoundary] using
            (hp.items_matches hb (a := ⟨.closing, false, false⟩) rfl).2
      | cons q more =>
          have hq : aheadOfSeq ⟨.closing, false, false⟩ (withGaps (q :: more)) =
              ⟨q.opening, false, false⟩ := by
            obtain ⟨a', he⟩ := aheadOfSeq_withGaps q more ⟨.closing, false, false⟩
            rw [he]
            exact hmarked q (by simp) a'
          have hrest (i : Nat) := ih (i := i) (b := ⟨.unknown, false⟩)
            (fun p hp => hps p (by simp [hp])) (fun p hp => hmarked p (List.mem_of_mem_tail hp)) rfl
          have hends (i k : Nat) := hp.items_matches (t := t) (i := i) (j := k) hb
            (a := ⟨.unknown, true, false⟩) rfl
          have hstem (k : Nat) : MatchesSeq t (p.items b ⟨.unknown, true, false⟩).1 i k ↔
              MatchesSeq t p.stem i k := by
            rw [(hends i k).2]
            simp [endBoundary, Boundary.endItems, MatchesSeq]
          rw [withGaps, itemsOfSeq_cons_gap, hq, (hends i j).1, gapItems_left]
          simp only [matchesSeq_append, hstem, gapEdge, Chain]
          constructor
          · rintro ⟨k, hk, l, hl, hj⟩
            exact ⟨k, l, hk, hl, (hrest l).1 hj⟩
          · rintro ⟨k, l, hk, hl, hj⟩
            exact ⟨k, hk, l, hl, (hrest l).2 hj⟩

theorem finds_separated {ps : List Pattern} (hps : ∀ p ∈ ps, Segment p)
    (hmarked : ∀ p ∈ ps.tail, Marked p) :
    Finds (Pattern.separated ps).toRegex t ↔ ∃ i j, i ≤ t.length ∧ Chain t ps i j := by
  simp only [Finds, toRegex, Pattern.separated, items, matchesSeq_withGaps hps hmarked]

section Meaning

theorem startsWord_of_mark (h : Covers t (.literal Field.keywords.mark) i k) : StartsWord t k := by
  obtain ⟨rfl, hk, u, hu⟩ := h
  rw [mark_chars] at hu ⊢
  have hc : t[i + 1]? = some '_' := by
    have := congrArg (fun s => s[1]?) hu
    simpa [List.getElem?_drop] using this.symm
  apply startsWord_succ.2
  intro c hd
  obtain rfl : '_' = c := by simpa [hc] using hd
  decide

theorem Segment.covers_iff (ht : t.Conventional) (h : Segment p) (hi : i ≤ t.length) :
    Covers t p i k ↔
      MatchesSeq t p.stem i k ∧ (p.trailsWithWordEnd = true → EndsWord t k) := by
  cases h with
  | plain h =>
      rw [trails_eq_false p h]
      have hm : MatchesSeq t p.stem i k ↔ Covers t p i k :=
        matchesSeq_items ht.oneLine rfl rfl hi p h
      simp [hm]
  | @keywords p h =>
      rw [stem_keywords h, trails_keywords h]
      simp only [Covers, CoversAll, matchesSeq_append, true_imp_iff]
      constructor
      · rintro ⟨l, hmark, m, ⟨hlm, hm⟩, _, hp, rfl⟩
        obtain ⟨hstart, hstem, hend⟩ := (h.covers_iff ht hm).1 hp
        have hl : l ≤ t.length := Nat.le_trans hlm hm
        exact ⟨⟨l, (matchesSeq_chars hi).2 hmark, m,
          (matchesSeq_gap_before ht (startsWord_of_mark hmark) hl).2 ⟨hlm, hm, hstart⟩, hstem⟩,
          hend⟩
      · rintro ⟨⟨l, hmark, m, hgap, hstem⟩, hend⟩
        have hmark := (matchesSeq_chars hi).1 hmark
        obtain ⟨hlm, hm, hstart⟩ :=
          (matchesSeq_gap_before ht (startsWord_of_mark hmark) hmark.2.1).1 hgap
        exact ⟨l, hmark, m, ⟨hlm, hm⟩, k, (h.covers_iff ht hm).2 ⟨hstart, hstem, hend⟩, rfl⟩

def Guarded (t : Text) (p : Pattern) : Prop :=
  ∀ i j, Covers t p i j → p.opening = .separator ∧ EndsWord t i

theorem matchesSeq_ending (ht : t.Conventional) (hk : k ≤ t.length) (w : Bool) :
    (∃ j, MatchesSeq t (if w then Boundary.consumes.endItems else []) k j) ↔
      (w = true → EndsWord t k) := by
  cases w with
  | false => simp [MatchesSeq]
  | true => simpa using matchesSeq_closing ht hk

theorem matchesSeq_gap (ht : t.Conventional) (w : Bool) {l : Nat} (hk : k ≤ t.length)
    (hl : EndsWord t l) :
    MatchesSeq t (gapItems w false .unknown .separator) k l ↔
      k ≤ l ∧ l ≤ t.length ∧ (w = true → EndsWord t k) := by
  cases w with
  | false =>
      simp [gapItems, matchesSeq_singleton, Matches, oneLine_of_not_mem ht.oneLine]
  | true => simpa using matchesSeq_gap_after ht hl hk

/-- A chain of segments matches exactly where the sequence of them has its meaning. -/
theorem exists_chain_iff (ht : t.Conventional) {ps : List Pattern} (hps : ∀ p ∈ ps, Segment p)
    (hguarded : ∀ p ∈ ps.tail, Guarded t p) (hi : i ≤ t.length) :
    (∃ j, Chain t ps i j) ↔ ∃ j, CoversAll t (withGaps ps) i j := by
  induction ps generalizing i with
  | nil => exact Iff.rfl
  | cons p rest ih =>
      have hp (k : Nat) := (hps p (by simp)).covers_iff ht hi (k := k)
      cases rest with
      | nil =>
          simp only [Chain, withGaps, CoversAll]
          constructor
          · rintro ⟨j, k, hk, hj⟩
            have hkt := (MatchesSeq.le hi _ hk).2
            exact ⟨k, k, (hp k).2 ⟨hk, (matchesSeq_ending ht hkt _).1 ⟨j, hj⟩⟩, rfl⟩
          · rintro ⟨j, k, hk, _⟩
            obtain ⟨hstem, hend⟩ := (hp k).1 hk
            have hkt := (MatchesSeq.le hi _ hstem).2
            obtain ⟨l, hl⟩ := (matchesSeq_ending ht hkt _).2 hend
            exact ⟨l, k, hstem, hl⟩
      | cons q more =>
          have hrest (l : Nat) (hl : l ≤ t.length) := ih (i := l)
            (fun p hp => hps p (by simp [hp]))
            (fun p hp => hguarded p (List.mem_of_mem_tail hp)) hl
          obtain ⟨tail, he⟩ := withGaps_cons q more
          have hopens {l j : Nat} (h : CoversAll t (withGaps (q :: more)) l j) :
              q.opening = .separator ∧ EndsWord t l := by
            rw [he] at h
            obtain ⟨m, hq, _⟩ := h
            exact hguarded q (by simp) l m hq
          simp only [Chain, withGaps, CoversAll, Covers]
          constructor
          · rintro ⟨j, k, l, hk, hgap, hj⟩
            have hkt := (MatchesSeq.le hi _ hk).2
            have hlt := (MatchesSeq.le hkt _ hgap).2
            obtain ⟨j', hj'⟩ := (hrest l hlt).1 ⟨j, hj⟩
            obtain ⟨hsep, hend⟩ := hopens hj'
            rw [hsep, matchesSeq_gap ht _ hkt hend] at hgap
            exact ⟨j', k, (hp k).2 ⟨hk, hgap.2.2⟩, l, ⟨hgap.1, hgap.2.1⟩, hj'⟩
          · rintro ⟨j, k, hk, l, ⟨hkl, hlt⟩, hj⟩
            obtain ⟨hstem, hword⟩ := (hp k).1 hk
            obtain ⟨hsep, hend⟩ := hopens hj
            obtain ⟨j', hj'⟩ := (hrest l hlt).2 ⟨j, hj⟩
            refine ⟨j', k, l, hstem, ?_, hj'⟩
            rw [hsep, matchesSeq_gap ht _ (Nat.le_trans hkl hlt) hend]
            exact ⟨hkl, hlt, hword⟩

theorem finds_iff_selects (ht : t.Conventional) {ps : List Pattern} (hps : ∀ p ∈ ps, Segment p)
    (hmarked : ∀ p ∈ ps.tail, Marked p) (hguarded : ∀ p ∈ ps.tail, Guarded t p) :
    Finds (Pattern.separated ps).toRegex t ↔ (Pattern.separated ps).Selects t := by
  rw [finds_separated hps hmarked, Selects]
  constructor
  · rintro ⟨i, j, hi, hj⟩
    obtain ⟨j', hj'⟩ := (exists_chain_iff ht hps hguarded hi).1 ⟨j, hj⟩
    exact ⟨i, j', hi, hj'⟩
  · rintro ⟨i, j, hi, hj⟩
    obtain ⟨j', hj'⟩ := (exists_chain_iff ht hps hguarded hi).2 ⟨j, hj⟩
    exact ⟨i, j', hi, hj'⟩

end Meaning

end NoteQuery.Pattern
