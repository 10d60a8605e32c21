import NoteQuery.Proofs.Recall

namespace NoteQuery

open Pattern Regex Text

namespace Regex

def blind : Regex → Bool
  | .textEnd | .veryEnd | .wordEndHalf => false
  | _ => true

variable {u v : Text}

theorem oneLine_append_left {i j : Nat} (hj : j ≤ u.length) : OneLine (u ++ v) i j ↔ OneLine u i j := by
  refine forall_congr' fun k => imp_congr_right fun _ => forall_congr' fun hk => ?_
  rw [List.getElem?_append_left (Nat.lt_of_lt_of_le hk hj)]

mutual

theorem matches_append_left {i j : Nat} (hi : i ≤ u.length) (hj : j ≤ u.length) : (r : Regex) →
    r.everywhere blind = true → (Matches (u ++ v) r i j ↔ Matches u r i j)
  | .char c, _ => by
      simp only [Matches]
      refine and_congr_left ?_
      rintro rfl
      rw [List.getElem?_append_left hj]
  | .anyRun, _ => by
      have hj' : j ≤ (u ++ v).length := by simp; omega
      simp only [Matches, oneLine_append_left hj, hj, hj', true_and]
  | .anyTimes n, _ => by
      have hj' : j ≤ (u ++ v).length := by simp; omega
      simp only [Matches, oneLine_append_left hj, hj, hj', true_and]
  | .separator, _ => by
      simp only [Matches]
      refine and_congr_left ?_
      rintro rfl
      rw [List.getElem?_append_left hj]
  | .never, _ => Iff.rfl
  | .textStart, _ => Iff.rfl
  | .wordStartHalf, _ => by
      simp only [Matches]
      refine and_congr_left fun _ => forall_congr' fun k => forall_congr' fun c => ?_
      refine forall_congr' fun hk => ?_
      rw [List.getElem?_append_left (by omega)]
  | .group isOptional branches, h => or_congr_right (matchesSome_append_left hi hj branches h)

theorem matchesSeq_append_left {i j : Nat} (hi : i ≤ u.length) (hj : j ≤ u.length) :
    (items : List Regex) → everyItem blind items = true →
      (MatchesSeq (u ++ v) items i j ↔ MatchesSeq u items i j)
  | [], _ => Iff.rfl
  | r :: rest, h => by
      obtain ⟨hr, hrest⟩ := Bool.and_eq_true_iff.1 h
      simp only [MatchesSeq]
      refine exists_congr fun k => ?_
      constructor
      -- A match never goes back, so it passes no place behind the one where it ends.
      · rintro ⟨hm, hms⟩
        have hk := (Matches.le (by simp; omega) r hm).2
        have hku := Nat.le_trans (MatchesSeq.le hk rest hms).1 hj
        exact ⟨(matches_append_left hi hku r hr).1 hm,
          (matchesSeq_append_left hku hj rest hrest).1 hms⟩
      · rintro ⟨hm, hms⟩
        have hku := (Matches.le hi r hm).2
        exact ⟨(matches_append_left hi hku r hr).2 hm,
          (matchesSeq_append_left hku hj rest hrest).2 hms⟩

theorem matchesSome_append_left {i j : Nat} (hi : i ≤ u.length) (hj : j ≤ u.length) :
    (branches : List (List Regex)) → everyBranch blind branches = true →
      (MatchesSome (u ++ v) branches i j ↔ MatchesSome u branches i j)
  | [], _ => Iff.rfl
  | b :: rest, h => by
      obtain ⟨hb, hrest⟩ := Bool.and_eq_true_iff.1 h
      exact or_congr (matchesSeq_append_left hi hj b hb) (matchesSome_append_left hi hj rest hrest)

end

end Regex

namespace Pattern

variable {t u v : Text} {i j k l : Nat} {p : Pattern}

theorem blind_stems {ps : List Pattern} (h : ∀ p ∈ ps, everyItem blind p.stem = true) :
    everyItem blind (stems ps) = true := by
  induction ps with
  | nil => rfl
  | cons p rest ih =>
      obtain ⟨hp, hrest⟩ := List.forall_mem_cons.1 h
      cases rest with
      | nil => exact hp
      | cons q more =>
          have hgap : everyItem blind wordGap = true := rfl
          rw [stems, everyItem_append, everyItem_append, hp, hgap, ih hrest]
          rfl

theorem WordTree.blind_stem (h : WordTree IsWord p) : everyItem blind p.stem = true := by
  induction h with
  | word hw =>
      rw [stem_word]
      exact everyItem_chars (fun _ => rfl) _
  | alt hne h ih =>
      rw [stem_alt hne h, everyItem_group_iff]
      exact ⟨rfl, List.forall_mem_map.2 ih⟩
  | separated hne h ih =>
      rw [stem_separated hne h]
      exact blind_stems ih

/-- The stems of segments with what stands for the gaps between them. -/
def rowItems : List Pattern → List Regex
  | [] => []
  | [p] => p.stem
  | p :: q :: more =>
    p.stem ++ (gapItems p.trailsWithWordEnd false .unknown q.opening ++ rowItems (q :: more))

theorem blind_rowItems {xs : List Pattern} (h : ∀ p ∈ xs, everyItem blind p.stem = true)
    (hopen : ∀ p ∈ xs.tail, p.opening = .separator) : everyItem blind (rowItems xs) = true := by
  induction xs with
  | nil => rfl
  | cons p rest ih =>
      obtain ⟨hp, hrest⟩ := List.forall_mem_cons.1 h
      cases rest with
      | nil => exact hp
      | cons q more =>
          obtain ⟨hq, hmore⟩ := List.forall_mem_cons.1 hopen
          have hgap (w : Bool) : everyItem blind (gapItems w false .unknown .separator) = true := by
            cases w <;> rfl
          rw [rowItems, everyItem_append, everyItem_append, hp, hq, hgap, ih hrest hmore]
          rfl

theorem chain_append_singleton {xs : List Pattern} (hne : xs ≠ []) (f : Pattern) :
    Chain t (xs ++ [f]) i j ↔ ∃ k l, MatchesSeq t (rowItems xs) i k ∧
      MatchesSeq t (gapItems (lastTrails xs) false .unknown f.opening) k l ∧ Chain t [f] l j := by
  induction xs generalizing i with
  | nil => exact absurd rfl hne
  | cons p rest ih =>
      cases rest with
      | nil => exact Iff.rfl
      | cons q more =>
          have hchain : Chain t (p :: q :: more ++ [f]) i j ↔ ∃ k l, MatchesSeq t p.stem i k ∧
              MatchesSeq t (gapItems p.trailsWithWordEnd false .unknown q.opening) k l ∧
              Chain t (q :: more ++ [f]) l j := Iff.rfl
          simp only [hchain, ih (by simp), rowItems, matchesSeq_append, lastTrails]
          constructor
          · rintro ⟨a, b, ha, hb, k, l, hk, hl, hj⟩
            exact ⟨k, l, ⟨a, ha, b, hb, hk⟩, hl, hj⟩
          · rintro ⟨k, l, ⟨a, ha, b, hb, hk⟩, hl, hj⟩
            exact ⟨a, b, ha, hb, k, l, hk, hl, hj⟩

def Reaches (xs : List Pattern) (t : Text) (k : Nat) : Prop :=
  ∃ i, i ≤ t.length ∧ MatchesSeq t (rowItems xs) i k

theorem Reaches.le {xs : List Pattern} (h : Reaches xs t k) : k ≤ t.length := by
  obtain ⟨i, hi, h⟩ := h
  exact (MatchesSeq.le hi _ h).2

theorem reaches_append_left {xs : List Pattern} (h : everyItem blind (rowItems xs) = true)
    (hk : k ≤ u.length) : Reaches xs (u ++ v) k ↔ Reaches xs u k := by
  constructor
  · rintro ⟨i, hi, hm⟩
    have hiu := Nat.le_trans (MatchesSeq.le hi _ hm).1 hk
    exact ⟨i, hiu, (matchesSeq_append_left hiu hk _ h).1 hm⟩
  · rintro ⟨i, hi, hm⟩
    exact ⟨i, by simp; omega, (matchesSeq_append_left hi hk _ h).2 hm⟩

/-- A gap in front of extensions. If `word` says that it takes over the end of a word it begins with
a separator; only in front of extensions that cannot go on with the word it may be empty then. -/
def GapBefore (es : List Text) (word : Bool) (t : Text) (k l : Nat) : Prop :=
  k ≤ l ∧ l ≤ t.length ∧
    (word = true → k = l ∧ (∀ e ∈ es, ¬ e.BeginsWord) ∨ k < l ∧ SeparatorAt t k)

theorem matchesSeq_gap_fileTypes {es : List Text} {w : Bool} (ht : '\n' ∉ t) (hne : es ≠ [])
    (hk : k ≤ t.length) :
    MatchesSeq t (gapItems w false .unknown
        (Pattern.seq [.alt (es.map .literal), .nameEnd]).opening) k l ↔ GapBefore es w t k l := by
  have hone := oneLine_of_not_mem ht
  cases w with
  | false => simp [gapItems, matchesSeq_singleton, Matches, GapBefore, hone]
  | true =>
      by_cases h : ∃ e ∈ es, e.BeginsWord
      · rw [gapItems_of_beginsWord h]
        constructor
        · rintro ⟨_, ⟨hsep, rfl⟩, _, ⟨hkl, hl, _⟩, rfl⟩
          exact ⟨Nat.le_of_succ_le hkl, hl, fun _ => .inr ⟨hkl, hsep⟩⟩
        · rintro ⟨_, hl, hgap⟩
          rcases hgap rfl with ⟨_, hall⟩ | ⟨hkl, hsep⟩
          · obtain ⟨e, he, hword⟩ := h
            exact absurd hword (hall e he)
          · exact ⟨k + 1, ⟨hsep, rfl⟩, l, ⟨hkl, hl, hone _ _⟩, rfl⟩
      · have hall : ∀ e ∈ es, ¬ e.BeginsWord := fun e he hword => h ⟨e, he, hword⟩
        rw [(opening_fileTypes hne).2 fun e he => not_beginsWord_iff.1 (hall e he),
          matchesSeq_skip_from_word]
        constructor
        · rintro (rfl | ⟨hsep, hkl, hl, _⟩)
          · exact ⟨Nat.le_refl k, hk, fun _ => .inl ⟨rfl, hall⟩⟩
          · exact ⟨Nat.le_of_lt hkl, hl, fun _ => .inr ⟨hkl, hsep⟩⟩
        · rintro ⟨_, hl, hgap⟩
          rcases hgap rfl with ⟨rfl, _⟩ | ⟨hkl, hsep⟩
          · exact .inl rfl
          · exact .inr ⟨hsep, hkl, hl, hone _ _⟩

/-- What is found is a stretch for the segments, a gap and an extension at the end. -/
theorem exists_chain_fileTypes_iff {xs : List Pattern} {es : List Text} (ht : '\n' ∉ t) :
    (∃ i j, i ≤ t.length ∧ Chain t (xs ++ [.seq [.alt (es.map .literal), .nameEnd]]) i j) ↔
      ∃ k l, Reaches xs t k ∧ GapBefore es (lastTrails xs) t k l ∧ t.drop l ∈ es := by
  have hft {l j : Nat} (hl : l ≤ t.length)
      (h : Chain t [.seq [.alt (es.map .literal), .nameEnd]] l j) : t.drop l ∈ es := by
    obtain ⟨_, hft, _⟩ := h
    exact ((matches_fileTypes hl).1 hft).2
  cases xs with
  | nil =>
      constructor
      · rintro ⟨l, j, hl, h⟩
        exact ⟨l, l, ⟨l, hl, rfl⟩, ⟨Nat.le_refl l, hl, by simp [lastTrails]⟩, hft hl h⟩
      · rintro ⟨k, l, _, ⟨_, hl, _⟩, hmem⟩
        exact ⟨l, _, hl, chain_fileTypes hl hmem⟩
  | cons p rest =>
      simp only [chain_append_singleton (List.cons_ne_nil p rest)]
      constructor
      · rintro ⟨i, j, hi, k, l, hk, hgap, h⟩
        have hkt := (MatchesSeq.le hi _ hk).2
        have hmem := hft (MatchesSeq.le hkt _ hgap).2 h
        have hgap := (matchesSeq_gap_fileTypes ht (List.ne_nil_of_mem hmem) hkt).1 hgap
        exact ⟨k, l, ⟨i, hi, hk⟩, hgap, hmem⟩
      · rintro ⟨k, l, ⟨i, hi, hk⟩, hgap, hmem⟩
        have hkt := (MatchesSeq.le hi _ hk).2
        exact ⟨i, t.length, hi, k, l, hk,
          (matchesSeq_gap_fileTypes ht (List.ne_nil_of_mem hmem) hkt).2 hgap,
          chain_fileTypes hgap.2.1 hmem⟩

end Pattern

namespace Query

variable {c : Convention} {q : Query} {p : Pattern} {xs : List Pattern} {f : Field}

theorem blind_marked (m : Text) {body : Pattern} (hfree : body.anchorFree = true)
    (hbody : everyItem blind body.stem = true) :
    everyItem blind (Pattern.seq [.literal m, body]).stem = true := by
  rw [stem_mark m hfree, everyItem_append, everyItem_chars (fun _ => rfl), hbody]
  rfl

theorem blind_wording {kind : SlugKind} {w : Wording} (h : ∀ p, w ≠ .pattern p) :
    everyItem blind (wordingSegment slug f kind w).stem = true := by
  cases w with
  | text raw => exact blind_marked f.mark rfl (everyItem_chars (fun _ => rfl) _)
  | pattern p => exact absurd rfl (h p)

theorem blind_stem_of_field (hq : q.TextsOnly) (hf : f ≠ .fileType)
    (h : q.segment c slug f = .ok (some p)) : everyItem blind p.stem = true := by
  cases f with
  | identifier =>
      obtain ⟨w, _, hp⟩ := ifAsked_eq_ok.1 h
      obtain ⟨n, body, _, hbody, rfl⟩ := identifierSegment_eq_ok hp
      have hblind : body.anchorFree = true ∧ everyItem blind body.stem = true := by
        rcases hbody with ⟨rfl, _⟩ | ⟨rfl, hn⟩
        · exact ⟨rfl, everyItem_chars (fun _ => rfl) w⟩
        · obtain ⟨m, rfl⟩ := Nat.exists_eq_succ_of_ne_zero hn
          refine ⟨rfl, ?_⟩
          rw [stem_literal_exactly, everyItem_append, everyItem_chars (fun _ => rfl)]
          rfl
      split
      · exact hblind.2
      · exact blind_marked _ hblind.1 hblind.2
  | signature =>
      obtain ⟨w, hw, hp⟩ := ifAsked_eq_ok.1 h
      cases hp
      exact blind_wording fun p he => hq.signature p (he ▸ hw)
  | title =>
      obtain ⟨w, hw, hp⟩ := ifAsked_eq_ok.1 h
      cases hp
      exact blind_wording fun p he => hq.title p (he ▸ hw)
  | keywords =>
      obtain ⟨e, _, hp⟩ := ifAsked_eq_ok.1 h
      obtain ⟨k, hk, rfl⟩ := Except.map_eq_ok.1 hp
      have htree := Keyword.Expr.wordTree_of_pattern (fun _ => isWord_slug_keyword) e k hk
      rw [stem_keywords htree, everyItem_append, everyItem_append, everyItem_chars (fun _ => rfl),
        htree.blind_stem]
      rfl
  | fileType => exact absurd rfl hf

theorem blind_fields (hq : q.TextsOnly) (hxs : q.segments c slug c.layout.fields = .ok xs) :
    everyItem blind (rowItems xs) = true := by
  have hfile := c.layout.fileType_not_mem
  apply blind_rowItems
  · intro p hp
    obtain ⟨f, hf, h⟩ := mem_segments hxs hp
    exact blind_stem_of_field hq (by rintro rfl; exact hfile hf) h
  · intro p hp
    obtain ⟨f, hf, h⟩ := mem_tail_segments hxs hp
    have hvisits : f ∈ c.layout.visits.tail := by
      rw [Layout.visits, List.tail_append_of_ne_nil (by rintro he; simp [he] at hf)]
      simp [hf]
    exact opening_of_field (Layout.isFirst_of_mem_tail hvisits)
      (by rintro rfl; exact hfile (List.mem_of_mem_tail hf)) h

theorem trails_of_field (hq : q.TextsOnly) (h : q.segment c slug f = .ok (some p)) :
    p.trailsWithWordEnd = decide (f = .keywords) := by
  have hW raw (hne : slug .keyword raw ≠ []) := isWord_slug_keyword hne
  rcases anchorFree_or_keywords hW hq.anchorFree h with ⟨hf, hfree⟩ | ⟨rfl, k, htree, rfl⟩
  · simp [trails_eq_false p hfree, hf]
  · exact trails_keywords htree

theorem map_trails {fs : List Field} (hq : q.TextsOnly) (hxs : q.segments c slug fs = .ok xs) :
    xs.map trailsWithWordEnd = (fs.filter q.asks).map fun f => decide (f = .keywords) := by
  induction fs generalizing xs with
  | nil =>
      cases hxs
      rfl
  | cons f rest ih =>
      obtain ⟨here, others, hhere, hothers, rfl⟩ := segments_cons_eq_ok.1 hxs
      cases here with
      | none => simpa [asks_of_segment_eq_none hhere] using ih hothers
      | some p => simp [asks_of_segment_eq_some hhere, trails_of_field hq hhere, ih hothers]

end Query

namespace Pattern

theorem lastTrails_iff {ps : List Pattern} :
    lastTrails ps = true ↔ (ps.map trailsWithWordEnd).getLast? = some true := by
  induction ps with
  | nil => simp [lastTrails]
  | cons p rest ih =>
      cases rest with
      | nil => simp [lastTrails]
      | cons q more => simpa [lastTrails] using ih

end Pattern

end NoteQuery
