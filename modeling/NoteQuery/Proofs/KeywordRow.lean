import NoteQuery.Proofs.Boundary
import NoteQuery.Proofs.Consistency
import NoteQuery.Proofs.KeywordTree

namespace NoteQuery.Keyword

open Pattern Regex Text

def start : List Text → Nat → Nat
  | [], _ => 0
  | _ :: _, 0 => 0
  | w :: kws, n + 1 => w.length + 1 + start kws n

/-- The keywords stand in a row from position `o`, a separator behind each, all on one line. -/
structure Row (t : Text) (kws : List Text) (o : Nat) : Prop where
  word : ∀ n w, kws[n]? = some w →
    MatchesSeq t (w.map .char) (o + start kws n) (o + start kws n + w.length)
  separator : ∀ n w, kws[n]? = some w → SeparatorAt t (o + start kws n + w.length)
  oneLine : OneLine t o (o + start kws kws.length)
  length_le : o + start kws kws.length ≤ t.length

variable {t : Text} {kws : List Text} {o n m : Nat} {w : Text}

theorem start_zero (kws : List Text) : start kws 0 = 0 := by
  cases kws <;> rfl

theorem start_succ (h : kws[n]? = some w) : start kws (n + 1) = start kws n + w.length + 1 := by
  induction kws generalizing n with
  | nil => simp at h
  | cons a kws ih =>
      cases n with
      | zero =>
          obtain rfl : a = w := by simpa using h
          simp [start, start_zero]
      | succ n =>
          have hn := ih (n := n) (by simpa using h)
          rw [start, hn, start]
          omega

theorem start_mono (kws : List Text) (h : n ≤ m) : start kws n ≤ start kws m := by
  induction kws generalizing n m with
  | nil => exact Nat.le_refl 0
  | cons a kws ih =>
      cases n with
      | zero => exact Nat.zero_le _
      | succ n =>
          cases m with
          | zero => omega
          | succ m => exact Nat.add_le_add_left (ih (by omega)) _

theorem split_join (h : kws[n]? = some w) (ch : Char) (rest : Text) :
    ∃ u d v, join ['_'] kws ++ ch :: rest = u ++ (w ++ d :: v) ∧ u.length = start kws n ∧
      (d = '_' ∨ d = ch) := by
  induction kws generalizing n with
  | nil => simp at h
  | cons a kws ih =>
      cases kws with
      | nil =>
          cases n with
          | zero =>
              obtain rfl : a = w := by simpa using h
              exact ⟨[], ch, rest, rfl, rfl, .inr rfl⟩
          | succ n => simp at h
      | cons b more =>
          have hjoin : join ['_'] (a :: b :: more) ++ ch :: rest =
              a ++ '_' :: (join ['_'] (b :: more) ++ ch :: rest) := by
            simp [join]
          cases n with
          | zero =>
              obtain rfl : a = w := by simpa using h
              exact ⟨[], '_', _, hjoin, rfl, .inl rfl⟩
          | succ n =>
              obtain ⟨u, d, v, he, hu, hd⟩ := ih (n := n) (by simpa using h)
              refine ⟨a ++ '_' :: u, d, v, by rw [hjoin, he]; simp, ?_, hd⟩
              rw [start, ← hu]
              simp
              omega

theorem length_join (hne : kws ≠ []) : (join ['_'] kws).length + 1 = start kws kws.length := by
  induction kws with
  | nil => exact absurd rfl hne
  | cons a kws ih =>
      cases kws with
      | nil => simp [join, start]
      | cons b more =>
          have hrest := ih (by simp)
          rw [List.length_cons, start, ← hrest]
          simp [join]
          omega

theorem row_join {u : Text} {ch : Char} {rest : Text} (hne : kws ≠ [])
    (hkws : ∀ w ∈ kws, '\n' ∉ w) (hch : isSeparator ch = true) (hn : ch ≠ '\n') :
    Row (u ++ (join ['_'] kws ++ ch :: rest)) kws u.length := by
  have hsplit {n : Nat} {w : Text} (h : kws[n]? = some w) :
      ∃ u' d v, u ++ (join ['_'] kws ++ ch :: rest) = u' ++ (w ++ d :: v) ∧
        u'.length = u.length + start kws n ∧ isSeparator d = true := by
    obtain ⟨u', d, v, he, hu', hd⟩ := split_join h ch rest
    refine ⟨u ++ u', d, v, by rw [he, List.append_assoc], by simp [hu'], ?_⟩
    rcases hd with rfl | rfl
    · decide
    · exact hch
  have hlen := length_join hne
  constructor
  · intro n w h
    obtain ⟨u', d, v, he, hu', _⟩ := hsplit h
    rw [he, ← hu']
    exact matchesSeq_chars_append u' w (d :: v)
  · intro n w h
    obtain ⟨u', d, v, he, hu', hd⟩ := hsplit h
    refine ⟨d, ?_, hd⟩
    rw [he, ← hu', ← List.append_assoc, ← List.length_append]
    simp
  · intro k hk hlt hc
    obtain ⟨k', rfl⟩ := Nat.exists_eq_add_of_le hk
    rw [List.getElem?_append_right (by omega), Nat.add_sub_cancel_left] at hc
    have hmem : '\n' ∈ join ['_'] kws ++ [ch] := by
      apply List.mem_of_getElem? (i := k')
      rw [← hc, show join ['_'] kws ++ ch :: rest = (join ['_'] kws ++ [ch]) ++ rest by simp]
      exact (List.getElem?_append_left (by simp; omega)).symm
    rcases List.mem_append.1 hmem with hmem | hmem
    · rcases mem_join hmem with hmem | ⟨w, hw, hmem⟩
      · simp at hmem
      · exact hkws w hw hmem
    · exact hn (List.mem_singleton.1 hmem).symm
  · simp
    omega

namespace Row

theorem separator_before (h : Row t kws o) (hm : 0 < m) (hlen : m ≤ kws.length) {k : Nat}
    (hk : k + 1 = o + start kws m) : SeparatorAt t k := by
  obtain ⟨n, rfl⟩ : ∃ n, m = n + 1 := ⟨m - 1, by omega⟩
  have hn : kws[n]? = some kws[n] := List.getElem?_eq_getElem hlen
  rw [start_succ hn] at hk
  obtain rfl : k = o + start kws n + kws[n].length := by omega
  exact h.separator n _ hn

theorem matches_skip (h : Row t kws o) (hnm : n ≤ m) (hm : m ≤ kws.length) :
    MatchesSeq t [.group true [[.anyRun, .separator]]] (o + start kws n) (o + start kws m) := by
  refine matchesSeq_skip_to_word.2 ?_
  rcases Nat.eq_or_lt_of_le (start_mono kws hnm) with he | hlt
  · exact .inl (by rw [he])
  · have hend := start_mono kws hm
    have hpos : 0 < m := by
      rcases Nat.eq_zero_or_pos m with rfl | hpos
      · rw [start_zero] at hlt
        exact absurd hlt (Nat.not_lt_zero _)
      · exact hpos
    obtain ⟨k, hk⟩ : ∃ k, o + start kws m = k + 1 := ⟨o + start kws m - 1, by omega⟩
    have hone : OneLine t (o + start kws n) k := fun l hl hlk => h.oneLine l (by omega) (by omega)
    exact .inr ⟨k, hk, by omega, hone, h.separator_before hpos hm hk.symm⟩

theorem matches_wordGap (h : Row t kws o) (hpos : 0 < n) (hnm : n ≤ m) (hm : m ≤ kws.length)
    {k : Nat} (hk : k + 1 = o + start kws n) : MatchesSeq t wordGap k (o + start kws m) := by
  refine ⟨k + 1, ⟨h.separator_before hpos (Nat.le_trans hnm hm) hk, rfl⟩, ?_⟩
  rw [hk]
  exact h.matches_skip hnm hm

end Row

def Spans (t : Text) (kws : List Text) (o : Nat) (items : List Regex) (i j : Nat) : Prop :=
  i < j ∧ j ≤ kws.length ∧ ∃ k, k + 1 = o + start kws j ∧ MatchesSeq t items (o + start kws i) k

variable {policy : SortPolicy} {i j k l : Nat}

theorem spans_word (h : Row t kws o) (hw : kws[i]? = some w) :
    Spans t kws o (wholeWord w).stem i (i + 1) := by
  refine ⟨Nat.lt_succ_self i, (List.getElem?_eq_some_iff.1 hw).1, o + start kws i + w.length, ?_, ?_⟩
  · rw [start_succ hw]
    omega
  · rw [stem_word]
    exact h.word i w hw

theorem spans_cons (h : Row t kws o) {p q : Pattern} {more : List Pattern}
    (hp : Spans t kws o p.stem i k) (hkl : k ≤ l) (hq : Spans t kws o (stems (q :: more)) l j) :
    Spans t kws o (stems (p :: q :: more)) i j := by
  obtain ⟨hik, _, a, ha, hstem⟩ := hp
  obtain ⟨hlj, hj, b, hb, hstems⟩ := hq
  refine ⟨by omega, hj, b, hb, ?_⟩
  rw [stems, matchesSeq_append]
  refine ⟨a, hstem, ?_⟩
  rw [matchesSeq_append]
  exact ⟨o + start kws l, h.matches_wordGap (by omega) hkl (by omega) ha, hstems⟩

namespace Expr

theorem spans_of_wordsOccur (h : Row t kws o) {ws : List Text} {ps : List Pattern} (hne : ws ≠ [])
    (hps : wordPatterns slug ws = .ok ps) (hws : WordsOccur slug kws ws i j) :
    Spans t kws o (stems ps) i j := by
  induction ws generalizing ps i with
  | nil => exact absurd rfl hne
  | cons w rest ih =>
      obtain ⟨-, others, hothers, rfl⟩ := wordPatterns_cons_eq_ok.1 hps
      cases rest with
      | nil =>
          cases hothers
          obtain ⟨hw, rfl⟩ := hws
          exact spans_word h hw
      | cons v more =>
          obtain ⟨l, hil, hw, hmore⟩ := hws
          obtain ⟨q, qs, rfl⟩ := List.exists_cons_of_ne_nil
            (wordPatterns_ne_nil (List.cons_ne_nil v more) hothers)
          exact spans_cons h (spans_word h hw) hil (ih (by simp) hothers hmore)

mutual

/-- Where the keywords of the row meet an expression, its stem matches. -/
theorem spans_of_occurs (h : Row t kws o) {i j : Nat} :
    (e : Expr) → (p : Pattern) → e.pattern slug policy = .ok p →
      Occurs slug policy kws e i j → Spans t kws o p.stem i j
  | .word raw, p, hp, he => by
      obtain ⟨_, rfl⟩ := wordPattern_eq_ok hp
      obtain ⟨hw, rfl⟩ := he
      exact spans_word h hw
  | .group _ [], _, hp, _ => by simp [pattern] at hp
  | .group .or (e :: rest), p, hp, he => by
      rw [pattern] at hp
      obtain ⟨ps, hps, rfl⟩ := Except.map_eq_ok.1 hp
      have htrees := wordTrees_of_patterns (fun _ => isWord_slug_keyword) _ ps hps
      obtain ⟨q, hq, hij, hj, k, hk, hstem⟩ := spans_of_occursSome h (e :: rest) ps hps he
      refine ⟨hij, hj, k, hk, ?_⟩
      rw [stem_alt (patterns_ne_nil hps) htrees, matchesSeq_singleton, matches_group]
      exact .inr ⟨q.stem, List.mem_map.2 ⟨q, hq, rfl⟩, hstem⟩
  | .group .and (e :: rest), p, hp, he => by
      have hW : ∀ raw, slug .keyword raw ≠ [] → IsWord (slug .keyword raw) :=
        fun _ => isWord_slug_keyword
      rw [pattern] at hp
      rw [Occurs] at he
      split at hp
      · next words hwords =>
        rw [hwords] at he
        obtain ⟨ps, hps, rfl⟩ := Except.map_eq_ok.1 hp
        have harranged := arrange_ne_nil policy hwords
        rw [stem_separated (wordPatterns_ne_nil harranged hps) (wordTrees_of_words hW hps)]
        exact spans_of_wordsOccur h harranged hps he
      · next hwords =>
        rw [hwords] at he
        obtain ⟨ps, hps, rfl⟩ := Except.map_eq_ok.1 hp
        rw [stem_separated (patterns_ne_nil hps) (wordTrees_of_patterns hW _ ps hps)]
        exact spans_of_occursAll h (e :: rest) ps (by simp) hps he

theorem spans_of_occursSome (h : Row t kws o) {i j : Nat} :
    (es : List Expr) → (ps : List Pattern) → patterns slug policy es = .ok ps →
      OccursSome slug policy kws es i j → ∃ p ∈ ps, Spans t kws o p.stem i j
  | [], _, _, he => he.elim
  | e :: rest, ps, hps, he => by
      obtain ⟨p, others, hp, hothers, rfl⟩ := patterns_cons_eq_ok.1 hps
      rcases he with he | he
      · exact ⟨p, by simp, spans_of_occurs h e p hp he⟩
      · obtain ⟨q, hq, hspans⟩ := spans_of_occursSome h rest others hothers he
        exact ⟨q, by simp [hq], hspans⟩

theorem spans_of_occursAll (h : Row t kws o) {i j : Nat} :
    (es : List Expr) → (ps : List Pattern) → es ≠ [] → patterns slug policy es = .ok ps →
      OccursAll slug policy kws es i j → Spans t kws o (stems ps) i j
  | [], _, hne, _, _ => absurd rfl hne
  | [e], ps, _, hps, he => by
      obtain ⟨p, others, hp, hothers, rfl⟩ := patterns_cons_eq_ok.1 hps
      cases hothers
      exact spans_of_occurs h e p hp he
  | e :: f :: more, ps, _, hps, he => by
      obtain ⟨p, others, hp, hothers, rfl⟩ := patterns_cons_eq_ok.1 hps
      obtain ⟨k, l, hkl, hek, hmore⟩ := he
      obtain ⟨q, qs, rfl⟩ := List.exists_cons_of_ne_nil (patterns_ne_nil hothers)
      exact spans_cons h (spans_of_occurs h e p hp hek) hkl
        (spans_of_occursAll h (f :: more) (q :: qs) (by simp) hothers hmore)

end

theorem ne_nil_of_occurs {e : Expr} {p : Pattern} (hp : e.pattern slug policy = .ok p)
    (he : Occurs slug policy kws e i j) : kws ≠ [] := by
  rintro rfl
  have hrow : Row [] [] 0 := by
    refine ⟨by simp, by simp, ?_, Nat.le_refl 0⟩
    intro k _ hk
    exact absurd hk (Nat.not_lt_zero k)
  obtain ⟨hij, hj, _⟩ := spans_of_occurs hrow e p hp he
  exact absurd hj (Nat.not_le_of_lt (Nat.zero_lt_of_lt hij))

end Expr

end NoteQuery.Keyword
