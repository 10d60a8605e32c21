import NoteQuery.Proofs.KeywordRow
import NoteQuery.Proofs.Runs

namespace NoteQuery.Keyword

open Pattern Text

variable {t w v : Text} {kws : List Text} {o i j k l m n : Nat}

/-- The keywords stand in a row from position `o`, and no other whole word stands in the row. -/
structure WordRow (t : Text) (kws : List Text) (o : Nat) : Prop where
  ne_nil : ∀ w ∈ kws, w ≠ []
  whole : ∀ w m, IsWord w → WordAt t w m → o ≤ m → m + w.length < o + start kws kws.length →
    ∃ n, kws[n]? = some w ∧ m = o + start kws n

theorem exists_index_of_wordAt (hkws : ∀ w ∈ kws, IsWord w)
    (hv : ∀ c, v.head? = some c → isAlphanumeric c = false) (hw : IsWord w)
    (h : WordAt (join ['_'] kws ++ v) w m) (hm : m + w.length < start kws kws.length) :
    ∃ n, kws[n]? = some w ∧ m = start kws n := by
  induction kws generalizing m with
  | nil => simp [start] at hm
  | cons a rest ih =>
      have ha := hkws a (by simp)
      cases rest with
      | nil =>
          have hle : m ≤ a.length := by
            simp only [List.length_singleton, start] at hm
            omega
          obtain ⟨rfl, rfl⟩ := eq_of_wordAt hw.alphanumeric ha.alphanumeric hv hle h
          exact ⟨0, rfl, rfl⟩
      | cons b more =>
          have hlow : isAlphanumeric '_' = false := by decide
          have hsplit : join ['_'] (a :: b :: more) ++ v =
              a ++ '_' :: (join ['_'] (b :: more) ++ v) := by
            simp [join]
          rcases Nat.lt_or_ge a.length m with hlt | hle
          · obtain ⟨k, rfl⟩ : ∃ k, m = (a ++ ['_']).length + k :=
              ⟨m - (a.length + 1), by simp; omega⟩
            have hsplit' : join ['_'] (a :: b :: more) ++ v =
                (a ++ ['_']) ++ (join ['_'] (b :: more) ++ v) := by
              simp [hsplit]
            rw [hsplit'] at h
            have hrest := (wordAt_append (fun _ => by simpa using hlow)).1 h
            obtain ⟨n, hn, rfl⟩ := ih (fun w hw => hkws w (by simp [hw])) hrest (by
              simp only [List.length_cons, List.length_append, List.length_nil, start] at hm ⊢
              omega)
            exact ⟨n + 1, hn, by simp [start]⟩
          · rw [hsplit] at h
            obtain ⟨rfl, rfl⟩ :=
              eq_of_wordAt hw.alphanumeric ha.alphanumeric (by simpa using hlow) hle h
            exact ⟨0, rfl, rfl⟩

theorem wordRow_join {u : Text} (hkws : ∀ w ∈ kws, IsWord w)
    (hu : ∀ c, u.getLast? = some c → isAlphanumeric c = false)
    (hv : ∀ c, v.head? = some c → isAlphanumeric c = false) :
    WordRow (u ++ (join ['_'] kws ++ v)) kws u.length := by
  refine ⟨fun w hw => (hkws w hw).ne_nil, ?_⟩
  intro w m hw h hm hlt
  obtain ⟨k, rfl⟩ := Nat.exists_eq_add_of_le hm
  have hword := (wordAt_append (fun _ => hu)).1 h
  obtain ⟨n, hn, rfl⟩ := exists_index_of_wordAt hkws hv hw hword (by omega)
  exact ⟨n, hn, rfl⟩

/-- Keyword `i` begins at position `m`, and the keyword before `j` ends at position `k`. -/
structure Extent (kws : List Text) (o m k i j : Nat) : Prop where
  lt : i < j
  le : j ≤ kws.length
  first : m = o + start kws i
  last : k + 1 = o + start kws j

theorem WordRow.extent_of_covers (h : WordRow t kws o) (hw : IsWord w) (hm : o ≤ m)
    (hk : k < o + start kws kws.length) (hc : Covers t (wholeWord w) m k) :
    ∃ n, kws[n]? = some w ∧ Extent kws o m k n (n + 1) := by
  obtain ⟨_, ⟨rfl, hstart⟩, _, ⟨rfl, _, hpre⟩, _, ⟨rfl, hend⟩, rfl⟩ := hc
  obtain ⟨n, hn, hfirst⟩ := h.whole w m hw ⟨hpre, hstart, hend⟩ hm hk
  refine ⟨n, hn, Nat.lt_succ_self n, (List.getElem?_eq_some_iff.1 hn).1, hfirst, ?_⟩
  rw [start_succ hn]
  omega

theorem WordRow.extent_trans (h : WordRow t kws o) {a b i' : Nat} (hx : Extent kws o m a i l)
    (hab : a ≤ b) (hy : Extent kws o b k i' j) : l ≤ i' ∧ Extent kws o m k i j := by
  have hi' : i' < kws.length := Nat.lt_of_lt_of_le hy.lt hy.le
  have hle : l ≤ i' := by
    refine Nat.le_of_not_lt (fun hlt => ?_)
    have hword : kws[i']? = some kws[i'] := List.getElem?_eq_getElem hi'
    have hpos := List.length_pos_iff.2 (h.ne_nil _ (List.getElem_mem hi'))
    have hnext := start_mono kws (Nat.succ_le_of_lt hlt)
    rw [Nat.succ_eq_add_one, start_succ hword] at hnext
    have hlast := hx.last
    have hfirst := hy.first
    omega
  exact ⟨hle, Nat.lt_of_lt_of_le hx.lt (Nat.le_trans hle (Nat.le_of_lt hy.lt)), hy.le, hx.first,
    hy.last⟩

namespace Expr

variable {policy : SortPolicy}

theorem wordsOccur_of_covers (h : WordRow t kws o) {ws : List Text} {ps : List Pattern}
    (hne : ws ≠ []) (hps : wordPatterns slug ws = .ok ps) (hm : o ≤ m) (hmt : m ≤ t.length)
    (hk : k < o + start kws kws.length) (hc : CoversAll t (withGaps ps) m k) :
    ∃ i j, WordsOccur slug kws ws i j ∧ Extent kws o m k i j := by
  induction ws generalizing ps m with
  | nil => exact absurd rfl hne
  | cons w rest ih =>
      obtain ⟨hw, others, hothers, rfl⟩ := wordPatterns_cons_eq_ok.1 hps
      cases rest with
      | nil =>
          cases hothers
          obtain ⟨_, hc, rfl⟩ := hc
          obtain ⟨n, hn, hext⟩ := h.extent_of_covers (isWord_slug_keyword hw) hm hk hc
          exact ⟨n, n + 1, ⟨hn, rfl⟩, hext⟩
      | cons v more =>
          obtain ⟨q, qs, rfl⟩ := List.exists_cons_of_ne_nil
            (wordPatterns_ne_nil (List.cons_ne_nil v more) hothers)
          obtain ⟨a, hfirst, b, ⟨hab, hb⟩, hrest⟩ := hc
          have hma := (Covers.le hmt _ hfirst).1
          have hbk := (CoversAll.le hb _ hrest).1
          obtain ⟨n, hn, hext⟩ := h.extent_of_covers (isWord_slug_keyword hw) hm (by omega) hfirst
          -- Behind the gap the other words are read from a later keyword on.
          obtain ⟨l, j, hoccur, hext'⟩ := ih (by simp) hothers (by omega) hb hrest
          obtain ⟨hle, hall⟩ := h.extent_trans hext hab hext'
          exact ⟨n, j, ⟨l, hle, hn, hoccur⟩, hall⟩

mutual

/-- Where the pattern of an expression covers a part of the row, the keywords of that part meet the
expression. -/
theorem occurs_of_covers (h : WordRow t kws o) {m : Nat} (hm : o ≤ m) (hmt : m ≤ t.length) {k : Nat}
    (hk : k < o + start kws kws.length) :
    (e : Expr) → (p : Pattern) → e.pattern slug policy = .ok p → Covers t p m k →
      ∃ i j, Occurs slug policy kws e i j ∧ Extent kws o m k i j
  | .word raw, p, hp, hc => by
      obtain ⟨hw, rfl⟩ := wordPattern_eq_ok hp
      obtain ⟨n, hn, hext⟩ := h.extent_of_covers (isWord_slug_keyword hw) hm hk hc
      exact ⟨n, n + 1, ⟨hn, rfl⟩, hext⟩
  | .group _ [], _, hp, _ => by simp [pattern] at hp
  | .group .or (e :: rest), p, hp, hc => by
      rw [pattern] at hp
      obtain ⟨ps, hps, rfl⟩ := Except.map_eq_ok.1 hp
      exact occursSome_of_covers h hm hmt hk (e :: rest) ps hps hc
  | .group .and (e :: rest), p, hp, hc => by
      rw [pattern] at hp
      split at hp
      · next words hwords =>
        obtain ⟨ps, hps, rfl⟩ := Except.map_eq_ok.1 hp
        simp only [Occurs, hwords]
        exact wordsOccur_of_covers h (arrange_ne_nil policy hwords) hps hm hmt hk hc
      · next hwords =>
        obtain ⟨ps, hps, rfl⟩ := Except.map_eq_ok.1 hp
        simp only [Occurs, hwords]
        exact occursAll_of_covers h hm hmt hk (e :: rest) ps (by simp) hps hc

theorem occursSome_of_covers (h : WordRow t kws o) {m : Nat} (hm : o ≤ m) (hmt : m ≤ t.length)
    {k : Nat} (hk : k < o + start kws kws.length) :
    (es : List Expr) → (ps : List Pattern) → patterns slug policy es = .ok ps →
      CoversSome t ps m k → ∃ i j, OccursSome slug policy kws es i j ∧ Extent kws o m k i j
  | [], ps, hps, hc => by
      cases hps
      exact hc.elim
  | e :: rest, ps, hps, hc => by
      obtain ⟨p, others, hp, hothers, rfl⟩ := patterns_cons_eq_ok.1 hps
      rcases hc with hc | hc
      · obtain ⟨i, j, hoccur, hext⟩ := occurs_of_covers h hm hmt hk e p hp hc
        exact ⟨i, j, .inl hoccur, hext⟩
      · obtain ⟨i, j, hoccur, hext⟩ := occursSome_of_covers h hm hmt hk rest others hothers hc
        exact ⟨i, j, .inr hoccur, hext⟩

theorem occursAll_of_covers (h : WordRow t kws o) {m : Nat} (hm : o ≤ m) (hmt : m ≤ t.length)
    {k : Nat} (hk : k < o + start kws kws.length) :
    (es : List Expr) → (ps : List Pattern) → es ≠ [] → patterns slug policy es = .ok ps →
      CoversAll t (withGaps ps) m k →
        ∃ i j, OccursAll slug policy kws es i j ∧ Extent kws o m k i j
  | [], _, hne, _, _ => absurd rfl hne
  | [e], ps, _, hps, hc => by
      obtain ⟨p, others, hp, hothers, rfl⟩ := patterns_cons_eq_ok.1 hps
      cases hothers
      obtain ⟨_, hc, rfl⟩ := hc
      exact occurs_of_covers h hm hmt hk e p hp hc
  | e :: f :: more, ps, _, hps, hc => by
      obtain ⟨p, others, hp, hothers, rfl⟩ := patterns_cons_eq_ok.1 hps
      obtain ⟨q, qs, rfl⟩ := List.exists_cons_of_ne_nil (patterns_ne_nil hothers)
      obtain ⟨a, hfirst, b, ⟨hab, hb⟩, hrest⟩ := hc
      have hma := (Covers.le hmt _ hfirst).1
      have hbk := (CoversAll.le hb _ hrest).1
      obtain ⟨i, l, hoccur, hext⟩ := occurs_of_covers h hm hmt (by omega) e p hp hfirst
      obtain ⟨l', j, hoccur', hext'⟩ := occursAll_of_covers h (Nat.le_trans hm (by omega)) hb hk
        (f :: more) (q :: qs) (by simp) hothers hrest
      obtain ⟨hle, hall⟩ := h.extent_trans hext hab hext'
      exact ⟨i, j, ⟨l, l', hle, hoccur, hoccur'⟩, hall⟩

end

end Expr

end NoteQuery.Keyword
