import NoteQuery.Proofs.WordTree

namespace NoteQuery

namespace Except

variable {ε α β : Type} {x : Except ε α} {b : β}

theorem map_eq_ok {f : α → β} : x.map f = .ok b ↔ ∃ a, x = .ok a ∧ f a = b := by
  cases x <;> simp [Except.map]

theorem bind_eq_ok {f : α → Except ε β} : x >>= f = .ok b ↔ ∃ a, x = .ok a ∧ f a = .ok b := by
  cases x <;> simp [bind, Except.bind]

theorem map₂_eq_ok {γ : Type} {y : Except ε β} {f : α → β → γ} {c : γ} :
    (do let a ← x; let b ← y; .ok (f a b)) = .ok c ↔ ∃ a b, x = .ok a ∧ y = .ok b ∧ c = f a b := by
  cases x with
  | error e => simp [bind, Except.bind]
  | ok a => cases y <;> simp [bind, Except.bind, eq_comm]

end Except

namespace Keyword

theorem Comparator.perm_place (c : Comparator) (w : Text) (ws : List Text) :
    (c.place w ws).Perm (w :: ws) := by
  induction ws with
  | nil => exact .refl _
  | cons v rest ih =>
      rw [Comparator.place]
      split
      · exact (ih.cons v).trans (.swap w v rest)
      · exact .refl _

theorem SortPolicy.perm_arrange (policy : SortPolicy) (ws : List Text) :
    (policy.arrange ws).Perm ws := by
  rw [arrange]
  split
  · induction ws with
    | nil => exact .refl _
    | cons w rest ih => exact (policy.comparator.perm_place w _).trans (ih.cons w)
  · exact .refl _

namespace Expr

open Pattern

variable {normalize : Normalizer} {policy : SortPolicy} {W : Text → Prop} {e : Expr}
  {es : List Expr} {w : Text} {ws : List Text} {ps : List Pattern}

theorem wordPattern_eq_ok {raw : Text} {p : Pattern} (h : wordPattern normalize raw = .ok p) :
    normalize .keyword raw ≠ [] ∧ p = .wholeWord (normalize .keyword raw) := by
  rw [wordPattern] at h
  split at h
  · simp at h
  · next c rest he =>
    cases h
    exact ⟨by simp [he], by rw [he]⟩

theorem wordPattern_of_ne_nil {raw : Text} (h : normalize .keyword raw ≠ []) :
    wordPattern normalize raw = .ok (.wholeWord (normalize .keyword raw)) := by
  obtain ⟨c, rest, he⟩ := List.exists_cons_of_ne_nil h
  rw [wordPattern, he]

theorem wordPatterns_cons_eq_ok : wordPatterns normalize (w :: ws) = .ok ps ↔
    normalize .keyword w ≠ [] ∧ ∃ others, wordPatterns normalize ws = .ok others ∧
      ps = .wholeWord (normalize .keyword w) :: others := by
  rw [wordPatterns, Except.map₂_eq_ok]
  constructor
  · rintro ⟨first, others, hfirst, hothers, rfl⟩
    obtain ⟨hne, rfl⟩ := wordPattern_eq_ok hfirst
    exact ⟨hne, others, hothers, rfl⟩
  · rintro ⟨hne, others, hothers, rfl⟩
    exact ⟨_, others, wordPattern_of_ne_nil hne, hothers, rfl⟩

theorem patterns_cons_eq_ok : patterns normalize policy (e :: es) = .ok ps ↔
    ∃ first others, e.pattern normalize policy = .ok first ∧
      patterns normalize policy es = .ok others ∧ ps = first :: others := by
  rw [patterns]
  exact Except.map₂_eq_ok

theorem wordPatterns_ne_nil (hne : ws ≠ []) (h : wordPatterns normalize ws = .ok ps) :
    ps ≠ [] := by
  obtain ⟨w, rest, rfl⟩ := List.exists_cons_of_ne_nil hne
  obtain ⟨-, others, -, rfl⟩ := wordPatterns_cons_eq_ok.1 h
  exact List.cons_ne_nil _ _

theorem patterns_ne_nil (h : patterns normalize policy (e :: es) = .ok ps) : ps ≠ [] := by
  obtain ⟨first, others, -, -, rfl⟩ := patterns_cons_eq_ok.1 h
  exact List.cons_ne_nil _ _

theorem arrange_ne_nil (policy : SortPolicy) (h : allWords? (e :: es) = some ws) :
    policy.arrange ws ≠ [] := by
  intro harranged
  obtain rfl : ws = [] := List.perm_nil.1 (harranged ▸ (policy.perm_arrange ws).symm)
  cases e <;> simp [allWords?] at h

theorem wordTree_of_word (hW : ∀ raw, normalize .keyword raw ≠ [] → W (normalize .keyword raw))
    {raw : Text} {p : Pattern} (h : wordPattern normalize raw = .ok p) :
    WordTree W p := by
  obtain ⟨hne, rfl⟩ := wordPattern_eq_ok h
  exact .word (hW raw hne)

theorem wordTrees_of_words
    (hW : ∀ raw, normalize .keyword raw ≠ [] → W (normalize .keyword raw))
    (h : wordPatterns normalize ws = .ok ps) : ∀ p ∈ ps, WordTree W p := by
  induction ws generalizing ps with
  | nil =>
      cases h
      exact List.forall_mem_nil _
  | cons w rest ih =>
      obtain ⟨hne, others, hothers, rfl⟩ := wordPatterns_cons_eq_ok.1 h
      exact List.forall_mem_cons.2 ⟨.word (hW w hne), ih hothers⟩

mutual

theorem wordTree_of_pattern
    (hW : ∀ raw, normalize .keyword raw ≠ [] → W (normalize .keyword raw)) :
    (e : Expr) → (p : Pattern) → e.pattern normalize policy = .ok p → WordTree W p
  | .word raw, _, h => wordTree_of_word hW h
  | .group _ [], _, h => by simp [pattern] at h
  | .group .or (e :: rest), p, h => by
      rw [pattern] at h
      obtain ⟨ps, hps, rfl⟩ := Except.map_eq_ok.1 h
      exact .alt (patterns_ne_nil hps) (wordTrees_of_patterns hW (e :: rest) ps hps)
  | .group .and (e :: rest), p, h => by
      rw [pattern] at h
      split at h
      · next words hwords =>
        obtain ⟨ps, hps, rfl⟩ := Except.map_eq_ok.1 h
        have hne : ps ≠ [] := wordPatterns_ne_nil (arrange_ne_nil policy hwords) hps
        exact .separated hne (wordTrees_of_words hW hps)
      · obtain ⟨ps, hps, rfl⟩ := Except.map_eq_ok.1 h
        exact .separated (patterns_ne_nil hps) (wordTrees_of_patterns hW (e :: rest) ps hps)

theorem wordTrees_of_patterns
    (hW : ∀ raw, normalize .keyword raw ≠ [] → W (normalize .keyword raw)) :
    (es : List Expr) → (ps : List Pattern) →
      patterns normalize policy es = .ok ps → ∀ p ∈ ps, WordTree W p
  | [], ps, h => by
      cases h
      exact List.forall_mem_nil _
  | e :: rest, ps, h => by
      obtain ⟨first, others, hfirst, hothers, rfl⟩ := patterns_cons_eq_ok.1 h
      exact List.forall_mem_cons.2
        ⟨wordTree_of_pattern hW e first hfirst, wordTrees_of_patterns hW rest others hothers⟩

end

end Expr

end Keyword

theorem isWord_slug_keyword {raw : Text} (h : slug .keyword raw ≠ []) :
    Text.IsWord (slug .keyword raw) :=
  ⟨h, fun _ hc => (List.mem_filter.1 hc).2⟩

end NoteQuery
