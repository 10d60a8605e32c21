import NoteQuery.Proofs.KeywordOrder

namespace NoteQuery

namespace Except

variable {ε α β : Type}

theorem toOption_map (x : Except ε α) (f : α → β) : (x.map f).toOption = x.toOption.map f := by
  cases x <;> rfl

theorem toOption_bind (x : Except ε α) (f : α → Except ε β) :
    (x >>= f).toOption = x.toOption.bind fun a => (f a).toOption := by
  cases x <;> rfl

theorem same_outcome_of_toOption_eq {x y : Except ε α} (h : x.toOption = y.toOption) :
    (∃ a, x = .ok a ∧ y = .ok a) ∨ ∃ e e', x = .error e ∧ y = .error e' := by
  cases x with
  | ok a =>
      cases y with
      | ok a' =>
          obtain rfl : a = a' := Option.some.inj h
          exact .inl ⟨a, rfl, rfl⟩
      | error e' => simp [Except.toOption] at h
  | error e =>
      cases y with
      | ok a' => simp [Except.toOption] at h
      | error e' => exact .inr ⟨e, e', rfl, rfl⟩

end Except

namespace Keyword

open Text

variable {c : Comparator} {ws vs : List Text}

def Comparator.builtin : List Comparator := [.lexicographic, .caseInsensitive, .reverse]

instance : Std.LawfulEqCmp Comparator.lexicographic.compare where
  eq_of_compare := order_eq_iff.1

instance : Std.TransCmp Comparator.reverse.compare where
  eq_swap {a b} := (Std.OrientedCmp.eq_swap : order b a = (order a b).swap)
  isLE_trans {a b d} hab hbd := by
    change (order d a).isLE = true
    exact Std.TransCmp.isLE_trans hbd hab

instance : Std.LawfulEqCmp Comparator.reverse.compare where
  eq_of_compare h := (order_eq_iff.1 h).symm

theorem Comparator.sort_eq_of_perm [Std.TransCmp c.compare] [Std.LawfulEqCmp c.compare]
    (h : ws.Perm vs) : c.sort ws = c.sort vs := by
  have hperm : (c.sort ws).Perm (c.sort vs) :=
    ((SortPolicy.by c).perm_arrange ws).trans (h.trans ((SortPolicy.by c).perm_arrange vs).symm)
  refine hperm.eq_of_pairwise ?_ (c.sorted_sort ws) (c.sorted_sort vs)
  intro a b _ _ hab hba
  exact Std.LawfulEqCmp.eq_of_compare (Std.OrientedCmp.isLE_antisymm hab hba)

theorem map_lowercase_sort (ws : List Text) :
    (Comparator.caseInsensitive.sort ws).map lowercase =
      Comparator.lexicographic.sort (ws.map lowercase) := by
  have hplace (w : Text) (vs : List Text) :
      (Comparator.caseInsensitive.place w vs).map lowercase =
        Comparator.lexicographic.place w.lowercase (vs.map lowercase) := by
    induction vs with
    | nil => rfl
    | cons v rest ih =>
        rw [List.map_cons, Comparator.place, Comparator.place]
        have hcompare : Comparator.lexicographic.compare w.lowercase v.lowercase =
          Comparator.caseInsensitive.compare w v := rfl
        rw [hcompare]
        split
        · rw [List.map_cons, ih]
        · rfl
  induction ws with
  | nil => rfl
  | cons w rest ih =>
      rw [List.map_cons, Comparator.sort, Comparator.sort, List.foldr_cons, List.foldr_cons, hplace]
      exact congrArg _ ih

theorem map_lowercase_sort_of_perm (hc : c ∈ Comparator.builtin) (h : ws.Perm vs) :
    (c.sort ws).map lowercase = (c.sort vs).map lowercase := by
  simp only [Comparator.builtin, List.mem_cons, List.not_mem_nil, or_false] at hc
  rcases hc with rfl | rfl | rfl
  · rw [Comparator.sort_eq_of_perm h]
  · rw [map_lowercase_sort, map_lowercase_sort, Comparator.sort_eq_of_perm (h.map lowercase)]
  · rw [Comparator.sort_eq_of_perm h]

namespace Expr

mutual

/-- The two expressions differ in the order of words in conjunctions of words alone. -/
inductive Reordered : Expr → Expr → Prop
  | word (w : Text) : Reordered (.word w) (.word w)
  | words {ws vs : List Text} (h : ws.Perm vs) :
      Reordered (.group .and (ws.map .word)) (.group .and (vs.map .word))
  | group (op : Op) {cs ds : List Expr} (h : AllReordered cs ds) :
      Reordered (.group op cs) (.group op ds)

inductive AllReordered : List Expr → List Expr → Prop
  | nil : AllReordered [] []
  | cons {e e' : Expr} {cs ds : List Expr} (h : Reordered e e') (hs : AllReordered cs ds) :
      AllReordered (e :: cs) (e' :: ds)

end

theorem allWords?_eq_of_reordered {cs ds : List Expr} (h : AllReordered cs ds) :
    allWords? cs = allWords? ds := by
  induction cs generalizing ds with
  | nil =>
      cases h
      rfl
  | cons e cs ih =>
      cases h with
      | cons h hs =>
          cases h with
          | word w => rw [allWords?, allWords?, ih hs]
          | words _ | group _ _ => rfl

theorem toOption_wordPatterns {normalize : Normalizer}
    (h : ws.map (normalize .keyword) = vs.map (normalize .keyword)) :
    (wordPatterns normalize ws).toOption = (wordPatterns normalize vs).toOption := by
  induction ws generalizing vs with
  | nil =>
      obtain rfl := List.map_eq_nil_iff.1 h.symm
      rfl
  | cons w ws ih =>
      obtain ⟨v, vs, rfl, hv, hvs⟩ := List.map_eq_cons_iff.1 h.symm
      have hword : (wordPattern normalize w).toOption = (wordPattern normalize v).toOption := by
        rw [wordPattern, wordPattern, hv]
        split <;> rfl
      simp only [wordPatterns, Except.toOption_bind, hword, ih hvs.symm]

theorem toOption_pattern_words (hc : c ∈ Comparator.builtin) (h : ws.Perm vs) :
    ((group .and (ws.map .word)).pattern slug (.by c)).toOption =
      ((group .and (vs.map .word)).pattern slug (.by c)).toOption := by
  by_cases hne : ws = []
  · subst hne
    rw [h.nil_eq]
  · have hvs : vs ≠ [] := by
      rintro rfl
      exact hne h.eq_nil
    have hslugs (ws : List Text) : (c.sort ws).map (slug .keyword) =
        ((c.sort ws).map lowercase).map (List.filter isAlphanumeric) := by
      rw [List.map_map]
      rfl
    have hsorted : (c.sort ws).map (slug .keyword) = (c.sort vs).map (slug .keyword) := by
      rw [hslugs, hslugs, map_lowercase_sort_of_perm hc h]
    rw [pattern_words hne, pattern_words hvs, Except.toOption_map, Except.toOption_map]
    exact congrArg _ (toOption_wordPatterns hsorted)

mutual

theorem Reordered.toOption_pattern (hc : c ∈ Comparator.builtin) : {e e' : Expr} →
    Reordered e e' → (e.pattern slug (.by c)).toOption = (e'.pattern slug (.by c)).toOption
  | _, _, .word _ => rfl
  | _, _, .words h => toOption_pattern_words hc h
  | _, _, .group _ .nil => rfl
  | _, _, .group .or (.cons h hs) => by
      have hpatterns := AllReordered.toOption_patterns hc (.cons h hs)
      rw [pattern, pattern, Except.toOption_map, Except.toOption_map, hpatterns]
  | _, _, .group .and (.cons h hs) => by
      have hpatterns := AllReordered.toOption_patterns hc (.cons h hs)
      have hwords := allWords?_eq_of_reordered (.cons h hs)
      rw [pattern, pattern, hwords]
      split
      · rfl
      · rw [Except.toOption_map, Except.toOption_map, hpatterns]

theorem AllReordered.toOption_patterns (hc : c ∈ Comparator.builtin) : {cs ds : List Expr} →
    AllReordered cs ds →
      (patterns slug (.by c) cs).toOption = (patterns slug (.by c) ds).toOption
  | _, _, .nil => rfl
  | _, _, .cons h hs => by
      have hfirst := h.toOption_pattern hc
      have hothers := hs.toOption_patterns hc
      simp only [patterns, Except.toOption_bind, hfirst, hothers]

end

/-- Under a built-in comparator the order of the words in a conjunction has no say in whether an
expression has a pattern, nor in the pattern. -/
theorem pattern_of_reordered {e e' : Expr} (hc : c ∈ Comparator.builtin) (h : Reordered e e') :
    (∃ p, e.pattern slug (.by c) = .ok p ∧ e'.pattern slug (.by c) = .ok p) ∨
      ∃ f f', e.pattern slug (.by c) = .error f ∧ e'.pattern slug (.by c) = .error f' :=
  Except.same_outcome_of_toOption_eq (h.toOption_pattern hc)

theorem pattern_of_reordered_spellings :
    let e (ws : List Text) : Expr := .group .or [.word "a".toList, .group .and (ws.map .word)]
    let ws : List Text := ["ΟΔΟΣ".toList, "b".toList, "οδος".toList, "Οδος".toList]
    Comparator.caseInsensitive ∈ Comparator.builtin ∧ Reordered (e ws) (e ws.reverse) ∧
      ((∃ p, (e ws).pattern slug (.by .caseInsensitive) = .ok p ∧
          (e ws.reverse).pattern slug (.by .caseInsensitive) = .ok p) ∨
        ∃ f f', (e ws).pattern slug (.by .caseInsensitive) = .error f ∧
          (e ws.reverse).pattern slug (.by .caseInsensitive) = .error f') := by
  intro e ws
  have hmem : Comparator.caseInsensitive ∈ Comparator.builtin := by simp [Comparator.builtin]
  have hwords : Reordered (.group .and (ws.map .word)) (.group .and (ws.reverse.map .word)) :=
    .words ws.reverse_perm.symm
  have hr : Reordered (e ws) (e ws.reverse) := .group .or (.cons (.word _) (.cons hwords .nil))
  exact ⟨hmem, hr, pattern_of_reordered hmem hr⟩

end Expr

end Keyword

end NoteQuery
