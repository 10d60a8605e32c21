import Mathlib.Data.List.Pairwise
import Mathlib.Data.List.Sort
import NoteQuery.Keyword.Occurrence
import NoteQuery.Proofs.KeywordTree

namespace NoteQuery

namespace Text

theorem order_eq_compare (a b : Text) :
    order a b = compare (a.map Char.toNat) (b.map Char.toNat) := by
  induction a generalizing b with
  | nil => cases b <;> rfl
  | cons c a ih =>
      cases b with
      | nil => rfl
      | cons d b =>
          rw [order, ih, List.map_cons, List.map_cons, List.compare_cons_cons,
            Nat.compare_eq_ite_lt]
          by_cases hlt : c.toNat < d.toNat
          · simp [hlt]
          · by_cases hgt : d.toNat < c.toNat <;> simp [hlt, hgt]

instance : Std.TransCmp order where
  eq_swap := by
    intro a b
    rw [order_eq_compare, order_eq_compare]
    exact Std.OrientedCmp.eq_swap
  isLE_trans := by
    intro a b c hab hbc
    rw [order_eq_compare] at hab hbc ⊢
    exact Std.TransCmp.isLE_trans hab hbc

def Ascending (ts : List Text) : Prop := ts.Pairwise fun a b => order a b = .lt

instance (ts : List Text) : Decidable (Ascending ts) :=
  inferInstanceAs (Decidable (ts.Pairwise fun a b => order a b = .lt))

variable {ts us : List Text}

theorem order_asymm {a b : Text} (h : order a b = .lt) : order b a ≠ .lt := by
  have hswap : order b a = (order a b).swap := Std.OrientedCmp.eq_swap
  rw [hswap, h]
  simp

theorem Ascending.nodup (h : Ascending ts) : ts.Nodup := by
  refine List.Pairwise.imp (fun hlt => ?_) h
  rintro rfl
  exact order_asymm hlt hlt

theorem ascending_of_nodup (hsorted : ts.Pairwise fun a b => (order a b).isLE = true)
    (h : ts.Nodup) : Ascending ts := by
  refine List.Pairwise.imp₂ (fun a b hle hne => ?_) hsorted h
  cases hab : order a b with
  | lt => rfl
  | eq => exact absurd (order_eq_iff.1 hab) hne
  | gt => simp [hab] at hle

theorem Ascending.sublist_iff (h : Ascending us) : ts.Sublist us ↔ ts ⊆ us ∧ Ascending ts := by
  constructor
  · intro hsub
    exact ⟨hsub.subset, h.sublist hsub⟩
  · rintro ⟨hmem, hasc⟩
    have : Std.Antisymm fun a b : Text => order a b = .lt :=
      ⟨fun a b hab hba => absurd hba (order_asymm hab)⟩
    exact List.sublist_of_subperm_of_pairwise (List.subperm_of_subset hasc.nodup hmem) hasc h

theorem ascending_map_iff {f : Text → Text} (h : Ascending ts) :
    Ascending (ts.map f) ↔
      ∀ a ∈ ts, ∀ b ∈ ts, order a b = .lt → order (f a) (f b) = .lt := by
  rw [Ascending, List.pairwise_map]
  constructor
  · intro hf a ha b hb hab
    -- Pairs are only given in the order of the list; `R` is symmetric and holds of all of them.
    let R (a b : Text) : Prop := (order a b = .lt → order (f a) (f b) = .lt) ∧
      (order b a = .lt → order (f b) (f a) = .lt)
    have : Std.Symm R := ⟨fun _ _ hR => ⟨hR.2, hR.1⟩⟩
    have hpairs : ts.Pairwise R := (h.and hf).imp fun ⟨hlt, hmap⟩ =>
      ⟨fun _ => hmap, fun hgt => absurd hgt (order_asymm hlt)⟩
    have hne : a ≠ b := by
      rintro rfl
      exact order_asymm hab hab
    exact (hpairs.forall ha hb hne).1 hab
  · intro hf
    exact h.imp_of_mem (fun ha hb => hf _ ha _ hb)

end Text

namespace Keyword

open Text

theorem Comparator.sorted_place {c : Comparator} [Std.TransCmp c.compare] {w : Text}
    {ws : List Text} (h : ws.Pairwise fun a b => (c.compare a b).isLE = true) :
    (c.place w ws).Pairwise fun a b => (c.compare a b).isLE = true := by
  induction ws with
  | nil => exact List.pairwise_singleton _ w
  | cons v rest ih =>
      obtain ⟨hv, hrest⟩ := List.pairwise_cons.1 h
      rw [place]
      by_cases hgt : c.compare w v = .gt
      · rw [if_pos hgt]
        refine List.pairwise_cons.2 ⟨fun u hu => ?_, ih hrest⟩
        rcases List.mem_cons.1 ((c.perm_place w rest).mem_iff.1 hu) with rfl | hu
        · have hswap : c.compare v u = (c.compare u v).swap := Std.OrientedCmp.eq_swap
          rw [hswap, hgt]
          rfl
        · exact hv u hu
      · rw [if_neg hgt]
        have hwv := Ordering.ne_gt_iff_isLE.1 hgt
        refine List.pairwise_cons.2 ⟨fun u hu => ?_, h⟩
        rcases List.mem_cons.1 hu with rfl | hu
        · exact hwv
        · exact Std.TransCmp.isLE_trans hwv (hv u hu)

theorem Comparator.sorted_sort (c : Comparator) [Std.TransCmp c.compare] (ws : List Text) :
    (c.sort ws).Pairwise fun a b => (c.compare a b).isLE = true := by
  induction ws with
  | nil => exact .nil
  | cons w rest ih => exact sorted_place ih

instance : Std.TransCmp Comparator.lexicographic.compare :=
  inferInstanceAs (Std.TransCmp order)

theorem ascending_arrange {ws : List Text} (h : ws.Nodup) :
    Ascending ((SortPolicy.by .lexicographic).arrange ws) := by
  have hnodup := ((SortPolicy.by .lexicographic).perm_arrange ws).nodup_iff.2 h
  exact ascending_of_nodup (Comparator.sorted_sort .lexicographic ws) hnodup

namespace Expr

variable {normalize : Normalizer} {policy : SortPolicy} {kws ws : List Text} {i j : Nat}

theorem allWords?_map_word (ws : List Text) : allWords? (ws.map .word) = some ws := by
  induction ws with
  | nil => rfl
  | cons w rest ih => simp [allWords?, ih]

theorem pattern_words (hne : ws ≠ []) :
    (group .and (ws.map .word)).pattern normalize policy =
      (wordPatterns normalize (policy.arrange ws)).map Pattern.separated := by
  obtain ⟨w, rest, rfl⟩ := List.exists_cons_of_ne_nil hne
  have hwords := allWords?_map_word (w :: rest)
  rw [List.map_cons] at hwords ⊢
  simp only [pattern, hwords]

theorem sublist_of_wordsOccur (h : WordsOccur normalize kws ws i j) :
    (ws.map (normalize .keyword)).Sublist (kws.drop i) := by
  have hdrop {w : Text} {i : Nat} (hw : kws[i]? = some w) : kws.drop i = w :: kws.drop (i + 1) := by
    obtain ⟨hi, rfl⟩ := List.getElem?_eq_some_iff.1 hw
    exact List.drop_eq_getElem_cons hi
  induction ws generalizing i with
  | nil => exact List.nil_sublist _
  | cons w rest ih =>
      cases rest with
      | nil =>
          rw [hdrop h.1]
          exact (List.nil_sublist _).cons_cons _
      | cons v more =>
          obtain ⟨k, hik, hw, hrest⟩ := h
          rw [hdrop hw]
          exact ((ih hrest).trans (List.drop_sublist_drop_left kws hik)).cons_cons _

theorem wordsOccur_of_sublist (h : (ws.map (normalize .keyword)).Sublist (kws.drop i)) :
    ∃ k j, i ≤ k ∧ WordsOccur normalize kws ws k j := by
  induction ws generalizing i with
  | nil => exact ⟨i, i, Nat.le_refl i, rfl⟩
  | cons w rest ih =>
      obtain ⟨before, after, hsplit, hmem, hrest⟩ := List.cons_sublist_iff.1 h
      obtain ⟨n, hn⟩ := List.getElem?_of_mem hmem
      have hlt := (List.getElem?_eq_some_iff.1 hn).1
      have hw : kws[i + n]? = some (normalize .keyword w) := by
        rw [← List.getElem?_drop, hsplit, List.getElem?_append_left hlt, hn]
      have hafter : after = kws.drop (i + before.length) := by
        rw [← List.drop_drop, hsplit, List.drop_left]
      obtain ⟨k, j, hik, hoccur⟩ := ih (hafter ▸ hrest)
      cases rest with
      | nil => exact ⟨i + n, i + n + 1, Nat.le_add_right i n, hw, rfl⟩
      | cons v more => exact ⟨i + n, j, Nat.le_add_right i n, k, by omega, hw, hoccur⟩

theorem exists_wordsOccur_iff :
    (∃ i j, WordsOccur normalize kws ws i j) ↔ (ws.map (normalize .keyword)).Sublist kws := by
  constructor
  · rintro ⟨i, j, h⟩
    exact (sublist_of_wordsOccur h).trans (List.drop_sublist i kws)
  · intro h
    obtain ⟨k, j, _, hoccur⟩ := wordsOccur_of_sublist (i := 0) h
    exact ⟨k, j, hoccur⟩

/-- A sorted conjunction of words is met by ascending keywords exactly if each word is one of them
and the words are in the order of what normalisation makes of them. -/
theorem metBy_words_iff (hkws : Ascending kws)
    (hnodup : (ws.map (normalize .keyword)).Nodup) :
    (Expr.group .and (ws.map .word)).MetBy normalize (.by .lexicographic) kws ↔
      (∀ w ∈ ws, normalize .keyword w ∈ kws) ∧ ∀ v ∈ ws, ∀ w ∈ ws,
        order v w = .lt → order (normalize .keyword v) (normalize .keyword w) = .lt := by
  have hperm := (SortPolicy.by .lexicographic).perm_arrange ws
  simp only [MetBy, Occurs, allWords?_map_word]
  rw [exists_wordsOccur_iff, hkws.sublist_iff, ascending_map_iff (ascending_arrange hnodup.of_map)]
  simp [hperm.mem_iff, List.subset_def]

end Expr

end Keyword

end NoteQuery
