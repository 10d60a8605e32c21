import Mathlib.Data.List.Destutter
import NoteQuery.FileTypes
import NoteQuery.Proofs.KeywordOrder

namespace NoteQuery

section Repetitions

variable {α : Type} [BEq α] [LawfulBEq α] [DecidableEq α]

theorem loop_eraseReps (a : α) (l acc : List α) :
    List.eraseRepsBy.loop (· == ·) a l acc = acc.reverse ++ l.destutter' (· ≠ ·) a := by
  induction l generalizing a acc with
  | nil => simp [List.eraseRepsBy.loop]
  | cons b l ih =>
      by_cases hab : a = b
      · simp [List.eraseRepsBy.loop, hab, ih]
      · simp [List.eraseRepsBy.loop, beq_false_of_ne hab, hab, ih]

theorem eraseReps_eq_destutter (l : List α) : l.eraseReps = l.destutter (· ≠ ·) := by
  cases l with
  | nil => rfl
  | cons a l => exact loop_eraseReps a l []

end Repetitions

namespace Text

instance : Std.Antisymm fun a b : Text => (order a b).isLE = true where
  antisymm _ _ hab hba := order_eq_iff.1 (Std.OrientedCmp.isLE_antisymm hab hba)

theorem Ascending.eq_of_mem_iff {ts us : List Text} (ht : Ascending ts) (hu : Ascending us)
    (h : ∀ t, t ∈ ts ↔ t ∈ us) : ts = us :=
  (hu.sublist_iff.2 ⟨fun t => (h t).1, ht⟩).antisymm (ht.sublist_iff.2 ⟨fun t => (h t).2, hu⟩)

end Text

namespace FileTypes

open Text

variable {types : FileTypes} {ts us : List Text} {t tag : Text}

section Listing

theorem sorted_mergeSort (ts : List Text) :
    (ts.mergeSort fun a b => (order a b).isLE).Pairwise fun a b => (order a b).isLE = true := by
  apply List.pairwise_mergeSort
  · intro a b c
    exact Std.TransCmp.isLE_trans
  · intro a b
    have hswap : order b a = (order a b).swap := Std.OrientedCmp.eq_swap
    rw [hswap]
    cases order a b <;> rfl

theorem listing_eq_dedup (ts : List Text) :
    listing ts = (ts.mergeSort fun a b => (order a b).isLE).dedup := by
  rw [listing, eraseReps_eq_destutter]
  exact (sorted_mergeSort ts).destutter_eq_dedup

theorem mem_listing : t ∈ listing ts ↔ t ∈ ts := by
  rw [listing_eq_dedup, List.mem_dedup, List.mem_mergeSort]

theorem ascending_listing (ts : List Text) : Ascending (listing ts) := by
  rw [listing_eq_dedup]
  exact ascending_of_nodup ((sorted_mergeSort ts).sublist (List.dedup_sublist _))
    (List.nodup_dedup _)

theorem listing_congr (h : ∀ t, t ∈ ts ↔ t ∈ us) : listing ts = listing us := by
  apply (ascending_listing ts).eq_of_mem_iff (ascending_listing us)
  intro t
  rw [mem_listing, mem_listing, h]

theorem mem_tags_iff : tag ∈ types.tags ↔ (types.resolve tag).isSome = true := by
  rw [tags, mem_listing, List.mem_append, Dictionary.mem_keys_iff, Dictionary.mem_keys_iff, resolve]
  cases types.overrides.find? tag <;> simp

end Listing

section History

def insertAll (types : FileTypes) (pairs : List (Text × Text)) : FileTypes :=
  pairs.foldl (fun types (tag, extension) => types.insert tag extension) types

theorem resolve_insert (types : FileTypes) (given extension tag : Text) :
    (types.insert given extension).resolve tag =
      if given = tag then some extension else types.resolve tag := by
  rw [resolve, insert, Dictionary.find?_insert]
  by_cases h : given = tag <;> simp [h, resolve]

theorem resolve_insertAll (types : FileTypes) (pairs : List (Text × Text)) (tag : Text) :
    (types.insertAll pairs).resolve tag = (pairs.reverse.lookup tag).or (types.resolve tag) := by
  -- From the back: the pair that was given last is the first that the look-up comes to.
  induction pairs using List.reverseRecOn with
  | nil => rfl
  | append_singleton pairs pair ih =>
      obtain ⟨given, extension⟩ := pair
      have hstep : types.insertAll (pairs ++ [(given, extension)]) =
          (types.insertAll pairs).insert given extension := List.foldl_concat ..
      rw [hstep, resolve_insert, ih, List.reverse_concat, List.lookup_cons]
      by_cases h : given = tag
      · simp [h]
      · simp [h, beq_false_of_ne (Ne.symm h)]

/-- File types that are given as a whole might as well be given one by one. -/
theorem withOverrides_eq_insertAll (pairs : List (Text × Text)) :
    withOverrides pairs = builtin.insertAll pairs :=
  (List.foldl_hom FileTypes.mk fun _ _ => rfl).symm

theorem insertAll_withOverrides (overrides inserts : List (Text × Text)) :
    (withOverrides overrides).insertAll inserts = builtin.insertAll (overrides ++ inserts) := by
  rw [withOverrides_eq_insertAll, insertAll, insertAll, insertAll, List.foldl_append]

/-- After any history a tag stands for the extension that it was given last, or else for its common
one. The tags that stand for an extension are listed in ascending order, each of them once, and in
whatever order the common tags come to the listing. -/
theorem resolve_and_tags_after (overrides inserts : List (Text × Text)) :
    let types := (withOverrides overrides).insertAll inserts
    (∀ tag, types.resolve tag =
        ((overrides ++ inserts).reverse.lookup tag).or (common.find? tag)) ∧
      Ascending types.tags ∧ (∀ tag, tag ∈ types.tags ↔ (types.resolve tag).isSome = true) ∧
      (∀ tag, types.tags.count tag ≤ 1) ∧
      ∀ keys : List Text, keys.Perm common.keys →
        listing (keys ++ types.overrides.keys) = types.tags := by
  intro types
  have htypes : types = builtin.insertAll (overrides ++ inserts) :=
    insertAll_withOverrides overrides inserts
  have hasc : Ascending types.tags := ascending_listing _
  refine ⟨fun tag => ?_, hasc, fun tag => mem_tags_iff, ?_, fun keys hperm => ?_⟩
  · rw [htypes, resolve_insertAll]
    rfl
  · exact List.nodup_iff_count_le_one.1 hasc.nodup
  · exact listing_congr fun t => (hperm.append_right _).mem_iff

example :
    let types := builtin.insertAll
      [("typst".toList, ".typ".toList), ("text".toList, ".text".toList)]
    types.tags = ["markdown-toml".toList, "markdown-yaml".toList, "org".toList, "text".toList,
      "typst".toList] ∧ types.resolve "text".toList = some ".text".toList := by
  cbv

end History

end FileTypes

end NoteQuery
