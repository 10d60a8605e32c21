import NoteQuery.Config.Load

namespace NoteQuery.Setting

open Dictionary

variable {d e e' : Dictionary Setting} {key m : Text} {v old old' s : Setting} {path : List Step}
  {es : List (Text × Setting)}

theorem entries_table (e : Dictionary Setting) : (Setting.table e).entries = e := rfl

/-- What is known of a section over its defaults `d`, from what the layer alone makes of it. -/
inductive Over (d : Dictionary Setting) : Option Setting → Option Setting → Prop
  | untouched : Over d (some (.table d)) none
  | merged {e e' : Dictionary Setting} (h : ∀ m, e.find? m = (e'.find? m).or (d.find? m)) :
      Over d (some (.table e)) (some (.table e'))
  | replaced (s : Setting) : Over d (some s) (some s)

/-- Whatever is laid along the path over the default of its key, the default leaves no trace. -/
def Overridable (d : Dictionary Setting) (path : List Step) : Prop :=
  ∀ m rest w, path = .key m :: rest → d.find? m = some w →
    ∀ v, place v rest w = place v rest .nothing

theorem overlay_congr (he : old.entries = old'.entries) : overlay v old = overlay v old' := by
  cases v <;> simp only [overlay, he]

theorem place_congr (he : old.entries = old'.entries)
    (hi : ∀ i rest, path = .item i :: rest → old.items? = old'.items?) :
    place v path old = place v path old' := by
  cases path with
  | nil => exact overlay_congr he
  | cons step rest =>
      cases step with
      | key m => simp only [place, he]
      | item i => simp only [place, hi i rest rfl]

theorem find?_insert_merged (h : ∀ m, e.find? m = (e'.find? m).or (d.find? m)) (key : Text)
    (s : Setting) (m : Text) :
    (e.insert key s).find? m = ((e'.insert key s).find? m).or (d.find? m) := by
  rw [find?_insert, find?_insert]
  by_cases hk : key = m
  · rw [if_pos hk, if_pos hk, Option.some_or]
  · rw [if_neg hk, if_neg hk]
    exact h m

theorem getD_merged (h : ∀ m, e.find? m = (e'.find? m).or (d.find? m)) (f : Setting → Setting)
    (hf : ∀ w, d.find? key = some w → f w = f .nothing) :
    f ((e.find? key).getD .nothing) = f ((e'.find? key).getD .nothing) := by
  rw [h key]
  cases e'.find? key with
  | some w => rfl
  | none =>
      cases hw : d.find? key with
      | none => rfl
      | some w => exact hf w hw

theorem find?_overlayEntries (hd : ∀ m w, d.find? m = some w → w.entries = [])
    (es : List (Text × Setting)) (h : ∀ m, e.find? m = (e'.find? m).or (d.find? m)) (m : Text) :
    (overlayEntries es e).find? m = ((overlayEntries es e').find? m).or (d.find? m) := by
  induction es generalizing e e' with
  | nil => exact h m
  | cons entry rest ih =>
      obtain ⟨key, v⟩ := entry
      apply ih
      simp only [overlayEntry]
      rw [getD_merged h (overlay v) fun w hw => overlay_congr (hd key w hw)]
      exact find?_insert_merged h key _

/-- One more entry of the layer keeps the two apart by no more than defaults. -/
theorem Over.place {x y : Option Setting} (h : Over d x y) (v : Setting)
    (hd : ∀ m w, d.find? m = some w → w.entries = []) (hpath : Overridable d path) :
    Over d (some (place v path (x.getD .nothing))) (some (place v path (y.getD .nothing))) := by
  have htables (e e' : Dictionary Setting) (old : Setting) (hitems : old.items? = none)
      (hentries : old.entries = e') (h : ∀ m, e.find? m = (e'.find? m).or (d.find? m)) :
      Over d (some (Setting.place v path (.table e))) (some (Setting.place v path old)) := by
    subst hentries
    cases path with
    | nil =>
        cases v with
        | table es => exact .merged (find?_overlayEntries hd es h)
        | _ => exact .replaced _
    | cons step rest =>
        cases step with
        | key m =>
            apply Over.merged
            rw [entries_table, getD_merged h (Setting.place v rest) fun w hw => hpath m rest w rfl hw v]
            exact find?_insert_merged h m _
        | item i =>
            simp only [Setting.place, hitems]
            exact .replaced _
  cases h with
  | untouched => exact htables d [] .nothing rfl rfl fun m => rfl
  | merged h => exact htables _ _ _ rfl rfl h
  | replaced s => exact .replaced _

theorem Over.find?_entries {x y : Option Setting} (h : Over d x y) (key : Text) :
    find? key (x.getD .nothing).entries =
        (find? key (y.getD .nothing).entries).or (d.find? key) ∨
      find? key (x.getD .nothing).entries = find? key (y.getD .nothing).entries := by
  cases h with
  | untouched => exact .inl rfl
  | merged h => exact .inl (h key)
  | replaced s => exact .inr rfl

theorem stepsFrom_name {w t : Text} {steps : List Step} (h : stepsFrom (.name w) t = some steps) :
    ∃ m path, steps = .key m :: path := by
  induction t generalizing w with
  | nil =>
      cases w with
      | nil => cases h
      | cons c w =>
          cases h
          exact ⟨_, [], rfl⟩
  | cons c t ih =>
      rw [stepsFrom] at h
      split at h
      · exact ih h
      split at h
      · cases h
      split at h
      · obtain ⟨path, -, rfl⟩ := Option.map_eq_some_iff.1 h
        exact ⟨_, path, rfl⟩
      split at h
      · obtain ⟨path, -, rfl⟩ := Option.map_eq_some_iff.1 h
        exact ⟨_, path, rfl⟩
      · cases h

theorem pathOf_eq (key : Text) : ∃ m path, pathOf key = .key m :: path := by
  rw [pathOf]
  cases h : stepsFrom (.name []) key with
  | none => exact ⟨key, [], rfl⟩
  | some steps => exact stepsFrom_name h

theorem find?_place_key {n : Text} : (place v (.key m :: path) s).entries.find? n =
    if m = n then some (place v path ((s.entries.find? m).getD .nothing))
    else s.entries.find? n :=
  find?_insert ..

theorem placeAll_cons : placeAll ((key, v) :: es) s = placeAll es (place v (pathOf key) s) := rfl

theorem placeAll_table (layer : List (Text × Setting)) (e : Dictionary Setting) :
    ∃ e', placeAll layer (.table e) = .table e' := by
  induction layer generalizing e with
  | nil => exact ⟨e, rfl⟩
  | cons entry rest ih =>
      obtain ⟨k, v⟩ := entry
      obtain ⟨m, path, hk⟩ := pathOf_eq k
      rw [placeAll_cons, hk]
      exact ih _

theorem over_placeAll (hd : ∀ m w, d.find? m = some w → w.entries = [])
    (layer : List (Text × Setting))
    (hpath : ∀ e ∈ layer, ∀ path, pathOf e.1 = .key key :: path → Overridable d path)
    (h : Over d (s.entries.find? key) (old.entries.find? key)) :
    Over d ((placeAll layer s).entries.find? key) ((placeAll layer old).entries.find? key) := by
  induction layer generalizing s old with
  | nil => exact h
  | cons entry rest ih =>
      obtain ⟨k, v⟩ := entry
      obtain ⟨m, path, hk⟩ := pathOf_eq k
      rw [placeAll_cons, placeAll_cons, hk]
      apply ih fun e he => hpath e (List.mem_cons_of_mem _ he)
      rw [find?_place_key, find?_place_key]
      by_cases hm : m = key
      · subst hm
        rw [if_pos rfl, if_pos rfl]
        exact h.place v hd (hpath _ (List.mem_cons_self ..) path hk)
      · rw [if_neg hm, if_neg hm]
        exact h

section Entries

theorem overlayEntries_ascending
    (hasc : (d ++ es).Pairwise fun x y => Text.order y.1 x.1 = .gt)
    (hplain : ∀ entry ∈ es, overlay entry.2 .nothing = entry.2) :
    overlayEntries es d = d ++ es := by
  induction es generalizing d with
  | nil => exact (List.append_nil d).symm
  | cons entry rest ih =>
      obtain ⟨k, w⟩ := entry
      obtain ⟨hw, hrest⟩ := List.forall_mem_cons.1 hplain
      obtain ⟨hins, hnone⟩ := insert_ascending w fun x hx =>
        (List.pairwise_append.1 hasc).2.2 x hx _ (List.mem_cons_self ..)
      rw [List.append_cons] at hasc ⊢
      rw [← ih hasc hrest]
      simp only [overlayEntries, overlayEntry, hnone, Option.getD_none, hw, hins]

theorem find?_overlayEntries_distinct (h : (Dictionary.keys es).Nodup) (key : Text) :
    find? key (overlayEntries es d) = match find? key es with
      | some v => some (overlay v ((find? key d).getD .nothing))
      | none => find? key d := by
  induction es generalizing d with
  | nil => rfl
  | cons entry rest ih =>
      obtain ⟨k, v⟩ := entry
      obtain ⟨hfresh, hrest⟩ := List.nodup_cons.1 h
      rw [overlayEntries, ih hrest, find?, overlayEntry, find?_insert]
      by_cases hk : k = key
      · subst hk
        have hnone : find? k rest = none := Option.not_isSome_iff_eq_none.1 (mt mem_keys_iff.2 hfresh)
        rw [hnone, if_pos rfl, if_pos rfl]
      · rw [if_neg hk, if_neg hk]

theorem placeAll_of_names (h : ∀ entry ∈ es, pathOf entry.1 = [.key entry.1]) :
    placeAll es (.table d) = .table (overlayEntries es d) := by
  induction es generalizing d with
  | nil => rfl
  | cons entry rest ih =>
      obtain ⟨k, w⟩ := entry
      obtain ⟨hk, hrest⟩ := List.forall_mem_cons.1 h
      rw [placeAll_cons, hk]
      exact ih hrest

end Entries

end NoteQuery.Setting
