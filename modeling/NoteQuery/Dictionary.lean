import NoteQuery.Text.Basic

namespace NoteQuery

/-- Entries in strictly ascending order of their keys. -/
abbrev Dictionary (α : Type) := List (Text × α)

namespace Dictionary

variable {α : Type}

def insert (key : Text) (value : α) : Dictionary α → Dictionary α
  | [] => [(key, value)]
  | (k, v) :: rest =>
    match Text.order key k with
    | .lt => (key, value) :: (k, v) :: rest
    | .eq => (key, value) :: rest
    | .gt => (k, v) :: insert key value rest

def find? (key : Text) : Dictionary α → Option α
  | [] => none
  | (k, v) :: rest => if k = key then some v else find? key rest

theorem find?_insert (key k : Text) (value : α) (d : Dictionary α) :
    find? k (d.insert key value) = if key = k then some value else find? k d := by
  induction d with
  | nil => rfl
  | cons entry rest ih =>
    obtain ⟨k', v⟩ := entry
    rw [insert]
    cases h : Text.order key k' with
    | lt => simp [find?]
    | eq =>
      obtain rfl := Text.order_eq_iff.1 h
      by_cases hk : key = k <;> simp [find?, hk]
    | gt =>
      have hne : key ≠ k' := fun he => by simp [Text.order_eq_iff.2 he] at h
      by_cases hk : k' = k
      · simp [find?, hk, hk ▸ hne]
      · simp [find?, hk, ih]

def keys (d : Dictionary α) : List Text := d.map (·.1)

theorem mem_keys_iff {key : Text} {d : Dictionary α} :
    key ∈ d.keys ↔ (find? key d).isSome = true := by
  induction d with
  | nil => simp [keys, find?]
  | cons entry rest ih =>
    rw [keys, List.map_cons, List.mem_cons, find?]
    by_cases hkey : entry.1 = key
    · simp [hkey]
    · rw [if_neg hkey, ← ih, keys]
      exact or_iff_right (Ne.symm hkey)

def ofList (entries : List (Text × α)) : Dictionary α :=
  entries.foldl (fun d (k, v) => d.insert k v) []

section Ascending

variable {key : Text} {d : Dictionary α}

def Ascending (d : Dictionary α) : Prop := d.Pairwise fun x y => Text.order y.1 x.1 = .gt

instance (d : Dictionary α) : Decidable d.Ascending :=
  inferInstanceAs (Decidable (d.Pairwise fun x y => Text.order y.1 x.1 = .gt))

theorem mem_of_find? {value : α} (h : find? key d = some value) : (key, value) ∈ d := by
  induction d with
  | nil => cases h
  | cons entry rest ih =>
    rw [find?] at h
    split at h
    · next hkey =>
      cases h
      exact hkey ▸ List.mem_cons_self ..
    · exact List.mem_cons_of_mem _ (ih h)

theorem find?_map {β : Type} (f : α → β) (key : Text) (d : Dictionary α) :
    find? key (d.map fun entry => (entry.1, f entry.2)) = (find? key d).map f := by
  induction d with
  | nil => rfl
  | cons entry rest ih =>
    rw [List.map_cons, find?, find?, ih]
    split <;> rfl

theorem Ascending.nodup_keys (h : Ascending d) : d.keys.Nodup := by
  rw [keys, List.Nodup, List.pairwise_map]
  refine List.Pairwise.imp (fun {x y} hxy => ?_) h
  intro heq
  cases hxy.symm.trans (Text.order_eq_iff.2 heq.symm)

theorem find?_eq_some_iff {value : α} (h : d.keys.Nodup) :
    find? key d = some value ↔ (key, value) ∈ d := by
  refine ⟨mem_of_find?, fun hmem => ?_⟩
  induction d with
  | nil => cases hmem
  | cons entry rest ih =>
    obtain ⟨hfresh, hrest⟩ := List.nodup_cons.1 h
    rw [find?]
    rcases List.mem_cons.1 hmem with rfl | hmem
    · exact if_pos rfl
    · have hne : entry.1 ≠ key := fun heq => hfresh (List.mem_map.2 ⟨_, hmem, heq.symm⟩)
      rw [if_neg hne]
      exact ih hrest hmem

/-- Where no key comes twice, nothing depends on the order of the entries. -/
theorem find?_perm {d' : Dictionary α} (hperm : d.Perm d') (h : d.keys.Nodup) (key : Text) :
    find? key d = find? key d' := by
  have h' : (keys d').Nodup := (hperm.map Prod.fst).nodup_iff.1 h
  ext value
  rw [find?_eq_some_iff h, find?_eq_some_iff h', hperm.mem_iff]

theorem insert_ascending (value : α) (h : ∀ entry ∈ d, Text.order key entry.1 = .gt) :
    d.insert key value = d ++ [(key, value)] ∧ d.find? key = none := by
  induction d with
  | nil => exact ⟨rfl, rfl⟩
  | cons entry rest ih =>
    obtain ⟨k, w⟩ := entry
    obtain ⟨hk, hrest⟩ := List.forall_mem_cons.1 h
    have hne : k ≠ key := by
      rintro rfl
      cases hk.symm.trans (Text.order_eq_iff.2 rfl)
    rw [insert, hk, find?, if_neg hne, (ih hrest).1]
    exact ⟨rfl, (ih hrest).2⟩

theorem foldl_insert_ascending {entries : List (Text × α)} (h : Ascending (d ++ entries)) :
    entries.foldl (fun d (k, v) => d.insert k v) d = d ++ entries := by
  induction entries generalizing d with
  | nil => exact (List.append_nil d).symm
  | cons entry rest ih =>
    obtain ⟨k, w⟩ := entry
    have hins : d.insert k w = d ++ [(k, w)] := (insert_ascending w fun x hx =>
      (List.pairwise_append.1 h).2.2 x hx _ (List.mem_cons_self ..)).1
    rw [List.append_cons] at h ⊢
    rw [← ih h, ← hins]
    rfl

theorem ofList_ascending (h : Ascending d) : ofList d = d := foldl_insert_ascending h

end Ascending

end Dictionary

end NoteQuery
