import Mathlib.Data.List.Induction
import NoteQuery.Config.Basic

namespace NoteQuery

namespace Layout

variable {layout : Layout} {fields : List Field} {f g : Field} {e : Error} {n m : Nat}

def shown (fields : List Field) : List Field := fields.filter (· ≠ .fileType)

def RepeatsAt (fields : List Field) (n : Nat) (f : Field) : Prop :=
  fields[n]? = some f ∧ f ≠ .fileType ∧ f ∈ fields.take n

/-- Position `n` is the first that repeats an earlier one. -/
def FirstRepeatAt (fields : List Field) (n : Nat) (f : Field) : Prop :=
  RepeatsAt fields n f ∧ ∀ m < n, ∀ g, ¬ RepeatsAt fields m g

section Positions

theorem RepeatsAt.lt_length (h : RepeatsAt fields n f) : n < fields.length :=
  (List.getElem?_eq_some_iff.1 h.1).1

theorem repeatsAt_concat : RepeatsAt (fields ++ [f]) n g ↔
    RepeatsAt fields n g ∨ n = fields.length ∧ g = f ∧ f ≠ .fileType ∧ f ∈ fields := by
  rcases Nat.lt_trichotomy n fields.length with hlt | rfl | hgt
  · rw [RepeatsAt, List.getElem?_append_left hlt, List.take_append_of_le_length (Nat.le_of_lt hlt)]
    exact (or_iff_left fun h => absurd h.1 (Nat.ne_of_lt hlt)).symm
  · rw [RepeatsAt, List.getElem?_concat_length, List.take_left, Option.some_inj]
    constructor
    · rintro ⟨rfl, htype, hmem⟩
      exact .inr ⟨rfl, rfl, htype, hmem⟩
    · rintro (h | ⟨-, rfl, htype, hmem⟩)
      · exact absurd h.lt_length (Nat.lt_irrefl _)
      · exact ⟨rfl, htype, hmem⟩
  · constructor
    · intro h
      have hlt := h.lt_length
      rw [List.length_append, List.length_singleton] at hlt
      omega
    · rintro (h | ⟨rfl, -⟩)
      · exact absurd h.lt_length (Nat.lt_asymm hgt)
      · exact absurd hgt (Nat.lt_irrefl _)

theorem FirstRepeatAt.concat (h : FirstRepeatAt fields n f) (g : Field) :
    FirstRepeatAt (fields ++ [g]) n f := by
  obtain ⟨hrepeat, hfirst⟩ := h
  refine ⟨repeatsAt_concat.2 (.inl hrepeat), fun m hm g' h => ?_⟩
  rcases repeatsAt_concat.1 h with h | ⟨rfl, -⟩
  · exact hfirst m hm g' h
  · exact absurd hrepeat.lt_length (Nat.lt_asymm hm)

theorem not_repeatsAt_concat (hnone : ∀ n f, ¬ RepeatsAt fields n f)
    (hf : f ≠ .fileType → f ∉ fields) (n : Nat) (g : Field) : ¬ RepeatsAt (fields ++ [f]) n g := by
  intro h
  rcases repeatsAt_concat.1 h with h | ⟨-, -, htype, hmem⟩
  · exact hnone n g h
  · exact hf htype hmem

theorem firstRepeatAt_concat (hnone : ∀ n f, ¬ RepeatsAt fields n f) (htype : f ≠ .fileType)
    (hf : f ∈ fields) : FirstRepeatAt (fields ++ [f]) fields.length f := by
  refine ⟨repeatsAt_concat.2 (.inr ⟨rfl, rfl, htype, hf⟩), fun m hm g h => ?_⟩
  rcases repeatsAt_concat.1 h with h | ⟨rfl, -⟩
  · exact hnone m g h
  · exact Nat.lt_irrefl _ hm

theorem FirstRepeatAt.unique (hf : FirstRepeatAt fields n f) (hg : FirstRepeatAt fields m g) :
    f = g := by
  rcases Nat.lt_trichotomy n m with hlt | rfl | hgt
  · exact absurd hf.1 (hg.2 n hlt f)
  · exact Option.some.inj (hf.1.1.symm.trans hg.1.1)
  · exact absurd hg.1 (hf.2 m hgt g)

theorem RepeatsAt.not_nodup (h : RepeatsAt fields n f) : ¬ (shown fields).Nodup := by
  obtain ⟨hlt, hat⟩ := List.getElem?_eq_some_iff.1 h.1
  obtain ⟨-, htype, hmem⟩ := h
  have hsplit : fields.take n ++ f :: fields.drop (n + 1) = fields := by
    rw [← hat, ← List.drop_eq_getElem_cons, List.take_append_drop]
  intro hnodup
  rw [← hsplit, shown, List.filter_append] at hnodup
  exact (List.nodup_append.1 hnodup).2.2 f (List.mem_filter.2 ⟨hmem, by simpa using htype⟩) f
    (List.mem_filter.2 ⟨List.mem_cons_self, by simpa using htype⟩) rfl

end Positions

section Construction

/-- What comes of a list of fields. -/
inductive Made (fields : List Field) : Except Error Layout → Prop
  | shown {layout : Layout} (hfields : layout.fields = shown fields)
      (hnone : ∀ n f, ¬ RepeatsAt fields n f) : Made fields (.ok layout)
  | repeated {n : Nat} {f : Field} (hfirst : FirstRepeatAt fields n f) :
      Made fields (.error (.repeatedField f))

theorem add_of_mem (htype : f ≠ .fileType) (h : f ∈ layout.fields) :
    layout.add f = .error (.repeatedField f) := by
  rw [add, dif_neg htype, dif_pos h]

theorem add_of_not_mem (htype : f ≠ .fileType) (h : f ∉ layout.fields) :
    ∃ next, layout.add f = .ok next ∧ next.fields = layout.fields ++ [f] := by
  rw [add, dif_neg htype, dif_neg h]
  exact ⟨_, rfl, rfl⟩

theorem made_add (hfields : layout.fields = shown fields) (hnone : ∀ n f, ¬ RepeatsAt fields n f)
    (f : Field) : Made (fields ++ [f]) (layout.add f) := by
  by_cases htype : f = .fileType
  · subst htype
    have hadd : layout.add .fileType = .ok layout := rfl
    rw [hadd]
    exact .shown (by simp [hfields, Layout.shown])
      (not_repeatsAt_concat hnone fun htype => absurd rfl htype)
  have hmem : f ∈ layout.fields ↔ f ∈ fields := by simp [hfields, Layout.shown, htype]
  by_cases hf : f ∈ fields
  · rw [add_of_mem htype (hmem.2 hf)]
    exact .repeated (firstRepeatAt_concat hnone htype hf)
  · obtain ⟨next, hnext, hshown⟩ := add_of_not_mem htype (mt hmem.1 hf)
    rw [hnext]
    exact .shown (by simp [hshown, hfields, Layout.shown, htype])
      (not_repeatsAt_concat hnone fun _ => hf)

theorem ofFields_concat (fields : List Field) (f : Field) :
    ofFields (fields ++ [f]) = (ofFields fields).bind (add · f) := by
  rw [ofFields, List.foldlM_append]
  exact congrArg (ofFields fields).bind (funext fun layout => by
    cases h : layout.add f <;> simp [List.foldlM, h, bind, Except.bind, pure, Except.pure])

theorem made_ofFields (fields : List Field) : Made fields (ofFields fields) := by
  -- Fields are added at the end, so the step of the induction is there too.
  induction fields using List.reverseRecOn with
  | nil => exact .shown rfl fun _ _ h => nomatch h.1
  | append_singleton fields f ih =>
      rw [ofFields_concat]
      generalize ofFields fields = made at ih ⊢
      cases ih with
      | shown hfields hnone => exact made_add hfields hnone f
      | repeated hfirst => exact .repeated (hfirst.concat f)

theorem ofFields_eq_ok_iff : ofFields fields = .ok layout ↔ layout.fields = shown fields := by
  have h := made_ofFields fields
  generalize ofFields fields = made at h ⊢
  cases h with
  | shown hfields hnone =>
      rw [Except.ok.injEq]
      constructor
      · rintro rfl
        exact hfields
      · intro h
        exact Layout.ext (hfields.trans h.symm)
  | repeated hfirst =>
      constructor
      · rintro ⟨⟩
      · intro h
        exact absurd (h ▸ layout.nodup) hfirst.1.not_nodup

theorem ofFields_eq_error_iff :
    ofFields fields = .error e ↔ ∃ n f, FirstRepeatAt fields n f ∧ e = .repeatedField f := by
  have h := made_ofFields fields
  generalize ofFields fields = made at h ⊢
  cases h with
  | shown hfields hnone =>
      constructor
      · rintro ⟨⟩
      · rintro ⟨n, f, hfirst, -⟩
        exact absurd hfirst.1 (hnone n f)
  | repeated hfirst =>
      constructor
      · rintro ⟨⟩
        exact ⟨_, _, hfirst, rfl⟩
      · rintro ⟨m, g, hfirst', rfl⟩
        rw [hfirst.unique hfirst']

theorem exists_ofFields_iff : (∃ layout, ofFields fields = .ok layout) ↔ (shown fields).Nodup := by
  constructor
  · rintro ⟨layout, h⟩
    exact ofFields_eq_ok_iff.1 h ▸ layout.nodup
  · intro h
    exact ⟨⟨shown fields, h, by simp [shown]⟩, ofFields_eq_ok_iff.2 rfl⟩

theorem shown_fields (layout : Layout) : shown layout.fields = layout.fields :=
  List.filter_eq_self.2 fun _ hf =>
    decide_eq_true fun htype => layout.fileType_not_mem (htype ▸ hf)

theorem shown_visits (layout : Layout) : shown layout.visits = layout.fields := by
  rw [visits, shown, List.filter_append]
  exact (congrArg (· ++ []) layout.shown_fields).trans (List.append_nil _)

end Construction

section Configurations

variable {config : Config}

theorem exists_convention_iff : (∃ c, config.convention = .ok c) ↔ (shown config.order).Nodup := by
  rw [← exists_ofFields_iff, Config.convention]
  cases ofFields config.order <;> simp [Except.map]

theorem convention_eq_error_iff :
    config.convention = .error e ↔ ofFields config.order = .error e := by
  rw [Config.convention]
  cases ofFields config.order <;> simp [Except.map]

end Configurations

/-- A list of fields makes a layout if it repeats none but the file type, and otherwise it is refused
for the first field that it repeats. The layout shows the fields of the list in their order, visits
the file type behind them and no field twice, and is made again of what it shows or visits. A
configuration is refused exactly for the first field that its order repeats. -/
theorem ofFields_outcome (fields : List Field) (config : Config) :
    ((∃ layout, ofFields fields = .ok layout) ↔ (shown fields).Nodup) ∧
      (∀ e, ofFields fields = .error e ↔ ∃ n f, FirstRepeatAt fields n f ∧ e = .repeatedField f) ∧
      (∀ layout, ofFields fields = .ok layout →
        layout.fields = shown fields ∧ layout.visits = layout.fields ++ [.fileType] ∧
          layout.visits.Nodup ∧ ofFields layout.fields = .ok layout ∧
          ofFields layout.visits = .ok layout) ∧
      ((∃ c, config.convention = .ok c) ↔ (shown config.order).Nodup) ∧
      ∀ e, config.convention = .error e ↔
        ∃ n f, FirstRepeatAt config.order n f ∧ e = .repeatedField f := by
  refine ⟨exists_ofFields_iff, fun e => ofFields_eq_error_iff, fun layout h => ?_,
    exists_convention_iff, fun e => convention_eq_error_iff.trans ofFields_eq_error_iff⟩
  have hfields : ofFields layout.fields = .ok layout :=
    ofFields_eq_ok_iff.2 layout.shown_fields.symm
  have hvisits : ofFields layout.visits = .ok layout :=
    ofFields_eq_ok_iff.2 layout.shown_visits.symm
  exact ⟨ofFields_eq_ok_iff.1 h, rfl, layout.nodup_visits, hfields, hvisits⟩

example : ofFields [.title, .fileType, .keywords, .fileType, .keywords, .title] =
    .error (.repeatedField .keywords) := rfl

end Layout

end NoteQuery
