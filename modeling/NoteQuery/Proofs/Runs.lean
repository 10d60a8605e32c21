import NoteQuery.Pattern.Basic

namespace NoteQuery.Text

theorem runs_cons (p : Char → Bool) (c : Char) (t : Text) :
    runs p (c :: t) =
      if p c then
        match t, runs p t with
        | d :: _, run :: more => if p d then (c :: run) :: more else [c] :: run :: more
        | _, more => [c] :: more
      else runs p t := rfl

theorem runs_cons_of_not {p : Char → Bool} {c : Char} (hc : p c = false) (t : Text) :
    runs p (c :: t) = runs p t := by
  rw [runs_cons, hc]
  rfl

theorem runs_append {p : Char → Bool} {w t : Text} (hne : w ≠ []) (hw : ∀ c ∈ w, p c = true)
    (ht : ∀ c, t.head? = some c → p c = false) : runs p (w ++ t) = w :: runs p t := by
  induction w with
  | nil => exact absurd rfl hne
  | cons c w ih =>
      have hc : p c = true := hw c (by simp)
      cases w with
      | nil =>
          rw [List.singleton_append, runs_cons, if_pos hc]
          cases t with
          | nil => rfl
          | cons d rest =>
              have hd : p d = false := ht d rfl
              cases runs p (d :: rest) <;> simp [hd]
      | cons d w =>
          have hd : p d = true := hw d (by simp)
          have hrest : runs p (d :: (w ++ t)) = (d :: w) :: runs p t :=
            ih (by simp) (fun c hc => hw c (List.mem_cons_of_mem _ hc))
          rw [List.cons_append, List.cons_append, runs_cons, if_pos hc, hrest]
          simp [hd]

theorem exists_run_or_break (p : Char → Bool) (t : Text) :
    t = [] ∨ (∃ c rest, p c = false ∧ t = c :: rest) ∨
      ∃ w rest, w ≠ [] ∧ (∀ c ∈ w, p c = true) ∧ (∀ c, rest.head? = some c → p c = false) ∧
        t = w ++ rest := by
  induction t with
  | nil => exact .inl rfl
  | cons c t ih =>
      refine .inr ?_
      cases hc : p c with
      | false => exact .inl ⟨c, t, hc, rfl⟩
      | true =>
          refine .inr ?_
          rcases ih with rfl | ⟨d, rest, hd, rfl⟩ | ⟨w, rest, _, hw, hrest, rfl⟩
          · exact ⟨[c], [], by simp, by simpa using hc, by simp, rfl⟩
          · exact ⟨[c], d :: rest, by simp, by simpa using hc, by simpa using hd, rfl⟩
          · exact ⟨c :: w, rest, by simp, List.forall_mem_cons.2 ⟨hc, hw⟩, hrest, rfl⟩

/-- Induction on a text that is read as breaks and whole runs. -/
@[elab_as_elim]
theorem induction_runs (p : Char → Bool) {P : Text → Prop} (nil : P [])
    (skip : ∀ c rest, p c = false → P rest → P (c :: rest))
    (run : ∀ w rest, w ≠ [] → (∀ c ∈ w, p c = true) → (∀ c, rest.head? = some c → p c = false) →
      P rest → P (w ++ rest)) (t : Text) : P t := by
  induction ht : t.length using Nat.strongRecOn generalizing t with
  | ind n ih =>
      rcases exists_run_or_break p t with rfl | ⟨c, rest, hc, rfl⟩ | ⟨w, rest, hne, hw, hrest, rfl⟩
      · exact nil
      · exact skip c rest hc (ih rest.length (by simp [← ht]) rest rfl)
      · have hlen := List.length_pos_iff.2 hne
        exact run w rest hne hw hrest
          (ih rest.length (by rw [← ht, List.length_append]; omega) rest rfl)

theorem mem_runs {p : Char → Bool} {t run : Text} (h : run ∈ runs p t) :
    run ≠ [] ∧ ∀ c ∈ run, p c = true := by
  induction t using induction_runs p with
  | nil => simp [runs] at h
  | skip c rest hc ih =>
      rw [runs_cons_of_not hc] at h
      exact ih h
  | run w rest hne hw hrest ih =>
      rw [runs_append hne hw hrest] at h
      rcases List.mem_cons.1 h with rfl | h
      · exact ⟨hne, hw⟩
      · exact ih h

theorem runs_join {p : Char → Bool} {sep : Char} {ws : List Text} {t : Text} (hsep : p sep = false)
    (hws : ∀ w ∈ ws, w ≠ [] ∧ ∀ c ∈ w, p c = true)
    (ht : ∀ c, t.head? = some c → p c = false) :
    runs p (join [sep] ws ++ t) = ws ++ runs p t := by
  induction ws with
  | nil => rfl
  | cons w rest ih =>
      obtain ⟨⟨hne, hw⟩, hrest⟩ := List.forall_mem_cons.1 hws
      cases rest with
      | nil => simpa [join] using runs_append hne hw ht
      | cons w' more =>
          rw [join, List.append_assoc, List.append_assoc, runs_append hne hw (by simpa using hsep),
            List.singleton_append, runs_cons_of_not hsep, ih hrest]
          rfl

theorem flatten_runs (p : Char → Bool) (t : Text) : (runs p t).flatten = t.filter p := by
  induction t using induction_runs p with
  | nil => rfl
  | skip c rest hc ih => rw [runs_cons_of_not hc, ih, List.filter_cons_of_neg (by simp [hc])]
  | run w rest hne hw hrest ih =>
      rw [runs_append hne hw hrest, List.flatten_cons, ih, List.filter_append,
        List.filter_eq_self.2 hw]

theorem runs_eq_splitOnP (p : Char → Bool) (t : Text) :
    runs p t = (t.splitOnP fun c => !p c).filter fun w => !w.isEmpty := by
  induction t using induction_runs p with
  | nil => rfl
  | skip c rest hc ih =>
      rw [runs_cons_of_not hc, ih, List.splitOnP_cons_eq_if_modifyHead, hc]
      rfl
  | run w rest hne hw hrest ih =>
      have hwhole : (w.splitOnP fun c => !p c) = [w] :=
        List.splitOnP_eq_singleton fun c hc => by simp [hw c hc]
      cases rest with
      | nil =>
          rw [runs_append hne hw hrest, List.append_nil, hwhole]
          simp [hne, runs]
      | cons d rest =>
          have hd : p d = false := hrest d rfl
          rw [runs_append hne hw hrest, ih, List.splitOnP_cons_eq_if_modifyHead,
            List.splitOnP_append_cons w rest (by simp [hd]), hwhole]
          simp [hne, hd]

theorem mem_join {sep : Text} {ts : List Text} {c : Char} (h : c ∈ join sep ts) :
    c ∈ sep ∨ ∃ t ∈ ts, c ∈ t := by
  induction ts with
  | nil => simp [join] at h
  | cons t rest ih =>
      cases rest with
      | nil => exact .inr ⟨t, by simp, by simpa [join] using h⟩
      | cons u more =>
          rw [join, List.mem_append, List.mem_append] at h
          rcases h with (h | h) | h
          · exact .inr ⟨t, by simp, h⟩
          · exact .inl h
          · rcases ih h with h | ⟨v, hv, h⟩
            · exact .inl h
            · exact .inr ⟨v, by simp [hv], h⟩

section Whole

open Pattern

/-- The word stands at position `i`, no letter or numeral on either side. -/
def WordAt (t w : Text) (i : Nat) : Prop :=
  w <+: t.drop i ∧ StartsWord t i ∧ EndsWord t (i + w.length)

variable {a t w : Text} {i : Nat}

theorem wordAt_append (h : i = 0 → ∀ c, a.getLast? = some c → isAlphanumeric c = false) :
    WordAt (a ++ t) w (a.length + i) ↔ WordAt t w i := by
  have hstart : StartsWord (a ++ t) (a.length + i) ↔ StartsWord t i := by
    cases i with
    | zero =>
        refine ⟨fun _ k c hk => absurd hk (Nat.succ_ne_zero k).symm, fun _ k c hk hc => ?_⟩
        apply h rfl c
        rw [List.getLast?_eq_getElem?, ← hc, List.getElem?_append_left (by omega)]
        congr 1
        omega
    | succ i =>
        have hat : (a ++ t)[a.length + i]? = t[i]? := by
          rw [List.getElem?_append_right (Nat.le_add_right _ _), Nat.add_sub_cancel_left]
        constructor
        · intro hs k c hk hc
          obtain rfl : i = k := by omega
          exact hs (a.length + i) c rfl (hat.trans hc)
        · intro hs k c hk hc
          obtain rfl : a.length + i = k := by omega
          exact hs i c rfl (hat.symm.trans hc)
  have hat : (a ++ t)[a.length + i + w.length]? = t[i + w.length]? := by
    rw [List.getElem?_append_right (by omega)]
    congr 1
    omega
  simp only [WordAt, EndsWord, List.drop_append, hstart, hat]
  rw [List.drop_eq_nil_of_le (Nat.le_add_right _ _), List.nil_append, Nat.add_sub_cancel_left]

theorem WordAt.getElem? (h : WordAt t w i) {k : Nat} (hk : k < w.length) :
    t[i + k]? = w[k]? := by
  obtain ⟨⟨x, hx⟩, _⟩ := h
  have := congrArg (fun s => s[k]?) hx
  rw [List.getElem?_append_left hk] at this
  simpa using this.symm

variable (hw : ∀ c ∈ w, isAlphanumeric c = true)

include hw

theorem isAlphanumeric_of_wordAt (h : WordAt t w i) {k : Nat} (hk : k < w.length) :
    ∃ c, t[i + k]? = some c ∧ isAlphanumeric c = true :=
  ⟨w[k], (h.getElem? hk).trans (List.getElem?_eq_getElem hk), hw _ (List.getElem_mem hk)⟩

theorem eq_of_wordAt {v rest : Text} (hall : ∀ c ∈ v, isAlphanumeric c = true)
    (hrest : ∀ c, rest.head? = some c → isAlphanumeric c = false) (hi : i ≤ v.length)
    (h : WordAt (v ++ rest) w i) : i = 0 ∧ w = v := by
  have hat {k : Nat} (hk : k < v.length) : (v ++ rest)[k]? = some v[k] :=
    (List.getElem?_append_left hk).trans (List.getElem?_eq_getElem hk)
  have hend {c : Char} (hc : (v ++ rest)[v.length]? = some c) : isAlphanumeric c = false := by
    rw [List.getElem?_append_right (Nat.le_refl _), Nat.sub_self] at hc
    exact hrest c (List.head?_eq_getElem? ▸ hc)
  obtain rfl : i = 0 := by
    cases i with
    | zero => rfl
    | succ k =>
        have := h.2.1 k _ rfl (hat hi)
        simp [hall _ (List.getElem_mem hi)] at this
  have hlen : w.length = v.length := by
    rcases Nat.lt_trichotomy w.length v.length with hlt | heq | hgt
    · have := h.2.2 _ ((congrArg _ (Nat.zero_add _)).trans (hat hlt))
      simp [hall _ (List.getElem_mem hlt)] at this
    · exact heq
    · obtain ⟨c, hc, hal⟩ := isAlphanumeric_of_wordAt hw h hgt
      rw [Nat.zero_add] at hc
      simp [hend hc] at hal
  have hpre := h.1
  rw [List.drop_zero] at hpre
  have hle := Nat.le_of_eq hlen
  exact ⟨rfl,
    (List.prefix_of_prefix_length_le hpre (List.prefix_append v rest) hle).eq_of_length hlen⟩

theorem mem_runs_iff (hne : w ≠ []) : w ∈ runs isAlphanumeric t ↔ ∃ i, WordAt t w i := by
  have hpos := List.length_pos_iff.2 hne
  induction t using induction_runs isAlphanumeric with
  | nil =>
      refine ⟨by simp [runs], fun ⟨i, hi⟩ => ?_⟩
      obtain ⟨c, hc, _⟩ := isAlphanumeric_of_wordAt hw hi hpos
      simp at hc
  | skip c rest hc ih =>
      have happend (i : Nat) : WordAt (c :: rest) w (1 + i) ↔ WordAt rest w i :=
        wordAt_append (a := [c]) (fun _ => by simpa using hc)
      rw [runs_cons_of_not hc]
      refine ih.trans ⟨?_, ?_⟩
      · rintro ⟨i, hi⟩
        exact ⟨1 + i, (happend i).2 hi⟩
      · rintro ⟨i, hi⟩
        obtain ⟨d, hd, hal⟩ := isAlphanumeric_of_wordAt hw hi hpos
        cases i with
        | zero =>
            obtain rfl : c = d := by simpa using hd
            simp [hc] at hal
        | succ i => exact ⟨i, (happend i).1 (Nat.add_comm i 1 ▸ hi)⟩
  | run v rest hv hall hrest ih =>
      rw [runs_append hv hall hrest, List.mem_cons, or_congr_right ih]
      constructor
      · rintro (rfl | ⟨i, hi⟩)
        · refine ⟨0, List.prefix_append w rest, fun k c hk => absurd hk (by omega), ?_⟩
          intro c hc
          rw [Nat.zero_add, List.getElem?_append_right (Nat.le_refl _), Nat.sub_self] at hc
          exact hrest c (List.head?_eq_getElem? ▸ hc)
        · refine ⟨v.length + i, (wordAt_append (fun h0 => ?_)).2 hi⟩
          obtain ⟨c, hc, hal⟩ := isAlphanumeric_of_wordAt hw hi hpos
          subst h0
          have := hrest c (List.head?_eq_getElem? ▸ hc)
          simp [this] at hal
      · rintro ⟨i, hi⟩
        rcases Nat.lt_or_ge v.length i with hlt | hge
        · obtain ⟨k, rfl⟩ := Nat.exists_eq_add_of_le (Nat.le_of_lt hlt)
          exact .inr ⟨k, (wordAt_append (fun h0 => by omega)).1 hi⟩
        · exact .inl (eq_of_wordAt hw hall hrest hge hi).2

end Whole

end NoteQuery.Text
