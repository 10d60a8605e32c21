import NoteQuery.Text.Basic

namespace NoteQuery.Text

variable {n w : Nat} {c : Char}

theorem digit?_of_isDigit {c : Char} (h : c.isDigit = true) :
    digit? c = some (c.toNat - '0'.toNat) := by
  rw [Char.isDigit, Bool.and_eq_true, decide_eq_true_eq, decide_eq_true_eq] at h
  exact if_pos h

theorem digit?_eq_some {d : Nat} (h : digit? c = some d) :
    c.isDigit = true ∧ d = c.toNat - '0'.toNat := by
  rw [digit?] at h
  split at h
  · next hc =>
    cases h
    rw [Char.isDigit, Bool.and_eq_true, decide_eq_true_eq, decide_eq_true_eq]
    exact ⟨hc, rfl⟩
  · cases h

theorem isDigit_iff : isDigit c = true ↔ c.isDigit = true := by
  rw [isDigit, Option.isSome_iff_exists]
  exact ⟨fun ⟨_, hd⟩ => (digit?_eq_some hd).1, fun hc => ⟨_, digit?_of_isDigit hc⟩⟩

theorem readDigits_of_isDigit {ds : Text} (h : ∀ c ∈ ds, c.isDigit = true) (n : Nat) :
    readDigits n ds = some (Nat.ofDigitChars 10 ds n) := by
  induction ds generalizing n with
  | nil => rfl
  | cons c ds ih =>
      rw [readDigits, digit?_of_isDigit (h c (List.mem_cons_self ..)), Nat.ofDigitChars_cons]
      exact ih (fun d hd => h d (List.mem_cons_of_mem c hd)) _

theorem isDigit_of_mem_ofNat {n : Nat} {c : Char} (h : c ∈ ofNat n) : isDigit c = true := by
  have hc := Nat.isDigit_of_mem_toDigits (by decide) (by decide) h
  rw [isDigit, digit?_of_isDigit hc]
  rfl

theorem readDigits_ofNat (n : Nat) : readDigits 0 (ofNat n) = some n := by
  rw [ofNat, readDigits_of_isDigit fun c => Nat.isDigit_of_mem_toDigits (by decide) (by decide),
    Nat.ofDigitChars_toDigits (by decide) (by decide)]

theorem ofNat_ne_nil (n : Nat) : ofNat n ≠ [] := Nat.toDigits_ne_nil

theorem isDigit_of_mem_padded (h : c ∈ padded w (ofNat n)) : c.isDigit = true := by
  rcases List.mem_append.1 h with hzero | hdigit
  · rw [List.eq_of_mem_replicate hzero]
    rfl
  · exact Nat.isDigit_of_mem_toDigits (by decide) (by decide) hdigit

theorem ofDigitChars_padded (w n : Nat) : Nat.ofDigitChars 10 (padded w (ofNat n)) 0 = n := by
  rw [padded, Nat.ofDigitChars_append, Nat.ofDigitChars_replicate_zero, Nat.mul_zero, ofNat,
    Nat.ofDigitChars_toDigits (by decide) (by decide)]

theorem padded_ne_nil (w n : Nat) : padded w (ofNat n) ≠ [] :=
  List.append_ne_nil_of_right_ne_nil _ (ofNat_ne_nil n)

theorem length_padded {t : Text} (h : t.length ≤ w) : (padded w t).length = w := by
  rw [padded, List.length_append, List.length_replicate, Nat.sub_add_cancel h]

theorem length_ofNat_le_two (h : n < 100) : (ofNat n).length ≤ 2 :=
  (Nat.length_toDigits_le_iff (by decide) (by decide)).2 h

theorem length_ofNat_le_four (h : n < 10000) : (ofNat n).length ≤ 4 :=
  (Nat.length_toDigits_le_iff (by decide) (by decide)).2 h

theorem readDigits_isSome {ds : Text} (h : ∀ c ∈ ds, isDigit c = true) (n : Nat) :
    (readDigits n ds).isSome = true := by
  rw [readDigits_of_isDigit fun c hc => isDigit_iff.1 (h c hc)]
  rfl

theorem isDigit_of_readDigits {ds : Text} {n m : Nat} (h : readDigits n ds = some m) :
    ∀ c ∈ ds, isDigit c = true := by
  induction ds generalizing n with
  | nil => exact nofun
  | cons c ds ih =>
      rw [readDigits] at h
      obtain ⟨d, hd, h⟩ := Option.bind_eq_some_iff.1 h
      exact List.forall_mem_cons.2 ⟨Option.isSome_of_eq_some hd, ih h⟩

section Runs

variable {ds t : Text}

theorem takeWhile_isDigit (hds : ∀ c ∈ ds, isDigit c = true)
    (ht : ∀ c ∈ t.head?, isDigit c = false) : (ds ++ t).takeWhile isDigit = ds := by
  rw [List.takeWhile_append_of_pos hds]
  cases t with
  | nil => exact List.append_nil ds
  | cons c t => rw [List.takeWhile_cons_of_neg (by simp [ht c rfl]), List.append_nil]

theorem dropWhile_isDigit (hds : ∀ c ∈ ds, isDigit c = true)
    (ht : ∀ c ∈ t.head?, isDigit c = false) : (ds ++ t).dropWhile isDigit = t := by
  rw [List.dropWhile_append_of_pos hds]
  cases t with
  | nil => rfl
  | cons c t => rw [List.dropWhile_cons_of_neg (by simp [ht c rfl])]

theorem drop_takeWhile (p : Char → Bool) (t : Text) :
    t.drop (t.takeWhile p).length = t.dropWhile p := by
  have h : (t.takeWhile p ++ t.dropWhile p).drop (t.takeWhile p).length = t.dropWhile p :=
    List.drop_left ..
  rwa [List.takeWhile_append_dropWhile] at h

theorem isDigit_of_mem_takeWhile : ∀ c ∈ t.takeWhile isDigit, isDigit c = true := by
  induction t with
  | nil => exact nofun
  | cons c t ih =>
      rw [List.takeWhile_cons]
      split
      · next hc => exact List.forall_mem_cons.2 ⟨hc, ih⟩
      · exact nofun

end Runs

theorem ofDigitChars_injective {ds es : Text} (hds : ∀ c ∈ ds, c.isDigit = true)
    (hes : ∀ c ∈ es, c.isDigit = true) (hlen : ds.length = es.length) {m n : Nat}
    (h : Nat.ofDigitChars 10 ds m = Nat.ofDigitChars 10 es n) : m = n ∧ ds = es := by
  induction ds generalizing es m n with
  | nil =>
      obtain rfl := List.length_eq_zero_iff.1 hlen.symm
      exact ⟨h, rfl⟩
  | cons c ds ih =>
      cases es with
      | nil => cases hlen
      | cons e es =>
          obtain ⟨hc, hds⟩ := List.forall_mem_cons.1 hds
          obtain ⟨he, hes⟩ := List.forall_mem_cons.1 hes
          rw [Nat.ofDigitChars_cons, Nat.ofDigitChars_cons] at h
          obtain ⟨hmn, rfl⟩ := ih hds hes (Nat.succ.inj hlen) h
          have hc : 48 ≤ c.toNat ∧ c.toNat ≤ 57 := Char.isDigit_iff_toNat.1 hc
          have he : 48 ≤ e.toNat ∧ e.toNat ≤ 57 := Char.isDigit_iff_toNat.1 he
          have hzero : '0'.toNat = 48 := rfl
          obtain ⟨rfl, hce⟩ : m = n ∧ c.toNat = e.toNat := by omega
          exact ⟨rfl, by rw [Char.toNat_inj.1 hce]⟩

theorem ofDigitChars_lt {ds : Text} (hds : ∀ c ∈ ds, c.isDigit = true) (n : Nat) :
    Nat.ofDigitChars 10 ds n < (n + 1) * Nat.pow 10 ds.length := by
  induction ds generalizing n with
  | nil => simp
  | cons c ds ih =>
      obtain ⟨hc, hds⟩ := List.forall_mem_cons.1 hds
      have hc : 48 ≤ c.toNat ∧ c.toNat ≤ 57 := Char.isDigit_iff_toNat.1 hc
      have hzero : '0'.toNat = 48 := rfl
      rw [Nat.ofDigitChars_cons, List.length_cons]
      calc _ < (10 * n + (c.toNat - '0'.toNat) + 1) * Nat.pow 10 ds.length := ih hds _
        _ ≤ (n + 1) * 10 * Nat.pow 10 ds.length := Nat.mul_le_mul_right _ (by omega)
        _ = (n + 1) * (10 * Nat.pow 10 ds.length) := Nat.mul_assoc ..
        _ = (n + 1) * Nat.pow 10 (ds.length + 1) := congrArg _ (Nat.mul_comm ..)

theorem head?_ofNat (h : n ≠ 0) : (ofNat n).head? ≠ some '0' := by
  intro hzero
  obtain ⟨ds, hds⟩ := List.head?_eq_some_iff.1 hzero
  have hdigits : ∀ c ∈ ds, c.isDigit = true := fun c hc =>
    isDigit_iff.1 (isDigit_of_mem_ofNat (hds ▸ List.mem_cons_of_mem _ hc))
  have hvalue : Nat.ofDigitChars 10 ds 0 = n := by
    have := ofDigitChars_padded 0 n
    rwa [padded, Nat.zero_sub, List.replicate_zero, List.nil_append, hds,
      Nat.ofDigitChars_cons] at this
  have hlt := ofDigitChars_lt hdigits 0
  rw [hvalue, Nat.zero_add, Nat.one_mul] at hlt
  cases ds with
  | nil => exact h hvalue.symm
  | cons c ds =>
      have hlen := (Nat.length_toDigits_le_iff (b := 10) (by decide) (Nat.succ_pos ds.length)).2 hlt
      rw [← ofNat, hds] at hlen
      exact Nat.not_succ_le_self _ hlen

theorem padded_ofDigitChars {ds : Text} (hds : ∀ c ∈ ds, c.isDigit = true) (hne : ds ≠ []) :
    padded ds.length (ofNat (Nat.ofDigitChars 10 ds 0)) = ds := by
  have hlen : (ofNat (Nat.ofDigitChars 10 ds 0)).length ≤ ds.length := by
    apply (Nat.length_toDigits_le_iff (by decide) (List.length_pos_iff.2 hne)).2
    simpa using ofDigitChars_lt hds 0
  exact (ofDigitChars_injective (fun _ => isDigit_of_mem_padded) hds (length_padded hlen)
    (ofDigitChars_padded _ _)).2

end NoteQuery.Text
