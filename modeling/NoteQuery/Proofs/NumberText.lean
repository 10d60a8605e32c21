import Mathlib
import NoteQuery.Json.Reader
import NoteQuery.Proofs.ShortestDecimal

namespace NoteQuery.Json

open Binary64 Decimal Text

variable {s n m : Nat} {e power : Int} {ds whole places rest t : Text} {x : Decimal}

section Scale

@[irreducible]
def threshold : Nat := (2 ^ 54 - 1) * 2 ^ 970

theorem threshold_cast (n : Nat) :
    ((2 ^ 53 - 1 / 2) * 2 ^ ((n : Int) + 1) : ℚ) = ((2 ^ 54 - 1) * 2 ^ n : Nat) := by
  rw [zpow_add_one₀ two_ne_zero, zpow_natCast]
  push_cast
  ring

theorem tooLarge_eq : tooLarge = threshold := by
  have hthreshold : (2 ^ 54 - 1) * 2 ^ 970 = threshold := by decide +kernel
  exact (threshold_cast 970).trans (congrArg Nat.cast hthreshold)

theorem mul_lt_tooLarge_iff {n p : Nat} : (n * 10 ^ p : ℚ) < tooLarge ↔ n * 10 ^ p < threshold := by
  have hcast : (n * 10 ^ p : ℚ) = (n * 10 ^ p : Nat) := by push_cast; rfl
  rw [tooLarge_eq, hcast, Nat.cast_lt]

/-- For every power there is a bound on the rounded significand that leaves room for the rounding of
the power itself. Next to the largest numbers it is not enough that the significand is rounded
little: one of 53 bits is not rounded, and of the few with a bit more the greatest is left out. -/
theorem exists_bound {p : Nat} (hs : s ≤ 10 ^ 17) (hp : p ≤ 308) (hlt : s * 10 ^ p < threshold)
    (hmargin : ¬ (s = 17976931348623158 ∧ p = 292)) (h : ofRatio false s 1 = .finite false m e) :
    ∃ n : Nat, (m * 2 ^ e : ℚ) ≤ n ∧ n * 10 ^ p * (2 ^ 53 + 1) < threshold * 2 ^ 53 := by
  have hmono {a b : Nat} (hab : a ≤ b) (n : Nat) : n * 10 ^ a ≤ n * 10 ^ b :=
    Nat.mul_le_mul_left _ (Nat.pow_le_pow_right (by decide) hab)
  rcases Nat.lt_trichotomy p 292 with hsmall | rfl | hlarge
  · refine ⟨10 ^ 17 + 12, ?_, ?_⟩
    · have hs : (s : ℚ) ≤ 10 ^ 17 := by exact_mod_cast hs
      refine (value_le h).trans ?_
      push_cast
      linarith
    · have hroom : (10 ^ 17 + 12) * 10 ^ 291 * (2 ^ 53 + 1) < threshold * 2 ^ 53 := by
        decide +kernel
      exact (Nat.mul_le_mul_right _ (hmono (Nat.le_of_lt_succ hsmall) _)).trans_lt hroom
  · refine ⟨17976931348623156, ?_, by decide +kernel⟩
    have htop : threshold ≤ 17976931348623159 * 10 ^ 292 := by decide +kernel
    have hle : s < 17976931348623159 := Nat.lt_of_mul_lt_mul_right (hlt.trans_le htop)
    have hexact : ofRatio false 17976931348623156 1 = .finite false 8988465674311578 1 ∧
        ofRatio false 17976931348623157 1 = .finite false 8988465674311578 1 := by
      decide +kernel
    rcases Nat.lt_or_ge s 17976931348623156 with hbelow | habove
    · refine (value_le_add_one (hbelow.trans (by decide)) h).trans ?_
      exact_mod_cast hbelow
    · obtain ⟨rfl, rfl⟩ : m = 8988465674311578 ∧ e = 1 := by
        obtain rfl | rfl : s = 17976931348623156 ∨ s = 17976931348623157 := by omega
        · cases hexact.1.symm.trans h
          exact ⟨rfl, rfl⟩
        · cases hexact.2.symm.trans h
          exact ⟨rfl, rfl⟩
      norm_num
  · refine ⟨s, ?_, ?_⟩
    · have hlarge : 293 ≤ p := hlarge
      have htop : threshold ≤ 2 ^ 53 * 10 ^ 293 := by decide +kernel
      have hbits : s < 2 ^ 53 :=
        Nat.lt_of_mul_lt_mul_right (((hmono hlarge s).trans_lt hlt).trans_le htop)
      exact (value_eq hbits h).le
    · have hroom : ∀ k < 16, threshold / 10 ^ (k + 293) * 10 ^ (k + 293) * (2 ^ 53 + 1) <
          threshold * 2 ^ 53 := by decide +kernel
      obtain ⟨k, rfl⟩ : ∃ k, p = k + 293 := ⟨p - 293, (Nat.sub_add_cancel hlarge).symm⟩
      have hfloor : s ≤ threshold / 10 ^ (k + 293) :=
        (Nat.le_div_iff_mul_le (Nat.pow_pos (by decide))).2 hlt.le
      exact (Nat.mul_le_mul_right _ (Nat.mul_le_mul_right _ hfloor)).trans_lt
        (hroom k (Nat.lt_succ_of_le (Nat.le_of_add_le_add_right hp)))

theorem scale_of_neg (h : power < 0) : ∃ y, scale s power = some y := by
  rw [scale]
  dsimp only
  rw [if_neg h.not_ge]
  exact ⟨_, rfl⟩

theorem ofDecimal_one {p : Nat} (hp : p ≤ 308) :
    ofDecimal false 1 p = ofRatio false (10 ^ p) 1 := by
  have hwidth : (Nat.toDigits 10 1).length = 1 := rfl
  rw [ofDecimal, hwidth, if_neg Nat.one_ne_zero, if_neg (by omega), if_neg (by omega),
    if_pos (by omega), Nat.one_mul]
  rfl

theorem exists_mul {m' : Nat} {e' : Int} (h : (m * 2 ^ e * (m' * 2 ^ e') : ℚ) < tooLarge) :
    ∃ m'' e'', Binary64.mul (.finite false m e) (.finite false m' e') = .finite false m'' e'' := by
  have hmul : Binary64.mul (.finite false m e) (.finite false m' e') =
      ofRatio false (ratio (m * m') (e + e')).1 (ratio (m * m') (e + e')).2 := rfl
  rw [hmul]
  refine exists_finite (ratio_pos (m * m') (e + e')) ?_
  rw [ratio_value, zpow_add₀ two_ne_zero, Nat.cast_mul]
  linarith

theorem product_lt {v w : ℚ} {n p : Nat} (hw : 0 ≤ w) (hv : v ≤ n)
    (hpower : w ≤ (10 ^ p : Nat) * (1 + 1 / 2 ^ 53))
    (hroom : n * 10 ^ p * (2 ^ 53 + 1) < threshold * 2 ^ 53) : v * w < tooLarge := by
  have hroom : (n * 10 ^ p * (2 ^ 53 + 1) : ℚ) < threshold * 2 ^ 53 := by exact_mod_cast hroom
  rw [tooLarge_eq]
  calc v * w ≤ n * ((10 ^ p : Nat) * (1 + 1 / 2 ^ 53)) := by gcongr
    _ < threshold := by
      rw [Nat.cast_pow, Nat.cast_ofNat]
      linarith

theorem power_le {p : Nat} (hne : s ≠ 0) (hlt : s * 10 ^ p < threshold) : p ≤ 308 := by
  have htop : threshold ≤ 1 * 10 ^ 309 := by decide +kernel
  by_contra hp
  have hpow : 10 ^ 309 ≤ 10 ^ p := pow_le_pow_right₀ (by decide) (not_le.1 hp)
  exact (hlt.trans_le htop).not_ge (Nat.mul_le_mul (Nat.pos_of_ne_zero hne) hpow)

theorem exists_ofRatio_one (h : n < threshold) : ∃ m e, ofRatio false n 1 = .finite false m e := by
  refine exists_finite Nat.one_pos ?_
  rwa [Nat.cast_one, div_one, tooLarge_eq, Nat.cast_lt]

theorem exists_scale (hs : s ≤ 10 ^ 17) (hlt : (s * 10 ^ power : ℚ) < tooLarge)
    (hmargin : ¬ (s = 17976931348623158 ∧ power = 292)) : ∃ y, scale s power = some y := by
  rcases lt_or_ge power 0 with hneg | hpos
  · exact scale_of_neg hneg
  obtain ⟨p, rfl⟩ := Int.eq_ofNat_of_zero_le hpos
  rw [zpow_natCast, mul_lt_tooLarge_iff] at hlt
  have hsmall : 10 ^ 17 < threshold := by decide +kernel
  obtain ⟨m, e, hx⟩ := exists_ofRatio_one (hs.trans_lt hsmall)
  rw [scale, hx]
  dsimp only
  rw [if_pos (Int.natCast_nonneg p)]
  split
  · next hp =>
    -- Beyond all powers that are in range only zero is left.
    have hzero : s = 0 := by
      by_contra hne
      exact (Int.ofNat_lt.1 hp).not_ge (power_le hne hlt)
    subst hzero
    cases hx
    exact ⟨_, rfl⟩
  · next hp =>
    have hp : p ≤ 308 := Int.ofNat_le.1 (not_lt.1 hp)
    have htop : 10 ^ 308 < threshold := by decide +kernel
    have hpower : 10 ^ p < threshold := (pow_le_pow_right₀ (by decide) hp).trans_lt htop
    obtain ⟨m', e', hy⟩ := exists_ofRatio_one hpower
    obtain ⟨n, hn, hroom⟩ := exists_bound hs hp hlt
      (fun h => hmargin ⟨h.1, congrArg Nat.cast h.2⟩) hx
    have hproduct := product_lt (by positivity) hn (value_le hy) hroom
    obtain ⟨m'', e'', hmul⟩ := exists_mul hproduct
    rw [ofDecimal_one hp, hy, hmul]
    exact ⟨_, rfl⟩

end Scale

section Reading

def Ends (rest : Text) : Prop := ∀ c ∈ rest.head?, c = ',' ∨ c = ']' ∨ c = '\x7d'

theorem Ends.not_digit (h : Ends rest) : ∀ c ∈ rest.head?, isDigit c = false := by
  intro c hc
  rcases h c hc with rfl | rfl | rfl <;> rfl

theorem le_ofDigitChars (ds : Text) (n : Nat) : n ≤ Nat.ofDigitChars 10 ds n := by
  induction ds generalizing n with
  | nil => exact le_rfl
  | cons c ds ih =>
      rw [Nat.ofDigitChars_cons]
      exact le_trans (by omega) (ih _)

theorem spanDigits_append (hds : ∀ c ∈ ds, c.isDigit = true)
    (ht : ∀ c ∈ t.head?, isDigit c = false) : spanDigits (ds ++ t) = (ds, t) := by
  have hds : ∀ c ∈ ds, isDigit c = true := fun c hc => isDigit_iff.2 (hds c hc)
  rw [spanDigits, takeWhile_isDigit hds ht, dropWhile_isDigit hds ht]

theorem collect_eq (hds : ∀ c ∈ ds, c.isDigit = true)
    (hle : Nat.ofDigitChars 10 ds n ≤ maxSignificand) :
    collect n ds = (Nat.ofDigitChars 10 ds n, ds.length, []) := by
  induction ds generalizing n with
  | nil => rfl
  | cons c ds ih =>
      obtain ⟨hc, hds⟩ := List.forall_mem_cons.1 hds
      rw [Nat.ofDigitChars_cons] at hle ⊢
      have hroom : ¬ maxSignificand < 10 * n + (c.toNat - '0'.toNat) :=
        not_lt.2 ((le_ofDigitChars ds _).trans hle)
      rw [collect, digit?_of_isDigit hc]
      dsimp only
      rw [if_neg hroom, ih hds hle]
      rfl

theorem readTail_of_ends (h : Ends rest) :
    readTail s power rest = (scale s power).map (·, rest) := by
  cases rest with
  | nil => rfl
  | cons c rest => rcases h c rfl with rfl | rfl | rfl <;> rfl

theorem readPlaces_append (hplaces : ∀ c ∈ places, c.isDigit = true) (hne : places ≠ [])
    (hrest : ∀ c ∈ rest.head?, isDigit c = false)
    (hle : Nat.ofDigitChars 10 places n ≤ maxSignificand) :
    readPlaces n power (places ++ rest) =
      readTail (Nat.ofDigitChars 10 places n) (power - places.length) rest := by
  rw [readPlaces, spanDigits_append hplaces hrest]
  dsimp only
  rw [collect_eq hplaces hle, List.isEmpty_eq_false_iff.2 hne]
  rfl

structure Whole (whole : Text) : Prop where
  digits : ∀ c ∈ whole, c.isDigit = true
  ne_nil : whole ≠ []
  head : whole.head? = some '0' → whole = ['0']

def readBehind (n : Nat) : Text → Option ((Nat ⊕ Binary64) × Text)
  | '.' :: places => (readPlaces n 0 places).map fun (x, rest) => (.inr x, rest)
  | 'e' :: t => (readExponent n 0 t).map fun (x, rest) => (.inr x, rest)
  | 'E' :: t => (readExponent n 0 t).map fun (x, rest) => (.inr x, rest)
  | t => some (.inl n, t)

theorem readUnsigned_append (hwhole : Whole whole)
    (hle : Nat.ofDigitChars 10 whole 0 ≤ maxSignificand) (ht : ∀ c ∈ t.head?, isDigit c = false) :
    readUnsigned (whole ++ t) = readBehind (Nat.ofDigitChars 10 whole 0) t := by
  rw [readUnsigned, spanDigits_append hwhole.digits ht]
  dsimp only
  rw [collect_eq hwhole.digits hle]
  split
  · exact absurd rfl hwhole.ne_nil
  · cases hwhole.head rfl
  · cases t with
    | nil => rfl
    | cons c t =>
        by_cases hpoint : c = '.'
        · subst hpoint
          rfl
        by_cases hlower : c = 'e'
        · subst hlower
          rfl
        by_cases hupper : c = 'E'
        · subst hupper
          rfl
        · simp [readBehind, hpoint, hlower, hupper]

theorem readBehind_of_ends (h : Ends rest) (n : Nat) : readBehind n rest = some (.inl n, rest) := by
  cases rest with
  | nil => rfl
  | cons c rest => rcases h c rfl with rfl | rfl | rfl <;> rfl

theorem whole_ofNat (n : Nat) : Whole (ofNat n) where
  digits _ hc := isDigit_iff.1 (isDigit_of_mem_ofNat hc)
  ne_nil := ofNat_ne_nil n
  head hzero := by
    rcases Nat.eq_zero_or_pos n with rfl | hpos
    · rfl
    · exact absurd hzero (head?_ofNat hpos.ne')

theorem Whole.cons {c : Char} (hc : c.isDigit = true) : Whole [c] where
  digits := List.forall_mem_singleton.2 hc
  ne_nil := List.cons_ne_nil _ _
  head h := congrArg (fun c => [c]) (Option.some.inj h)

theorem readNumber_of_readUnsigned {r : Nat ⊕ Binary64} (h : readUnsigned t = some (r, rest)) :
    readNumber t = some (r.elim (fun n => .integer n) .float, rest) := by
  rw [readNumber]
  · rw [h]
    cases r <;> rfl
  · -- What is read without a sign does not begin with one.
    rintro t rfl
    cases h

theorem readNumber_ofInt {n : Int} (hlow : -9223372036854775808 ≤ n)
    (hhigh : n ≤ 18446744073709551615) (hrest : Ends rest) :
    readNumber (ofInt n ++ rest) = some (.integer n, rest) := by
  have hunsigned {k : Nat} (hk : k ≤ maxSignificand) :
      readUnsigned (ofNat k ++ rest) = some (.inl k, rest) := by
    have hvalue : Nat.ofDigitChars 10 (ofNat k) 0 = k :=
      Nat.ofDigitChars_toDigits (by decide) (by decide)
    rw [readUnsigned_append (whole_ofNat k) (hvalue.trans_le hk) hrest.not_digit, hvalue,
      readBehind_of_ends hrest]
  cases n with
  | ofNat k =>
      have hk : k ≤ maxSignificand := Int.ofNat_le.1 hhigh
      exact readNumber_of_readUnsigned (hunsigned hk)
  | negSucc k =>
      have hk : k + 1 ≤ maxSignificand := by
        rw [maxSignificand]
        omega
      have hrange : ¬ (k + 1 = 0 ∨ 9223372036854775808 < k + 1) := by omega
      rw [ofInt, List.cons_append, readNumber, hunsigned hk, Option.map_some]
      dsimp only
      rw [if_neg hrange]
      rfl

end Reading

section Floats

theorem exists_point (hx : Readable x) (hp : x.point ≤ 16) :
    ∃ whole places, x.positionalWithPoint = whole ++ '.' :: places ∧ Whole whole ∧
      (∀ c ∈ places, c.isDigit = true) ∧ places ≠ [] ∧
        Nat.ofDigitChars 10 (whole ++ places) 0 ≤ maxSignificand := by
  have hmax : 10 ^ 17 ≤ maxSignificand := by decide
  have hzeros (k : Nat) : ∀ c ∈ List.replicate k '0', c.isDigit = true := by
    intro c hc
    rw [List.eq_of_mem_replicate hc]
    rfl
  rcases le_or_gt x.point 0 with hsmall | hpos
  · -- All digits stand behind the point.
    refine ⟨['0'], List.replicate (-x.point).toNat '0' ++ x.digits, ?_, .cons rfl, ?_, ?_, ?_⟩
    · rw [positionalWithPoint, if_neg fun h => hsmall.not_gt h.1, positional, if_pos hsmall]
      rfl
    · exact List.forall_mem_append.2 ⟨hzeros _, hx.digits⟩
    · exact List.append_ne_nil_of_right_ne_nil _ hx.ne_nil
    · rw [Nat.ofDigitChars_append, Nat.ofDigitChars_append, Nat.ofDigitChars_replicate_zero]
      exact (le_of_eq (congrArg _ (Nat.mul_zero _))).trans (hx.significand_le.trans hmax)
  rcases Nat.lt_or_ge x.point.toNat x.digits.length with hlong | hshort
  · -- The point stands among the digits.
    have hplain : ¬ (0 < x.point ∧ x.digits.length ≤ x.point.toNat) := fun h => hlong.not_ge h.2
    refine ⟨x.digits.take x.point.toNat, x.digits.drop x.point.toNat, ?_, ⟨?_, ?_, ?_⟩, ?_, ?_, ?_⟩
    · rw [positionalWithPoint, if_neg hplain, positional, if_neg hpos.not_ge, if_neg hlong.not_ge]
    · exact fun c hc => hx.digits c (List.mem_of_mem_take hc)
    · rw [ne_eq, List.take_eq_nil_iff, not_or]
      exact ⟨by omega, hx.ne_nil⟩
    · intro hzero
      rw [List.head?_take, if_neg (by omega)] at hzero
      rw [hx.head hzero] at hlong
      exact absurd hlong (by decide)
    · exact fun c hc => hx.digits c (List.mem_of_mem_drop hc)
    · rw [ne_eq, List.drop_eq_nil_iff]
      exact hlong.not_ge
    · rw [List.take_append_drop]
      exact hx.significand_le.trans hmax
  · -- The point stands behind all digits.
    have hwhole : ∀ c ∈ x.digits ++ List.replicate (x.point.toNat - x.digits.length) '0',
        c.isDigit = true := List.forall_mem_append.2 ⟨hx.digits, hzeros _⟩
    refine ⟨x.digits ++ List.replicate (x.point.toNat - x.digits.length) '0', ['0'], ?_,
      ⟨hwhole, ?_, ?_⟩, List.forall_mem_singleton.2 rfl, List.cons_ne_nil _ _, ?_⟩
    · rw [positionalWithPoint, if_pos ⟨hpos, hshort⟩, positional, if_neg hpos.not_ge, if_pos hshort]
      rfl
    · exact List.append_ne_nil_of_left_ne_nil hx.ne_nil _
    · intro hzero
      rw [List.head?_append_of_ne_nil _ hx.ne_nil] at hzero
      rw [hx.head hzero]
      rfl
    · have hlt := ofDigitChars_lt (List.forall_mem_append.2
        ⟨hwhole, List.forall_mem_singleton.2 (rfl : '0'.isDigit = true)⟩) 0
      refine (hlt.le.trans ?_).trans hmax
      rw [Nat.zero_add, Nat.one_mul]
      refine Nat.pow_le_pow_right (by decide) ?_
      simp only [List.length_append, List.length_replicate, List.length_singleton]
      omega

theorem point_le (hx : Readable x) : x.point - 1 ≤ maxExponent := by
  have hpoint : x.point = x.power + x.digits.length := by
    rw [Decimal.power]
    omega
  have hlength := hx.length_le
  have hpower : x.power ≤ 308 := by
    by_contra hlarge
    obtain ⟨p, hp⟩ := Int.eq_ofNat_of_zero_le (show 0 ≤ x.power by omega)
    have hne : x ≠ ⟨['0'], 1⟩ := by
      rintro rfl
      exact hlarge (by decide)
    have hlt := hx.lt_tooLarge
    rw [hp, zpow_natCast, mul_lt_tooLarge_iff] at hlt
    have := power_le (hx.significand_ne_zero hne) hlt
    omega
  rw [maxExponent]
  omega

theorem exists_readExponent {n : Int} (hn : n ≤ maxExponent)
    (hscale : ∃ y, scale s (power + n) = some y) :
    ∃ y, ∀ rest, Ends rest →
      readExponent s power ((if n < 0 then '-' else '+') :: (ofNat n.natAbs ++ rest)) =
        some (y, rest) := by
  obtain ⟨y, hscale⟩ := hscale
  have hspan (rest : Text) (hrest : Ends rest) :=
    spanDigits_append (whole_ofNat n.natAbs).digits hrest.not_digit
  have hne := List.isEmpty_eq_false_iff.2 (ofNat_ne_nil n.natAbs)
  by_cases hneg : n < 0
  · have hpower : power - (n.natAbs : Int) = power + n := by omega
    rw [if_pos hneg]
    by_cases hhuge : maxExponent < n.natAbs
    · have hzero : ¬ (s ≠ 0 ∧ (!true) = true) := fun h => Bool.false_ne_true h.2
      refine ⟨.zero false, fun rest hrest => ?_⟩
      rw [readExponent]
      dsimp only
      rw [hspan rest hrest, hne, readDigits_ofNat]
      exact (if_pos hhuge).trans (if_neg hzero)
    · refine ⟨y, fun rest hrest => ?_⟩
      rw [readExponent]
      dsimp only
      rw [hspan rest hrest, hne, readDigits_ofNat]
      dsimp only
      rw [if_neg hhuge, if_pos rfl, hpower, hscale]
      rfl
  · have hroom : ¬ maxExponent < n.natAbs := by omega
    have hpower : power + (n.natAbs : Int) = power + n := by omega
    refine ⟨y, fun rest hrest => ?_⟩
    rw [if_neg hneg, readExponent]
    dsimp only
    rw [hspan rest hrest, hne, readDigits_ofNat]
    dsimp only
    rw [if_neg Bool.false_ne_true, if_neg hroom, if_neg Bool.false_ne_true, hpower, hscale]
    rfl

theorem exists_readUnsigned_scientific (hx : Readable x) :
    ∃ y, ∀ rest, Ends rest → readUnsigned (x.scientific ++ rest) = some (.inr y, rest) := by
  have hmax : x.significand ≤ maxSignificand := hx.significand_le.trans (by decide)
  obtain ⟨y, hscale⟩ := exists_scale hx.significand_le hx.lt_tooLarge hx.margin
  obtain ⟨c, ds, hdigits⟩ := List.exists_cons_of_ne_nil hx.ne_nil
  obtain ⟨hc, hds⟩ := List.forall_mem_cons.1 (hdigits ▸ hx.digits)
  have hvalue : Nat.ofDigitChars 10 ds (Nat.ofDigitChars 10 [c] 0) = x.significand := by
    rw [Decimal.significand, hdigits]
    rfl
  have hfirst : Nat.ofDigitChars 10 [c] 0 ≤ maxSignificand :=
    (le_ofDigitChars ds _).trans (hvalue.trans_le hmax)
  have hpower : (0 : Int) - ds.length + (x.point - 1) = x.power := by
    rw [Decimal.power, hdigits, List.length_cons]
    omega
  rw [← hpower] at hscale
  obtain ⟨y, hexponent⟩ := exists_readExponent (point_le hx) ⟨y, hscale⟩
  refine ⟨y, fun rest hrest => ?_⟩
  replace hexponent := hexponent rest hrest
  have hwhole {t : Text} (ht : ∀ c ∈ t.head?, isDigit c = false) :
      readUnsigned (c :: t) = readBehind (Nat.ofDigitChars 10 [c] 0) t :=
    readUnsigned_append (.cons hc) hfirst ht
  rw [scientific, hdigits, List.take_succ_cons, List.take_zero, List.drop_succ_cons, List.drop_zero,
    List.append_assoc, List.append_assoc, List.cons_append, List.nil_append, List.cons_append,
    List.cons_append]
  cases ds with
  | nil =>
      have hone : [c].length ≤ 1 := le_rfl
      rw [if_pos hone, List.nil_append, hwhole (by rintro _ ⟨⟩; rfl), readBehind]
      rw [show Nat.ofDigitChars 10 [c] 0 = x.significand from hvalue]
      exact congrArg (Option.map _) hexponent
  | cons d ds =>
      have hmark {t : Text} : ∀ c ∈ ('e' :: t).head?, isDigit c = false := by
        rintro _ ⟨⟩
        rfl
      rw [if_neg (by simp), List.cons_append, hwhole (by rintro _ ⟨⟩; rfl), readBehind,
        readPlaces_append hds (List.cons_ne_nil d ds) hmark (hvalue.trans_le hmax), hvalue]
      exact congrArg (Option.map _) hexponent

theorem exists_readUnsigned_positional (hx : Readable x) (hp : x.point ≤ 16) :
    ∃ y, ∀ rest, Ends rest → readUnsigned (x.positionalWithPoint ++ rest) = some (.inr y, rest) := by
  obtain ⟨whole, places, htext, hwhole, hplaces, hne, hmax⟩ := exists_point hx hp
  rw [Nat.ofDigitChars_append] at hmax
  have hneg : (0 : Int) - places.length < 0 := by
    have := List.length_pos_iff.2 hne
    omega
  obtain ⟨y, hscale⟩ := scale_of_neg hneg
  refine ⟨y, fun rest hrest => ?_⟩
  rw [htext, List.append_assoc, List.cons_append,
    readUnsigned_append hwhole ((le_ofDigitChars _ _).trans hmax) (by rintro _ ⟨⟩; rfl), readBehind,
    readPlaces_append hplaces hne hrest.not_digit hmax, readTail_of_ends hrest, hscale]
  rfl

/-- A number in range is read again, with its sign or without, and whatever follows. -/
theorem exists_readNumber_floatText (negative : Bool) (hrange : InRange m e) :
    ∃ y, ∀ rest, Ends rest →
      readNumber (floatText (.finite negative m e) ++ rest) = some (.float y, rest) := by
  have hx := readable_shortest hrange
  obtain ⟨y, hbody⟩ : ∃ y, ∀ rest, Ends rest → readUnsigned
      ((if -5 < (shortest m e).point ∧ (shortest m e).point ≤ 16 then
        (shortest m e).positionalWithPoint else (shortest m e).scientific) ++ rest) =
          some (.inr y, rest) := by
    split
    · next hpoint => exact exists_readUnsigned_positional hx hpoint.2
    · exact exists_readUnsigned_scientific hx
  cases negative with
  | false => exact ⟨y, fun rest hrest => readNumber_of_readUnsigned (hbody rest hrest)⟩
  | true =>
      refine ⟨y.negate, fun rest hrest => ?_⟩
      rw [floatText, if_pos rfl, List.cons_append, readNumber, hbody rest hrest]
      rfl

end Floats

end NoteQuery.Json
