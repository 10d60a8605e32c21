import Mathlib
import NoteQuery.Decimal.Shortest
import NoteQuery.Proofs.Digits
import NoteQuery.Proofs.Rounding

namespace NoteQuery.Decimal

open Binary64 Text

variable {num den m q : Nat} {e k : Int}

section Scale

theorem atScale_ratio (num den : Nat) (k : Int) :
    ((atScale num den k).1 : ℚ) / (atScale num den k).2 = num / den / 10 ^ k := by
  rw [atScale]
  split
  · next hk =>
    lift k to Nat using hk
    simp [div_div]
  · next hk =>
    obtain ⟨n, rfl⟩ : ∃ n : Nat, k = -n := ⟨k.natAbs, by omega⟩
    simp [div_mul_eq_mul_div]

theorem atScale_pos (num : Nat) (hden : 0 < den) (k : Int) : 0 < (atScale num den k).2 := by
  rw [atScale]
  split
  · exact Nat.mul_pos hden (Nat.pow_pos (by decide))
  · exact hden

theorem atScale_lt_iff (hden : 0 < den) (n : Nat) :
    (atScale num den k).1 / (atScale num den k).2 < n ↔ (num / den : ℚ) < n * 10 ^ k := by
  have hpos := atScale_pos num hden k
  have hd : (0 : ℚ) < (atScale num den k).2 := Nat.cast_pos.2 hpos
  rw [Nat.div_lt_iff_lt_mul hpos, ← div_lt_iff₀ (by positivity), ← atScale_ratio, div_lt_iff₀ hd]
  exact_mod_cast Iff.rfl

end Scale

section Magnitude

theorem pow_le_of_guess :
    (∀ n < 1024, 2 ^ (n + 1) ≤ 10 ^ (n * 30103 / 100000 + 2)) ∧
      ∀ n < 1075, 10 ^ ((n * 30103 + 99999) / 100000) ≤ 50 * 2 ^ n := by
  decide +kernel

/-- The guess at the power of ten is at most one too low, for every exponent that there is. -/
theorem zpow_le_of_guess {l : Int} (hlow : -1074 ≤ l) (hhigh : l ≤ 1023) :
    (2 : ℚ) ^ (l + 1) ≤ 10 ^ (l * 30103 / 100000 + 2) := by
  obtain ⟨n, rfl | rfl⟩ := Int.eq_nat_or_neg l
  · have hpow := pow_le_of_guess.1 n (by omega)
    have hguess : (n : Int) * 30103 / 100000 + 2 = (n * 30103 / 100000 + 2 : Nat) := by
      push_cast
      rfl
    rw [hguess, zpow_natCast]
    exact_mod_cast hpow
  · have hpow := pow_le_of_guess.2 n (by omega)
    have hguess : -(n : Int) * 30103 / 100000 + 2 = 2 - ((n * 30103 + 99999) / 100000 : Nat) := by
      omega
    have hcast : (10 : ℚ) ^ ((n * 30103 + 99999) / 100000) ≤ 50 * 2 ^ n := by exact_mod_cast hpow
    rw [hguess, zpow_sub₀ (by norm_num), zpow_add₀ two_ne_zero, zpow_natCast, zpow_neg, zpow_natCast,
      le_div_iff₀ (by positivity), inv_mul_eq_div, mul_comm, ← mul_div_assoc, div_le_iff₀ (by positivity)]
    norm_num
    linarith

theorem lt_pow_magnitude (hden : 0 < den)
    (h : (num / den : ℚ) < 2 ^ ((num.log2 : Int) - den.log2 + 1))
    (hlow : -1074 ≤ (num.log2 : Int) - den.log2) (hhigh : (num.log2 : Int) - den.log2 ≤ 1023) :
    (num / den : ℚ) < 10 ^ (magnitude num den + 1) := by
  have hfits (k : Int) : ¬ 1 ≤ (atScale num den k).1 / (atScale num den k).2 →
      (num / den : ℚ) < 10 ^ k := by
    intro hlt
    have := (atScale_lt_iff hden 1).1 (Nat.lt_of_not_le hlt)
    rwa [Nat.cast_one, one_mul] at this
  simp only [magnitude]
  split
  · rw [add_assoc]
    exact h.trans_le (zpow_le_of_guess hlow hhigh)
  · next hnext =>
    split
    · exact hfits _ (by simpa using hnext)
    · next hhere =>
      rw [sub_add_cancel]
      exact hfits _ (by simpa using hhere)

end Magnitude

section Value

theorem log2_ratio (hm : m ≠ 0) (e : Int) :
    ((ratio m e).1.log2 : Int) - (ratio m e).2.log2 = m.log2 + e := by
  have hpow (n : Nat) : Nat.pow 2 n = 2 ^ n := rfl
  rw [ratio]
  split
  · next he =>
    lift e to Nat using he
    have hlog : (m * 2 ^ e).log2 = m.log2 + e := by
      rw [Nat.log2_eq_iff (by positivity), pow_add, Nat.add_right_comm, pow_add]
      exact ⟨Nat.mul_le_mul_right _ (Nat.log2_self_le hm),
        Nat.mul_lt_mul_of_pos_right Nat.lt_log2_self (by positivity)⟩
    have hone : Nat.log2 1 = 0 := by decide
    rw [Int.toNat_natCast, hpow, hlog, hone]
    push_cast
    ring
  · next he =>
    rw [hpow, Nat.log2_two_pow]
    dsimp only
    omega

def InRange (m : Nat) (e : Int) : Prop := m < 2 ^ 53 ∧ -1074 ≤ e ∧ e ≤ 971

theorem floor_lt_pow (hm : m ≠ 0) (hrange : InRange m e) (count : Nat) :
    (atScale (ratio m e).1 (ratio m e).2
        (magnitude (ratio m e).1 (ratio m e).2 - count + 1)).1 /
      (atScale (ratio m e).1 (ratio m e).2
        (magnitude (ratio m e).1 (ratio m e).2 - count + 1)).2 < 10 ^ count := by
  obtain ⟨hbits, hlow, hhigh⟩ := hrange
  have hden := ratio_pos m e
  have hlog := log2_ratio hm e
  have hlt : m.log2 < 53 := (Nat.log2_lt hm).2 hbits
  have hvalue : ((ratio m e).1 / (ratio m e).2 : ℚ) <
      2 ^ (((ratio m e).1.log2 : Int) - (ratio m e).2.log2 + 1) := by
    have hm' : (m : ℚ) < 2 ^ ((m.log2 : Int) + 1) := (log2_bounds hm).2
    have hexponent : (m.log2 : Int) + e + 1 = (m.log2 + 1) + e := by ring
    rw [ratio_value, hlog, hexponent, zpow_add₀ two_ne_zero]
    gcongr
  have hmagnitude := lt_pow_magnitude hden hvalue (by omega) (by omega)
  rw [atScale_lt_iff hden]
  refine hmagnitude.trans_eq ?_
  rw [Nat.cast_pow, Nat.cast_ofNat, ← zpow_natCast, ← zpow_add₀ (by norm_num)]
  congr 1
  ring

theorem ofDecimal_eq_finite {s negative : Bool} (hm : m ≠ 0)
    (h : ofDecimal negative q k = .finite s m e) : q ≠ 0 ∧ (q * 10 ^ k : ℚ) < tooLarge := by
  have hfinite {num den : Nat} (hden : 0 < den) (h : ofRatio negative num den = .finite s m e) :
      (num / den : ℚ) < tooLarge := by
    by_contra hle
    rw [(ofRatio_eq_infinite_iff hden).2 (not_lt.1 hle)] at h
    cases h
  have hzero : zero negative ≠ .finite s m e := by
    rintro ⟨⟩
    exact hm rfl
  rw [ofDecimal] at h
  split at h
  · exact absurd h hzero
  next hq =>
  refine ⟨hq, ?_⟩
  split at h
  · cases h
  split at h
  · exact absurd h hzero
  split at h
  · next hk =>
    lift k to Nat using hk
    have := hfinite Nat.one_pos h
    simpa using this
  · next hk =>
    obtain ⟨n, rfl⟩ : ∃ n : Nat, k = -n := ⟨k.natAbs, by omega⟩
    have := hfinite (Nat.pow_pos (by decide)) h
    simpa [div_eq_mul_inv] using this

end Value

section Shortest

theorem withDigits?_eq_some {count : Nat} {x : Decimal} (hm : m ≠ 0) (hrange : InRange m e)
    (h : withDigits? m e count = some x) :
    ∃ q k, x = ofScaled q k ∧ ofDecimal false q k = .finite false m e ∧ q ≤ 10 ^ count := by
  have hfloor := floor_lt_pow hm hrange count
  have hside {q' : Nat} {k' : Int} {y : Decimal} (hq' : q' ≤ 10 ^ count)
      (hy : (if ofDecimal false q' k' = .finite false m e then some (ofScaled q' k') else none) =
        some y) :
      ∃ q k, y = ofScaled q k ∧ ofDecimal false q k = .finite false m e ∧ q ≤ 10 ^ count := by
    split at hy
    · next hback =>
      cases hy
      exact ⟨q', k', rfl, hback, hq'⟩
    · cases hy
  simp only [withDigits?, decide_eq_true_eq] at h
  split at h
  · rcases (Option.orElse_eq_some ..).1 h with h | ⟨-, h⟩
    · exact hside hfloor.le h
    · exact hside hfloor h
  · rcases (Option.orElse_eq_some ..).1 h with h | ⟨-, h⟩
    · exact hside hfloor h
    · exact hside hfloor.le h

theorem shortest_eq (hm : m ≠ 0) (hrange : InRange m e) :
    shortest m e = ⟨['0'], 1⟩ ∨ ∃ q k, shortest m e = ofScaled q k ∧
      ofDecimal false q k = .finite false m e ∧ q ≤ 10 ^ 17 := by
  rw [shortest, if_neg hm]
  cases h : (List.range' 1 17).findSome? (withDigits? m e) with
  | none => exact .inl rfl
  | some x =>
      obtain ⟨count, hcount, hx⟩ := List.exists_of_findSome?_eq_some h
      obtain ⟨q, k, rfl, hback, hq⟩ := withDigits?_eq_some hm hrange hx
      have hcount : count ≤ 17 := by
        have := List.mem_range'_1.1 hcount
        omega
      exact .inr ⟨q, k, rfl, hback, hq.trans (Nat.pow_le_pow_right (by decide) hcount)⟩

end Shortest

section Readable

def significand (x : Decimal) : Nat := Nat.ofDigitChars 10 x.digits 0

def power (x : Decimal) : Int := x.point - x.digits.length

/-- What it takes for a decimal to be read back whichever way it is written. The significand that is
left out has seventeen digits as well and stays below the threshold; but it is rounded up on its way,
and then the product is too large. -/
structure Readable (x : Decimal) : Prop where
  digits : ∀ c ∈ x.digits, c.isDigit = true
  ne_nil : x.digits ≠ []
  head : x.digits.head? = some '0' → x = ⟨['0'], 1⟩
  significand_le : x.significand ≤ 10 ^ 17
  lt_tooLarge : (x.significand * 10 ^ x.power : ℚ) < tooLarge
  margin : ¬ (x.significand = 17976931348623158 ∧ x.power = 292)

theorem readable_zero : Readable ⟨['0'], 1⟩ where
  digits := by simp
  ne_nil := nofun
  head _ := rfl
  significand_le := Nat.zero_le _
  lt_tooLarge := by
    have hzero : significand ⟨['0'], 1⟩ = 0 := rfl
    rw [hzero, Nat.cast_zero, zero_mul]
    exact tooLarge_pos
  margin := nofun

theorem Readable.padded_significand {x : Decimal} (hx : Readable x) :
    padded x.digits.length (ofNat x.significand) = x.digits :=
  padded_ofDigitChars hx.digits hx.ne_nil

theorem Readable.length_le {x : Decimal} (hx : Readable x) : x.digits.length ≤ 18 := by
  by_contra hlong
  have hlen : (ofNat x.significand).length ≤ 18 :=
    (Nat.length_toDigits_le_iff (by decide) (by decide)).2
      (hx.significand_le.trans_lt (by decide))
  have hhead : x.digits.head? = some '0' := by
    obtain ⟨k, hk⟩ : ∃ k, x.digits.length - (ofNat x.significand).length = k + 1 :=
      ⟨_, (Nat.succ_pred_eq_of_pos (by omega)).symm⟩
    rw [← hx.padded_significand, padded, hk]
    rfl
  rw [hx.head hhead] at hlong
  exact hlong (by decide)

theorem Readable.significand_ne_zero {x : Decimal} (hx : Readable x) (hne : x ≠ ⟨['0'], 1⟩) :
    x.significand ≠ 0 := by
  intro hzero
  refine hne (hx.head ?_)
  rw [← hx.padded_significand, padded, hzero]
  cases x.digits.length - (ofNat 0).length <;> rfl

theorem exists_ofScaled (q : Nat) (k : Int) :
    ∃ j, ofNat q = (ofScaled q k).digits ++ List.replicate j '0' ∧
      q = (ofScaled q k).significand * 10 ^ j ∧ (ofScaled q k).power = k + j := by
  have hsplit : ofNat q = (ofScaled q k).digits ++
      List.replicate ((ofNat q).reverse.takeWhile (· == '0')).length '0' := by
    have hzeros : (ofNat q).reverse.takeWhile (· == '0') =
        List.replicate ((ofNat q).reverse.takeWhile (· == '0')).length '0' :=
      List.eq_replicate_of_mem fun c hc =>
        beq_iff_eq.1 (List.mem_takeWhile_imp (p := (· == '0')) hc)
    have happend := List.takeWhile_append_dropWhile (p := (· == '0')) (l := (ofNat q).reverse)
    rw [← List.reverse_inj, List.reverse_append, List.reverse_replicate, ← hzeros, ofScaled,
      List.reverse_reverse, happend]
  refine ⟨_, hsplit, ?_, ?_⟩
  · rw [significand, Nat.mul_comm, ← Nat.ofDigitChars_replicate_zero, ← Nat.ofDigitChars_append,
      ← hsplit, ofNat, Nat.ofDigitChars_toDigits (by decide) (by decide)]
  · have hlen := congrArg List.length hsplit
    rw [List.length_append, List.length_replicate] at hlen
    have hpoint : (ofScaled q k).point = (ofNat q).length + k := rfl
    rw [power, hpoint]
    omega

theorem readable_ofScaled (hq : q ≠ 0) (hle : q ≤ 10 ^ 17) (hlt : (q * 10 ^ k : ℚ) < tooLarge)
    (hmargin : ¬ (q = 17976931348623158 ∧ k = 292)) : Readable (ofScaled q k) := by
  obtain ⟨j, hdigits, hvalue, hpower⟩ := exists_ofScaled q k
  have hne : (ofScaled q k).digits ≠ [] := by
    intro hnil
    rw [significand, hnil] at hvalue
    exact hq (hvalue.trans (Nat.zero_mul _))
  constructor
  · intro c hc
    have hmem : c ∈ ofNat q := hdigits ▸ List.mem_append_left _ hc
    exact isDigit_iff.1 (isDigit_of_mem_ofNat hmem)
  · exact hne
  · intro hhead
    have : (ofNat q).head? = some '0' := by
      rw [hdigits, List.head?_append, hhead]
      rfl
    exact absurd this (head?_ofNat hq)
  · have hpos : 0 < 10 ^ j := Nat.pow_pos (by decide)
    exact (Nat.le_mul_of_pos_right _ hpos).trans (hvalue ▸ hle)
  · rw [hpower, zpow_add₀ (by norm_num), mul_left_comm, mul_comm, zpow_natCast]
    have : (q : ℚ) = (ofScaled q k).significand * 10 ^ j := by exact_mod_cast hvalue
    rw [this] at hlt
    linarith
  · rintro ⟨hsignificand, hexponent⟩
    rw [hsignificand] at hvalue
    rcases Nat.eq_zero_or_pos j with rfl | hj
    · exact hmargin ⟨by omega, by omega⟩
    · have : 10 ^ 1 ≤ 10 ^ j := Nat.pow_le_pow_right (by decide) hj
      omega

/-- The shortest decimal of a finite number is readable. The significand left out is a neighbour of
the greatest number alone, and its other neighbour is nearer. -/
theorem readable_shortest (hrange : InRange m e) : Readable (shortest m e) := by
  by_cases hm : m = 0
  · rw [shortest, if_pos hm]
    exact readable_zero
  rcases shortest_eq hm hrange with h | ⟨q, k, h, hback, hle⟩
  · rw [h]
    exact readable_zero
  obtain ⟨hq, hlt⟩ := ofDecimal_eq_finite hm hback
  rw [h]
  refine readable_ofScaled hq hle hlt ?_
  rintro ⟨rfl, rfl⟩
  have hgreatest : ofDecimal false 17976931348623158 292 = .finite false (2 ^ 53 - 1) 971 := by
    decide +kernel
  obtain ⟨-, rfl, rfl⟩ := Binary64.finite.inj (hgreatest.symm.trans hback)
  have hother : shortest (2 ^ 53 - 1) 971 ≠ ofScaled 17976931348623158 292 := by
    decide +kernel
  exact hother h

end Readable

end NoteQuery.Decimal
