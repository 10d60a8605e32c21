import Mathlib
import NoteQuery.Decimal.Binary64

namespace NoteQuery.Binary64

variable {num den m : Nat} {e : Int} {negative s : Bool}

section Scaling

theorem scaled_ratio (num den : Nat) (e : Int) :
    ((scaled num den e).1 : ℚ) / (scaled num den e).2 = num / den / 2 ^ e := by
  rw [scaled]
  split
  · next he =>
    lift e to Nat using he
    simp [div_div]
  · next he =>
    obtain ⟨k, rfl⟩ : ∃ k : Nat, e = -k := ⟨e.natAbs, by omega⟩
    simp [div_mul_eq_mul_div]

theorem scaled_pos (num : Nat) (hden : 0 < den) (e : Int) : 0 < (scaled num den e).2 := by
  rw [scaled]
  split
  · exact Nat.mul_pos hden (Nat.pow_pos (by decide))
  · exact hden

theorem ratio_value (m : Nat) (e : Int) : ((ratio m e).1 : ℚ) / (ratio m e).2 = m * 2 ^ e := by
  rw [ratio]
  split
  · next he =>
    lift e to Nat using he
    simp
  · next he =>
    obtain ⟨k, rfl⟩ : ∃ k : Nat, e = -k := ⟨e.natAbs, by omega⟩
    simp [div_eq_mul_inv]

theorem ratio_pos (m : Nat) (e : Int) : 0 < (ratio m e).2 := by
  rw [ratio]
  split
  · exact Nat.one_pos
  · exact Nat.pow_pos (by decide)

end Scaling

section Nearest

theorem divRound_bounds (num : Nat) (hden : 0 < den) :
    2 * (den * divRound num den) ≤ 2 * num + den ∧
      2 * num ≤ 2 * (den * divRound num den) + den := by
  have hsplit := Nat.div_add_mod num den
  have hmod := Nat.mod_lt num hden
  have hnext : den * (num / den + 1) = den * (num / den) + den := Nat.mul_succ ..
  simp only [divRound]
  repeat' split
  all_goals omega

theorem abs_divRound_sub_le (num : Nat) (hden : 0 < den) :
    |(divRound num den : ℚ) - num / den| ≤ 1 / 2 := by
  obtain ⟨hle, hge⟩ := divRound_bounds num hden
  have hden' : (0 : ℚ) < den := Nat.cast_pos.2 hden
  have hle : (2 * (den * divRound num den) : ℚ) ≤ 2 * num + den := by exact_mod_cast hle
  have hge : (2 * num : ℚ) ≤ 2 * (den * divRound num den) + den := by exact_mod_cast hge
  have hnum : (num / den * den : ℚ) = num := div_mul_cancel₀ _ hden'.ne'
  rw [abs_le]
  constructor <;> nlinarith

theorem divRound_one (num : Nat) : divRound num 1 = num := by
  simp [divRound, Nat.mod_one]

theorem le_divRound {q : Nat} (hden : 0 < den) (heven : q % 2 = 0)
    (h : 2 * (q * den) ≤ 2 * num + den) : q ≤ divRound num den := by
  have hsplit := Nat.div_add_mod num den
  have hmod := Nat.mod_lt num hden
  have hcomm : q * den = den * q := Nat.mul_comm ..
  by_contra hlt
  rcases Nat.lt_or_ge (num / den + 1) q with hfar | hnear
  · have : den * (num / den + 2) ≤ den * q := Nat.mul_le_mul_left _ hfar
    have hexpand : den * (num / den + 2) = den * (num / den) + den * 2 := Nat.mul_add ..
    omega
  rcases Nat.lt_or_ge (num / den) q with hnext | hbelow
  · obtain rfl : q = num / den + 1 := by omega
    have hexpand : den * (num / den + 1) = den * (num / den) + den := Nat.mul_succ ..
    refine hlt ?_
    simp only [divRound]
    repeat' split
    all_goals omega
  · refine hlt (hbelow.trans ?_)
    simp only [divRound]
    repeat' split
    all_goals omega

end Nearest

section Exponent

theorem log2_bounds {n : Nat} (h : n ≠ 0) :
    (2 : ℚ) ^ (n.log2 : Int) ≤ n ∧ (n : ℚ) < 2 ^ ((n.log2 : Int) + 1) := by
  constructor
  · exact_mod_cast Nat.log2_self_le h
  · exact_mod_cast Nat.lt_log2_self (n := n)

/-- The first guess at the exponent is at most one too low. -/
theorem ratio_bounds (hnum : num ≠ 0) (hden : 0 < den) :
    (2 : ℚ) ^ ((num.log2 : Int) - den.log2 - 1) < num / den ∧
      (num / den : ℚ) < 2 ^ ((num.log2 : Int) - den.log2 + 1) := by
  obtain ⟨hnum₁, hnum₂⟩ := log2_bounds hnum
  obtain ⟨hden₁, hden₂⟩ := log2_bounds hden.ne'
  have hden' : (0 : ℚ) < den := Nat.cast_pos.2 hden
  have htwo : (2 : ℚ) ≠ 0 := two_ne_zero
  constructor
  · rw [lt_div_iff₀ hden']
    calc (2 : ℚ) ^ ((num.log2 : Int) - den.log2 - 1) * den
        < 2 ^ ((num.log2 : Int) - den.log2 - 1) * 2 ^ ((den.log2 : Int) + 1) := by gcongr
      _ = 2 ^ (num.log2 : Int) := by rw [← zpow_add₀ htwo]; congr 1; ring
      _ ≤ num := hnum₁
  · rw [div_lt_iff₀ hden']
    calc (num : ℚ) < 2 ^ ((num.log2 : Int) + 1) := hnum₂
      _ = 2 ^ ((num.log2 : Int) - den.log2 + 1) * 2 ^ (den.log2 : Int) := by
        rw [← zpow_add₀ htwo]; congr 1; ring
      _ ≤ 2 ^ ((num.log2 : Int) - den.log2 + 1) * den := by gcongr

theorem two_pow_mul_zpow (n : Nat) (e : Int) : (2 : ℚ) ^ n * 2 ^ e = 2 ^ (n + e) := by
  rw [zpow_add₀ two_ne_zero, zpow_natCast]

theorem exists_exponentFor (hnum : num ≠ 0) (hden : 0 < den) :
    ∃ e, exponentFor num den = max (-1074) e ∧ (num / den : ℚ) < 2 ^ 53 * 2 ^ e ∧
      (2 : ℚ) ^ 52 * 2 ^ e ≤ num / den := by
  obtain ⟨hlow, hhigh⟩ := ratio_bounds hnum hden
  set guess : Int := (num.log2 : Int) - den.log2 - 53 with hguess
  have hratio := scaled_ratio num den guess
  have hpos := scaled_pos num hden guess
  obtain ⟨n, d, hnd⟩ : ∃ n d, scaled num den guess = (n, d) := ⟨_, _, rfl⟩
  rw [hnd] at hratio hpos
  have hd : (0 : ℚ) < d := Nat.cast_pos.2 hpos
  have hfloor : n / d < Nat.pow 2 53 ↔ (num / den : ℚ) < 2 ^ 53 * 2 ^ guess := by
    rw [Nat.div_lt_iff_lt_mul hpos, ← div_lt_iff₀ (by positivity), ← hratio, div_lt_iff₀ hd]
    exact_mod_cast Iff.rfl
  refine ⟨if n / d < Nat.pow 2 53 then guess else guess + 1, ?_, ?_⟩
  · rw [exponentFor, ← hguess, hnd]
  split
  · next hsmall =>
    refine ⟨hfloor.1 hsmall, le_trans (le_of_eq ?_) hlow.le⟩
    rw [two_pow_mul_zpow]
    congr 1
    push_cast
    omega
  · next hlarge =>
    rw [hfloor, not_lt] at hlarge
    refine ⟨hhigh.trans_eq ?_, le_trans (le_of_eq ?_) hlarge⟩
    · rw [two_pow_mul_zpow]
      congr 1
      push_cast
      omega
    · rw [two_pow_mul_zpow, two_pow_mul_zpow]
      congr 1
      push_cast
      ring

theorem exponentFor_bounds (hnum : num ≠ 0) (hden : 0 < den) :
    (num / den : ℚ) < 2 ^ 53 * 2 ^ exponentFor num den ∧
      (exponentFor num den = -1074 ∨ (2 : ℚ) ^ 52 * 2 ^ exponentFor num den ≤ num / den) := by
  obtain ⟨e, he, hbelow, habove⟩ := exists_exponentFor hnum hden
  rw [he]
  constructor
  · refine hbelow.trans_le ?_
    gcongr
    · norm_num
    · exact le_max_right ..
  · rcases max_choice (-1074) e with h | h
    · exact .inl h
    · rw [h]
      exact .inr habove

end Exponent

section Threshold

/-- What the ratio is rounded to, as long as no carry makes it one bit longer. -/
def significand (num den : Nat) : Nat :=
  divRound (scaled num den (exponentFor num den)).1 (scaled num den (exponentFor num den)).2

theorem abs_significand_sub_le (num : Nat) (hden : 0 < den) :
    |(significand num den : ℚ) - num / den / 2 ^ exponentFor num den| ≤ 1 / 2 := by
  rw [← scaled_ratio]
  exact abs_divRound_sub_le _ (scaled_pos num hden _)

theorem significand_le (hnum : num ≠ 0) (hden : 0 < den) : significand num den ≤ 2 ^ 53 := by
  have hround := (abs_le.1 (abs_significand_sub_le num hden)).2
  have hsmall : (num / den / 2 ^ exponentFor num den : ℚ) < 2 ^ 53 := by
    rw [div_lt_iff₀ (by positivity)]
    exact (exponentFor_bounds hnum hden).1
  have hlt : (significand num den : ℚ) < (2 ^ 53 + 1 : Nat) := by
    push_cast
    linarith
  exact Nat.lt_succ_iff.1 (Nat.cast_lt.1 hlt)

theorem ofRatio_eq (hnum : num ≠ 0) : ofRatio negative num den =
    if significand num den = 2 ^ 53 then
      if 971 < exponentFor num den + 1 then .infinite negative
      else .finite negative (2 ^ 52) (exponentFor num den + 1)
    else if 971 < exponentFor num den then .infinite negative
      else .finite negative (significand num den) (exponentFor num den) := by
  have hpow (n : Nat) : Nat.pow 2 n = 2 ^ n := rfl
  rw [ofRatio, if_neg hnum]
  simp only [hpow]
  rw [← significand]
  split <;> rfl

def tooLarge : ℚ := (2 ^ 53 - 1 / 2) * 2 ^ (971 : Int)

theorem zpow_971 : (2 : ℚ) ^ (971 : Int) = 2 ^ (970 : Int) * 2 := zpow_add_one₀ two_ne_zero 970

theorem tooLarge_pos : 0 < tooLarge := mul_pos (by norm_num) (zpow_pos two_pos _)

theorem exponentFor_of_tooLarge (hnum : num ≠ 0) (hden : 0 < den)
    (h : tooLarge ≤ num / den) : 971 ≤ exponentFor num den := by
  have hlt := h.trans_lt (exponentFor_bounds hnum hden).1
  by_contra hsmall
  have hpow : (2 : ℚ) ^ exponentFor num den ≤ 2 ^ (970 : Int) :=
    zpow_le_zpow_right₀ one_le_two (by omega)
  have hpos : (0 : ℚ) < 2 ^ (970 : Int) := zpow_pos two_pos _
  rw [tooLarge, zpow_971] at hlt
  generalize (2 : ℚ) ^ exponentFor num den = unit, (2 : ℚ) ^ (970 : Int) = half at *
  linarith

theorem tooLarge_of_exponentFor (hnum : num ≠ 0) (hden : 0 < den)
    (h : 971 < exponentFor num den) : tooLarge ≤ num / den := by
  obtain heq | hle := (exponentFor_bounds hnum hden).2
  · omega
  refine le_trans ?_ hle
  have hdouble : (2 : ℚ) ^ (972 : Int) = 2 ^ (971 : Int) * 2 := zpow_add_one₀ two_ne_zero 971
  have hpow : (2 : ℚ) ^ (971 : Int) * 2 ≤ 2 ^ exponentFor num den :=
    hdouble.symm.trans_le (zpow_le_zpow_right₀ one_le_two h)
  have hpos : (0 : ℚ) < 2 ^ (971 : Int) := zpow_pos two_pos _
  rw [tooLarge]
  clear hdouble
  generalize (2 : ℚ) ^ exponentFor num den = unit, (2 : ℚ) ^ (971 : Int) = half at *
  linarith

theorem significand_eq_iff (hnum : num ≠ 0) (hden : 0 < den) (h : exponentFor num den = 971) :
    significand num den = 2 ^ 53 ↔ tooLarge ≤ num / den := by
  have hpos := scaled_pos num hden 971
  have hratio := scaled_ratio num den 971
  have hle := significand_le hnum hden
  have hunit : (0 : ℚ) < 2 ^ (971 : Int) := zpow_pos two_pos _
  rw [tooLarge, ← le_div_iff₀ hunit, ← hratio]
  rw [significand, h] at hle ⊢
  generalize scaled num den 971 = r at *
  have hr : (0 : ℚ) < r.2 := Nat.cast_pos.2 hpos
  have hthreshold : 2 * (2 ^ 53 * r.2) ≤ 2 * r.1 + r.2 ↔ (2 ^ 53 - 1 / 2 : ℚ) ≤ r.1 / r.2 := by
    rw [le_div_iff₀ hr]
    constructor
    · intro h
      have h : (2 * (2 ^ 53 * r.2) : ℚ) ≤ 2 * r.1 + r.2 := by exact_mod_cast h
      linarith
    · intro h
      have h : (2 * (2 ^ 53 * r.2) : ℚ) ≤ 2 * r.1 + r.2 := by linarith
      exact_mod_cast h
  rw [← hthreshold]
  constructor
  · intro heq
    have hround := (divRound_bounds r.1 hpos).1
    rwa [heq, Nat.mul_comm r.2] at hround
  · exact fun hge => hle.antisymm (le_divRound hpos (by decide) hge)

/-- A ratio is rounded to infinity exactly from the threshold on. -/
theorem ofRatio_eq_infinite_iff (hden : 0 < den) :
    ofRatio negative num den = .infinite negative ↔ tooLarge ≤ num / den := by
  rcases Nat.eq_zero_or_pos num with rfl | hnum
  · rw [Nat.cast_zero, zero_div]
    exact iff_of_false nofun tooLarge_pos.not_ge
  replace hnum := hnum.ne'
  rw [ofRatio_eq hnum]
  rcases lt_trichotomy (exponentFor num den) 971 with hlt | heq | hgt
  · have hnot : ¬ tooLarge ≤ num / den := fun h =>
      absurd (exponentFor_of_tooLarge hnum hden h) hlt.not_ge
    have hcarried : ¬ 971 < exponentFor num den + 1 := by omega
    rw [if_neg hcarried, if_neg hlt.not_gt]
    refine iff_of_false ?_ hnot
    split <;> exact nofun
  · have hcarried : 971 < exponentFor num den + 1 := by omega
    rw [← significand_eq_iff hnum hden heq, if_pos hcarried, if_neg heq.not_gt]
    split
    · next h => exact iff_of_true rfl h
    · next h => exact iff_of_false nofun h
  · rw [if_pos (hgt.trans (Int.lt_succ _)), if_pos hgt, ite_self]
    exact iff_of_true rfl (tooLarge_of_exponentFor hnum hden hgt)

end Threshold

theorem exists_finite (hden : 0 < den) (h : (num / den : ℚ) < tooLarge) :
    ∃ m e, ofRatio negative num den = .finite negative m e := by
  rcases Nat.eq_zero_or_pos num with rfl | hnum
  · exact ⟨0, -1074, if_pos rfl⟩
  have hnot : ofRatio negative num den ≠ .infinite negative := fun heq =>
    h.not_ge ((ofRatio_eq_infinite_iff hden).1 heq)
  rw [ofRatio_eq hnum.ne'] at hnot ⊢
  split
  · next hcarry =>
    rw [if_pos hcarry] at hnot
    split
    · next hlarge => exact absurd (if_pos hlarge) hnot
    · exact ⟨_, _, rfl⟩
  · next hplain =>
    rw [if_neg hplain] at hnot
    split
    · next hlarge => exact absurd (if_pos hlarge) hnot
    · exact ⟨_, _, rfl⟩

section Whole

theorem value_of_ofRatio (hnum : num ≠ 0) (h : ofRatio negative num den = .finite s m e) :
    (m : ℚ) * 2 ^ e = significand num den * 2 ^ exponentFor num den := by
  rw [ofRatio_eq hnum] at h
  split at h
  · next hcarry =>
    split at h
    · cases h
    · cases h
      have hdouble : (2 : ℚ) ^ (exponentFor num den + 1) = 2 ^ exponentFor num den * 2 :=
        zpow_add_one₀ two_ne_zero _
      rw [hcarry, hdouble]
      push_cast
      ring
  · split at h
    · cases h
    · cases h
      rfl

theorem value_sub_le (hnum : num ≠ 0) (hden : 0 < den)
    (h : ofRatio negative num den = .finite s m e) :
    (m : ℚ) * 2 ^ e ≤ num / den + 2 ^ exponentFor num den / 2 := by
  have hunit : (0 : ℚ) < 2 ^ exponentFor num den := zpow_pos two_pos _
  have hround := (abs_le.1 (abs_significand_sub_le num hden)).2
  rw [value_of_ofRatio hnum h]
  calc (significand num den : ℚ) * 2 ^ exponentFor num den
      ≤ (num / den / 2 ^ exponentFor num den + 1 / 2) * 2 ^ exponentFor num den := by
        gcongr
        linarith
    _ = num / den + 2 ^ exponentFor num den / 2 := by
        field_simp

theorem unit_le (hnum : num ≠ 0) : (2 : ℚ) ^ 52 * 2 ^ exponentFor num 1 ≤ num := by
  obtain ⟨hbelow, heq | hle⟩ := exponentFor_bounds hnum Nat.one_pos
  · have hone : (1 : ℚ) ≤ num := Nat.one_le_cast.2 (Nat.pos_of_ne_zero hnum)
    have hpow : (2 : ℚ) ^ (-1074 : Int) ≤ 2 ^ (-52 : Int) :=
      zpow_le_zpow_right₀ one_le_two (by decide)
    rw [heq]
    calc (2 : ℚ) ^ 52 * 2 ^ (-1074 : Int) ≤ 2 ^ 52 * 2 ^ (-52 : Int) := by gcongr
      _ = 1 := by norm_num
      _ ≤ num := hone
  · rwa [Nat.cast_one, div_one] at hle

theorem value_le (h : ofRatio negative num 1 = .finite s m e) :
    (m : ℚ) * 2 ^ e ≤ num * (1 + 1 / 2 ^ 53) := by
  rcases Nat.eq_zero_or_pos num with rfl | hnum
  · cases h
    simp
  have hsub := value_sub_le hnum.ne' Nat.one_pos h
  have hunit := unit_le hnum.ne'
  rw [Nat.cast_one, div_one] at hsub
  linarith

theorem exponentFor_lt {k : Nat} (hnum : num ≠ 0) (h : num < 2 ^ (52 + k)) :
    exponentFor num 1 < k := by
  have hunit := (unit_le hnum).trans_lt (Nat.cast_lt.2 h)
  rw [two_pow_mul_zpow, Nat.cast_pow, Nat.cast_ofNat, ← zpow_natCast] at hunit
  have := (zpow_lt_zpow_iff_right₀ one_lt_two).1 hunit
  push_cast at this
  omega

theorem value_le_add_one (hlt : num < 2 ^ 54) (h : ofRatio negative num 1 = .finite s m e) :
    (m : ℚ) * 2 ^ e ≤ num + 1 := by
  rcases Nat.eq_zero_or_pos num with rfl | hnum
  · cases h
    simp
  have hsub := value_sub_le hnum.ne' Nat.one_pos h
  have hexponent : exponentFor num 1 < 2 := exponentFor_lt (k := 2) hnum.ne' hlt
  have hunit : (2 : ℚ) ^ exponentFor num 1 ≤ 2 ^ (1 : Int) :=
    zpow_le_zpow_right₀ one_le_two (by omega)
  rw [Nat.cast_one, div_one] at hsub
  rw [zpow_one] at hunit
  linarith

theorem value_eq (hlt : num < 2 ^ 53) (h : ofRatio negative num 1 = .finite s m e) :
    (m : ℚ) * 2 ^ e = num := by
  rcases Nat.eq_zero_or_pos num with rfl | hnum
  · cases h
    simp
  have hexponent : exponentFor num 1 < 1 := exponentFor_lt (k := 1) hnum.ne' hlt
  have hunit : (2 : ℚ) ^ exponentFor num 1 ≠ 0 := (zpow_pos two_pos _).ne'
  have hratio := scaled_ratio num 1 (exponentFor num 1)
  have hdenominator : (scaled num 1 (exponentFor num 1)).2 = 1 := by
    rw [scaled]
    split
    · next he =>
      obtain he : exponentFor num 1 = 0 := by omega
      rw [he]
      rfl
    · rfl
  rw [value_of_ofRatio hnum.ne' h, significand, hdenominator, divRound_one]
  rw [hdenominator, Nat.cast_one, div_one, div_one] at hratio
  rw [hratio, div_mul_cancel₀ _ hunit]

end Whole

end NoteQuery.Binary64
