import NoteQuery.Proofs.Digits
import NoteQuery.Proofs.LowerCase
import NoteQuery.Setting.Environment

namespace NoteQuery.Setting.Environment

open Text

variable {t body sign ex ds : Text} {n : Int} {x : Binary64} {c d : Char}

def IsSign (t : Text) : Prop := t = [] ∨ t = ['+'] ∨ t = ['-']

inductive Exponent : Text → Prop
  | absent : Exponent []
  | power {mark : Char} {sign ds : Text} (hmark : mark = 'e' ∨ mark = 'E') (hsign : IsSign sign)
      (hds : ∀ c ∈ ds, isDigit c = true) (hne : ds ≠ []) : Exponent (mark :: (sign ++ ds))

inductive Unsigned : Text → Prop
  | infinite {t : Text}
      (h : t.map Char.toLower = "inf".toList ∨ t.map Char.toLower = "infinity".toList) : Unsigned t
  | nan {t : Text} (h : t.map Char.toLower = "nan".toList) : Unsigned t
  | whole {ds ex : Text} (hds : ∀ c ∈ ds, isDigit c = true) (hne : ds ≠ []) (hex : Exponent ex) :
      Unsigned (ds ++ ex)
  | fraction {ds fs ex : Text} (hds : ∀ c ∈ ds, isDigit c = true)
      (hfs : ∀ c ∈ fs, isDigit c = true) (hne : ds ++ fs ≠ []) (hex : Exponent ex) :
      Unsigned (ds ++ '.' :: (fs ++ ex))

/-- A number with or without a sign: by its name, or by its digits, with a point or without one. -/
def Numeral (t : Text) : Prop := ∃ sign body, t = sign ++ body ∧ IsSign sign ∧ Unsigned body

def TruthWord (t : Text) : Prop := t.lowercase = "true".toList ∨ t.lowercase = "false".toList

section Reading

theorem eq_sign_append_signed (t : Text) : ∃ sign, IsSign sign ∧ t = sign ++ t.signed.2 := by
  unfold signed
  split
  · exact ⟨['-'], .inr (.inr rfl), rfl⟩
  · exact ⟨['+'], .inr (.inl rfl), rfl⟩
  · exact ⟨[], .inl rfl, rfl⟩

theorem signed_of_head (hbody : ∀ c ∈ body.head?, c ≠ '-' ∧ c ≠ '+') :
    body.signed = (false, body) := by
  unfold signed
  split
  · exact absurd rfl (hbody '-' rfl).1
  · exact absurd rfl (hbody '+' rfl).2
  · rfl

theorem signed_append (hsign : IsSign sign) (hbody : ∀ c ∈ body.head?, c ≠ '-' ∧ c ≠ '+') :
    (sign ++ body).signed.2 = body := by
  rcases hsign with rfl | rfl | rfl
  · rw [List.nil_append, signed_of_head hbody]
  · rfl
  · rfl

theorem not_sign_of_isDigit (hc : isDigit c = true) : c ≠ '-' ∧ c ≠ '+' := by
  constructor <;> rintro rfl <;> cases hc

theorem exponent_of_exponent? {e : Int} (h : exponent? t = some e) : Exponent t := by
  have hpower {mark : Char} (hmark : mark = 'e' ∨ mark = 'E') (rest : Text)
      (h : (if rest.signed.2.isEmpty then none else (readDigits 0 rest.signed.2).map fun n =>
        if rest.signed.1 then -(n : Int) else n) = some e) : Exponent (mark :: rest) := by
    obtain ⟨sign, hsign, hrest⟩ := eq_sign_append_signed rest
    rw [Option.ite_none_left_eq_some] at h
    obtain ⟨n, hn, -⟩ := Option.map_eq_some_iff.1 h.2
    obtain ⟨m, hm, -⟩ := Option.bind_eq_some_iff.1 hn
    rw [hrest]
    exact .power hmark hsign (isDigit_of_readDigits hm) (mt List.isEmpty_iff.2 h.1)
  unfold exponent? at h
  split at h
  · exact .absent
  · exact hpower (.inl rfl) _ h
  · exact hpower (.inr rfl) _ h
  · cases h

theorem isSome_exponent? (h : Exponent t) : (exponent? t).isSome = true := by
  cases h with
  | absent => rfl
  | @power mark sign ds hmark hsign hds hne =>
      have hbody : (sign ++ ds).signed.2 = ds := signed_append hsign fun c hc =>
        not_sign_of_isDigit (hds c (List.mem_of_mem_head? hc))
      obtain ⟨n, hn⟩ := Option.isSome_iff_exists.1 (readDigits_isSome hds 0)
      rcases hmark with rfl | rfl <;> simp [exponent?, hbody, hne, hn]

theorem Exponent.head? (h : Exponent t) : ∀ c ∈ t.head?, isDigit c = false ∧ c ≠ '.' := by
  cases h with
  | absent => exact nofun
  | power hmark =>
      rintro c ⟨⟩
      rcases hmark with rfl | rfl <;> exact ⟨rfl, by decide⟩

theorem unsigned_of_float? (h : float? t = some x) : Unsigned t.signed.2 := by
  simp only [float?] at h
  split at h
  · next hinf => exact .infinite hinf
  split at h
  · next hnan => exact .nan hnan
  rw [drop_takeWhile] at h
  generalize t.signed = s at h ⊢
  obtain ⟨negative, body⟩ := s
  dsimp only at h ⊢
  have hbody : body.takeWhile isDigit ++ body.dropWhile isDigit = body :=
    List.takeWhile_append_dropWhile
  have hds := isDigit_of_mem_takeWhile (t := body)
  generalize body.takeWhile isDigit = whole at h hbody hds
  generalize body.dropWhile isDigit = rest at h hbody
  subst hbody
  split at h <;> rw [Option.ite_none_left_eq_some] at h
  · next more =>
    obtain ⟨hne, h⟩ := h
    obtain ⟨n, -, h⟩ := Option.bind_eq_some_iff.1 h
    obtain ⟨e, he, -⟩ := Option.map_eq_some_iff.1 h
    rw [← List.takeWhile_append_dropWhile (p := isDigit) (l := more)]
    refine .fraction hds isDigit_of_mem_takeWhile ?_ (exponent_of_exponent? he)
    simpa using hne
  · obtain ⟨hne, h⟩ := h
    obtain ⟨n, -, h⟩ := Option.bind_eq_some_iff.1 h
    obtain ⟨e, he, -⟩ := Option.map_eq_some_iff.1 h
    refine .whole hds ?_ (exponent_of_exponent? he)
    simpa using hne

theorem isSome_float?_of_signed (h : Unsigned t.signed.2) : (float? t).isSome = true := by
  simp only [float?]
  generalize t.signed = s at h ⊢
  obtain ⟨negative, body⟩ := s
  dsimp only at h ⊢
  cases h with
  | infinite h =>
      rw [if_pos h]
      rfl
  | nan h =>
      rw [if_pos h]
      split <;> rfl
  | @whole ds ex hds hne hex =>
      have hend := fun c hc => (hex.head? c hc).1
      obtain ⟨n, hn⟩ := Option.isSome_iff_exists.1 (readDigits_isSome hds 0)
      obtain ⟨e, he⟩ := Option.isSome_iff_exists.1 (isSome_exponent? hex)
      rw [drop_takeWhile, takeWhile_isDigit hds hend, dropWhile_isDigit hds hend]
      split
      · rfl
      split
      · rfl
      split
      · exact absurd rfl (hex.head? '.' rfl).2
      · simp [hne, hn, he]
  | @fraction ds fs ex hds hfs hne hex =>
      have hend := fun c hc => (hex.head? c hc).1
      have hpoint : ∀ c ∈ ('.' :: (fs ++ ex)).head?, isDigit c = false := by
        rintro c ⟨⟩
        rfl
      have hall : ∀ c ∈ ds ++ fs, isDigit c = true := fun c hc =>
        (List.mem_append.1 hc).elim (hds c) (hfs c)
      obtain ⟨n, hn⟩ := Option.isSome_iff_exists.1 (readDigits_isSome hall 0)
      obtain ⟨e, he⟩ := Option.isSome_iff_exists.1 (isSome_exponent? hex)
      rw [drop_takeWhile, takeWhile_isDigit hds hpoint, dropWhile_isDigit hds hpoint]
      split
      · rfl
      split
      · rfl
      simp only [takeWhile_isDigit hfs hend, dropWhile_isDigit hfs hend, hn, he]
      simpa using hne

end Reading

section Heads

def HeadOfNumber (d : Char) : Prop := isDigit d = true ∨ d = '.' ∨ d = 'i' ∨ d = 'n'

theorem lowerAlone_of_toLower (hd : d = 'i' ∨ d = 'n') (h : c.toLower = d) :
    lowerAlone c = [d] := by
  have hcapital : ∀ k < 91, (Char.ofNat k).toLower = d → lowerAlone (Char.ofNat k) = [d] := by
    rcases hd with rfl | rfl <;> decide +kernel
  by_cases hk : c.toNat < 91
  · have := hcapital c.toNat hk
    rw [Char.ofNat_toNat] at this
    exact this h
  · have hsmall : ¬(c.val ≥ 'A'.val ∧ c.val ≤ 'Z'.val) := fun hle =>
      hk (Nat.lt_succ_of_le (show c.val.toNat ≤ 90 from hle.2))
    obtain rfl : c = d := (dif_neg hsmall : c.toLower = c).symm.trans h
    rcases hd with rfl | rfl <;> decide

theorem lowerAlone_of_isDigit (h : isDigit c = true) : lowerAlone c = [c] := by
  obtain ⟨hlow, hhigh⟩ : 48 ≤ c.toNat ∧ c.toNat ≤ 57 := Char.isDigit_iff_toNat.1 (isDigit_iff.1 h)
  have hdigits : ∀ k < 58, 48 ≤ k → lowerAlone (Char.ofNat k) = [Char.ofNat k] := by
    decide +kernel
  have := hdigits c.toNat (by omega) hlow
  rwa [Char.ofNat_toNat] at this

theorem Unsigned.exists_head (h : Unsigned t) :
    ∃ c rest d, t = c :: rest ∧ lowerAlone c = [d] ∧ HeadOfNumber d := by
  have hnamed {d : Char} (hd : d = 'i' ∨ d = 'n') (h : (t.map Char.toLower).head? = some d) :
      ∃ c rest d, t = c :: rest ∧ lowerAlone c = [d] ∧ HeadOfNumber d := by
    cases t with
    | nil => cases h
    | cons c rest => exact ⟨c, rest, d, rfl, lowerAlone_of_toLower hd (Option.some.inj h), .inr (.inr hd)⟩
  have hdigit {c : Char} {rest : Text} (hc : isDigit c = true) :
      ∃ c' rest' d, c :: rest = c' :: rest' ∧ lowerAlone c' = [d] ∧ HeadOfNumber d :=
    ⟨c, rest, c, rfl, lowerAlone_of_isDigit hc, .inl hc⟩
  cases h with
  | infinite h => exact hnamed (.inl rfl) (by rcases h with h | h <;> rw [h] <;> rfl)
  | nan h => exact hnamed (.inr rfl) (by rw [h]; rfl)
  | @whole ds ex hds hne hex =>
      cases ds with
      | nil => exact absurd rfl hne
      | cons c ds => exact hdigit (hds c (List.mem_cons_self ..))
  | @fraction ds fs ex hds hfs hne hex =>
      cases ds with
      | nil => exact ⟨'.', _, '.', rfl, by decide, .inr (.inl rfl)⟩
      | cons c ds => exact hdigit (hds c (List.mem_cons_self ..))

theorem HeadOfNumber.ne (h : HeadOfNumber d) :
    d ≠ 't' ∧ d ≠ 'f' ∧ d ≠ '-' ∧ d ≠ '+' ∧ d ≠ 'σ' := by
  rcases h with h | rfl | rfl | rfl
  · refine ⟨?_, ?_, ?_, ?_, ?_⟩ <;> rintro rfl <;> cases h
  all_goals decide

theorem head?_lowercase (hd : lowerAlone c = [d]) (hsigma : d ≠ 'σ') (t : Text) :
    (lowercase (c :: t)).head? = some d := by
  have hc : c ≠ 'Σ' := by
    rintro rfl
    exact hsigma (List.cons.inj (hd.symm.trans (by decide : lowerAlone 'Σ' = ['σ']))).1
  rw [lowercase, lowerFrom, if_neg hc, hd]
  rfl

theorem Numeral.not_truthWord (h : Numeral t) : ¬ TruthWord t := by
  have hhead : ∃ d, t.lowercase.head? = some d ∧ d ≠ 't' ∧ d ≠ 'f' := by
    obtain ⟨sign, body, rfl, hsign, hbody⟩ := h
    rcases hsign with rfl | rfl | rfl
    · obtain ⟨c, rest, d, rfl, hlower, hd⟩ := hbody.exists_head
      exact ⟨d, head?_lowercase hlower hd.ne.2.2.2.2 rest, hd.ne.1, hd.ne.2.1⟩
    · exact ⟨'+', head?_lowercase (c := '+') (by decide) (by decide) body, by decide, by decide⟩
    · exact ⟨'-', head?_lowercase (c := '-') (by decide) (by decide) body, by decide, by decide⟩
  obtain ⟨d, hd, ht, hf⟩ := hhead
  rintro (h | h) <;> rw [h] at hd <;> cases hd
  · exact ht rfl
  · exact hf rfl

theorem Unsigned.not_sign (h : Unsigned t) : ∀ c ∈ t.head?, c ≠ '-' ∧ c ≠ '+' := by
  obtain ⟨c, rest, d, rfl, hlower, hd⟩ := h.exists_head
  rintro _ ⟨⟩
  constructor <;> rintro rfl
  · exact hd.ne.2.2.1 (List.cons.inj (hlower.symm.trans (by decide : lowerAlone '-' = ['-']))).1
  · exact hd.ne.2.2.2.1 (List.cons.inj (hlower.symm.trans (by decide : lowerAlone '+' = ['+']))).1

end Heads

section Scalars

theorem isSome_float?_iff : (float? t).isSome = true ↔ Numeral t := by
  constructor
  · intro h
    obtain ⟨x, hx⟩ := Option.isSome_iff_exists.1 h
    obtain ⟨sign, hsign, ht⟩ := eq_sign_append_signed t
    exact ⟨sign, _, ht, hsign, unsigned_of_float? hx⟩
  · rintro ⟨sign, body, rfl, hsign, hbody⟩
    apply isSome_float?_of_signed
    rwa [signed_append hsign hbody.not_sign]

theorem numeral_of_integer? (h : integer? t = some n) : Numeral t := by
  obtain ⟨sign, hsign, ht⟩ := eq_sign_append_signed t
  simp only [integer?, int64?] at h
  rw [Option.ite_none_left_eq_some] at h
  obtain ⟨hne, h⟩ := h
  obtain ⟨m, hm, -⟩ := Option.bind_eq_some_iff.1 h
  refine ⟨sign, _, ht, hsign, ?_⟩
  have := Unsigned.whole (isDigit_of_readDigits hm) (mt List.isEmpty_iff.2 hne) .absent
  rwa [List.append_nil] at this

theorem integer?_ofInt (h : -9223372036854775808 ≤ n ∧ n ≤ 9223372036854775807) :
    integer? (ofInt n) = some n := by
  have hempty (m : Nat) : (ofNat m).isEmpty = false :=
    Bool.eq_false_iff.2 (mt List.isEmpty_iff.1 (ofNat_ne_nil m))
  cases n with
  | ofNat m =>
      have hsigned : (ofNat m).signed = (false, ofNat m) := signed_of_head fun c hc =>
        not_sign_of_isDigit (isDigit_of_mem_ofNat (List.mem_of_mem_head? hc))
      rw [integer?, ofInt, hsigned]
      dsimp only
      rw [int64?, hempty, if_neg Bool.false_ne_true, readDigits_ofNat]
      exact if_pos h
  | negSucc m =>
      have hneg : -((m + 1 : Nat) : Int) = Int.negSucc m := rfl
      change int64? true (ofNat (m + 1)) = some (Int.negSucc m)
      rw [int64?, hempty, if_neg Bool.false_ne_true, readDigits_ofNat, Option.bind_some]
      dsimp only
      rw [if_pos rfl, hneg, if_pos h]

/-- The values that are texts again as they were. -/
inductive Kept : Text → Prop
  | word {t : Text} (htruth : ¬ TruthWord t) (hnumeral : ¬ Numeral t) : Kept t
  | truth (b : Bool) : Kept (if b then "true".toList else "false".toList)
  /-- Whole numbers of 64 bits without a plus sign and without zeros in front. -/
  | integer {n : Int} (h : -9223372036854775808 ≤ n ∧ n ≤ 9223372036854775807) : Kept (ofInt n)
  /-- Other numbers, if they are written as the number they are read as. -/
  | number {t : Text} {x : Binary64} (hn : integer? t = none) (hx : float? t = some x)
      (ht : floatText x = t) : Kept t

theorem Kept.eq_of_truthWord (h : Kept t) (ht : TruthWord t) :
    t = if t.lowercase = "true".toList then "true".toList else "false".toList := by
  cases h with
  | word hnot _ => exact absurd ht hnot
  | truth b => cases b <;> decide
  | integer hn => exact absurd ht (numeral_of_integer? (integer?_ofInt hn)).not_truthWord
  | number _ hx _ =>
      exact absurd ht (isSome_float?_iff.1 (Option.isSome_of_eq_some hx)).not_truthWord

theorem Kept.eq_of_integer? (h : Kept t) (hn : integer? t = some n) : ofInt n = t := by
  cases h with
  | word _ hnot => exact absurd (numeral_of_integer? hn) hnot
  | truth b => cases b <;> cases hn
  | integer hm => rw [Option.some.inj ((integer?_ofInt hm).symm.trans hn)]
  | number hnone => cases hnone.symm.trans hn

theorem Kept.eq_of_float? (h : Kept t) (hn : integer? t = none) (hx : float? t = some x) :
    floatText x = t := by
  cases h with
  | word _ hnot => exact absurd (isSome_float?_iff.1 (Option.isSome_of_eq_some hx)) hnot
  | truth b => cases b <;> cases hx
  | integer hm => cases hn.symm.trans (integer?_ofInt hm)
  | number _ hy ht => rwa [Option.some.inj (hy.symm.trans hx)] at ht

theorem integer?_bounds (h : integer? t = some n) :
    -9223372036854775808 ≤ n ∧ n ≤ 9223372036854775807 := by
  rw [integer?] at h
  dsimp only at h
  rw [int64?, Option.ite_none_left_eq_some] at h
  obtain ⟨m, -, h⟩ := Option.bind_eq_some_iff.1 h.2
  dsimp only at h
  rw [Option.ite_none_right_eq_some] at h
  obtain ⟨hbounds, heq⟩ := h
  cases heq
  exact hbounds

/-- The value of a variable for a text always has one, and it is the value itself exactly if that is
kept. -/
theorem exists_asText?_value {key : Text} (hkey : key ≠ listKey) (t : Text) :
    ∃ u, (value key t).asText? = some u ∧ (u = t ↔ Kept t) := by
  rw [value]
  split
  · next htrue =>
    refine ⟨"true".toList, rfl, fun h => h ▸ .truth true, fun h => ?_⟩
    rw [h.eq_of_truthWord (.inl htrue), if_pos htrue]
  split
  · next htrue hfalse =>
    refine ⟨"false".toList, rfl, fun h => h ▸ .truth false, fun h => ?_⟩
    rw [h.eq_of_truthWord (.inr hfalse), if_neg htrue]
  next htrue hfalse =>
  split
  · next n hn =>
    refine ⟨ofInt n, rfl, fun h => h ▸ .integer (integer?_bounds hn), fun h => h.eq_of_integer? hn⟩
  · next hn =>
    split
    · next x hx =>
      exact ⟨floatText x, rfl, .number hn hx, fun h => h.eq_of_float? hn hx⟩
    · next hx =>
      refine ⟨t, rfl, fun _ => .word (not_or.2 ⟨htrue, hfalse⟩) fun h => ?_, fun _ => rfl⟩
      cases (isSome_float?_iff.2 h).symm.trans (congrArg Option.isSome hx)

end Scalars

end NoteQuery.Setting.Environment
