import NoteQuery.Proofs.TokenReading
import NoteQuery.Proofs.TokenScan

namespace NoteQuery

namespace Text

/-- The parentheses of a text that stand outside its quoted parts, where `quoted` says whether it
begins inside one. -/
def parensFrom (quoted : Bool) : Text → Text
  | [] => []
  | c :: rest =>
    if c = '"' then parensFrom (!quoted) rest
    else if quoted = false ∧ (c = '(' ∨ c = ')') then c :: parensFrom quoted rest
    else parensFrom quoted rest

def parens (t : Text) : Text := parensFrom false t

def OpenQuote (t : Text) : Prop := t.count '"' % 2 = 1

def Overclosed (t : Text) : Prop := ∃ u, u <+: t ∧ (parens u).count '(' < (parens u).count ')'

def Unclosed (t : Text) : Prop := (parens t).count ')' < (parens t).count '('

variable {t w : Text} {quoted : Bool}

theorem prefix_parensFrom_iff {p : Text} :
    p <+: parensFrom quoted t ↔ ∃ u, u <+: t ∧ p = parensFrom quoted u := by
  induction t generalizing quoted p with
  | nil => simp [parensFrom]
  | cons c rest ih =>
      have hprefixes : (∃ u, u <+: c :: rest ∧ p = parensFrom quoted u) ↔
          p = [] ∨ ∃ u, u <+: rest ∧ p = parensFrom quoted (c :: u) := by
        constructor
        · rintro ⟨u, hu, rfl⟩
          rcases List.prefix_cons_iff.1 hu with rfl | ⟨v, rfl, hv⟩
          · exact .inl rfl
          · exact .inr ⟨v, hv, rfl⟩
        · rintro (rfl | ⟨u, hu, rfl⟩)
          · exact ⟨[], List.nil_prefix, rfl⟩
          · exact ⟨c :: u, List.cons_prefix_cons.2 ⟨rfl, hu⟩, rfl⟩
      -- A character that is no parenthesis adds no prefix of its own.
      have hskip (b : Bool) : p <+: parensFrom b rest ↔
          p = [] ∨ ∃ u, u <+: rest ∧ p = parensFrom b u := by
        rw [ih]
        exact (or_iff_right_of_imp fun h => ⟨[], List.nil_prefix, h⟩).symm
      rw [hprefixes]
      simp only [parensFrom]
      split
      · exact hskip _
      · split
        · rw [List.prefix_cons_iff]
          simp only [ih]
          refine or_congr_right ⟨?_, ?_⟩
          · rintro ⟨_, rfl, u, hu, rfl⟩
            exact ⟨u, hu, rfl⟩
          · rintro ⟨u, hu, rfl⟩
            exact ⟨_, rfl, u, hu, rfl⟩
        · exact hskip _

theorem parens_append (h : ∀ c ∈ w, c ≠ '(' ∧ c ≠ ')' ∧ c ≠ '"') : parens (w ++ t) = parens t := by
  induction w with
  | nil => rfl
  | cons c w ih =>
      obtain ⟨⟨hopen, hclose, hquote⟩, hw⟩ := List.forall_mem_cons.1 h
      rw [← ih hw]
      simp [parens, parensFrom, hopen, hclose, hquote]

theorem parensFrom_quoted (h : '"' ∉ w) : parensFrom true (w ++ '"' :: t) = parens t := by
  induction w with
  | nil => simp [parensFrom, parens]
  | cons c w ih =>
      simp only [List.mem_cons, not_or] at h
      simpa [parensFrom, Ne.symm h.1] using ih h.2

end Text

namespace Keyword

open Token Text

variable {t : Text} {tokens : List Token} {n m : Nat}

def Token.paren? : Token → Option Char
  | .opening => some '('
  | .closing => some ')'
  | .bare _ => none
  | .quoted _ => none

theorem Token.parens_text_append {token : Token} (h : token.WellFormed) :
    parens (token.text ++ t) = token.paren?.toList ++ parens t := by
  cases token with
  | opening => rfl
  | closing => rfl
  | bare w => exact parens_append fun c hc => ⟨(h.2 c hc).1, (h.2 c hc).2.1, (h.2 c hc).2.2.1⟩
  | quoted w => simpa [Token.text, parens, parensFrom, paren?] using parensFrom_quoted h

theorem Token.LaidOut.parens_eq (h : LaidOut tokens t) (hwf : ∀ token ∈ tokens, token.WellFormed) :
    parens t = tokens.filterMap paren? := by
  have hblanks {blanks u : Text} (hb : blanks.Blank) : parens (blanks ++ u) = parens u := by
    refine parens_append fun c hc => ⟨?_, ?_, ?_⟩ <;> rintro rfl <;> exact absurd (hb _ hc) (by decide)
  induction h with
  | nil hb => simpa [parens, parensFrom] using hblanks (u := []) hb
  | @cons blanks t token tokens hb rest ih =>
      obtain ⟨htoken, hwf⟩ := List.forall_mem_cons.1 hwf
      rw [hblanks hb, parens_text_append htoken, ih hwf]
      cases token <;> rfl

theorem overclosed_cons_iff {c : Char} {t : Text} :
    (∃ p, p <+: c :: t ∧ n + p.count '(' < p.count ')') ↔
      ∃ p, p <+: t ∧ n + (c :: p).count '(' < (c :: p).count ')' := by
  constructor
  · rintro ⟨p, hp, hlt⟩
    rcases List.prefix_cons_iff.1 hp with rfl | ⟨q, rfl, hq⟩
    · simp at hlt
    · exact ⟨q, hq, hlt⟩
  · rintro ⟨p, hp, hlt⟩
    exact ⟨c :: p, List.cons_prefix_cons.2 ⟨rfl, hp⟩, hlt⟩

theorem level_eq_none_iff : level n tokens = none ↔
    ∃ p, p <+: tokens.filterMap paren? ∧ n + p.count '(' < p.count ')' := by
  fun_induction level n tokens with
  | case1 => simp
  | case2 n rest ih =>
      rw [ih]
      refine (exists_congr fun p => and_congr_right fun _ => ?_).trans overclosed_cons_iff.symm
      simp [Nat.add_right_comm, Nat.add_assoc]
  | case3 rest => exact iff_of_true rfl ⟨[')'], by simp [paren?], by simp⟩
  | case4 n rest ih =>
      rw [ih]
      refine (exists_congr fun p => and_congr_right fun _ => ?_).trans overclosed_cons_iff.symm
      simp [Nat.add_right_comm]
  | case5 n w rest ih => simpa [paren?, List.filterMap_cons] using ih
  | case6 n w rest ih => simpa [paren?, List.filterMap_cons] using ih

theorem count_of_level (h : level n tokens = some m) :
    n + (tokens.filterMap paren?).count '(' = m + (tokens.filterMap paren?).count ')' := by
  fun_induction level n tokens with
  | case1 => simpa using h
  | case2 n rest ih =>
      have := ih h
      simp [paren?]
      omega
  | case3 => simp at h
  | case4 n rest ih =>
      have := ih h
      simp [paren?]
      omega
  | case5 n w rest ih => simpa [paren?, List.filterMap_cons] using ih h
  | case6 n w rest ih => simpa [paren?, List.filterMap_cons] using ih h

theorem level_eq_none_iff_overclosed (h : scan t = some tokens) :
    level 0 tokens = none ↔ t.Overclosed := by
  obtain ⟨hlaid, hwf⟩ := laidOut_of_scan h
  rw [level_eq_none_iff, ← hlaid.parens_eq hwf, parens, Overclosed]
  simp only [prefix_parensFrom_iff, Nat.zero_add]
  constructor
  · rintro ⟨_, ⟨u, hu, rfl⟩, hlt⟩
    exact ⟨u, hu, hlt⟩
  · rintro ⟨u, hu, hlt⟩
    exact ⟨_, ⟨u, hu, rfl⟩, hlt⟩

theorem unclosed_iff_of_level (h : scan t = some tokens) (hm : level 0 tokens = some m) :
    t.Unclosed ↔ 0 < m := by
  obtain ⟨hlaid, hwf⟩ := laidOut_of_scan h
  have hcount := count_of_level hm
  rw [← hlaid.parens_eq hwf] at hcount
  rw [Unclosed]
  omega

theorem blank_iff_of_scan (h : scan t = some tokens) : t.Blank ↔ tokens = [] := by
  constructor
  · intro hblank
    have := (LaidOut.nil hblank).scan (by simp) .nil
    simpa [h] using this
  · rintro rfl
    cases (laidOut_of_scan h).1 with
    | nil hblank => exact hblank

namespace Expr

/-- What comes of reading a text, one of five cases. -/
def ParseOutcome (t : Text) : Except Fault Expr → Prop
  | .ok _ => ¬ t.OpenQuote ∧ ¬ t.Blank ∧ ¬ t.Overclosed ∧ ¬ t.Unclosed
  | .error fault =>
    fault = .openQuote ∧ t.OpenQuote ∨
    fault = .nothing ∧ ¬ t.OpenQuote ∧ t.Blank ∨
    fault = .unexpectedClose ∧ ¬ t.OpenQuote ∧ ¬ t.Blank ∧ t.Overclosed ∨
    fault = .missingClose ∧ ¬ t.OpenQuote ∧ ¬ t.Blank ∧ ¬ t.Overclosed ∧ t.Unclosed

theorem ofTokens_eq_ok {tokens : List Token} {es : List Expr} (h : readAll tokens = .ok es)
    (hne : es ≠ []) : ∃ e, ofTokens tokens = .ok e := by
  rw [ofTokens, h]
  match es with
  | [] => exact absurd rfl hne
  | [e] => exact ⟨e, rfl⟩
  | e :: f :: more => exact ⟨.group .and (e :: f :: more), rfl⟩

theorem parse_outcome (t : Text) : ParseOutcome t (parse t) := by
  rw [parse]
  cases hscan : scan t with
  | none => exact .inl ⟨rfl, scan_eq_none_iff.1 hscan⟩
  | some tokens =>
      have hquote : ¬ t.OpenQuote := fun h => by simp [scan_eq_none_iff.2 h] at hscan
      have hblank := blank_iff_of_scan hscan
      have hover := level_eq_none_iff_overclosed hscan
      have hread := readAll_outcome tokens
      cases hall : readAll tokens with
      | error fault =>
          rw [hall] at hread
          have hne : ¬ t.Blank := fun h => by simp [hblank.1 h, readAll] at hall
          simp only [ofTokens, hall]
          rcases hread with ⟨hnone, rfl⟩ | ⟨⟨m, hm⟩, rfl⟩
          · exact .inr (.inr (.inl ⟨rfl, hquote, hne, hover.1 hnone⟩))
          · refine .inr (.inr (.inr ⟨rfl, hquote, hne, ?_, ?_⟩))
            · simp [← hover, hm]
            · simp [unclosed_iff_of_level hscan hm]
      | ok es =>
          rw [hall] at hread
          have hlevel : level 0 tokens = some 0 := Spells.level_eq hread 0
          by_cases hnil : es = []
          · subst hnil
            cases hread
            simp only [ofTokens, hall]
            exact .inr (.inl ⟨rfl, hquote, hblank.2 rfl⟩)
          · obtain ⟨e, he⟩ := ofTokens_eq_ok hall hnil
            simp only [he]
            refine ⟨hquote, ?_, ?_, ?_⟩
            · rw [hblank]
              rintro rfl
              cases hread
              exact hnil rfl
            · simp [← hover, hlevel]
            · simp [unclosed_iff_of_level hscan hlevel]

def refusal (t : Text) : Option String :=
  match parse t with
  | .ok _ => none
  | .error fault => some fault.detail

/-- A text is a keyword expression exactly if its quotes are closed, it is not blank, and its
parentheses balance outside of quotes. Of the reasons to refuse it the first in this order is given,
and no text is said to end too early. -/
theorem refusal_eq_some_iff (t : Text) :
    (refusal t = some "unterminated quoted keyword" ↔ t.OpenQuote) ∧
    (refusal t = some "empty expression" ↔ ¬ t.OpenQuote ∧ t.Blank) ∧
    (refusal t = some "unexpected `)`" ↔ ¬ t.OpenQuote ∧ ¬ t.Blank ∧ t.Overclosed) ∧
    (refusal t = some "missing `)`" ↔
      ¬ t.OpenQuote ∧ ¬ t.Blank ∧ ¬ t.Overclosed ∧ t.Unclosed) ∧
    ((∃ e, parse t = .ok e) ↔ ¬ t.OpenQuote ∧ ¬ t.Blank ∧ ¬ t.Overclosed ∧ ¬ t.Unclosed) ∧
    refusal t ≠ some "unexpected end of input" := by
  have houtcome := parse_outcome t
  cases h : parse t with
  | ok e =>
      rw [h] at houtcome
      obtain ⟨hquote, hblank, hover, hopen⟩ := houtcome
      simp [refusal, h, hquote, hblank, hover, hopen]
  | error fault =>
      rw [h] at houtcome
      rcases houtcome with ⟨rfl, hquote⟩ | ⟨rfl, hquote, hblank⟩ | ⟨rfl, hquote, hblank, hover⟩ |
        ⟨rfl, hquote, hblank, hover, hopen⟩
      · have hwhy : refusal t = some "unterminated quoted keyword" := by rw [refusal, h]; rfl
        simp [hwhy, hquote]
      · have hwhy : refusal t = some "empty expression" := by rw [refusal, h]; rfl
        simp [hwhy, hquote, hblank]
      · have hwhy : refusal t = some "unexpected `)`" := by rw [refusal, h]; rfl
        simp [hwhy, hquote, hblank, hover]
      · have hwhy : refusal t = some "missing `)`" := by rw [refusal, h]; rfl
        simp [hwhy, hquote, hblank, hover, hopen]

end Expr

end Keyword

end NoteQuery
