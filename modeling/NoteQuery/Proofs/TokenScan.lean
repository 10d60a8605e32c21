import Mathlib.Data.List.Chain
import NoteQuery.Keyword.Text

namespace NoteQuery

def Text.Blank (t : Text) : Prop := ∀ c ∈ t, isBlank c = true

namespace Keyword

def Bare (c : Char) : Prop := c ≠ '(' ∧ c ≠ ')' ∧ c ≠ '"' ∧ Text.isBlank c = false

namespace Token

variable {mode : Mode} {t u : Text} {tokens : List Token}

def text : Token → Text
  | .opening => ['(']
  | .closing => [')']
  | .bare w => w
  | .quoted w => '"' :: (w ++ ['"'])

def WellFormed : Token → Prop
  | .opening | .closing => True
  | .bare w => w ≠ [] ∧ ∀ c ∈ w, Bare c
  | .quoted w => '"' ∉ w

def isBare : Token → Bool
  | .bare _ => true
  | _ => false

/-- The text is made of the tokens, with any blanks between two of them and around the whole. -/
inductive LaidOut : List Token → Text → Prop
  | nil {blanks : Text} (h : blanks.Blank) : LaidOut [] blanks
  | cons {blanks t : Text} {token : Token} {tokens : List Token} (h : blanks.Blank)
      (rest : LaidOut tokens t) : LaidOut (token :: tokens) (blanks ++ (token.text ++ t))

theorem LaidOut.blank_append (hu : u.Blank) (h : LaidOut tokens t) : LaidOut tokens (u ++ t) := by
  have hboth {v : Text} (hv : v.Blank) : (u ++ v).Blank := by
    intro c hc
    exact (List.mem_append.1 hc).elim (hu c) (hv c)
  cases h with
  | nil h => exact .nil (hboth h)
  | cons h rest =>
      rw [← List.append_assoc]
      exact .cons (hboth h) rest

theorem LaidOut.empty : LaidOut [] [] := .nil (by simp [Text.Blank])

theorem LaidOut.cons_token (token : Token) (h : LaidOut tokens t) :
    LaidOut (token :: tokens) (token.text ++ t) := by
  have hblank : Text.Blank [] := by simp [Text.Blank]
  exact .cons hblank h

section Scanning

def Mode.text : Mode → Text
  | .between => []
  | .inWord w => w.reverse
  | .inQuotes q => '"' :: q.reverse

def Mode.WellFormed : Mode → Prop
  | .between => True
  | .inWord w => w ≠ [] ∧ ∀ c ∈ w, Bare c
  | .inQuotes q => '"' ∉ q

def Mode.quoted : Mode → Bool
  | .inQuotes _ => true
  | _ => false

theorem Mode.quoted_eq_false (h : ∀ q, mode = .inQuotes q → False) : mode.quoted = false := by
  cases mode with
  | inQuotes q => exact (h q rfl).elim
  | _ => rfl

theorem laidOut_pending (hmode : ∀ q, mode = .inQuotes q → False) (hwf : mode.WellFormed)
    (h : LaidOut tokens t) (htokens : ∀ token ∈ tokens, token.WellFormed) :
    LaidOut (mode.pending ++ tokens) (mode.text ++ t) ∧
      ∀ token ∈ mode.pending ++ tokens, token.WellFormed := by
  cases mode with
  | between => exact ⟨h, htokens⟩
  | inWord w =>
      refine ⟨.cons_token (.bare w.reverse) h, List.forall_mem_cons.2 ⟨?_, htokens⟩⟩
      exact ⟨by simpa using hwf.1, by simpa using hwf.2⟩
  | inQuotes q => exact (hmode q rfl).elim

theorem laidOut_of_scanFrom (hwf : mode.WellFormed) (h : scanFrom mode t = some tokens) :
    LaidOut tokens (mode.text ++ t) ∧ ∀ token ∈ tokens, token.WellFormed := by
  fun_induction scanFrom mode t generalizing tokens with
  | case1 => simp at h
  | case2 mode hmode =>
      cases h
      simpa using laidOut_pending hmode hwf LaidOut.empty (by simp)
  | case3 q rest ih =>
      obtain ⟨more, hmore, rfl⟩ := Option.map_eq_some_iff.1 h
      obtain ⟨hlaid, htokens⟩ := ih trivial hmore
      refine ⟨?_, List.forall_mem_cons.2 ⟨by simpa [WellFormed, Mode.WellFormed] using hwf, htokens⟩⟩
      simpa [Mode.text, Token.text] using LaidOut.cons_token (.quoted q.reverse) hlaid
  | case4 q c rest hc ih =>
      have hq : '"' ∉ c :: q := by simpa [Mode.WellFormed, Ne.symm hc] using hwf
      simpa [Mode.text] using ih hq h
  | case5 mode rest hmode ih =>
      obtain ⟨more, hmore, rfl⟩ := Option.map_eq_some_iff.1 h
      obtain ⟨hlaid, htokens⟩ := ih trivial hmore
      exact laidOut_pending hmode hwf (.cons_token .opening hlaid)
        (List.forall_mem_cons.2 ⟨trivial, htokens⟩)
  | case6 mode rest hmode _ ih =>
      obtain ⟨more, hmore, rfl⟩ := Option.map_eq_some_iff.1 h
      obtain ⟨hlaid, htokens⟩ := ih trivial hmore
      exact laidOut_pending hmode hwf (.cons_token .closing hlaid)
        (List.forall_mem_cons.2 ⟨trivial, htokens⟩)
  | case7 mode rest hmode _ _ ih =>
      obtain ⟨more, hmore, rfl⟩ := Option.map_eq_some_iff.1 h
      obtain ⟨hlaid, htokens⟩ := ih (by simp [Mode.WellFormed]) hmore
      exact laidOut_pending hmode hwf hlaid htokens
  | case8 mode c rest hmode _ _ _ hblank ih =>
      obtain ⟨more, hmore, rfl⟩ := Option.map_eq_some_iff.1 h
      obtain ⟨hlaid, htokens⟩ := ih trivial hmore
      have hc : Text.Blank [c] := by simpa [Text.Blank] using hblank
      exact laidOut_pending hmode hwf (hlaid.blank_append hc) htokens
  | case9 c rest hopen hclose hquote hblank w _ ih =>
      have hc : Bare c := ⟨hopen, hclose, hquote, by simpa using hblank⟩
      have hw : ∀ d ∈ c :: w, Bare d := List.forall_mem_cons.2 ⟨hc, hwf.2⟩
      simpa [Mode.text] using ih ⟨by simp, hw⟩ h
  | case10 mode c rest hmode hopen hclose hquote hblank hword ih =>
      have hc : Bare c := ⟨hopen, hclose, hquote, by simpa using hblank⟩
      cases mode with
      | between => simpa [Mode.text] using ih ⟨by simp, by simpa using hc⟩ h
      | inWord w => exact (hword w rfl).elim
      | inQuotes q => exact (hmode q rfl).elim

theorem laidOut_of_scan (h : scan t = some tokens) :
    LaidOut tokens t ∧ ∀ token ∈ tokens, token.WellFormed := by
  have hwf : Mode.between.WellFormed := trivial
  exact laidOut_of_scanFrom hwf h

theorem scanFrom_eq_none_iff :
    scanFrom mode t = none ↔ (t.count '"' + if mode.quoted then 1 else 0) % 2 = 1 := by
  fun_induction scanFrom mode t with
  | case1 => simp [Mode.quoted]
  | case2 mode hmode => simp [Mode.quoted_eq_false hmode]
  | case3 q rest ih =>
      simp only [Option.map_eq_none_iff, ih, Mode.quoted, List.count_cons_self, if_true,
        Bool.false_eq_true, if_false]
      omega
  | case4 q c rest hc ih => simpa [Mode.quoted, List.count_cons, hc] using ih
  | case5 mode rest hmode ih =>
      simpa [Mode.quoted, List.count_cons, Mode.quoted_eq_false hmode] using ih
  | case6 mode rest hmode _ ih =>
      simpa [Mode.quoted, List.count_cons, Mode.quoted_eq_false hmode] using ih
  | case7 mode rest hmode _ _ ih =>
      simpa [Mode.quoted, List.count_cons, Mode.quoted_eq_false hmode] using ih
  | case8 mode c rest hmode _ _ hc _ ih =>
      simpa [Mode.quoted, List.count_cons, hc, Mode.quoted_eq_false hmode] using ih
  | case9 c rest _ _ hc _ w _ ih => simpa [Mode.quoted, List.count_cons, hc] using ih
  | case10 mode c rest hmode _ _ hc _ _ ih =>
      simpa [Mode.quoted, List.count_cons, hc, Mode.quoted_eq_false hmode] using ih

theorem scan_eq_none_iff : scan t = none ↔ t.count '"' % 2 = 1 := scanFrom_eq_none_iff

end Scanning

section Reading

def EndsBare (t : Text) : Prop := ∀ c rest, t = c :: rest → ¬ Bare c

theorem scanFrom_blanks (hu : u.Blank) : scanFrom .between (u ++ t) = scanFrom .between t := by
  induction u with
  | nil => rfl
  | cons c u ih =>
      obtain ⟨hc, hu⟩ := List.forall_mem_cons.1 hu
      have hopen : c ≠ '(' := by rintro rfl; exact absurd hc (by decide)
      have hclose : c ≠ ')' := by rintro rfl; exact absurd hc (by decide)
      have hquote : c ≠ '"' := by rintro rfl; exact absurd hc (by decide)
      rw [← ih hu]
      simp [scanFrom, hopen, hclose, hquote, hc, Mode.pending]

theorem scanFrom_quoted {w q : Text} (hw : '"' ∉ w) :
    scanFrom (.inQuotes q) (w ++ '"' :: t) =
      (scanFrom .between t).map (.quoted (q.reverse ++ w) :: ·) := by
  induction w generalizing q with
  | nil => simp [scanFrom]
  | cons c w ih =>
      simp only [List.mem_cons, not_or] at hw
      rw [List.cons_append, scanFrom, if_neg (Ne.symm hw.1), ih hw.2]
      simp

theorem scanFrom_word {w v : Text} (hw : ∀ c ∈ w, Bare c) :
    scanFrom (.inWord v) (w ++ t) = scanFrom (.inWord (w.reverse ++ v)) t := by
  induction w generalizing v with
  | nil => rfl
  | cons c w ih =>
      obtain ⟨⟨hopen, hclose, hquote, hblank⟩, hw⟩ := List.forall_mem_cons.1 hw
      simp [scanFrom, hopen, hclose, hquote, hblank, ih hw]

theorem scanFrom_endsBare {v : Text} (h : EndsBare t) :
    scanFrom (.inWord v) t = (scanFrom .between t).map (.bare v.reverse :: ·) := by
  cases t with
  | nil => simp [scanFrom, Mode.pending]
  | cons c rest =>
      have hc := h c rest rfl
      by_cases hopen : c = '('
      · subst hopen
        simp [scanFrom, Mode.pending, Function.comp_def]
      by_cases hclose : c = ')'
      · subst hclose
        simp [scanFrom, Mode.pending, Function.comp_def]
      by_cases hquote : c = '"'
      · subst hquote
        simp [scanFrom, Mode.pending]
      have hblank : Text.isBlank c = true := by
        simpa [Bare, hopen, hclose, hquote] using hc
      simp [scanFrom, Mode.pending, hopen, hclose, hquote, hblank]

theorem LaidOut.endsBare (h : LaidOut tokens t) (hfirst : ∀ b ∈ tokens.head?, b.isBare = false) :
    EndsBare t := by
  have hblanks {blanks u : Text} (hb : blanks.Blank) (hu : EndsBare u) : EndsBare (blanks ++ u) := by
    intro c rest he
    cases blanks with
    | nil => exact hu c rest he
    | cons d blanks =>
        obtain ⟨rfl, _⟩ := List.cons.inj he
        exact fun hc => by simp [Bare, hb d (by simp)] at hc
  cases h with
  | nil h => simpa using hblanks (u := []) h (by simp [EndsBare])
  | @cons blanks t token tokens h rest =>
      refine hblanks h ?_
      have hbare : token.isBare = false := hfirst token (by simp)
      intro c rest he
      cases token with
      | bare w => simp [isBare] at hbare
      | opening =>
          obtain ⟨rfl, _⟩ := List.cons.inj he
          exact fun hc => hc.1 rfl
      | closing =>
          obtain ⟨rfl, _⟩ := List.cons.inj he
          exact fun hc => hc.2.1 rfl
      | quoted w =>
          obtain ⟨rfl, _⟩ := List.cons.inj he
          exact fun hc => hc.2.2.1 rfl

theorem scan_text_append {token : Token} (hwf : token.WellFormed)
    (ht : token.isBare = true → EndsBare t) :
    scan (token.text ++ t) = (scan t).map (token :: ·) := by
  cases token with
  | opening => simp [scan, Token.text, scanFrom, Mode.pending]
  | closing => simp [scan, Token.text, scanFrom, Mode.pending]
  | quoted w =>
      simpa [scan, Token.text, scanFrom, Mode.pending] using scanFrom_quoted (q := []) (t := t) hwf
  | bare w =>
      obtain ⟨hne, hw⟩ := hwf
      obtain ⟨c, w, rfl⟩ := List.exists_cons_of_ne_nil hne
      obtain ⟨⟨hopen, hclose, hquote, hblank⟩, hw⟩ := List.forall_mem_cons.1 hw
      have hfirst : scan (c :: (w ++ t)) = scanFrom (.inWord [c]) (w ++ t) := by
        simp [scan, scanFrom, hopen, hclose, hquote, hblank]
      rw [Token.text, List.cons_append, hfirst, scanFrom_word hw, scanFrom_endsBare (ht rfl)]
      simp [scan]

/-- A text is scanned as the tokens that it is laid out from, if they are well-formed and no two
bare words stand side by side. -/
theorem LaidOut.scan (h : LaidOut tokens t) (hwf : ∀ token ∈ tokens, token.WellFormed)
    (hbare : tokens.IsChain fun a b => a.isBare = true → b.isBare = false) :
    scan t = some tokens := by
  induction h with
  | nil h => simpa [Token.scan, scanFrom, Mode.pending] using scanFrom_blanks (t := []) h
  | @cons blanks t token tokens h rest ih =>
      obtain ⟨htoken, hwf⟩ := List.forall_mem_cons.1 hwf
      obtain ⟨hfirst, hbare⟩ := List.isChain_cons.1 hbare
      have hends (hb : token.isBare = true) : EndsBare t :=
        rest.endsBare fun b hmem => hfirst b hmem hb
      rw [Token.scan, scanFrom_blanks h, ← Token.scan, scan_text_append htoken hends,
        ih hwf hbare, Option.map_some]

end Reading

end Token

end Keyword

end NoteQuery
