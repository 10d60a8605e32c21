import Mathlib
import NoteQuery.Proofs.KeywordSelection
import NoteQuery.Proofs.Usable

namespace NoteQuery

open Pattern Regex Text

/-- The word stands somewhere in the text, a separator before it unless it stands first, and one
behind it unless it stands last. -/
def Text.StandsIn (w t : Text) : Prop :=
  ∃ i, w <+: t.drop i ∧ (∀ k, i = k + 1 → SeparatorAt t k) ∧
    (i + w.length < t.length → SeparatorAt t (i + w.length))

namespace Text

variable {w t a b : Text} {i k : Nat}

theorem standsIn_iff_eq (h : ∀ c ∈ t, isSeparator c = false) : StandsIn w t ↔ w = t := by
  have hnone (k : Nat) : ¬ SeparatorAt t k := by
    rintro ⟨c, hc, hsep⟩
    simp [h c (List.mem_of_getElem? hc)] at hsep
  constructor
  · rintro ⟨i, hw, hbefore, hbehind⟩
    cases i with
    | succ k => exact absurd (hbefore k rfl) (hnone k)
    | zero =>
        refine hw.eq_of_length_le (Nat.le_of_not_lt fun hlt => ?_)
        exact hnone _ (hbehind (by simpa using hlt))
  · rintro rfl
    exact ⟨0, List.prefix_refl w, by simp, fun hlt => absurd hlt (by simp)⟩

theorem separatorAt_append (hk : k < t.length) :
    SeparatorAt (a ++ (t ++ b)) (a.length + k) ↔ SeparatorAt t k := by
  have hat : (a ++ (t ++ b))[a.length + k]? = t[k]? := by
    rw [List.getElem?_append_right (Nat.le_add_right _ _), Nat.add_sub_cancel_left,
      List.getElem?_append_left hk]
  simp only [SeparatorAt, hat]

theorem prefix_drop_append (hi : i + w.length ≤ t.length) :
    w <+: (a ++ (t ++ b)).drop (a.length + i) ↔ w <+: t.drop i := by
  have hdrop : (a ++ (t ++ b)).drop (a.length + i) = t.drop i ++ b := by
    rw [← List.drop_drop, List.drop_left, List.drop_append_of_le_length (by omega)]
  rw [hdrop]
  constructor
  · intro h
    refine List.prefix_of_prefix_length_le h (List.prefix_append _ b) ?_
    rw [List.length_drop]
    omega
  · intro h
    exact h.trans (List.prefix_append _ b)

theorem standsIn_iff_gaps (ht : '\n' ∉ t) (hw : w ≠ []) :
    StandsIn w t ↔ ∃ m, w <+: (a ++ (t ++ b)).drop m ∧ m + w.length ≤ a.length + t.length ∧
      SkipsTo (a ++ (t ++ b)) a.length m ∧
      SkipsFrom (a ++ (t ++ b)) (m + w.length) (a.length + t.length) := by
  constructor
  · rintro ⟨i, hword, hbefore, hbehind⟩
    have hi : i + w.length ≤ t.length := by
      have hlen := hword.length_le
      have hpos := List.length_pos_iff.2 hw
      rw [List.length_drop] at hlen
      omega
    have hone := oneLine_append (u := a) (w := b) ht
    refine ⟨a.length + i, (prefix_drop_append hi).2 hword, by omega, ?_, ?_⟩
    · cases i with
      | zero => exact .inl rfl
      | succ k =>
          refine .inr ⟨a.length + k, rfl, Nat.le_add_right _ _, ?_, ?_⟩
          · exact fun l hl hlk => hone l hl (by omega)
          · exact (separatorAt_append (by omega)).2 (hbefore k rfl)
    · rcases Nat.eq_or_lt_of_le hi with he | hlt
      · exact .inl (by omega)
      · refine .inr ⟨?_, by omega, by simp, fun l hl hlk => hone l (by omega) hlk⟩
        rw [Nat.add_assoc, separatorAt_append hlt]
        exact hbehind hlt
  · rintro ⟨m, hword, hlen, hbefore, hbehind⟩
    obtain ⟨i, rfl⟩ : ∃ i, m = a.length + i := by
      rcases hbefore with rfl | ⟨k, rfl, hk, _⟩
      · exact ⟨0, rfl⟩
      · exact ⟨k + 1 - a.length, by omega⟩
    refine ⟨i, (prefix_drop_append (by omega)).1 hword, ?_, ?_⟩
    · rintro k rfl
      rcases hbefore with he | ⟨k', he, _, _, hsep⟩
      · omega
      · obtain rfl : k' = a.length + k := by omega
        have hpos := List.length_pos_iff.2 hw
        exact (separatorAt_append (by omega)).1 hsep
    · intro hlt
      rcases hbehind with he | ⟨hsep, _⟩
      · omega
      · rw [Nat.add_assoc, separatorAt_append hlt] at hsep
        exact hsep

end Text

namespace Query

variable {c : Convention} {note : Note} {tags es : List Text} {t w : Text} {i j : Nat}

theorem exists_chain_keyword_iff (hw : IsWord w) (hes : ∀ x ∈ es, IsExtension x)
    (hi : i ≤ t.length) :
    (∃ j, Chain t (keywordsThenExtension (wholeWord w) es) i j) ↔
      Field.keywords.mark <+: t.drop i ∧ ∃ m l, w <+: t.drop m ∧ m + w.length ≤ t.length ∧
        SkipsTo t (i + 2) m ∧ SkipsFrom t (m + w.length) l ∧ t.drop l ∈ es := by
  have htrails := trails_keywords (.word hw)
  have hopen (hne : es ≠ []) : (Pattern.seq [.alt (es.map .literal), .nameEnd]).opening =
      .separator := by
    refine (opening_fileTypes hne).2 fun x hx ch rest he => ?_
    obtain ⟨_, he', _⟩ := hes x hx
    obtain rfl : ch = '.' := by simpa using (List.cons.inj (he.symm.trans he')).1
    decide
  constructor
  · rintro ⟨j, k, l, hstem, hgap, hft⟩
    obtain ⟨hmark, m, hword, rfl, hk, hskip⟩ := (matches_keyword hw hi).1 hstem
    have hl := (MatchesSeq.le hk _ hgap).2
    obtain ⟨_, hft, _⟩ := hft
    have hmem := ((matches_fileTypes hl).1 hft).2
    rw [htrails, hopen (List.ne_nil_of_mem hmem)] at hgap
    exact ⟨hmark, m, l, hword, hk, hskip, matchesSeq_skip_from_word.1 hgap, hmem⟩
  · rintro ⟨hmark, m, l, hword, hk, hskip, hgap, hmem⟩
    have hl := (hgap.le hk).2
    refine ⟨_, m + w.length, l, ?_, ?_, chain_fileTypes hl hmem⟩
    · exact (matches_keyword hw hi).2 ⟨hmark, m, hword, rfl, hk, hskip⟩
    · rw [htrails, hopen (List.ne_nil_of_mem hmem)]
      exact matchesSeq_skip_from_word.2 hgap

theorem finds_keyword_iff (hn : note.Legible) (hlast : c.layout.fields.getLast? = some .keywords)
    (hw : IsWord w) (hes : ∀ x ∈ es, IsExtension x) :
    (∃ i j, i ≤ (note.name c.layout).length ∧
        Chain (note.name c.layout) (keywordsThenExtension (wholeWord w) es) i j) ↔
      note.extension ∈ es ∧ note.keywords ≠ [] ∧ StandsIn w (join ['_'] note.keywords) := by
  have hrow : '\n' ∉ join ['_'] note.keywords := by
    intro hc
    rcases mem_join hc with hc | ⟨k, hk, hc⟩
    · simp at hc
    · exact (hn.keywords k hk).oneLine hc
  have hgaps (u : Text) := standsIn_iff_gaps (a := u ++ Field.keywords.mark)
    (b := note.extension) hrow hw.ne_nil
  have hstart (u : Text) : (u ++ Field.keywords.mark).length = u.length + 2 := by
    simp [Field.mark]
  constructor
  · rintro ⟨i, j, hi, hchain⟩
    obtain ⟨hmark, m, l, hword, hk, hskip, hgap, hmem⟩ :=
      (exists_chain_keyword_iff hw hes hi).1 ⟨j, hchain⟩
    have hle := (hgap.le hk).1
    obtain ⟨hx, rfl⟩ := Note.eq_extension_of_drop hn (hes _ hmem) rfl
    obtain ⟨hne, u, rfl, hfields⟩ := Note.exists_row_of_mark hn hlast hmark
    refine ⟨hx ▸ hmem, hne, (hgaps u).2 ⟨m, ?_⟩⟩
    -- The gap behind the keyword ends at the extension, and so at the end of the row.
    rw [hfields, List.length_append] at hle
    rw [hfields, List.length_append, Note.name_eq_row hfields] at hgap
    rw [← hstart, Note.name_eq_row hfields] at hskip
    rw [Note.name_eq_row hfields] at hword
    exact ⟨hword, hle, hskip, hgap⟩
  · rintro ⟨hmem, hne, hstands⟩
    obtain ⟨u, _, hfields⟩ := Note.exists_row hn hlast
    rw [if_neg hne] at hfields
    obtain ⟨m, hword, hlen, hskip, hgap⟩ := (hgaps u).1 hstands
    rw [← Note.name_eq_row hfields] at hword hskip hgap
    have hname := Note.name_eq_row hfields
    have hu : u.length ≤ (note.name c.layout).length := by simp [hname]
    have hmark : Field.keywords.mark <+: (note.name c.layout).drop u.length := by
      rw [hname, List.append_assoc, List.drop_left]
      exact List.prefix_append _ _
    have hrest : (note.name c.layout).drop ((u ++ Field.keywords.mark).length +
        (join ['_'] note.keywords).length) = note.extension := by
      rw [hname, ← List.append_assoc, ← List.length_append, List.drop_left]
    have hbound : m + w.length ≤ (note.name c.layout).length := by
      rw [hname, List.length_append]
      exact Nat.le_trans hlen (Nat.add_le_add_left (List.prefix_append _ _).length_le _)
    obtain ⟨j, hj⟩ := (exists_chain_keyword_iff hw hes hu).2
      ⟨hmark, m, _, hword, hbound, hstart u ▸ hskip, hgap, hrest ▸ hmem⟩
    exact ⟨u.length, j, hu, hj⟩

/-- In notes of any script: a query for one keyword and for file types matches exactly the notes
with one of the extensions that show the keyword between separators. -/
theorem exists_regex_of_keyword {raw : Text} (hn : note.Legible)
    (hlast : c.layout.fields.getLast? = some .keywords) (hraw : slug .keyword raw ≠ [])
    (hes : extensions c.fileTypes tags = .ok es) (hshape : ∀ x ∈ es, IsExtension x) :
    ∃ r, (ofKeywords (.word raw) tags).regex c slug = .ok r ∧
      (Regex.isMatch r (note.name c.layout) = true ↔ note.extension ∈ es ∧ note.keywords ≠ [] ∧
        StandsIn (slug .keyword raw) (join ['_'] note.keywords)) := by
  have hq := textsOnly_ofKeywords (.word raw) tags
  have hps := (segments_ofKeywords_eq_ok (e := .word raw) hlast).2
    ⟨_, es, Keyword.Expr.wordPattern_of_ne_nil hraw, hes, rfl⟩
  have hp := pattern_eq_ok.2 ⟨_, hps, rfl⟩
  refine ⟨_, regex_of_pattern hq (fun e he => ⟨raw, (Option.some.inj he).symm⟩) hp, ?_⟩
  rw [isMatch_iff_finds, finds_iff_chain hq.anchorFree hps]
  exact finds_keyword_iff hn hlast (isWord_slug_keyword hraw) hshape

def singleKeyword (raw : Text) : Note :=
  ⟨"20240115T090500".toList, none, none, [slug .keyword raw], ".org".toList⟩

theorem singleKeyword_legible {raw : Text} (h : slug .keyword raw ≠ []) :
    (singleKeyword raw).Legible := by
  have hline : '\n' ∉ "20240115T090500".toList := by decide
  have hdigits : ∀ c ∈ "20240115T090500".toList, isDigit c = true ∨ c = 'T' :=
    forall_of_all (by decide)
  refine ⟨⟨rfl, hline, nofun, nofun, ?_, "org".toList, rfl⟩, hdigits, ?_⟩
  · intro k hk
    obtain rfl := List.mem_singleton.1 hk
    exact ⟨h, raw, rfl⟩
  · intro rest he
    cases he
    exact forall_of_all (by decide)

theorem name_singleKeyword (raw : Text) :
    (singleKeyword raw).name Convention.standard.layout =
      "20240115T090500__".toList ++ (slug .keyword raw ++ ".org".toList) := by
  rfl

/-- A keyword is found in another one exactly if it stands there between separators, and so it is
found whole unless a character of the other one is a separator. -/
theorem isMatch_keyword_iff_standsIn (fits : List Regex → Bool) {k k' : Text}
    (hk : slug .keyword k ≠ []) (hk' : slug .keyword k' ≠ []) :
    ∃ r, (ofKeywords (.word k) ["org".toList]).compiled fits .standard slug =
        Regex.compile fits r ∧
      (Regex.isMatch r ("20240115T090500__".toList ++ (slug .keyword k' ++ ".org".toList)) = true ↔
        StandsIn (slug .keyword k) (slug .keyword k')) ∧
      ((∀ c ∈ slug .keyword k', isSeparator c = false) →
        (StandsIn (slug .keyword k) (slug .keyword k') ↔ slug .keyword k = slug .keyword k')) := by
  have hes : extensions Convention.standard.fileTypes ["org".toList] = .ok [".org".toList] := rfl
  have hshape : ∀ x ∈ [".org".toList], IsExtension x := by
    intro x hx
    obtain rfl := List.mem_singleton.1 hx
    exact ⟨"org".toList, rfl, forall_of_all (by decide)⟩
  obtain ⟨r, hr, hmatch⟩ := exists_regex_of_keyword (c := .standard)
    (singleKeyword_legible hk') rfl hk hes hshape
  have hext : (singleKeyword k').extension ∈ [".org".toList] := List.mem_singleton.2 rfl
  have hne : (singleKeyword k').keywords ≠ [] := List.cons_ne_nil _ _
  refine ⟨r, compiled_of_regex hr fits, ?_, standsIn_iff_eq⟩
  rw [← name_singleKeyword, hmatch, and_iff_right hext, and_iff_right hne]
  exact Iff.rfl

theorem isMatch_keyword_iff_standsIn_of_umlauts :
    slug .keyword "Übergröße".toList ≠ [] ∧ slug .keyword "übergröße 2".toList ≠ [] ∧
      ∃ r, (ofKeywords (.word "Übergröße".toList) ["org".toList]).compiled (fun _ => true)
          .standard slug = .ok r ∧
        (Regex.isMatch r ("20240115T090500__".toList ++
            (slug .keyword "übergröße 2".toList ++ ".org".toList)) = true ↔
          StandsIn (slug .keyword "Übergröße".toList) (slug .keyword "übergröße 2".toList)) ∧
        ((∀ c ∈ slug .keyword "übergröße 2".toList, isSeparator c = false) →
          (StandsIn (slug .keyword "Übergröße".toList) (slug .keyword "übergröße 2".toList) ↔
            slug .keyword "Übergröße".toList = slug .keyword "übergröße 2".toList)) := by
  have hk : slug .keyword "Übergröße".toList ≠ [] := by decide
  have hk' : slug .keyword "übergröße 2".toList ≠ [] := by decide
  exact ⟨hk, hk', isMatch_keyword_iff_standsIn _ hk hk'⟩

/-- The numeral `½` belongs to the keyword that it is written in, and still separates the rest. -/
theorem exists_keyword_found_within :
    ∃ (k k' : Text) (r : List Regex), slug .keyword k ≠ [] ∧ slug .keyword k' ≠ [] ∧
      slug .keyword k ≠ slug .keyword k' ∧
      (ofKeywords (.word k) ["org".toList]).regex .standard slug = .ok r ∧
        Regex.isMatch r ("20240115T090500__".toList ++ (slug .keyword k' ++ ".org".toList)) =
          true := by
  refine ⟨"x".toList, "½x".toList, _, ?_, ?_, ?_, by cbv, by cbv⟩ <;> decide

end Query

end NoteQuery
