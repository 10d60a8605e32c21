import NoteQuery.Proofs.AsciiNote
import NoteQuery.Proofs.KeywordReading
import NoteQuery.Proofs.Recall

namespace NoteQuery

open Pattern Regex Text

namespace Note

variable {layout : Layout} {note : Note}

theorem eq_append_keywords (hlast : layout.fields.getLast? = some .keywords) :
    ∃ before, layout.fields = before ++ [.keywords] ∧ .keywords ∉ before := by
  obtain ⟨before, hfields⟩ := List.getLast?_eq_some_iff.1 hlast
  refine ⟨before, hfields, fun hmem => ?_⟩
  have hnodup := layout.nodup
  rw [hfields, List.nodup_append] at hnodup
  exact hnodup.2.2 _ hmem _ (by simp) rfl

theorem exists_row (h : note.Legible) (hlast : layout.fields.getLast? = some .keywords) :
    ∃ u, '_' ∉ u ∧ layout.fields.flatMap (note.segment layout) =
      if note.keywords = [] then u
      else u ++ Field.keywords.mark ++ join ['_'] note.keywords := by
  obtain ⟨before, hfields, hbefore⟩ := eq_append_keywords hlast
  refine ⟨before.flatMap (note.segment layout), sign_not_mem (f := .keywords) h hbefore, ?_⟩
  rw [hfields]
  by_cases hnil : note.keywords = [] <;> simp [segment, hnil, marked]

theorem name_eq_row {u : Text} (hfields : layout.fields.flatMap (note.segment layout) =
      u ++ Field.keywords.mark ++ join ['_'] note.keywords) :
    note.name layout =
      (u ++ Field.keywords.mark) ++ (join ['_'] note.keywords ++ note.extension) := by
  rw [name_eq, hfields, List.append_assoc]

theorem exists_row_of_mark (h : note.Legible) (hlast : layout.fields.getLast? = some .keywords)
    {i : Nat} (hm : Field.keywords.mark <+: (note.name layout).drop i) :
    note.keywords ≠ [] ∧ ∃ u, u.length = i ∧ layout.fields.flatMap (note.segment layout) =
      u ++ Field.keywords.mark ++ join ['_'] note.keywords := by
  obtain ⟨u, hu, hrow⟩ := exists_row h hlast
  have hlow : Field.keywords.sign ∉ [Field.fileType].flatMap (note.segment layout) :=
    sign_not_mem h (by simp)
  have hext : '_' ∉ note.extension := by simpa [segment, Field.sign] using hlow
  by_cases hnil : note.keywords = []
  · have hmem : '_' ∈ note.name layout := List.mem_of_mem_drop (hm.subset (by simp [Field.mark]))
    rw [name_eq, hrow, if_pos hnil] at hmem
    exact absurd hmem (by simp [hu, hext])
  · rw [if_neg hnil] at hrow
    have hspaced : Spaced '_' (join ['_'] note.keywords ++ note.extension) := by
      refine (Spaced.join fun w hw => ?_).append hext
      have hword := isWord_of_mem_keywords h.toCanonical w hw
      exact ⟨hword.ne_nil, fun hc => absurd (hword.alphanumeric _ hc) (by decide)⟩
    refine ⟨hnil, u, ?_, hrow⟩
    rw [name_eq_row hrow, List.append_assoc] at hm
    exact (eq_length_of_pair hu hspaced hm).symm

theorem wordRow_keywords (h : note.Canonical) {u : Text}
    (hfields : layout.fields.flatMap (note.segment layout) =
      u ++ Field.keywords.mark ++ join ['_'] note.keywords) :
    Keyword.WordRow (note.name layout) note.keywords (u.length + 2) := by
  obtain ⟨rest, hext⟩ := h.extension
  have hlow : isAlphanumeric '_' = false := by decide
  have hdot : isAlphanumeric '.' = false := by decide
  have hrow := Keyword.wordRow_join (u := u ++ Field.keywords.mark) (v := note.extension)
    (isWord_of_mem_keywords h) (by simpa [Field.mark] using hlow) (by simpa [hext] using hdot)
  rw [name_eq_row hfields]
  simpa [Field.mark] using hrow

end Note

namespace Query

def ofKeywords (e : Keyword.Expr) (tags : List Text) : Query :=
  { keywords := some e, fileType := some tags }

variable {c : Convention} {note : Note} {e : Keyword.Expr} {tags es : List Text} {p k : Pattern}

theorem textsOnly_ofKeywords (e : Keyword.Expr) (tags : List Text) :
    (ofKeywords e tags).TextsOnly := by
  constructor <;> simp [ofKeywords]

theorem asks_ofKeywords {f : Field} (hk : f ≠ .keywords) (hf : f ≠ .fileType) :
    (ofKeywords e tags).asks f = false := by
  cases f with
  | keywords => exact absurd rfl hk
  | fileType => exact absurd rfl hf
  | _ => rfl

def keywordsThenExtension (k : Pattern) (es : List Text) : List Pattern :=
  [.seq [.literal Field.keywords.mark, .anyRun, k], .seq [.alt (es.map .literal), .nameEnd]]

theorem segments_ofKeywords_eq_ok {ps : List Pattern}
    (hlast : c.layout.fields.getLast? = some .keywords) :
    (ofKeywords e tags).segments c slug c.layout.visits = .ok ps ↔
      ∃ k es, e.pattern slug c.sort = .ok k ∧ extensions c.fileTypes tags = .ok es ∧
        ps = keywordsThenExtension k es := by
  obtain ⟨before, hfields, hbefore⟩ := Note.eq_append_keywords hlast
  have hskip : (ofKeywords e tags).segments c slug before = .ok [] := by
    apply segments_of_not_asked
    intro f hf
    apply asks_ofKeywords
    · rintro rfl
      exact hbefore hf
    · rintro rfl
      exact c.layout.fileType_not_mem (by simp [hfields, hf])
  have hkw : (ofKeywords e tags).segment c slug .keywords =
      (keywordsSegment slug c.sort e).map some := rfl
  have hft : (ofKeywords e tags).segment c slug .fileType =
      (fileTypeSegment c.fileTypes tags).map some := rfl
  rw [Layout.visits, hfields, List.append_assoc, segments_append_eq_ok]
  constructor
  · rintro ⟨xs, ys, hxs, hys, rfl⟩
    rw [hskip] at hxs
    cases hxs
    obtain ⟨here, others, hhere, hothers, rfl⟩ := segments_cons_eq_ok.1 hys
    obtain ⟨last, none, hlast, hnone, rfl⟩ := segments_cons_eq_ok.1 hothers
    cases hnone
    rw [hkw] at hhere
    rw [hft] at hlast
    obtain ⟨s, hs, rfl⟩ := Except.map_eq_ok.1 hhere
    obtain ⟨k, hk, rfl⟩ := Except.map_eq_ok.1 hs
    obtain ⟨s, hs, rfl⟩ := Except.map_eq_ok.1 hlast
    obtain ⟨es, hes, rfl⟩ := fileTypeSegment_eq_ok hs
    exact ⟨k, es, hk, hes, rfl⟩
  · rintro ⟨k, es, hk, hes, rfl⟩
    refine ⟨[], _, hskip, segments_cons_eq_ok.2 ⟨some _, _, ?_, segments_cons_eq_ok.2
      ⟨some _, [], ?_, rfl, rfl⟩, rfl⟩, rfl⟩
    · rw [hkw, keywordsSegment, hk]
      rfl
    · rw [hft, fileTypeSegment, hes]
      rfl

theorem pattern_ofKeywords_eq_ok (hlast : c.layout.fields.getLast? = some .keywords) :
    (ofKeywords e tags).pattern c slug = .ok p ↔
      ∃ k es, e.pattern slug c.sort = .ok k ∧ extensions c.fileTypes tags = .ok es ∧
        p = .separated (keywordsThenExtension k es) := by
  rw [pattern_eq_ok]
  constructor
  · rintro ⟨ps, hps, rfl⟩
    obtain ⟨k, es, hk, hes, rfl⟩ := (segments_ofKeywords_eq_ok hlast).1 hps
    exact ⟨k, es, hk, hes, rfl⟩
  · rintro ⟨k, es, hk, hes, rfl⟩
    exact ⟨_, (segments_ofKeywords_eq_ok hlast).2 ⟨k, es, hk, hes, rfl⟩, rfl⟩

/-- Nothing in the name but its keywords and its extension answers for them. -/
theorem metBy_of_selects (hn : note.Legible) (hlast : c.layout.fields.getLast? = some .keywords)
    (he : e.pattern slug c.sort = .ok k) (hes : ∀ x ∈ es, IsExtension x)
    (h : (Pattern.separated (keywordsThenExtension k es)).Selects (note.name c.layout)) :
    note.extension ∈ es ∧ e.MetBy slug c.sort note.keywords := by
  obtain ⟨i, _, _, _, ⟨_, ⟨rfl, _, hmark⟩, m, ⟨him, hm⟩, b, hb, rfl⟩, l, ⟨hbl, _⟩, _,
    ⟨_, halt, _, ⟨rfl, hend⟩, _⟩, _⟩ := h
  obtain ⟨q, hq, hx⟩ := coversSome_iff.1 halt
  obtain ⟨x, hmem, rfl⟩ := List.mem_map.1 hq
  obtain ⟨hlen, _, hpre⟩ := hx
  have hdrop : (note.name c.layout).drop l = x :=
    (hpre.eq_of_length (by rw [List.length_drop]; omega)).symm
  -- So the gap behind the keywords ends at the extension, and they lie in the row.
  obtain ⟨rfl, rfl⟩ := Note.eq_extension_of_drop hn (hes x hmem) hdrop
  refine ⟨hmem, ?_⟩
  obtain ⟨hne, u, rfl, hfields⟩ := Note.exists_row_of_mark hn hlast hmark
  have hlow : Field.keywords.mark.length = 2 := rfl
  have hlength := Keyword.length_join hne
  simp only [hfields, List.length_append, hlow] at hbl him
  obtain ⟨i, j, hoccurs, _⟩ := Keyword.Expr.occurs_of_covers
    (Note.wordRow_keywords hn.toCanonical hfields) (by omega) hm (by omega) e k he hb
  exact ⟨i, j, hoccurs⟩

theorem extensionsApart_ofKeywords {types : FileTypes}
    (hext : ∀ tag ∈ tags, ∀ x, types.resolve tag = some x → IsExtension x) :
    (ofKeywords e tags).ExtensionsApart types := by
  intro tags' htags tag htag x hx
  cases htags
  obtain ⟨rest, rfl, _⟩ := hext tag htag x hx
  exact ⟨'.', rest, rfl, by decide⟩

theorem not_collides_ofKeywords
    (hext : ∀ tag ∈ tags, ∀ x, c.fileTypes.resolve tag = some x → IsExtension x) :
    ¬ (ofKeywords e tags).Collides c := by
  intro hcol
  obtain ⟨tags', es, htags, hes, ⟨x, hx, ch, rest, rfl, hal⟩, _⟩ := hcol.fileTypes
  obtain ⟨tag, htag, hr⟩ := (resolve_of_mem_extensions hes).1 _ hx
  obtain ⟨ch', rest', he, hch⟩ := extensionsApart_ofKeywords (e := e) hext tags' htags tag htag _ hr
  cases he
  simp [hch] at hal

theorem finds_ofKeywords_iff (hn : note.Ascii) (hlast : c.layout.fields.getLast? = some .keywords)
    (hext : ∀ tag ∈ tags, ∀ x, c.fileTypes.resolve tag = some x → IsExtension x)
    (hp : (ofKeywords e tags).pattern c slug = .ok p) :
    Finds p.toRegex (note.name c.layout) ↔
      (∃ tag ∈ tags, c.fileTypes.resolve tag = some note.extension) ∧
        e.MetBy slug c.sort note.keywords := by
  have hq := textsOnly_ofKeywords e tags
  constructor
  · intro h
    obtain ⟨k, es, hk, hes, rfl⟩ := (pattern_ofKeywords_eq_ok hlast).1 hp
    rw [finds_regex_iff hq.anchorFree (extensionsApart_ofKeywords hext)
      (Note.conventional_name hn) hp] at h
    have hresolve := (resolve_of_mem_extensions hes).1
    have hshape : ∀ x ∈ es, IsExtension x := by
      intro x hx
      obtain ⟨tag, htag, hr⟩ := hresolve x hx
      exact hext tag htag x hr
    obtain ⟨hx, hmet⟩ := metBy_of_selects hn.legible hlast hk hshape h
    exact ⟨hresolve _ hx, hmet⟩
  · rintro ⟨htag, hmet⟩
    apply finds_of_consistent hn.toCanonical hq _ (not_collides_ofKeywords hext) hp
    constructor
    · simp [ofKeywords]
    · simp [ofKeywords]
    · simp [ofKeywords]
    · intro _ e' he
      cases he
      exact hmet
    · intro tags' htags
      cases htags
      exact htag

/-- Where names show the keywords last, a query for keywords and file types matches exactly the
notes with one of the extensions whose keywords are as the expression asks for them: a word is one
keyword, a disjunction one of its children, and the children of a conjunction follow one another. -/
theorem isMatch_ofKeywords_iff (hn : note.Ascii)
    (hlast : c.layout.fields.getLast? = some .keywords)
    (hext : ∀ tag ∈ tags, ∀ x, c.fileTypes.resolve tag = some x → IsExtension x)
    {r : List Regex} (hr : (ofKeywords e tags).regex c slug = .ok r) :
    Regex.isMatch r (note.name c.layout) = true ↔
      (∃ tag ∈ tags, c.fileTypes.resolve tag = some note.extension) ∧
        e.MetBy slug c.sort note.keywords := by
  obtain ⟨p, hp, rfl⟩ := regex_eq_ok hr
  rw [isMatch_iff_finds]
  exact finds_ofKeywords_iff hn hlast hext hp

def readingNote : Note :=
  ⟨"20240115T090500".toList, some "1a".toList, some "on-rust".toList,
    ["agenda".toList, "async".toList, "zig2".toList], ".org".toList⟩

theorem readingNote_ascii : readingNote.Ascii := by
  have hkeyword {k : Text} (hk : k ∈ readingNote.keywords) :
      k = "agenda".toList ∨ k = "async".toList ∨ k = "zig2".toList := by
    rcases List.mem_cons.1 hk with h | hk
    · exact .inl h
    · rcases List.mem_cons.1 hk with h | hk
      · exact .inr (.inl h)
      · exact .inr (.inr (List.mem_singleton.1 hk))
  refine ⟨⟨rfl, by decide, ?_, ?_, ?_, "org".toList, rfl⟩, forall_of_all (by decide),
    ?_, ?_, ?_, ?_⟩
  · intro s hs
    cases hs
    exact ⟨by decide, "1a".toList, by decide⟩
  · intro s hs
    cases hs
    exact ⟨by decide, "on rust".toList, by decide⟩
  · intro k hk
    refine ⟨?_, k, ?_⟩ <;> rcases hkeyword hk with rfl | rfl | rfl <;> decide
  · intro s hs
    cases hs
    exact forall_of_all (by decide)
  · intro s hs
    cases hs
    exact forall_of_all (by decide)
  · intro k hk
    apply forall_of_all
    rcases hkeyword hk with rfl | rfl | rfl <;> decide
  · intro rest he
    cases he
    exact forall_of_all (by decide)

def reading : Keyword.Expr :=
  .group .and [.word "Agenda".toList,
    .group .or [.group .and [.word "zig2".toList, .word "async".toList], .word "Type-3".toList]]

theorem isMatch_ofKeywords_iff_of_readingNote :
    readingNote.Ascii ∧ Convention.standard.layout.fields.getLast? = some .keywords ∧
      (∀ tag ∈ ["text".toList, "org".toList], ∀ x,
        Convention.standard.fileTypes.resolve tag = some x → IsExtension x) ∧
      ∃ r, (ofKeywords reading ["text".toList, "org".toList]).regex .standard slug = .ok r ∧
        (Regex.isMatch r (readingNote.name Convention.standard.layout) = true ↔
          (∃ tag ∈ ["text".toList, "org".toList],
            Convention.standard.fileTypes.resolve tag = some readingNote.extension) ∧
          reading.MetBy slug Convention.standard.sort readingNote.keywords) := by
  have hext : ∀ tag ∈ ["text".toList, "org".toList], ∀ x,
      Convention.standard.fileTypes.resolve tag = some x → IsExtension x := by
    intro tag htag x hx
    rcases List.mem_cons.1 htag with rfl | htag
    · cases hx
      exact ⟨"txt".toList, rfl, forall_of_all (by decide)⟩
    · obtain rfl := List.mem_singleton.1 htag
      cases hx
      exact ⟨"org".toList, rfl, forall_of_all (by decide)⟩
  have hr : ∃ r, (ofKeywords reading ["text".toList, "org".toList]).regex .standard slug = .ok r :=
    ⟨_, by cbv⟩
  obtain ⟨r, hr⟩ := hr
  exact ⟨readingNote_ascii, rfl, hext, r, hr,
    isMatch_ofKeywords_iff readingNote_ascii rfl hext hr⟩

end Query

end NoteQuery
