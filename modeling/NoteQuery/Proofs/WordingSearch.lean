import NoteQuery.Proofs.LegibleNote
import NoteQuery.Proofs.Recall
import NoteQuery.Proofs.Usable

namespace NoteQuery

open Pattern Regex Text

theorem Text.prefix_of_not_mem {s s' rest : Text} {d : Char} (hd : d ∉ s)
    (h : s <+: s' ++ d :: rest) : s <+: s' := by
  have hle : s.length ≤ s'.length := by
    refine Nat.le_of_not_lt (fun hlt => hd ?_)
    have hlonger : s' ++ [d] <+: s := by
      apply List.prefix_of_prefix_length_le _ h
      · simpa using Nat.succ_le_of_lt hlt
      · exact ⟨rest, by simp⟩
    exact hlonger.subset (by simp)
  exact List.prefix_of_prefix_length_le h (List.prefix_append _ _) hle

/-- A marked beginning is found nowhere but in the segment that has the mark. -/
theorem Note.exists_shown_of_prefix {layout : Layout} {note : Note} {f : Field} (h : note.Legible)
    (hf : f ∈ layout.visits) (hmark : f.mark = [f.sign, f.sign]) {shown : Option Text}
    (hseg : note.segment layout f = marked f shown)
    (hspaced : ∀ s', shown = some s' → Spaced f.sign s') {s : Text}
    (hs : ∀ c ∈ s, isAlphanumeric c = true ∨ c = f.sign) {i : Nat}
    (hpre : f.mark ++ s <+: (note.name layout).drop i) : ∃ s', shown = some s' ∧ s <+: s' := by
  obtain ⟨u, hname, hu, hbehind⟩ := name_split h hf
  have hne : f ≠ .fileType := by
    rintro rfl
    simp [Field.mark] at hmark
  obtain ⟨ch, rest, hch, hrest⟩ := head_behind h.toCanonical hf hne
  have hpair : [f.sign, f.sign] <+: (note.name layout).drop i :=
    (hmark ▸ List.prefix_append _ s : [f.sign, f.sign] <+: f.mark ++ s).trans hpre
  cases shown with
  | none =>
      have hmem := List.mem_of_mem_drop (hpair.subset (by simp : f.sign ∈ [f.sign, f.sign]))
      rw [hname, hseg, marked, List.nil_append] at hmem
      exact absurd hmem (by simp [hu, hbehind])
  | some s' =>
      have hsplit : note.name layout = u ++ (f.sign :: f.sign :: (s' ++ note.behind layout f)) := by
        rw [hname, hseg, marked, hmark]
        simp
      rw [hsplit] at hpair hpre
      obtain rfl := eq_length_of_pair hu ((hspaced s' rfl).append hbehind) hpair
      have hch' : ch ∉ s := by
        intro hc
        rcases hs ch hc with hal | he
        · simp [(isSeparator_of_mark hch).2] at hal
        · exact hbehind (by simp [hrest, he])
      have hshown : s <+: s' ++ ch :: rest := by
        rw [List.drop_left, hmark] at hpre
        simpa [List.cons_prefix_cons, hrest] using hpre
      exact ⟨s', rfl, prefix_of_not_mem hch' hshown⟩

namespace Query

variable {c : Convention} {q : Query} {note : Note} {p : Pattern} {ps : List Pattern} {t : Text}

theorem exists_matches_of_finds (hq : q.AnchorFree)
    (hps : q.segments c slug c.layout.visits = .ok ps) (h : Finds (Pattern.separated ps).toRegex t)
    {f : Field} (hf : f ∈ c.layout.visits) (hseg : q.segment c slug f = .ok (some p)) :
    ∃ l k, l ≤ t.length ∧ MatchesSeq t p.stem l k := by
  obtain ⟨i, j, hi, hchain⟩ := (finds_iff_chain hq hps).1 h
  exact exists_matches_of_chain hi hchain (segment_mem hps hf hseg)

theorem exists_shown_of_finds (hn : note.Legible) (hq : q.AnchorFree)
    (hps : q.segments c slug c.layout.visits = .ok ps)
    (h : Finds (Pattern.separated ps).toRegex (note.name c.layout)) {f : Field}
    (hf : f ∈ c.layout.fields) (hmark : f.mark = [f.sign, f.sign]) {shown : Option Text}
    (hshown : note.segment c.layout f = Note.marked f shown)
    (hspaced : ∀ s', shown = some s' → Spaced f.sign s') {s : Text}
    (hs : ∀ c ∈ s, isAlphanumeric c = true ∨ c = f.sign)
    (hseg : q.segment c slug f = .ok (some (.seq [.literal f.mark, .literal s]))) :
    ∃ s', shown = some s' ∧ s <+: s' := by
  have hvisit : f ∈ c.layout.visits := by simp [Layout.visits, hf]
  obtain ⟨l, k, hl, hm⟩ := exists_matches_of_finds hq hps h hvisit hseg
  rw [stem_mark f.mark rfl, stem_literal, ← List.map_append] at hm
  obtain ⟨_, _, hpre⟩ := (matchesSeq_chars hl).1 hm
  exact Note.exists_shown_of_prefix hn hvisit hmark hshown hspaced hs hpre

theorem consistent_of_finds (hn : note.Legible) (hq : q.TextsOnly)
    (hid : q.asks .identifier = false) (hkw : q.asks .keywords = false)
    (hext : ∀ tags, q.fileType = some tags →
      ∀ tag ∈ tags, ∀ x, c.fileTypes.resolve tag = some x → IsExtension x)
    (hp : q.pattern c slug = .ok p) (h : Finds p.toRegex (note.name c.layout)) :
    note.Consistent c q := by
  obtain ⟨ps, hps, rfl⟩ := pattern_eq_ok.1 hp
  constructor
  · intro _ v hv
    simp [asks, hv] at hid
  · intro hf raw hraw
    apply exists_shown_of_finds hn hq.anchorFree hps h hf rfl rfl
    · intro s hs
      exact IsSlug.spaced.1 (hn.signature s hs)
    · intro ch hch
      simpa [SlugKind.joiner, Field.sign] using mem_slug hch
    · simp [segment, hraw, ifAsked, wordingSegment, Except.map]
  · intro hf raw hraw
    apply exists_shown_of_finds hn hq.anchorFree hps h hf rfl rfl
    · intro s hs
      exact IsSlug.spaced.2 (hn.title s hs)
    · intro ch hch
      simpa [SlugKind.joiner, Field.sign] using mem_slug hch
    · simp [segment, hraw, ifAsked, wordingSegment, Except.map]
  · intro _ e he
    simp [asks, he] at hkw
  · intro tags htags
    have hvisit : .fileType ∈ c.layout.visits := by simp [Layout.visits]
    obtain ⟨s, hs⟩ : ∃ s, q.segment c slug .fileType = .ok s := by
      obtain ⟨_, _, _, hrest, _⟩ := segments_append_eq_ok.1 hps
      obtain ⟨s, _, hs, _⟩ := segments_cons_eq_ok.1 hrest
      exact ⟨s, hs⟩
    rw [segment, htags, ifAsked] at hs
    obtain ⟨p, hp, rfl⟩ := Except.map_eq_ok.1 hs
    obtain ⟨es, hes, rfl⟩ := fileTypeSegment_eq_ok hp
    obtain ⟨l, k, hl, hm⟩ := exists_matches_of_finds hq.anchorFree hps h hvisit
      (by rw [segment, htags, ifAsked, hp]; rfl)
    have hmem := ((matches_fileTypes hl).1 hm).2
    obtain ⟨tag, htag, hr⟩ := (resolve_of_mem_extensions hes).1 _ hmem
    have hx := (Note.eq_extension_of_drop hn (hext tags htags tag htag _ hr) rfl).1
    exact ⟨tag, htag, hx ▸ hr⟩

/-- Whatever the layout: a query for a signature, a title and file types, or for some of them,
matches exactly the notes that are consistent with it. -/
theorem isMatch_iff_consistent (fits : List Regex → Bool) (hn : note.Legible) (hq : q.TextsOnly)
    (hid : q.asks .identifier = false) (hkw : q.asks .keywords = false)
    (hext : ∀ tags, q.fileType = some tags →
      ∀ tag ∈ tags, ∃ x, c.fileTypes.resolve tag = some x ∧ IsExtension x) :
    ∃ r, q.compiled fits c slug = Regex.compile fits r ∧
      (Regex.isMatch r (note.name c.layout) = true ↔ note.Consistent c q) := by
  have hnoid : ∀ v, q.identifier ≠ some v := fun v hv => by simp [asks, hv] at hid
  have hnokw : ∀ e, q.keywords ≠ some e := fun e he => by simp [asks, he] at hkw
  obtain ⟨p, hp⟩ : ∃ p, q.pattern c slug = .ok p := by
    apply exists_pattern
    · exact fun v hv => absurd hv (hnoid v)
    · exact fun e he => absurd he (hnokw e)
    · intro tags htags
      apply exists_extensions
      intro tag htag
      obtain ⟨x, hx, _⟩ := hext tags htags tag htag
      exact ⟨x, hx⟩
  have hr : q.regex c slug = .ok p.toRegex :=
    regex_of_pattern hq (fun e he => absurd he (hnokw e)) hp
  refine ⟨_, compiled_of_regex hr fits, ?_⟩
  rw [isMatch_iff_finds]
  constructor
  · apply consistent_of_finds hn hq hid hkw _ hp
    intro tags htags tag htag x hx
    obtain ⟨y, hy, hext'⟩ := hext tags htags tag htag
    obtain rfl : y = x := Option.some.inj (hy.symm.trans hx)
    exact hext'
  · intro hc
    refine finds_of_consistent hn.toCanonical hq hc (fun hcol => ?_) hp
    simp [hcol.keywords] at hkw

def titleFirst : Convention :=
  ⟨⟨[.title, .keywords, .identifier, .signature], by decide, by decide⟩, .disabled, .builtin⟩

def surveyNote : Note :=
  ⟨"20240115T090500".toList, some "1a=2".toList, some "überblick-über-½".toList,
    ["größe".toList], ".org".toList⟩

theorem surveyNote_legible : surveyNote.Legible := by
  refine ⟨⟨rfl, by decide, ?_, ?_, ?_, "org".toList, rfl⟩, forall_of_all (by decide), ?_⟩
  · intro s hs
    cases hs
    exact ⟨by decide, "1a 2".toList, by decide⟩
  · intro s hs
    cases hs
    exact ⟨by decide, "Überblick über ½".toList, by decide⟩
  · intro k hk
    obtain rfl := List.mem_singleton.1 hk
    exact ⟨by decide, "Größe".toList, by decide⟩
  · intro rest he
    cases he
    exact forall_of_all (by decide)

def survey : Query :=
  { signature := some (.text "1A".toList)
    title := some (.text "Über".toList)
    fileType := some ["text".toList, "org".toList] }

theorem isMatch_iff_consistent_of_surveyNote :
    surveyNote.Legible ∧ survey.TextsOnly ∧ survey.asks .identifier = false ∧
      survey.asks .keywords = false ∧
      (∀ tags, survey.fileType = some tags →
        ∀ tag ∈ tags, ∃ x, titleFirst.fileTypes.resolve tag = some x ∧ IsExtension x) ∧
      ∃ r, survey.compiled (fun _ => true) titleFirst slug = .ok r ∧
        (Regex.isMatch r (surveyNote.name titleFirst.layout) = true ↔
          surveyNote.Consistent titleFirst survey) := by
  have hq : survey.TextsOnly := by
    constructor <;> intro p hp <;> cases hp
  have hext : ∀ tags, survey.fileType = some tags →
      ∀ tag ∈ tags, ∃ x, titleFirst.fileTypes.resolve tag = some x ∧ IsExtension x := by
    intro tags htags tag htag
    cases htags
    rcases List.mem_cons.1 htag with rfl | htag
    · exact ⟨".txt".toList, rfl, "txt".toList, rfl, forall_of_all (by decide)⟩
    · obtain rfl := List.mem_singleton.1 htag
      exact ⟨".org".toList, rfl, "org".toList, rfl, forall_of_all (by decide)⟩
  exact ⟨surveyNote_legible, hq, rfl, rfl, hext,
    isMatch_iff_consistent _ surveyNote_legible hq rfl rfl hext⟩

end Query

end NoteQuery
