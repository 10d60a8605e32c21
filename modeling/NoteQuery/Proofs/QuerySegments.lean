import NoteQuery.Proofs.KeywordTree
import NoteQuery.Proofs.Segment
import NoteQuery.Query.Pattern

namespace NoteQuery

open Pattern Text

namespace Query

variable {c : Convention} {normalize : Normalizer} {q : Query} {p : Pattern}

/-- The patterns that the query brings along ask nowhere for the start or the end of a word. -/
structure AnchorFree (q : Query) : Prop where
  signature : ∀ p, q.signature = some (.pattern p) → p.anchorFree = true
  title : ∀ p, q.title = some (.pattern p) → p.anchorFree = true

theorem regex_eq_ok {r : List Regex} (h : q.regex c normalize = .ok r) :
    ∃ p, q.pattern c normalize = .ok p ∧ r = p.toRegex := by
  obtain ⟨p, hp, h⟩ := Except.bind_eq_ok.1 h
  rw [Pattern.regex] at h
  split at h
  · cases h
    exact ⟨p, hp, rfl⟩
  · simp at h

theorem compiled_of_regex {r : List Regex} (h : q.regex c normalize = .ok r)
    (fits : List Regex → Bool) : q.compiled fits c normalize = Regex.compile fits r := by
  rw [compiled, h]
  rfl

theorem pattern_eq_ok :
    q.pattern c normalize = .ok p ↔
      ∃ ps, q.segments c normalize c.layout.visits = .ok ps ∧ .separated ps = p :=
  Except.map_eq_ok

theorem segments_cons_eq_ok {f : Field} {fs : List Field} {ps : List Pattern} :
    q.segments c normalize (f :: fs) = .ok ps ↔
      ∃ here others, q.segment c normalize f = .ok here ∧
        q.segments c normalize fs = .ok others ∧ ps = here.toList ++ others := by
  rw [segments]
  exact Except.map₂_eq_ok

theorem mem_segments {fs : List Field} {ps : List Pattern}
    (h : q.segments c normalize fs = .ok ps) (hp : p ∈ ps) :
    ∃ f ∈ fs, q.segment c normalize f = .ok (some p) := by
  induction fs generalizing ps with
  | nil =>
      cases h
      simp at hp
  | cons f rest ih =>
      obtain ⟨here, others, hhere, hothers, rfl⟩ := segments_cons_eq_ok.1 h
      rcases List.mem_append.1 hp with hp | hp
      · obtain rfl : here = some p := by simpa using hp
        exact ⟨f, by simp, hhere⟩
      · obtain ⟨g, hg, hs⟩ := ih hothers hp
        exact ⟨g, by simp [hg], hs⟩

theorem segment_mem {fs : List Field} {ps : List Pattern} {f : Field}
    (h : q.segments c normalize fs = .ok ps) (hf : f ∈ fs)
    (hp : q.segment c normalize f = .ok (some p)) : p ∈ ps := by
  induction fs generalizing ps with
  | nil => simp at hf
  | cons g rest ih =>
      obtain ⟨here, others, hhere, hothers, rfl⟩ := segments_cons_eq_ok.1 h
      apply List.mem_append.2
      rcases List.mem_cons.1 hf with rfl | hf
      · obtain rfl : here = some p := by simpa [hhere] using hp
        exact .inl (by simp)
      · exact .inr (ih hothers hf)

theorem mem_tail_segments {fs : List Field} {ps : List Pattern}
    (h : q.segments c normalize fs = .ok ps) (hp : p ∈ ps.tail) :
    ∃ f ∈ fs.tail, q.segment c normalize f = .ok (some p) := by
  cases fs with
  | nil =>
      cases h
      simp at hp
  | cons f rest =>
      obtain ⟨here, others, hhere, hothers, rfl⟩ := segments_cons_eq_ok.1 h
      apply mem_segments hothers
      cases here with
      | none => exact List.mem_of_mem_tail hp
      | some s => simpa using hp

theorem ifAsked_eq_ok {α : Type} {value : Option α} {seg : α → Except Error Pattern} :
    ifAsked value seg = .ok (some p) ↔ ∃ v, value = some v ∧ seg v = .ok p := by
  cases value <;> simp [ifAsked, Except.map_eq_ok]

theorem segment_of_not_asked {f : Field} (h : q.asks f = false) :
    q.segment c normalize f = .ok none := by
  cases f <;> simp only [asks, Option.isSome_eq_false_iff, Option.isNone_iff_eq_none] at h <;>
    simp [segment, h, ifAsked]

theorem asks_of_segment_eq_none {f : Field} (h : q.segment c normalize f = .ok none) :
    q.asks f = false := by
  have hnone {α : Type} {value : Option α} {seg : α → Except Error Pattern}
      (h : ifAsked value seg = .ok none) : value.isSome = false := by
    cases value with
    | none => rfl
    | some v =>
        obtain ⟨_, _, h⟩ := Except.map_eq_ok.1 h
        cases h
  cases f <;> exact hnone h

theorem asks_of_segment_eq_some {f : Field} (h : q.segment c normalize f = .ok (some p)) :
    q.asks f = true := by
  have hsome {α : Type} {value : Option α} {seg : α → Except Error Pattern}
      (h : ifAsked value seg = .ok (some p)) : value.isSome = true := by
    obtain ⟨_, rfl, _⟩ := ifAsked_eq_ok.1 h
    rfl
  cases f <;> exact hsome h

theorem segments_of_not_asked {fs : List Field} (h : ∀ f ∈ fs, q.asks f = false) :
    q.segments c normalize fs = .ok [] := by
  induction fs with
  | nil => rfl
  | cons f rest ih =>
      refine segments_cons_eq_ok.2 ⟨none, [], segment_of_not_asked (h f (by simp)), ?_, rfl⟩
      exact ih (fun f hf => h f (by simp [hf]))

theorem segments_append_eq_ok {fs gs : List Field} {ps : List Pattern} :
    q.segments c normalize (fs ++ gs) = .ok ps ↔ ∃ xs ys, q.segments c normalize fs = .ok xs ∧
      q.segments c normalize gs = .ok ys ∧ ps = xs ++ ys := by
  induction fs generalizing ps with
  | nil => simp [segments]
  | cons f rest ih =>
      simp only [List.cons_append, segments_cons_eq_ok, ih]
      constructor
      · rintro ⟨here, _, hhere, ⟨xs, ys, hxs, hys, rfl⟩, rfl⟩
        exact ⟨here.toList ++ xs, ys, ⟨here, xs, hhere, hxs, rfl⟩, hys, by simp⟩
      · rintro ⟨_, ys, ⟨here, xs, hhere, hxs, rfl⟩, hys, rfl⟩
        exact ⟨here, xs ++ ys, hhere, ⟨xs, ys, hxs, hys, rfl⟩, by simp⟩

theorem exists_segments {fs : List Field}
    (h : ∀ f ∈ fs, ∃ s, q.segment c normalize f = .ok s) :
    ∃ ps, q.segments c normalize fs = .ok ps := by
  induction fs with
  | nil => exact ⟨[], rfl⟩
  | cons f rest ih =>
      obtain ⟨s, hs⟩ := h f (by simp)
      obtain ⟨ps, hps⟩ := ih (fun f hf => h f (by simp [hf]))
      exact ⟨_, segments_cons_eq_ok.2 ⟨s, ps, hs, hps, rfl⟩⟩

theorem pattern_of_single {before after : List Field} {f : Field}
    (hvisits : c.layout.visits = before ++ f :: after)
    (hbefore : ∀ g ∈ before, q.asks g = false) (hafter : ∀ g ∈ after, q.asks g = false)
    (h : q.segment c normalize f = .ok (some p)) :
    q.pattern c normalize = .ok (.separated [p]) := by
  refine pattern_eq_ok.2 ⟨[p], ?_, rfl⟩
  rw [hvisits]
  have hcons : q.segments c normalize (f :: after) = .ok [p] :=
    segments_cons_eq_ok.2 ⟨some p, [], h, segments_of_not_asked hafter, rfl⟩
  exact segments_append_eq_ok.2 ⟨[], [p], segments_of_not_asked hbefore, hcons, rfl⟩

end Query

theorem Layout.isFirst_of_mem_tail {layout : Layout} {f : Field} (h : f ∈ layout.visits.tail) :
    layout.isFirst f = false := by
  obtain ⟨fields, nodup, hft⟩ := layout
  cases fields with
  | nil => simp [visits] at h
  | cons g rest =>
      simp only [visits, List.cons_append, List.tail_cons, List.mem_append,
        List.mem_singleton] at h
      simp only [isFirst, List.head?_cons]
      rcases h with h | rfl
      · have hne : g ≠ f := fun he => (List.nodup_cons.1 nodup).1 (he ▸ h)
        simp [hne]
      · have hne : g ≠ .fileType := fun he => hft (by simp [he])
        simp [hne]

namespace Pattern

theorem marked_of_literal (ch : Char) (u : Text) (rest : List Pattern) :
    Marked (.seq (.literal (ch :: u) :: rest)) := fun _ => rfl

theorem getElem?_of_covers_literal {t : Text} {i j : Nat} {ch : Char} {u : Text}
    (h : Covers t (.literal (ch :: u)) i j) : t[i]? = some ch := by
  obtain ⟨_, _, v, hv⟩ := h
  have := congrArg List.head? hv
  simpa [List.head?_drop] using this.symm

theorem guarded_of_literal {t : Text} {ch : Char} (hc : isAlphanumeric ch = false) (u : Text)
    (rest : List Pattern) : Guarded t (.seq (.literal (ch :: u) :: rest)) := by
  rintro i j ⟨k, hk, _⟩
  have hi := getElem?_of_covers_literal hk
  refine ⟨by simp [opening, ahead, aheadOfSeq, firstEdge, Edge.ofChar, hc], ?_⟩
  intro d hd
  obtain rfl : ch = d := by simpa [hi] using hd
  exact hc

end Pattern

namespace Query

variable {c : Convention} {normalize : Normalizer} {q : Query} {p : Pattern} {types : FileTypes}

theorem identifierSegment_eq_ok {layout : Layout} {w : Text}
    (h : identifierSegment layout w = .ok p) :
    ∃ n body, Identifier.width = w.length + n ∧
      (body = .literal w ∧ n = 0 ∨ body = .seq [.literal w, .anyExactly n] ∧ n ≠ 0) ∧
      p = if layout.isFirst .identifier then body
        else .seq [.literal Field.identifier.mark, body] := by
  rw [identifierSegment] at h
  split at h
  · simp at h
  · next hw =>
    refine ⟨Identifier.width - w.length, _, by omega, ?_, (Except.ok.inj h).symm⟩
    split
    · exact .inl ⟨rfl, by omega⟩
    · exact .inr ⟨rfl, by omega⟩

theorem resolve_of_mem_extensions {tags es : List Text} (h : extensions types tags = .ok es) :
    (∀ e ∈ es, ∃ tag ∈ tags, types.resolve tag = some e) ∧
      ∀ tag ∈ tags, ∃ e ∈ es, types.resolve tag = some e := by
  induction tags generalizing es with
  | nil =>
      cases h
      simp
  | cons tag rest ih =>
      rw [extensions] at h
      split at h
      · simp at h
      · next e he =>
        obtain ⟨more, hmore, rfl⟩ := Except.map_eq_ok.1 h
        obtain ⟨h₁, h₂⟩ := ih hmore
        constructor
        · intro e' he'
          rcases List.mem_cons.1 he' with rfl | he'
          · exact ⟨tag, by simp, he⟩
          · obtain ⟨tag', ht, hr⟩ := h₁ e' he'
            exact ⟨tag', by simp [ht], hr⟩
        · intro tag' ht
          rcases List.mem_cons.1 ht with rfl | ht
          · exact ⟨e, by simp, he⟩
          · obtain ⟨e', he', hr⟩ := h₂ tag' ht
            exact ⟨e', by simp [he'], hr⟩

theorem fileTypeSegment_eq_ok {tags : List Text} (h : fileTypeSegment types tags = .ok p) :
    ∃ es, extensions types tags = .ok es ∧ p = .seq [.alt (es.map .literal), .nameEnd] := by
  obtain ⟨es, hes, rfl⟩ := Except.map_eq_ok.1 h
  exact ⟨es, hes, rfl⟩

theorem allAnchorFree_literals (es : List Text) : allAnchorFree (es.map .literal) = true := by
  induction es with
  | nil => rfl
  | cons e rest ih => simpa [allAnchorFree, anchorFree] using ih

theorem anchorFree_fileTypes (es : List Text) :
    (Pattern.seq [.alt (es.map .literal), .nameEnd]).anchorFree = true := by
  simp [anchorFree, allAnchorFree, allAnchorFree_literals]

theorem anchorFree_or_keywords {W : Text → Prop}
    (hW : ∀ raw, normalize .keyword raw ≠ [] → W (normalize .keyword raw)) (hq : q.AnchorFree)
    {f : Field} (h : q.segment c normalize f = .ok (some p)) :
    f ≠ .keywords ∧ p.anchorFree = true ∨
      f = .keywords ∧ ∃ k, WordTree W k ∧
        p = .seq [.literal Field.keywords.mark, .anyRun, k] := by
  cases f with
  | identifier =>
      obtain ⟨v, _, hv⟩ := ifAsked_eq_ok.1 h
      obtain ⟨_, body, _, hbody, rfl⟩ := identifierSegment_eq_ok hv
      refine .inl ⟨by simp, ?_⟩
      rcases hbody with ⟨rfl, _⟩ | ⟨rfl, _⟩ <;> split <;> rfl
  | signature =>
      obtain ⟨w, hw, hp⟩ := ifAsked_eq_ok.1 h
      cases hp
      refine .inl ⟨by simp, ?_⟩
      cases w with
      | text raw => rfl
      | pattern p => simp [wordingSegment, anchorFree, allAnchorFree, hq.signature p hw]
  | title =>
      obtain ⟨w, hw, hp⟩ := ifAsked_eq_ok.1 h
      cases hp
      refine .inl ⟨by simp, ?_⟩
      cases w with
      | text raw => rfl
      | pattern p => simp [wordingSegment, anchorFree, allAnchorFree, hq.title p hw]
  | keywords =>
      obtain ⟨e, _, he⟩ := ifAsked_eq_ok.1 h
      obtain ⟨k, hk, rfl⟩ := Except.map_eq_ok.1 he
      have htree := Keyword.Expr.wordTree_of_pattern hW e k hk
      exact .inr ⟨rfl, k, htree, rfl⟩
  | fileType =>
      obtain ⟨tags, _, ht⟩ := ifAsked_eq_ok.1 h
      obtain ⟨es, _, rfl⟩ := fileTypeSegment_eq_ok ht
      exact .inl ⟨by simp, anchorFree_fileTypes es⟩

theorem segment_of_field (hq : q.AnchorFree) {f : Field}
    (h : q.segment c slug f = .ok (some p)) : Segment p := by
  have hW raw (hne : slug .keyword raw ≠ []) := isWord_slug_keyword hne
  rcases anchorFree_or_keywords hW hq h with ⟨_, hfree⟩ | ⟨_, k, htree, rfl⟩
  · exact .plain hfree
  · exact .keywords htree

theorem form_of_field {f : Field} (hf : c.layout.isFirst f = false)
    (h : q.segment c normalize f = .ok (some p)) :
    (∃ ch u rest, isAlphanumeric ch = false ∧ p = .seq (.literal (ch :: u) :: rest)) ∨
      f = .fileType ∧ ∃ tags es, q.fileType = some tags ∧
        extensions c.fileTypes tags = .ok es ∧ p = .seq [.alt (es.map .literal), .nameEnd] := by
  cases f with
  | identifier =>
      obtain ⟨v, _, hv⟩ := ifAsked_eq_ok.1 h
      obtain ⟨_, body, _, _, rfl⟩ := identifierSegment_eq_ok hv
      exact .inl ⟨'@', ['@'], [body], by decide, by simp [hf, Field.mark]⟩
  | signature =>
      obtain ⟨w, _, hp⟩ := ifAsked_eq_ok.1 h
      cases hp
      exact .inl ⟨'=', ['='], _, by decide, rfl⟩
  | title =>
      obtain ⟨w, _, hp⟩ := ifAsked_eq_ok.1 h
      cases hp
      exact .inl ⟨'-', ['-'], _, by decide, rfl⟩
  | keywords =>
      obtain ⟨e, _, he⟩ := ifAsked_eq_ok.1 h
      obtain ⟨k, _, rfl⟩ := Except.map_eq_ok.1 he
      exact .inl ⟨'_', ['_'], _, by decide, rfl⟩
  | fileType =>
      obtain ⟨tags, htags, ht⟩ := ifAsked_eq_ok.1 h
      obtain ⟨es, hes, rfl⟩ := fileTypeSegment_eq_ok ht
      exact .inr ⟨rfl, tags, es, htags, hes, rfl⟩

theorem marked_fileTypes (es : List Text) :
    Marked (.seq [.alt (es.map .literal), .nameEnd]) := by
  have hl : (Pattern.alt (es.map .literal)).leadsWithWordStart = false :=
    leads_eq_false _ (allAnchorFree_literals es)
  intro a
  simp [opening, ahead, aheadOfSeq, firstEdge, isAnyRun, hl]

theorem marked_of_field {f : Field} (hf : c.layout.isFirst f = false)
    (h : q.segment c normalize f = .ok (some p)) : Marked p := by
  rcases form_of_field hf h with ⟨ch, u, rest, _, rfl⟩ | ⟨_, _, es, _, _, rfl⟩
  · exact marked_of_literal ch u rest
  · exact marked_fileTypes es

theorem exists_extensions {tags : List Text}
    (h : ∀ tag ∈ tags, ∃ e, types.resolve tag = some e) : ∃ es, extensions types tags = .ok es := by
  induction tags with
  | nil => exact ⟨[], rfl⟩
  | cons tag rest ih =>
      obtain ⟨e, he⟩ := h tag (by simp)
      obtain ⟨es, hes⟩ := ih (fun tag ht => h tag (by simp [ht]))
      exact ⟨e :: es, by simp [extensions, he, hes, Except.map]⟩

/-- Only an overlong identifier, the keywords and the file types can keep a query from having a
pattern. -/
theorem exists_pattern (hid : ∀ v, q.identifier = some v → v.length ≤ Identifier.width)
    (hkw : ∀ e, q.keywords = some e → ∃ p, e.pattern normalize c.sort = .ok p)
    (hft : ∀ tags, q.fileType = some tags → ∃ es, extensions c.fileTypes tags = .ok es) :
    ∃ p, q.pattern c normalize = .ok p := by
  have hsome {α : Type} {value : Option α} {seg : α → Except Error Pattern}
      (h : ∀ v, value = some v → ∃ p, seg v = .ok p) : ∃ s, ifAsked value seg = .ok s := by
    cases value with
    | none => exact ⟨none, rfl⟩
    | some v =>
        obtain ⟨p, hp⟩ := h v rfl
        exact ⟨some p, by simp [ifAsked, hp, Except.map]⟩
  have hall : ∀ f ∈ c.layout.visits, ∃ s, q.segment c normalize f = .ok s := by
    intro f _
    cases f with
    | identifier =>
        apply hsome
        intro v hv
        rw [identifierSegment, if_neg (Nat.not_lt.2 (hid v hv))]
        exact ⟨_, rfl⟩
    | signature => exact hsome (fun w _ => ⟨_, rfl⟩)
    | title => exact hsome (fun w _ => ⟨_, rfl⟩)
    | keywords =>
        apply hsome
        intro e he
        obtain ⟨p, hp⟩ := hkw e he
        exact ⟨_, by rw [keywordsSegment, hp]; rfl⟩
    | fileType =>
        apply hsome
        intro tags htags
        obtain ⟨es, hes⟩ := hft tags htags
        exact ⟨_, by rw [fileTypeSegment, hes]; rfl⟩
  obtain ⟨ps, hps⟩ := exists_segments hall
  exact ⟨_, pattern_eq_ok.2 ⟨ps, hps, rfl⟩⟩

theorem segment_of_mem (hq : q.AnchorFree) {fs : List Field} {ps : List Pattern}
    (hps : q.segments c slug fs = .ok ps) : ∀ p ∈ ps, Segment p := by
  intro p hp
  obtain ⟨f, _, h⟩ := mem_segments hps hp
  exact segment_of_field hq h

theorem marked_of_mem_tail {ps : List Pattern} (hps : q.segments c slug c.layout.visits = .ok ps) :
    ∀ p ∈ ps.tail, Marked p := by
  intro p hp
  obtain ⟨f, hf, h⟩ := mem_tail_segments hps hp
  exact marked_of_field (Layout.isFirst_of_mem_tail hf) h

theorem finds_iff_chain (hq : q.AnchorFree) {t : Text} {ps : List Pattern}
    (hps : q.segments c slug c.layout.visits = .ok ps) :
    Regex.Finds (Pattern.separated ps).toRegex t ↔ ∃ i j, i ≤ t.length ∧ Chain t ps i j := by
  exact finds_separated (segment_of_mem hq hps) (marked_of_mem_tail hps)

end Query

end NoteQuery
