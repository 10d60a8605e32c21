import NoteQuery.Proofs.KeywordRow
import NoteQuery.Proofs.QuerySegments

namespace NoteQuery

open Pattern Regex Text

/-- The query asks for texts and brings no patterns along. -/
structure Query.TextsOnly (q : Query) : Prop where
  signature : ∀ p, q.signature ≠ some (.pattern p)
  title : ∀ p, q.title ≠ some (.pattern p)

theorem Query.TextsOnly.anchorFree {q : Query} (h : q.TextsOnly) : q.AnchorFree :=
  ⟨fun p hp => absurd hp (h.signature p), fun p hp => absurd hp (h.title p)⟩

def Text.BeginsWord (t : Text) : Prop := ∃ ch rest, t = ch :: rest ∧ isAlphanumeric ch = true

theorem Text.not_beginsWord_iff {t : Text} :
    ¬ t.BeginsWord ↔ ∀ ch rest, t = ch :: rest → isAlphanumeric ch = false := by
  simp [BeginsWord]

namespace Pattern

theorem stem_mark (m : Text) {body : Pattern} (h : body.anchorFree = true) :
    (Pattern.seq [.literal m, body]).stem = m.map .char ++ body.stem := by
  simp only [stem, items, itemsOfSeq, aheadOfSeq, List.append_nil]
  exact congrArg _ (items_eq_stem rfl rfl h).1

theorem stem_literal (w : Text) : (Pattern.literal w).stem = w.map .char := rfl

theorem stem_literal_exactly (w : Text) (n : Nat) :
    (Pattern.seq [.literal w, .anyExactly (n + 1)]).stem = w.map .char ++ [.anyTimes (n + 1)] := by
  simp [stem, items, itemsOfSeq]

theorem itemsOfAlt_literals (left : Edge) (a : Ahead) (es : List Text) :
    (itemsOfAlt left a (es.map .literal)).1 = es.map (fun e => e.map .char) := by
  induction es with
  | nil => rfl
  | cons e rest ih =>
      cases rest with
      | nil => simp [itemsOfAlt, items]
      | cons f more =>
          simp only [List.map_cons] at ih ⊢
          simp [itemsOfAlt, items, ih]

variable {t u v : Text} {i j k : Nat}

theorem matches_fileTypes {es : List Text} (hi : i ≤ t.length) :
    MatchesSeq t (Pattern.seq [.alt (es.map .literal), .nameEnd]).stem i j ↔
      j = t.length ∧ t.drop i ∈ es := by
  have hend {k : Nat} : MatchesSeq t [.veryEnd] k j ↔ k = t.length ∧ k = j := by
    simp [matchesSeq_singleton, Matches]
  cases es with
  | nil => simp [stem, items, itemsOfSeq, MatchesSeq, Matches]
  | cons e rest =>
      have hstem : (Pattern.seq [.alt ((e :: rest).map .literal), .nameEnd]).stem =
          [.group false ((e :: rest).map (fun e => e.map .char))] ++ [.veryEnd] := by
        rw [← itemsOfAlt_literals .separator ⟨.separator, false, false⟩]
        simp [stem, items, itemsOfSeq, aheadOfSeq, firstEdge, trailsWithWordEnd, allTrail,
          Pattern.ahead, isAnyRun]
      rw [hstem, matchesSeq_append]
      constructor
      · rintro ⟨k, hk, hj⟩
        obtain ⟨rfl, rfl⟩ := hend.1 hj
        rw [matchesSeq_singleton, matches_group] at hk
        rcases hk with ⟨hf, _⟩ | ⟨b, hb, hk⟩
        · simp at hf
        · obtain ⟨f, hf, rfl⟩ := List.mem_map.1 hb
          obtain ⟨hlen, _, hpre⟩ := (matchesSeq_chars hi).1 hk
          have he : f = t.drop i := hpre.eq_of_length (by rw [List.length_drop]; omega)
          exact ⟨rfl, he ▸ hf⟩
      · rintro ⟨rfl, hmem⟩
        refine ⟨t.length, ?_, hend.2 ⟨rfl, rfl⟩⟩
        rw [matchesSeq_singleton, matches_group]
        refine .inr ⟨_, List.mem_map.2 ⟨_, hmem, rfl⟩, (matchesSeq_chars hi).2 ⟨?_, ?_, ?_⟩⟩
        · rw [List.length_drop]
          omega
        · exact Nat.le_refl _
        · exact List.prefix_refl _

theorem join_separator {a b : Edge} (ha : a ≠ .closing) (hb : b ≠ .closing) :
    a.join b ≠ .closing ∧ (a.join b = .separator ↔ a = .separator ∧ b = .separator) := by
  cases a <;> cases b <;> simp_all [Edge.join]

theorem firstEdge_literal (e : Text) :
    (Pattern.literal e).firstEdge .separator ≠ .closing ∧
      ((Pattern.literal e).firstEdge .separator = .separator ↔
        ∀ ch rest, e = ch :: rest → isAlphanumeric ch = false) := by
  cases e with
  | nil => simp [firstEdge]
  | cons ch rest => cases h : isAlphanumeric ch <;> simp [firstEdge, Edge.ofChar, h]

theorem firstEdgeOfAlt_literals {es : List Text} (hne : es ≠ []) :
    firstEdgeOfAlt .separator (es.map .literal) ≠ .closing ∧
      (firstEdgeOfAlt .separator (es.map .literal) = .separator ↔
        ∀ e ∈ es, ∀ ch rest, e = ch :: rest → isAlphanumeric ch = false) := by
  induction es with
  | nil => exact absurd rfl hne
  | cons e rest ih =>
      obtain ⟨hclosing, hsep⟩ := firstEdge_literal e
      cases rest with
      | nil => simpa [firstEdgeOfAlt] using ⟨hclosing, hsep⟩
      | cons f more =>
          obtain ⟨hclosing', hsep'⟩ := ih (by simp)
          obtain ⟨hj, hjsep⟩ := join_separator hclosing hclosing'
          refine ⟨hj, hjsep.trans ?_⟩
          rw [hsep, hsep', List.forall_mem_cons (a := e)]

theorem opening_eq_firstEdge (es : List Text) :
    (Pattern.seq [.alt (es.map .literal), .nameEnd]).opening =
      firstEdgeOfAlt .separator (es.map .literal) := by
  simp [opening, Pattern.ahead, aheadOfSeq, firstEdge]

theorem opening_fileTypes {es : List Text} (hne : es ≠ []) :
    (Pattern.seq [.alt (es.map .literal), .nameEnd]).opening = .separator ↔
      ∀ e ∈ es, ∀ ch rest, e = ch :: rest → isAlphanumeric ch = false := by
  rw [opening_eq_firstEdge]
  exact (firstEdgeOfAlt_literals hne).2

theorem gapItems_of_beginsWord {es : List Text} (h : ∃ e ∈ es, e.BeginsWord) :
    gapItems true false .unknown (Pattern.seq [.alt (es.map .literal), .nameEnd]).opening =
      [.separator, .anyRun] := by
  obtain ⟨e, he, ch, rest, hch, hal⟩ := h
  have hne : es ≠ [] := List.ne_nil_of_mem he
  have hopen : (Pattern.seq [.alt (es.map .literal), .nameEnd]).opening ≠ .separator := by
    intro hsep
    have := (opening_fileTypes hne).1 hsep e he ch rest hch
    simp [hal] at this
  have hclosing := (firstEdgeOfAlt_literals hne).1
  rw [← opening_eq_firstEdge] at hclosing
  generalize (Pattern.seq [.alt (es.map .literal), .nameEnd]).opening = edge at *
  cases edge with
  | separator => exact absurd rfl hopen
  | closing => exact absurd rfl hclosing
  | _ => rfl

theorem matches_mark {m : Text} {body : Pattern} (h : body.anchorFree = true)
    (hm : m <+: t.drop i) (hi : i ≤ t.length) (hbody : MatchesSeq t body.stem (i + m.length) j) :
    MatchesSeq t (Pattern.seq [.literal m, body]).stem i j := by
  rw [stem_mark m h, matchesSeq_append]
  refine ⟨i + m.length, (matchesSeq_chars hi).2 ⟨rfl, ?_, hm⟩, hbody⟩
  have := hm.length_le
  rw [List.length_drop] at this
  omega

theorem matches_literal {w w' : Text} (h : w <+: w') :
    MatchesSeq (u ++ (w' ++ v)) (Pattern.literal w).stem u.length (u.length + w.length) := by
  obtain ⟨x, rfl⟩ := h
  rw [stem_literal, List.append_assoc]
  exact matchesSeq_chars_append u w (x ++ v)

theorem matches_identifier {w id : Text} {n : Nat} {body : Pattern} (hid : '\n' ∉ id)
    (hlen : id.length = w.length + n) (h : w <+: id)
    (hbody : body = .literal w ∧ n = 0 ∨ body = .seq [.literal w, .anyExactly n] ∧ n ≠ 0) :
    MatchesSeq (u ++ (id ++ v)) body.stem u.length (u.length + id.length) := by
  rcases hbody with ⟨rfl, rfl⟩ | ⟨rfl, hn⟩
  · obtain rfl := h.eq_of_length hlen.symm
    exact matches_literal (List.prefix_refl w)
  · obtain ⟨m, rfl⟩ : ∃ m, n = m + 1 := ⟨n - 1, by omega⟩
    rw [stem_literal_exactly, matchesSeq_append]
    refine ⟨u.length + w.length, matches_literal h, ?_⟩
    rw [matchesSeq_singleton]
    refine ⟨by omega, by simp, ?_⟩
    intro k hk hlt hc
    rw [List.getElem?_append_right (by omega), List.getElem?_append_left (by omega)] at hc
    exact hid (List.mem_of_getElem? hc)

end Pattern

namespace Query

variable {c : Convention} {q : Query} {note : Note} {p : Pattern} {u v : Text}

theorem stem_matches_wording (f : Field) {s s' : Text} (h : s <+: s') :
    ∃ k, k ≤ u.length + (Note.marked f (some s')).length ∧
      MatchesSeq (u ++ (Note.marked f (some s') ++ v))
        (Pattern.seq [.literal f.mark, .literal s]).stem u.length k ∧
      ((Pattern.seq [.literal f.mark, .literal s]).trailsWithWordEnd = true → f = .keywords ∧
        SeparatorAt (u ++ (Note.marked f (some s') ++ v)) k) := by
  refine ⟨u.length + f.mark.length + s.length, ?_, ?_, ?_⟩
  · have := h.length_le
    simp only [Note.marked, List.length_append]
    omega
  · refine matches_mark rfl ?_ (by simp) ?_
    · rw [List.drop_left, Note.marked, List.append_assoc]
      exact List.prefix_append _ _
    · have hs := matches_literal (u := u ++ f.mark) (v := v) h
      simpa [Note.marked] using hs
  · intro hf
    cases hf

theorem stem_matches_identifier {layout : Layout} {w : Text} {n : Nat} {body : Pattern}
    (hn : note.Canonical) (hlen : Identifier.width = w.length + n)
    (hbody : body = .literal w ∧ n = 0 ∨ body = .seq [.literal w, .anyExactly n] ∧ n ≠ 0)
    (hpre : w <+: note.identifier)
    (hp : p = if layout.isFirst .identifier then body
      else .seq [.literal Field.identifier.mark, body]) :
    ∃ k, k ≤ u.length + (note.segment layout .identifier).length ∧
      MatchesSeq (u ++ (note.segment layout .identifier ++ v)) p.stem u.length k ∧
      p.trailsWithWordEnd = false := by
  subst hp
  have hfree : body.anchorFree = true := by
    rcases hbody with ⟨rfl, _⟩ | ⟨rfl, _⟩ <;> rfl
  have hidentifier (u : Text) := matches_identifier (u := u) (v := v) hn.identifier_oneLine
    (hn.identifier_length.trans hlen) hpre hbody
  rw [Note.segment]
  split
  · exact ⟨u.length + note.identifier.length, by simp, hidentifier u, trails_eq_false _ hfree⟩
  · refine ⟨u.length + (Field.identifier.mark ++ note.identifier).length, Nat.le_refl _, ?_, ?_⟩
    · refine matches_mark hfree ?_ (by simp) ?_
      · rw [List.drop_left, List.append_assoc]
        exact List.prefix_append _ _
      · simpa [Nat.add_assoc] using hidentifier (u ++ Field.identifier.mark)
    · apply trails_eq_false
      simp [anchorFree, allAnchorFree, hfree]

theorem stem_matches_keywords {layout : Layout} {policy : Keyword.SortPolicy} {e : Keyword.Expr}
    {i j : Nat} {ch : Char} {rest : Text} (hn : note.Canonical)
    (hp : e.pattern slug policy = .ok p) (hmet : e.Occurs slug policy note.keywords i j)
    (hch : ch ∈ ['@', '=', '-', '_', '.']) :
    ∃ k, k ≤ u.length + (note.segment layout .keywords).length ∧
      MatchesSeq (u ++ (note.segment layout .keywords ++ ch :: rest))
        (Pattern.seq [.literal Field.keywords.mark, .anyRun, p]).stem u.length k ∧
      SeparatorAt (u ++ (note.segment layout .keywords ++ ch :: rest)) k := by
  have htree := Keyword.Expr.wordTree_of_pattern (fun _ => isWord_slug_keyword) e p hp
  have hne := Keyword.Expr.ne_nil_of_occurs hp hmet
  have hseg := Note.segment_keywords layout hne
  have hrow : Keyword.Row (u ++ (note.segment layout .keywords ++ ch :: rest)) note.keywords
      (u ++ Field.keywords.mark).length := by
    rw [hseg, List.append_assoc, ← List.append_assoc u]
    exact Keyword.row_join hne (fun w hw => (hn.keywords w hw).oneLine)
      (isSeparator_of_mark hch).1 (by rintro rfl; simp at hch)
  obtain ⟨hij, hj, k, hk, hstem⟩ := Keyword.Expr.spans_of_occurs hrow e p hp hmet
  have hle := Keyword.start_mono note.keywords hj
  have hlen := Keyword.length_join hne
  refine ⟨k, ?_, ?_, hrow.separator_before (by omega) hj hk⟩
  · rw [hseg]
    simp only [List.length_append] at hk ⊢
    omega
  · have hskip := hrow.matches_skip (Nat.zero_le i) (by omega)
    rw [Keyword.start_zero, Nat.add_zero] at hskip
    rw [stem_keywords htree, matchesSeq_append]
    refine ⟨(u ++ Field.keywords.mark).length, ?_, ?_⟩
    · rw [hseg, List.append_assoc, List.length_append]
      exact matchesSeq_chars_append u Field.keywords.mark _
    · rw [matchesSeq_append]
      exact ⟨_, hskip, hstem⟩

/-- Where a field is shown in the name of a consistent note, the stem of its segment matches, and
ends no later than the field; only the keywords end with a word, and a separator stands behind. -/
theorem stem_matches_segment (hn : note.Canonical) (hq : q.TextsOnly) (hc : note.Consistent c q)
    {f : Field} (hf : f ∈ c.layout.fields) (hp : q.segment c slug f = .ok (some p))
    (hv : ∃ ch rest, ch ∈ ['@', '=', '-', '_', '.'] ∧ v = ch :: rest) :
    ∃ k, k ≤ u.length + (note.segment c.layout f).length ∧
      MatchesSeq (u ++ (note.segment c.layout f ++ v)) p.stem u.length k ∧
      (p.trailsWithWordEnd = true → f = .keywords ∧
        SeparatorAt (u ++ (note.segment c.layout f ++ v)) k) := by
  cases f with
  | identifier =>
      obtain ⟨w, hw, hp⟩ := ifAsked_eq_ok.1 hp
      obtain ⟨n, body, hlen, hbody, hp⟩ := identifierSegment_eq_ok hp
      obtain ⟨k, hk, hstem, hfree⟩ :=
        stem_matches_identifier hn hlen hbody (hc.identifier hf w hw) hp
      exact ⟨k, hk, hstem, fun htrails => absurd htrails (by simp [hfree])⟩
  | signature =>
      obtain ⟨w, hw, hp⟩ := ifAsked_eq_ok.1 hp
      cases w with
      | pattern p => exact absurd hw (hq.signature p)
      | text raw =>
          cases hp
          obtain ⟨s, hs, hpre⟩ := hc.signature hf raw hw
          rw [Note.segment, hs]
          exact stem_matches_wording .signature hpre
  | title =>
      obtain ⟨w, hw, hp⟩ := ifAsked_eq_ok.1 hp
      cases w with
      | pattern p => exact absurd hw (hq.title p)
      | text raw =>
          cases hp
          obtain ⟨s, hs, hpre⟩ := hc.title hf raw hw
          rw [Note.segment, hs]
          exact stem_matches_wording .title hpre
  | keywords =>
      obtain ⟨e, he, hp⟩ := ifAsked_eq_ok.1 hp
      obtain ⟨kp, hkp, rfl⟩ := Except.map_eq_ok.1 hp
      obtain ⟨i, j, hmet⟩ := hc.keywords hf e he
      obtain ⟨ch, rest, hch, rfl⟩ := hv
      obtain ⟨k, hk, hstem, hsep⟩ := stem_matches_keywords hn hkp hmet hch
      exact ⟨k, hk, hstem, fun _ => ⟨rfl, hsep⟩⟩
  | fileType => exact absurd hf c.layout.fileType_not_mem

end Query

end NoteQuery
