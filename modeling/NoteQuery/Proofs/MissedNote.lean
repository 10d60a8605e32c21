import Mathlib
import NoteQuery.Proofs.Recall
import NoteQuery.Proofs.Usable

namespace NoteQuery

open Pattern Regex Text

/-- The two queries ask for the same fields, and for the same file types. -/
def Query.Alike (q q' : Query) : Prop := (∀ f, q.asks f = q'.asks f) ∧ q.fileType = q'.fileType

namespace Text

theorem lowerFrom_replicate (b : Bool) (n : Nat) :
    lowerFrom b (List.replicate n 'a') = List.replicate n 'a' := by
  have hlower : lowerAlone 'a' = ['a'] := by decide
  have hsigma : 'a' ≠ 'Σ' := by decide
  induction n generalizing b with
  | zero => rfl
  | succ n ih =>
      rw [List.replicate_succ, lowerFrom, if_neg hsigma, hlower, ih, List.singleton_append]

end Text

theorem slug_replicate (n : Nat) :
    slug .keyword (List.replicate n 'a') = List.replicate n 'a' := by
  have ha : isAlphanumeric 'a' = true := by decide
  rw [slug, lowercase, lowerFrom_replicate]
  simp [ha]

namespace Pattern

variable {t : Text} {i j : Nat}

/-- A single keyword in front of extensions of which one begins with a letter or numeral: the
keyword is followed by a separator that does not belong to the extension. -/
theorem exists_word_of_chain {w : Text} {es : List Text} (hw : IsWord w) (hi : i ≤ t.length)
    (hes : ∃ e ∈ es, e.BeginsWord)
    (h : Chain t [.seq [.literal Field.keywords.mark, .anyRun, wholeWord w],
      .seq [.alt (es.map .literal), .nameEnd]] i j) :
    ∃ m l, w <+: t.drop m ∧ m + w.length < l ∧ OneLine t (m + w.length + 1) l ∧ t.drop l ∈ es := by
  obtain ⟨_, l, hstem, hgap, n, hft, _⟩ := h
  obtain ⟨_, m, hpre, rfl, _⟩ := (matches_keyword hw hi).1 hstem
  rw [trails_keywords (.word hw), gapItems_of_beginsWord hes] at hgap
  obtain ⟨_, ⟨_, rfl⟩, _, ⟨hle, hl, hone⟩, rfl⟩ := hgap
  exact ⟨m, _, hpre, hle, hone, ((matches_fileTypes hl).1 hft).2⟩

end Pattern

theorem eq_length_of_replicate_prefix {v rest : Text} {m n : Nat} (hv : 'a' ∉ v)
    (hn : rest.length < n)
    (h : List.replicate n 'a' <+: (v ++ (List.replicate n 'a' ++ '.' :: rest)).drop m) :
    m = v.length := by
  have hlen := h.length_le
  simp only [List.length_replicate, List.length_drop, List.length_append, List.length_cons] at hlen
  have hat {d : Nat} (hd : d < n) :
      (v ++ (List.replicate n 'a' ++ '.' :: rest))[m + d]? = some 'a' := by
    obtain ⟨x, hx⟩ := h
    have hdrop := congrArg (fun s => s[d]?) hx
    rw [List.getElem?_append_left (by simpa using hd)] at hdrop
    simpa [hd] using hdrop.symm
  rcases Nat.lt_trichotomy m v.length with hlt | heq | hgt
  · have := hat (d := 0) (by omega)
    rw [Nat.add_zero, List.getElem?_append_left hlt] at this
    exact absurd (List.mem_of_getElem? this) hv
  · exact heq
  · have := hat (d := v.length + n - m) (by omega)
    rw [show m + (v.length + n - m) = v.length + n by omega, ← List.append_assoc,
      List.getElem?_append_right (by simp)] at this
    simp at this

namespace Query

variable {c : Convention} {q : Query}

/-- A query for the fields of `q`, with the plainest texts and the word for its keywords. -/
def probe (q : Query) (word : Text) : Query where
  identifier := q.identifier.map fun _ => List.replicate Identifier.width '0'
  signature := q.signature.map fun _ => .text ['0']
  title := q.title.map fun _ => .text ['0']
  keywords := q.keywords.map fun _ => .word word
  fileType := q.fileType

def probed (q : Query) (word ext : Text) : Note where
  identifier := List.replicate Identifier.width '0'
  signature := q.signature.map fun _ => ['0']
  title := q.title.map fun _ => ['0']
  keywords := [word]
  extension := ext

theorem probe_alike (q : Query) (word : Text) : (q.probe word).Alike q := by
  refine ⟨fun f => ?_, rfl⟩
  cases f <;> simp [probe, asks]

theorem probe_textsOnly (q : Query) (word : Text) : (q.probe word).TextsOnly := by
  constructor <;> intro p hp <;> simp [probe] at hp

theorem slug_zero : slug .signature ['0'] = ['0'] ∧ slug .title ['0'] = ['0'] := by decide

theorem probed_canonical {word rest : Text} (hne : word ≠ []) (hw : slug .keyword word = word) :
    (q.probed word ('.' :: rest)).Canonical := by
  refine ⟨by simp [probed], by simp [probed], ?_, ?_, ?_, rest, rfl⟩
  · intro s hs
    obtain ⟨_, _, rfl⟩ := Option.map_eq_some_iff.1 hs
    exact ⟨by simp, _, slug_zero.1⟩
  · intro s hs
    obtain ⟨_, _, rfl⟩ := Option.map_eq_some_iff.1 hs
    exact ⟨by simp, _, slug_zero.2⟩
  · intro k hk
    obtain rfl := List.mem_singleton.1 hk
    exact ⟨hne, k, hw⟩

theorem probed_consistent {word ext : Text} (hw : slug .keyword word = word)
    (hext : ∀ tags, q.fileType = some tags → ∃ tag ∈ tags, c.fileTypes.resolve tag = some ext) :
    (q.probed word ext).Consistent c (q.probe word) := by
  constructor
  · intro _ v hv
    obtain ⟨_, _, rfl⟩ := Option.map_eq_some_iff.1 hv
    exact List.prefix_refl _
  · intro _ raw hraw
    obtain ⟨w, hsome, he⟩ := Option.map_eq_some_iff.1 hraw
    cases he
    exact ⟨['0'], by simp [probed, hsome], [], by simp [slug_zero.1]⟩
  · intro _ raw hraw
    obtain ⟨w, hsome, he⟩ := Option.map_eq_some_iff.1 hraw
    cases he
    exact ⟨['0'], by simp [probed, hsome], [], by simp [slug_zero.2]⟩
  · intro _ e he
    obtain ⟨_, _, rfl⟩ := Option.map_eq_some_iff.1 he
    refine ⟨0, 1, ?_, rfl⟩
    simp [probed, hw]
  · exact hext

theorem not_mem_probed_segment {word ext : Text} {layout : Layout} {f : Field}
    (hk : f ≠ .keywords) (hf : f ≠ .fileType) :
    'a' ∉ (q.probed word ext).segment layout f := by
  cases f with
  | identifier =>
      rw [Note.segment]
      split <;> simp [probed, Field.mark]
  | signature => cases h : q.signature <;> simp [Note.segment, probed, h, Note.marked, Field.mark]
  | title => cases h : q.title <;> simp [Note.segment, probed, h, Note.marked, Field.mark]
  | keywords => exact absurd rfl hk
  | fileType => exact absurd rfl hf

theorem probed_name (word ext : Text) {layout : Layout} {before after : List Field}
    (hfields : layout.fields = before ++ .keywords :: after) (hid : .identifier ∉ after)
    (hasks : ∀ f ∈ after, q.asks f = false) :
    (q.probed word ext).name layout =
        (before.flatMap ((q.probed word ext).segment layout) ++ Field.keywords.mark) ++
          (word ++ ext) ∧
      'a' ∉ before.flatMap ((q.probed word ext).segment layout) ++ Field.keywords.mark := by
  have hnodup := layout.nodup
  have hfile := layout.fileType_not_mem
  rw [hfields] at hnodup hfile
  have hdisjoint := (List.nodup_append.1 hnodup).2.2
  have hkeywords := (List.nodup_cons.1 (List.nodup_append.1 hnodup).2.1).1
  have hafter : after.flatMap ((q.probed word ext).segment layout) = [] := by
    apply List.flatMap_eq_nil_iff.2
    intro f hf
    have hno := hasks f hf
    cases f with
    | identifier => exact absurd hf hid
    | signature =>
        have hnone : q.signature = none := by simpa [asks] using hno
        simp [Note.segment, probed, hnone, Note.marked]
    | title =>
        have hnone : q.title = none := by simpa [asks] using hno
        simp [Note.segment, probed, hnone, Note.marked]
    | keywords => exact absurd hf hkeywords
    | fileType => exact absurd (by simp [hf]) hfile
  constructor
  · rw [Note.name, Layout.visits, hfields, List.append_assoc, List.flatMap_append, List.cons_append,
      List.flatMap_cons, List.flatMap_append, hafter]
    simp [Note.segment, probed, Note.marked, Text.join]
  · rw [List.mem_append, List.mem_flatMap]
    rintro (⟨f, hf, ha⟩ | ha)
    · have hk : f ≠ .keywords := hdisjoint f hf _ (by simp)
      have hft : f ≠ .fileType := by
        rintro rfl
        exact hfile (by simp [hf])
      exact not_mem_probed_segment hk hft ha
    · exact absurd ha (by decide)

theorem exists_probe_pattern {word : Text} (hne : slug .keyword word ≠ [])
    (hft : ∀ tags, q.fileType = some tags → ∃ es, extensions c.fileTypes tags = .ok es) :
    ∃ p, (q.probe word).pattern c slug = .ok p := by
  refine exists_pattern ?_ ?_ hft
  · intro v hv
    obtain ⟨_, _, rfl⟩ := Option.map_eq_some_iff.1 hv
    simp
  · intro e he
    obtain ⟨_, _, rfl⟩ := Option.map_eq_some_iff.1 he
    exact ⟨_, Keyword.Expr.wordPattern_of_ne_nil hne⟩

theorem probe_segment_keywords {word : Text} (hk : q.asks .keywords = true)
    (hne : word ≠ []) (hw : slug .keyword word = word) :
    (q.probe word).segment c slug .keywords =
      .ok (some (.seq [.literal Field.keywords.mark, .anyRun, wholeWord word])) := by
  obtain ⟨e, he⟩ := Option.isSome_iff_exists.1 hk
  obtain ⟨ch, rest, rfl⟩ := List.exists_cons_of_ne_nil hne
  simp [segment, probe, he, ifAsked, keywordsSegment, Keyword.Expr.pattern,
    Keyword.Expr.wordPattern, hw, Except.map]

theorem segment_fileType {tags es : List Text} (htags : q.fileType = some tags)
    (hes : extensions c.fileTypes tags = .ok es) :
    q.segment c slug .fileType = .ok (some (.seq [.alt (es.map .literal), .nameEnd])) := by
  simp [segment, htags, ifAsked, fileTypeSegment, hes, Except.map]

theorem probe_segments {word : Text} {before after : List Field} {tags es : List Text}
    {ps : List Pattern} (hfields : c.layout.fields = before ++ .keywords :: after)
    (hasks : ∀ f ∈ after, q.asks f = false) (hk : q.asks .keywords = true)
    (hne : word ≠ []) (hw : slug .keyword word = word) (htags : q.fileType = some tags)
    (hes : extensions c.fileTypes tags = .ok es)
    (hps : (q.probe word).segments c slug c.layout.visits = .ok ps) :
    ∃ xs, ps = xs ++ [.seq [.literal Field.keywords.mark, .anyRun, wholeWord word],
      .seq [.alt (es.map .literal), .nameEnd]] := by
  rw [Layout.visits, hfields, List.append_assoc, List.cons_append] at hps
  obtain ⟨xs, ys, _, hys, rfl⟩ := segments_append_eq_ok.1 hps
  obtain ⟨kw, others, hkw, hothers, rfl⟩ := segments_cons_eq_ok.1 hys
  obtain ⟨as, zs, has, hzs, rfl⟩ := segments_append_eq_ok.1 hothers
  obtain ⟨ft, ns, hft, hns, rfl⟩ := segments_cons_eq_ok.1 hzs
  rw [probe_segment_keywords hk hne hw] at hkw
  rw [segment_fileType (q := q.probe word) htags hes] at hft
  rw [segments_of_not_asked (fun f hf => ((q.probe_alike word).1 f).trans (hasks f hf))] at has
  cases has
  cases hkw
  cases hft
  cases hns
  exact ⟨xs, by simp⟩

/-- Behind the word the gap asks for a separator, and so the dot is not left to the extension. -/
theorem not_finds_probed {rest : Text} {before after : List Field} {tags es : List Text}
    {p : Pattern} (hfields : c.layout.fields = before ++ .keywords :: after)
    (hid : .identifier ∉ after) (hasks : ∀ f ∈ after, q.asks f = false)
    (hk : q.asks .keywords = true) (htags : q.fileType = some tags)
    (hes : extensions c.fileTypes tags = .ok es)
    (hword : ∃ e ∈ es, ∃ ch rest, e = ch :: rest ∧ isAlphanumeric ch = true)
    (hnone : ∀ between, ∀ f ∈ es, '\n' ∉ between → rest ≠ between ++ f)
    (hp : (q.probe (List.replicate (rest.length + 1) 'a')).pattern c slug = .ok p) :
    ¬ Finds p.toRegex
      ((q.probed (List.replicate (rest.length + 1) 'a') ('.' :: rest)).name c.layout) := by
  obtain ⟨ps, hps, rfl⟩ := pattern_eq_ok.1 hp
  obtain ⟨hname, hv⟩ := probed_name (List.replicate (rest.length + 1) 'a') ('.' :: rest)
    hfields hid hasks
  have hslug := slug_replicate (rest.length + 1)
  have hne : List.replicate (rest.length + 1) 'a' ≠ [] := by simp
  rw [finds_iff_chain (probe_textsOnly q _).anchorFree hps, hname]
  have hisWord : IsWord (List.replicate (rest.length + 1) 'a') := by
    refine ⟨hne, fun ch hch => ?_⟩
    rw [List.eq_of_mem_replicate hch]
    decide
  generalize hV : before.flatMap _ ++ Field.keywords.mark = v at hv
  rintro ⟨i, j, hi, hchain⟩
  obtain ⟨xs, rfl⟩ := probe_segments hfields hasks hk hne hslug htags hes hps
  obtain ⟨i', hi', hchain⟩ := exists_chain_of_append hi hchain
  obtain ⟨m, l, hpre, hml, hone, hdrop⟩ :=
    exists_word_of_chain hisWord hi' hword hchain
  obtain rfl := eq_length_of_replicate_prefix hv (Nat.lt_succ_self _) hpre
  -- What the gap takes up of the extension is its dot and the text before the other extension.
  have hsplit : v ++ (List.replicate (rest.length + 1) 'a' ++ '.' :: rest) =
      (v ++ (List.replicate (rest.length + 1) 'a' ++ ['.'])) ++ rest := by simp
  rw [List.length_replicate] at hml hone
  rw [hsplit] at hdrop hone
  obtain ⟨d, rfl⟩ : ∃ d, l = (v ++ (List.replicate (rest.length + 1) 'a' ++ ['.'])).length + d :=
    ⟨l - (v ++ (List.replicate (rest.length + 1) 'a' ++ ['.'])).length, by simp; omega⟩
  rw [List.drop_append, List.drop_eq_nil_of_le (Nat.le_add_right _ _), List.nil_append,
    Nat.add_sub_cancel_left] at hdrop
  refine hnone (rest.take d) (rest.drop d) hdrop ?_ (List.take_append_drop d rest).symm
  intro hc
  obtain ⟨k, hk⟩ := List.mem_iff_getElem?.1 hc
  rw [List.getElem?_take] at hk
  split at hk
  · next hkd =>
    refine hone ((v ++ (List.replicate (rest.length + 1) 'a' ++ ['.'])).length + k) ?_ (by omega) ?_
    · simp
      omega
    · rw [List.getElem?_append_right (Nat.le_add_right _ _), Nat.add_sub_cancel_left]
      exact hk
  · cases hk

/-- Whatever the layout, the order of the keywords and the file types: the queries for the same
fields and file types that ask for texts find all notes consistent with them, exactly if their
keywords do not collide with the extensions. -/
theorem finds_consistent_iff (c : Convention) (q : Query) :
    (∀ (q' : Query) (note : Note) (r : List Regex), q'.Alike q → q'.TextsOnly → note.Canonical →
      note.Consistent c q' → q'.regex c slug = .ok r →
        Regex.isMatch r (note.name c.layout) = true) ↔
      ¬ q.Collides c := by
  constructor
  · intro h hcol
    obtain ⟨hk, ⟨before, after, hfields, hid, hasks⟩, tags, es, htags, hes, hword, rest, hmem,
      hnone⟩ := hcol
    have hslug := slug_replicate (rest.length + 1)
    have hne : List.replicate (rest.length + 1) 'a' ≠ [] := by simp
    obtain ⟨p, hp⟩ := exists_probe_pattern (c := c) (q := q) (hslug.symm ▸ hne) (by
      intro tags' htags'
      obtain rfl : tags = tags' := Option.some.inj (htags.symm.trans htags')
      exact ⟨es, hes⟩)
    have hregex := regex_of_pattern (probe_textsOnly q _) (by
      intro e he
      obtain ⟨_, _, rfl⟩ := Option.map_eq_some_iff.1 he
      exact ⟨_, rfl⟩) hp
    have hconsistent : (q.probed (List.replicate (rest.length + 1) 'a') ('.' :: rest)).Consistent c
        (q.probe (List.replicate (rest.length + 1) 'a')) := by
      refine probed_consistent hslug (fun tags' htags' => ?_)
      obtain rfl : tags = tags' := Option.some.inj (htags.symm.trans htags')
      exact (resolve_of_mem_extensions hes).1 _ hmem
    have hfound := h _ _ _ (probe_alike q _) (probe_textsOnly q _) (probed_canonical hne hslug)
      hconsistent hregex
    exact not_finds_probed hfields hid hasks hk htags hes hword hnone hp (isMatch_iff_finds.1 hfound)
  · intro hcol q' note r halike hq hn hc hr
    obtain ⟨p, hp, rfl⟩ := regex_eq_ok hr
    have hcol' : ¬ q'.Collides c := by
      rintro ⟨hk, ⟨before, after, hfields, hid, hasks⟩, tags, es, htags, hes, hclash⟩
      refine hcol ⟨(halike.1 _).symm.trans hk, ⟨before, after, hfields, hid, ?_⟩,
        tags, es, halike.2.symm.trans htags, hes, hclash⟩
      intro f hf
      exact (halike.1 f).symm.trans (hasks f hf)
    exact isMatch_iff_finds.2 (finds_of_consistent hn hq hc hcol' hp)

def undotted : Convention :=
  ⟨.standard, .disabled, .withOverrides [("plain".toList, "txt".toList)]⟩

theorem exists_consistent_not_found :
    ∃ (q : Query) (note : Note) (r : List Regex), q.TextsOnly ∧ note.Canonical ∧
      note.Consistent undotted q ∧ q.regex undotted slug = .ok r ∧
        Regex.isMatch r (note.name undotted.layout) = false := by
  refine ⟨{ keywords := some (.word "rust".toList)
            fileType := some ["plain".toList, "org".toList] },
    ⟨"20240115T090500".toList, none, none, ["rust".toList], ".org".toList⟩, _,
    ⟨by simp, by simp⟩, ?_, ?_, by cbv, by cbv⟩
  · refine ⟨rfl, by decide, by simp, by simp, ?_, "org".toList, rfl⟩
    intro k hk
    obtain rfl := List.mem_singleton.1 hk
    exact ⟨by decide, "rust".toList, by decide⟩
  · refine ⟨by simp, by simp, by simp, ?_, ?_⟩
    · intro _ e he
      cases he
      exact ⟨0, 1, by decide, rfl⟩
    · intro tags htags
      cases htags
      exact ⟨"org".toList, by simp, rfl⟩

end Query

end NoteQuery
