import NoteQuery.Keyword.Occurrence
import NoteQuery.Proofs.Runs
import NoteQuery.Query.Pattern

namespace NoteQuery

open Text

def IsSlug (kind : SlugKind) (s : Text) : Prop := s ≠ [] ∧ ∃ raw, slug kind raw = s

/-- A note with a complete identifier, slugs for everything that is shown, and an extension. -/
structure Note.Canonical (note : Note) : Prop where
  identifier_length : note.identifier.length = Identifier.width
  identifier_oneLine : '\n' ∉ note.identifier
  signature : ∀ s, note.signature = some s → IsSlug .signature s
  title : ∀ s, note.title = some s → IsSlug .title s
  keywords : ∀ k ∈ note.keywords, IsSlug .keyword k
  extension : ∃ rest, note.extension = '.' :: rest

/-- Every field that the layout shows is as the query asks for it, and so is the extension. -/
structure Note.Consistent (c : Convention) (q : Query) (note : Note) : Prop where
  identifier : .identifier ∈ c.layout.fields → ∀ v, q.identifier = some v → v <+: note.identifier
  signature : .signature ∈ c.layout.fields → ∀ raw, q.signature = some (.text raw) →
    ∃ s, note.signature = some s ∧ slug .signature raw <+: s
  title : .title ∈ c.layout.fields → ∀ raw, q.title = some (.text raw) →
    ∃ s, note.title = some s ∧ slug .title raw <+: s
  keywords : .keywords ∈ c.layout.fields → ∀ e, q.keywords = some e →
    e.MetBy slug c.sort note.keywords
  fileType : ∀ tags, q.fileType = some tags →
    ∃ tag ∈ tags, c.fileTypes.resolve tag = some note.extension

def SlugKind.joiner : SlugKind → Text
  | .signature => ['=']
  | .title => ['-']
  | .keyword => []

theorem mem_slug {kind : SlugKind} {raw : Text} {c : Char} (h : c ∈ slug kind raw) :
    isAlphanumeric c = true ∨ c ∈ kind.joiner := by
  have hrun {sep : Text} (h : c ∈ join sep raw.words) : isAlphanumeric c = true ∨ c ∈ sep := by
    rcases mem_join h with h | ⟨t, ht, h⟩
    · exact .inr h
    · exact .inl ((mem_runs ht).2 c h)
  cases kind with
  | signature => exact hrun h
  | title => exact hrun h
  | keyword => exact .inl (List.mem_filter.1 h).2

theorem IsSlug.mem {kind : SlugKind} {s : Text} (h : IsSlug kind s) {c : Char} (hc : c ∈ s) :
    isAlphanumeric c = true ∨ c ∈ kind.joiner := by
  obtain ⟨_, raw, rfl⟩ := h
  exact mem_slug hc

theorem IsSlug.oneLine {kind : SlugKind} {s : Text} (h : IsSlug kind s) : '\n' ∉ s := by
  have hn : isAlphanumeric '\n' = false := by decide
  intro hc
  rcases h.mem hc with hc | hc
  · simp [hn] at hc
  · cases kind <;> simp [SlugKind.joiner] at hc

namespace Note

variable {layout : Layout} {note : Note}

theorem segment_oneLine (h : note.Canonical) {f : Field} (hf : f ≠ .fileType) :
    '\n' ∉ note.segment layout f := by
  have hmarked {f : Field} {kind : SlugKind} {s : Option Text} (hm : '\n' ∉ f.mark)
      (hs : ∀ u, s = some u → IsSlug kind u) : '\n' ∉ marked f s := by
    cases s with
    | none => simp [marked]
    | some u => simp [marked, hm, (hs u rfl).oneLine]
  cases f with
  | identifier =>
      have hm : '\n' ∉ Field.identifier.mark := by decide
      rw [segment, List.mem_append]
      rintro (hc | hc)
      · split at hc
        · simp at hc
        · exact hm hc
      · exact h.identifier_oneLine hc
  | signature => exact hmarked (by decide) h.signature
  | title => exact hmarked (by decide) h.title
  | keywords =>
      have hm : '\n' ∉ Field.keywords.mark := by decide
      rw [segment]
      split
      · simp [marked]
      · rw [marked, List.mem_append]
        rintro (hc | hc)
        · exact hm hc
        · rcases mem_join hc with hc | ⟨k, hk, hc⟩
          · simp at hc
          · exact (h.keywords k hk).oneLine hc
  | fileType => exact absurd rfl hf

theorem segment_begins (h : note.Canonical) {f : Field} (hf : layout.isFirst f = false) :
    note.segment layout f = [] ∨
      ∃ ch rest, ch ∈ ['@', '=', '-', '_', '.'] ∧ note.segment layout f = ch :: rest := by
  cases f with
  | identifier => exact .inr ⟨'@', _, by simp, by rw [segment, hf]; rfl⟩
  | signature =>
      cases hs : note.signature with
      | none => exact .inl (by simp [segment, hs, marked])
      | some s => exact .inr ⟨'=', '=' :: s, by simp, by rw [segment, hs]; rfl⟩
  | title =>
      cases hs : note.title with
      | none => exact .inl (by simp [segment, hs, marked])
      | some s => exact .inr ⟨'-', '-' :: s, by simp, by rw [segment, hs]; rfl⟩
  | keywords =>
      rw [segment]
      split
      · exact .inl rfl
      · exact .inr ⟨'_', _, by simp, rfl⟩
  | fileType =>
      obtain ⟨rest, he⟩ := h.extension
      exact .inr ⟨'.', rest, by simp, he⟩

theorem segment_keywords (layout : Layout) (hne : note.keywords ≠ []) :
    note.segment layout .keywords = Field.keywords.mark ++ join ['_'] note.keywords := by
  simp [segment, hne, marked]

theorem rest_begins (h : note.Canonical) {fs : List Field}
    (hfs : ∀ f ∈ fs, layout.isFirst f = false) (hlast : .fileType ∈ fs) :
    ∃ ch rest, ch ∈ ['@', '=', '-', '_', '.'] ∧
      fs.flatMap (note.segment layout) = ch :: rest := by
  induction fs with
  | nil => simp at hlast
  | cons f fs ih =>
      rcases segment_begins h (hfs f (by simp)) with he | ⟨ch, rest, hch, he⟩
      · have hne : f ≠ .fileType := by
          rintro rfl
          obtain ⟨_, hext⟩ := h.extension
          simp [segment, hext] at he
        obtain ⟨ch, rest, hch, hrest⟩ := ih (fun f hf => hfs f (by simp [hf]))
          (by simpa [Ne.symm hne] using hlast)
        exact ⟨ch, rest, hch, by simp [he, hrest]⟩
      · exact ⟨ch, rest ++ fs.flatMap (note.segment layout), hch, by simp [he]⟩

end Note

theorem isSeparator_of_mark {ch : Char} (h : ch ∈ ['@', '=', '-', '_', '.']) :
    isSeparator ch = true ∧ isAlphanumeric ch = false := by
  simp only [List.mem_cons, List.not_mem_nil, or_false] at h
  rcases h with rfl | rfl | rfl | rfl | rfl <;> decide

end NoteQuery
