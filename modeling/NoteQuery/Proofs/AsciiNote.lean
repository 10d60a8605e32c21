import NoteQuery.Proofs.LegibleNote

namespace NoteQuery

open Text

/-- A canonical note with ASCII letters and numerals, and only digits and `T` in its identifier. -/
structure Note.Ascii (note : Note) : Prop extends Note.Canonical note where
  identifier_chars : ∀ c ∈ note.identifier, isDigit c = true ∨ c = 'T'
  signature_ascii : ∀ s, note.signature = some s → ∀ c ∈ s, c.toNat < 128
  title_ascii : ∀ s, note.title = some s → ∀ c ∈ s, c.toNat < 128
  keywords_ascii : ∀ k ∈ note.keywords, ∀ c ∈ k, c.toNat < 128
  extension_chars : ∀ rest, note.extension = '.' :: rest →
    ∀ c ∈ rest, c.toNat < 128 ∧ isAlphanumeric c = true

namespace Note

variable {layout : Layout} {note : Note} {f : Field} {c : Char}

theorem Ascii.legible (h : note.Ascii) : note.Legible :=
  ⟨h.toCanonical, h.identifier_chars, fun rest he c hc => (h.extension_chars rest he c hc).2⟩

theorem Shows.ascii (h : note.Ascii) (hc : note.Shows c f) : c.toNat < 128 := by
  cases hc with
  | mark hc => exact (mark_chars hc).1
  | identifier hc =>
      rcases h.identifier_chars c hc with hd | rfl
      · exact (isAlphanumeric_of_isDigit hd).1
      · decide
  | signature hs hc => exact h.signature_ascii _ hs c hc
  | title hs hc => exact h.title_ascii _ hs c hc
  | keyword hk hc => exact h.keywords_ascii _ hk c hc
  | extension hc =>
      obtain ⟨rest, he⟩ := h.extension
      rw [he] at hc
      rcases List.mem_cons.1 hc with rfl | hc
      · decide
      · exact (h.extension_chars rest he c hc).1

theorem conventional_name (h : note.Ascii) : (note.name layout).Conventional := by
  have hshows : ∀ c ∈ note.name layout, ∃ f, note.Shows c f := by
    intro c hc
    obtain ⟨f, _, hc⟩ := List.mem_flatMap.1 hc
    exact ⟨f, shows_of_mem_segment hc⟩
  constructor
  · intro hc
    obtain ⟨f, hf⟩ := hshows _ hc
    rcases hf.sign h.legible with hal | hs
    · exact absurd hal (by decide)
    · cases f <;> exact absurd hs (by decide)
  · intro c hc
    obtain ⟨f, hf⟩ := hshows c hc
    exact isSeparator_of_ascii (hf.ascii h)

end Note

end NoteQuery
