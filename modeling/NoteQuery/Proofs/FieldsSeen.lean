import NoteQuery.Proofs.Assembly

namespace NoteQuery

namespace Query

variable {c c' : Convention} {normalize : Normalizer} {q q' : Query} {fs : List Field}

/-- The queries ask for the same in a field, or both for nothing. -/
def AgreesOn (q q' : Query) : Field → Prop
  | .identifier => q.identifier = q'.identifier
  | .signature => q.signature = q'.signature
  | .title => q.title = q'.title
  | .keywords => q.keywords = q'.keywords
  | .fileType => q.fileType = q'.fileType

theorem agreesOn_refl (q : Query) (f : Field) : q.AgreesOn q f := by
  cases f <;> rfl

/-- Of the layout, the segment of a field depends on nothing but whether the identifier comes first,
and that only if the identifier is what it is about. -/
theorem segment_congr {f : Field} (h : q.AgreesOn q' f) (hsort : c.sort = c'.sort)
    (htypes : c.fileTypes = c'.fileTypes)
    (hfirst : f = .identifier → q.asks .identifier = true →
      c.layout.isFirst .identifier = c'.layout.isFirst .identifier) :
    q.segment c normalize f = q'.segment c' normalize f := by
  cases f with
  | identifier =>
      have hid : q.identifier = q'.identifier := h
      rw [segment, segment, ← hid]
      cases hv : q.identifier with
      | none => rfl
      | some v =>
          have hlayout := hfirst rfl (by rw [asks, hv]; rfl)
          rw [ifAsked, ifAsked, identifierSegment, identifierSegment, hlayout]
  | signature =>
      have hsig : q.signature = q'.signature := h
      rw [segment, segment, hsig]
  | title =>
      have htitle : q.title = q'.title := h
      rw [segment, segment, htitle]
  | keywords =>
      have hkw : q.keywords = q'.keywords := h
      rw [segment, segment, hkw, hsort]
  | fileType =>
      have hft : q.fileType = q'.fileType := h
      rw [segment, segment, hft, htypes]

theorem segments_congr (h : ∀ f ∈ fs, q.segment c normalize f = q'.segment c' normalize f) :
    q.segments c normalize fs = q'.segments c' normalize fs := by
  induction fs with
  | nil => rfl
  | cons f rest ih =>
      obtain ⟨hf, hrest⟩ := List.forall_mem_cons.1 h
      rw [segments, segments, hf, ih hrest]

theorem asked_of_fields {layout layout' : Layout}
    (h : layout.fields.filter q.asks = layout'.fields.filter q.asks) :
    q.asked layout = q.asked layout' := by
  rw [asked, asked, Layout.visits, Layout.visits, List.filter_append, List.filter_append, h]

/-- For every normaliser, order of the keywords and file types: queries that agree on the fields
that the layout shows come to the same, and so does a query under two layouts that list the fields
it asks for in the same order and, if it asks for an identifier, mark it alike. -/
theorem pattern_noninterference (normalize : Normalizer) (sort : Keyword.SortPolicy)
    (types : FileTypes) :
    (∀ (layout : Layout) (q q' : Query), (∀ f ∈ layout.visits, q.AgreesOn q' f) →
      q.pattern ⟨layout, sort, types⟩ normalize = q'.pattern ⟨layout, sort, types⟩ normalize) ∧
    ∀ (layout layout' : Layout) (q : Query),
      layout.fields.filter q.asks = layout'.fields.filter q.asks →
      (q.asks .identifier = true → layout.isFirst .identifier = layout'.isFirst .identifier) →
      q.pattern ⟨layout, sort, types⟩ normalize = q.pattern ⟨layout', sort, types⟩ normalize := by
  constructor
  · intro layout q q' hagree
    have hsegments : q.segments ⟨layout, sort, types⟩ normalize layout.visits =
        q'.segments ⟨layout, sort, types⟩ normalize layout.visits :=
      segments_congr fun f hf => segment_congr (hagree f hf) rfl rfl fun _ _ => rfl
    rw [pattern, pattern, hsegments]
  · intro layout layout' q hfields hfirst
    have hsegments : q.segments ⟨layout, sort, types⟩ normalize (q.asked layout) =
        q.segments ⟨layout', sort, types⟩ normalize (q.asked layout) :=
      segments_congr fun f _ => segment_congr (agreesOn_refl q f) rfl rfl fun _ => hfirst
    rw [pattern_eq_segments_asked, pattern_eq_segments_asked, hsegments, asked_of_fields hfields]

def overlong : Query :=
  { identifier := some "20240115T0905001".toList
    title := some (.text "Weekly Plan".toList)
    keywords := some (.group .and []) }

def titlesFirst : Layout := ⟨[.title, .signature], by decide, by decide⟩

def yearAndTitle : Query :=
  { identifier := some "2024".toList, title := some (.text "Weekly".toList) }

def signatureFirst : Layout := ⟨[.signature, .identifier, .title], by decide, by decide⟩

def keywordsFirst : Layout := ⟨[.keywords, .identifier, .signature, .title], by decide, by decide⟩

theorem pattern_noninterference_of_overlong :
    overlong.pattern .standard slug = .error (.identifierTooLong 16) ∧
      (∀ f ∈ titlesFirst.visits,
        overlong.AgreesOn (empty.withTitle (.text "Weekly Plan".toList)) f) ∧
      overlong.pattern ⟨titlesFirst, .disabled, .builtin⟩ slug =
        (empty.withTitle (.text "Weekly Plan".toList)).pattern ⟨titlesFirst, .disabled, .builtin⟩
          slug ∧
      signatureFirst.fields.filter yearAndTitle.asks =
        keywordsFirst.fields.filter yearAndTitle.asks ∧
      yearAndTitle.asks .identifier = true ∧
      signatureFirst.isFirst .identifier = keywordsFirst.isFirst .identifier ∧
      yearAndTitle.pattern ⟨signatureFirst, .disabled, .builtin⟩ slug =
        yearAndTitle.pattern ⟨keywordsFirst, .disabled, .builtin⟩ slug := by
  obtain ⟨hqueries, hlayouts⟩ := pattern_noninterference slug .disabled .builtin
  have hagree : ∀ f ∈ titlesFirst.visits,
      overlong.AgreesOn (empty.withTitle (.text "Weekly Plan".toList)) f := by
    simp [titlesFirst, Layout.visits, AgreesOn, overlong, withTitle, empty]
  have hfields : signatureFirst.fields.filter yearAndTitle.asks =
      keywordsFirst.fields.filter yearAndTitle.asks := by decide
  have hfirst : signatureFirst.isFirst .identifier = keywordsFirst.isFirst .identifier := by decide
  exact ⟨rfl, hagree, hqueries titlesFirst _ _ hagree, hfields, rfl, hfirst,
    hlayouts signatureFirst keywordsFirst yearAndTitle hfields fun _ => hfirst⟩

end Query

end NoteQuery
