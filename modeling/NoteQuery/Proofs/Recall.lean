import NoteQuery.Proofs.FieldStem
import NoteQuery.Proofs.Selection

namespace NoteQuery

open Pattern Regex Text

/-- One extension begins with a letter or numeral, and one is a dot with something behind it that on
its line ends with none of them. -/
def ExtensionsClash (es : List Text) : Prop :=
  (∃ e ∈ es, ∃ ch rest, e = ch :: rest ∧ isAlphanumeric ch = true) ∧
    ∃ rest, '.' :: rest ∈ es ∧ ∀ between, ∀ f ∈ es, '\n' ∉ between → rest ≠ between ++ f

def Query.FileTypesClash (types : FileTypes) (q : Query) : Prop :=
  ∃ tags es, q.fileType = some tags ∧ extensions types tags = .ok es ∧ ExtensionsClash es

/-- The keywords that are asked for may stand right before the extension, and the extensions that
are asked for clash. -/
structure Query.Collides (c : Convention) (q : Query) : Prop where
  keywords : q.asks .keywords = true
  last : ∃ before after, c.layout.fields = before ++ .keywords :: after ∧ .identifier ∉ after ∧
    ∀ f ∈ after, q.asks f = false
  fileTypes : q.FileTypesClash c.fileTypes

theorem Layout.isFirst_fileType (layout : Layout) : layout.isFirst .fileType = false := by
  obtain ⟨fields, nodup, hft⟩ := layout
  cases fields with
  | nil => rfl
  | cons f rest =>
      have hne : f ≠ .fileType := fun he => hft (by simp [he])
      simp [isFirst, hne]

namespace Pattern

variable {t : Text} {i j k : Nat}

theorem OneLine.trans (h : OneLine t i j) (h' : OneLine t j k) : OneLine t i k := by
  intro l hl hlk
  rcases Nat.lt_or_ge l j with hlj | hlj
  · exact h l hl hlj
  · exact h' l hlj hlk

theorem oneLine_append {u v w : Text} (hv : '\n' ∉ v) :
    OneLine (u ++ (v ++ w)) u.length (u.length + v.length) := by
  intro k hk hlt hc
  rw [List.getElem?_append_right hk, List.getElem?_append_left (by omega)] at hc
  exact hv (List.mem_of_getElem? hc)

theorem matchesSeq_gap_of_separator {w : Bool} {next : Edge} (hki : k ≤ i) (hi : i ≤ t.length)
    (hone : OneLine t k i)
    (hw : w = true → SeparatorAt t k ∧ (k = i → next = .separator)) :
    MatchesSeq t (gapItems w false .unknown next) k i := by
  cases w with
  | false => exact matchesSeq_singleton.2 ⟨hki, hi, hone⟩
  | true =>
      obtain ⟨hsep, hnext⟩ := hw rfl
      rcases Nat.eq_or_lt_of_le hki with rfl | hlt
      · rw [hnext rfl]
        exact matchesSeq_optional.2 (.inl rfl)
      · have hbody : MatchesSeq t [.separator, .anyRun] k i :=
          ⟨k + 1, ⟨hsep, rfl⟩, i, ⟨hlt, hi, fun l hl hli => hone l (by omega) hli⟩, rfl⟩
        cases next with
        | separator => exact matchesSeq_optional.2 (.inr hbody)
        | closing => exact matchesSeq_either.2 (.inl hbody)
        | _ => exact hbody

theorem chain_fileTypes {es : List Text} (hi : i ≤ t.length) (h : t.drop i ∈ es) :
    Chain t [.seq [.alt (es.map .literal), .nameEnd]] i t.length := by
  refine ⟨t.length, (matches_fileTypes hi).2 ⟨rfl, h⟩, ?_⟩
  rw [trails_eq_false _ (Query.anchorFree_fileTypes es)]
  rfl

theorem matchesSeq_ending_of_separator {w : Bool} (hw : w = true → SeparatorAt t k) :
    ∃ j, MatchesSeq t (if w then Boundary.consumes.endItems else []) k j := by
  cases w with
  | false => exact ⟨k, rfl⟩
  | true =>
      have hbody : MatchesSeq t [.separator] k (k + 1) := matchesSeq_singleton.2 ⟨hw rfl, rfl⟩
      exact ⟨k + 1, matchesSeq_either.2 (.inl hbody)⟩

end Pattern

namespace Query

variable {c : Convention} {q : Query} {note : Note} {t : Text}

/-- Somewhere behind position `a` the segments of the remaining fields `gs` and of the file type
match. If they can only do so at `a` itself, they begin with a separator there, or nothing is left
of the name but an extension that clashes with others. -/
def Follow (c : Convention) (q : Query) (note : Note) (t : Text) (gs : List Field)
    (ps : List Pattern) (a : Nat) : Prop :=
  ∃ i j p more, ps = p :: more ∧ a ≤ i ∧ i ≤ t.length ∧ OneLine t a i ∧ Chain t ps i j ∧
    (i = a → p.opening = .separator ∨
      gs.flatMap (note.segment c.layout) = [] ∧ (∀ g ∈ gs, q.asks g = false) ∧
        q.FileTypesClash c.fileTypes)

theorem extension_mem (hc : note.Consistent c q) {tags es : List Text}
    (htags : q.fileType = some tags) (hes : extensions c.fileTypes tags = .ok es) :
    note.extension ∈ es := by
  obtain ⟨tag, htag, hr⟩ := hc.fileType tags htags
  obtain ⟨e, he, hr'⟩ := (resolve_of_mem_extensions hes).2 tag htag
  obtain rfl : note.extension = e := Option.some.inj (hr.symm.trans hr')
  exact he

theorem follow_fileType (hn : note.Canonical) (hc : note.Consistent c q) {u : Text}
    {ps : List Pattern} (hps : q.segments c slug [.fileType] = .ok ps) (hne : ps ≠ []) :
    Follow c q note (u ++ note.extension) [] ps u.length := by
  obtain ⟨here, others, hhere, hothers, rfl⟩ := segments_cons_eq_ok.1 hps
  cases hothers
  cases here with
  | none => exact absurd rfl hne
  | some p =>
      obtain ⟨tags, htags, hp⟩ := ifAsked_eq_ok.1 hhere
      obtain ⟨es, hes, rfl⟩ := fileTypeSegment_eq_ok hp
      obtain ⟨rest, hext⟩ := hn.extension
      have hmem := extension_mem hc htags hes
      by_cases hsuffix : ∃ between, ∃ f ∈ es, '\n' ∉ between ∧ rest = between ++ f
      · -- An extension behind the dot leaves the dot to the gap.
        obtain ⟨between, f, hf, hbetween, rfl⟩ := hsuffix
        have hu : u ++ note.extension = (u ++ '.' :: between) ++ f := by simp [hext]
        have hle : (u ++ '.' :: between).length ≤ (u ++ note.extension).length := by
          rw [hu]
          simp
        refine ⟨(u ++ '.' :: between).length, _, _, _, rfl, by simp, hle, ?_,
          chain_fileTypes hle ?_, fun hi => by simp at hi⟩
        · rw [hu, List.append_assoc, List.length_append]
          exact oneLine_append (by simpa using hbetween)
        · rw [hu, List.drop_left]
          exact hf
      · have hle : u.length ≤ (u ++ note.extension).length := by simp
        refine ⟨u.length, _, _, _, rfl, Nat.le_refl _, hle, ?_, chain_fileTypes hle ?_, ?_⟩
        · intro k hk hlt
          exact absurd hk (Nat.not_le_of_lt hlt)
        · rw [List.drop_left]
          exact hmem
        · intro _
          rw [opening_fileTypes (List.ne_nil_of_mem hmem)]
          by_cases hword : ∃ e ∈ es, ∃ ch rest, e = ch :: rest ∧ isAlphanumeric ch = true
          · refine .inr ⟨rfl, by simp, tags, es, htags, hes, hword, rest, hext ▸ hmem, ?_⟩
            intro between f hf hbetween he
            exact hsuffix ⟨between, f, hf, hbetween, he⟩
          · refine .inl (fun e he ch rest hch => Bool.eq_false_iff.2 (fun hal => ?_))
            exact hword ⟨e, he, ch, rest, hch, hal⟩

theorem identifier_not_mem_of_empty (hn : note.Canonical) {layout : Layout} {gs : List Field}
    (h : gs.flatMap (note.segment layout) = []) : .identifier ∉ gs := by
  intro hmem
  have hempty := List.flatMap_eq_nil_iff.1 h _ hmem
  have hlen := hn.identifier_length
  rw [Note.segment, List.append_eq_nil_iff] at hempty
  rw [hempty.2] at hlen
  exact absurd hlen (by decide)

theorem exists_chain_cons (hn : note.Canonical) (hq : q.TextsOnly) (hc : note.Consistent c q)
    (hcol : ¬ q.Collides c) (before : List Field) {gs : List Field} {f : Field}
    (hfields : c.layout.fields = before ++ f :: gs) (hgs : ∀ g ∈ gs, c.layout.isFirst g = false)
    {u : Text} {p : Pattern} {others : List Pattern} (hp : q.segment c slug f = .ok (some p))
    (ht : t = u ++ (note.segment c.layout f ++
      (gs.flatMap (note.segment c.layout) ++ note.extension)))
    (hothers : others ≠ [] →
      Follow c q note t gs others (u.length + (note.segment c.layout f).length)) :
    ∃ j, Chain t (p :: others) u.length j := by
  have hf : f ∈ c.layout.fields := by simp [hfields]
  have hfile : f ≠ .fileType := fun he => c.layout.fileType_not_mem (he ▸ hf)
  have hv : ∃ ch rest, ch ∈ ['@', '=', '-', '_', '.'] ∧
      gs.flatMap (note.segment c.layout) ++ note.extension = ch :: rest := by
    have hall : ∀ g ∈ gs ++ [.fileType], c.layout.isFirst g = false := by
      intro g hg
      rcases List.mem_append.1 hg with hg | hg
      · exact hgs g hg
      · exact List.mem_singleton.1 hg ▸ c.layout.isFirst_fileType
    simpa [Note.segment] using Note.rest_begins hn hall (by simp)
  obtain ⟨k, hk, hstem, htrails⟩ := stem_matches_segment (u := u) hn hq hc hf hp hv
  rw [← ht] at hstem htrails
  have hu : u.length ≤ t.length := by simp [ht]
  have huk := (MatchesSeq.le hu _ hstem).1
  cases others with
  | nil =>
      obtain ⟨j, hj⟩ := matchesSeq_ending_of_separator (fun h => (htrails h).2)
      exact ⟨j, k, hstem, hj⟩
  | cons r more =>
      obtain ⟨i, j, _, _, heq, hi, hit, hone, hchain, hopen⟩ := hothers (by simp)
      cases heq
      refine ⟨j, k, i, hstem, matchesSeq_gap_of_separator (by omega) hit ?_ ?_, hchain⟩
      · have hseg : OneLine t u.length (u.length + (note.segment c.layout f).length) := by
          rw [ht]
          exact oneLine_append (Note.segment_oneLine hn hfile)
        exact OneLine.trans (fun l hl hlk => hseg l (by omega) hlk) hone
      · intro h
        obtain ⟨rfl, hsep⟩ := htrails h
        refine ⟨hsep, fun hki => ?_⟩
        rcases hopen (by omega) with hopen | ⟨hempty, hasks, hclash⟩
        · exact hopen
        · have hlast := identifier_not_mem_of_empty hn hempty
          exact absurd ⟨asks_of_segment_eq_some hp, ⟨before, gs, hfields, hlast, hasks⟩, hclash⟩ hcol

theorem opening_of_field {f : Field} {p : Pattern} (hf : c.layout.isFirst f = false)
    (hfile : f ≠ .fileType) (h : q.segment c slug f = .ok (some p)) : p.opening = .separator := by
  rcases form_of_field hf h with ⟨ch, w, rest, hch, rfl⟩ | ⟨he, _⟩
  · simp [opening, Pattern.ahead, aheadOfSeq, firstEdge, Edge.ofChar, hch]
  · exact absurd he hfile

theorem follow_fields (hn : note.Canonical) (hq : q.TextsOnly) (hc : note.Consistent c q)
    (hcol : ¬ q.Collides c) (before : List Field) {gs : List Field}
    (hfields : c.layout.fields = before ++ gs)
    (hgs : ∀ g ∈ gs, c.layout.isFirst g = false) {u : Text} {ps : List Pattern}
    (hps : q.segments c slug (gs ++ [.fileType]) = .ok ps) (hne : ps ≠ [])
    (ht : t = u ++ (gs.flatMap (note.segment c.layout) ++ note.extension)) :
    Follow c q note t gs ps u.length := by
  induction gs generalizing before u ps with
  | nil =>
      subst ht
      exact follow_fileType hn hc hps hne
  | cons f gs ih =>
      obtain ⟨here, others, hhere, hothers, rfl⟩ := segments_cons_eq_ok.1 hps
      have hf : f ∈ c.layout.fields := by simp [hfields]
      have hfile : f ≠ .fileType := fun he => c.layout.fileType_not_mem (he ▸ hf)
      have ht' : t = (u ++ note.segment c.layout f) ++
          (gs.flatMap (note.segment c.layout) ++ note.extension) := by
        rw [ht]
        simp
      have hrest (hne : others ≠ []) :
          Follow c q note t gs others (u.length + (note.segment c.layout f).length) := by
        have := ih (before ++ [f]) (by simp [hfields])
          (fun g hg => hgs g (by simp [hg])) hothers hne ht'
        simpa using this
      cases here with
      | none =>
          obtain ⟨i, j, p, more, heq, hi, hit, hone, hchain, hopen⟩ := hrest hne
          have hseg : OneLine t u.length (u.length + (note.segment c.layout f).length) := by
            rw [ht', List.append_assoc]
            exact oneLine_append (Note.segment_oneLine hn hfile)
          refine ⟨i, j, p, more, heq, by omega, hit, OneLine.trans hseg hone, hchain, ?_⟩
          intro he
          have hempty : note.segment c.layout f = [] := List.length_eq_zero_iff.1 (by omega)
          rcases hopen (by omega) with hopen | ⟨hflat, hasks, hclash⟩
          · exact .inl hopen
          · refine .inr ⟨by simp [hempty, hflat], ?_, hclash⟩
            exact List.forall_mem_cons.2 ⟨asks_of_segment_eq_none hhere, hasks⟩
      | some p =>
          have ht'' : t = u ++ (note.segment c.layout f ++
              (gs.flatMap (note.segment c.layout) ++ note.extension)) := by
            rw [ht', List.append_assoc]
          obtain ⟨j, hj⟩ := exists_chain_cons hn hq hc hcol before hfields
            (fun g hg => hgs g (by simp [hg])) hhere ht'' hrest
          refine ⟨u.length, j, p, others, rfl, Nat.le_refl _, by simp [ht], ?_, hj, ?_⟩
          · intro k hk hlt
            exact absurd hk (Nat.not_le_of_lt hlt)
          · intro _
            exact .inl (opening_of_field (hgs f (by simp)) hfile hhere)

/-- A note that is consistent with a query is found by it, unless its keywords collide with its
extension. -/
theorem finds_of_consistent (hn : note.Canonical) (hq : q.TextsOnly) (hc : note.Consistent c q)
    (hcol : ¬ q.Collides c) {p : Pattern} (hp : q.pattern c slug = .ok p) :
    Finds p.toRegex (note.name c.layout) := by
  obtain ⟨ps, hps, rfl⟩ := pattern_eq_ok.1 hp
  rw [finds_iff_chain hq.anchorFree hps]
  have hname : note.name c.layout =
      c.layout.fields.flatMap (note.segment c.layout) ++ note.extension := by
    simp [Note.name, Layout.visits, Note.segment]
  have hfirst : ∀ g ∈ c.layout.fields.tail, c.layout.isFirst g = false := by
    intro g hg
    apply Layout.isFirst_of_mem_tail
    cases hfields : c.layout.fields with
    | nil => simp [hfields] at hg
    | cons f gs =>
        rw [hfields, List.tail_cons] at hg
        simp [Layout.visits, hfields, hg]
  by_cases hne : ps = []
  · subst hne
    exact ⟨0, 0, Nat.zero_le _, rfl⟩
  rw [Layout.visits] at hps
  cases hfields : c.layout.fields with
  | nil =>
      rw [hfields] at hps hname
      obtain ⟨i, j, _, _, _, _, hi, _, hchain, _⟩ := follow_fileType (u := []) hn hc hps hne
      exact ⟨i, j, hname ▸ hi, hname ▸ hchain⟩
  | cons f gs =>
      rw [hfields] at hps hname hfirst
      obtain ⟨here, others, hhere, hothers, rfl⟩ := segments_cons_eq_ok.1 hps
      rw [List.flatMap_cons, List.append_assoc] at hname
      have hrest (hne : others ≠ []) := follow_fields hn hq hc hcol [f] hfields hfirst
        hothers hne hname
      cases here with
      | none =>
          obtain ⟨i, j, _, _, _, _, hi, _, hchain, _⟩ := hrest hne
          exact ⟨i, j, hi, hchain⟩
      | some p =>
          obtain ⟨j, hj⟩ := exists_chain_cons hn hq hc hcol [] (u := []) hfields hfirst
            hhere hname (by simpa using hrest)
          exact ⟨0, j, Nat.zero_le _, hj⟩

end Query

end NoteQuery
