import Mathlib
import NoteQuery.Proofs.Usable
import NoteQuery.Regex.Lemmas

namespace NoteQuery

open Pattern Text

variable {c : Convention} {q : Query} {t : Text} {p : Pattern} {f : Field}

/-- No word can go on into an extension that the query asks for. -/
def Query.ExtensionsApart (types : FileTypes) (q : Query) : Prop :=
  ∀ tags, q.fileType = some tags → ∀ tag ∈ tags, ∀ e, types.resolve tag = some e →
    ∃ ch rest, e = ch :: rest ∧ isAlphanumeric ch = false

namespace Query

theorem guarded_fileTypes {es : List Text}
    (hes : ∀ e ∈ es, ∃ ch rest, e = ch :: rest ∧ isAlphanumeric ch = false) :
    Guarded t (.seq [.alt (es.map .literal), .nameEnd]) := by
  rintro i j ⟨k, hk, _⟩
  obtain ⟨p, hp, hcov⟩ := coversSome_iff.1 hk
  obtain ⟨e, he, rfl⟩ := List.mem_map.1 hp
  have hopen : firstEdgeOfAlt .separator (es.map .literal) = .separator := by
    apply firstEdgeOfAlt_eq (by rintro h; simp_all)
    intro p hp
    obtain ⟨e', he', rfl⟩ := List.mem_map.1 hp
    obtain ⟨ch, rest, rfl, hch⟩ := hes e' he'
    simp [firstEdge, Edge.ofChar, hch]
  refine ⟨by simp [opening, ahead, aheadOfSeq, firstEdge, hopen], ?_⟩
  obtain ⟨ch, rest, rfl, hch⟩ := hes e he
  intro d hd
  obtain rfl : ch = d := by simpa [getElem?_of_covers_literal hcov] using hd
  exact hch

theorem guarded_of_field (hext : q.ExtensionsApart c.fileTypes)
    (hf : c.layout.isFirst f = false) (h : q.segment c slug f = .ok (some p)) : Guarded t p := by
  rcases form_of_field hf h with ⟨ch, u, rest, hch, rfl⟩ | ⟨_, tags, es, htags, hes, rfl⟩
  · exact guarded_of_literal hch u rest
  · apply guarded_fileTypes
    intro e he
    obtain ⟨tag, htag, hr⟩ := (resolve_of_mem_extensions hes).1 e he
    exact hext tags htags tag htag e hr

theorem finds_regex_iff (hq : q.AnchorFree) (hext : q.ExtensionsApart c.fileTypes)
    (ht : t.Conventional) (hp : q.pattern c slug = .ok p) :
    Regex.Finds p.toRegex t ↔ p.Selects t := by
  obtain ⟨ps, hps, rfl⟩ := pattern_eq_ok.1 hp
  apply finds_iff_selects ht (segment_of_mem hq hps) (marked_of_mem_tail hps)
  intro p hp
  obtain ⟨f, hf, h⟩ := mem_tail_segments hps hp
  exact guarded_of_field hext (Layout.isFirst_of_mem_tail hf) h

theorem exists_regex_of_single (ht : t.Conventional) (hf : f ∈ c.layout.visits)
    (hsingle : ∀ g, g ≠ f → q.asks g = false) (hq : q.TextsOnly)
    (hk : ∀ e, q.keywords = some e → ∃ w, e = .word w) (hext : q.ExtensionsApart c.fileTypes)
    (hseg : q.segment c slug f = .ok (some p)) :
    ∃ r, q.regex c slug = .ok r ∧
      (Regex.isMatch r t = true ↔ (Pattern.separated [p]).Selects t) := by
  obtain ⟨before, behind, hvisits⟩ := List.append_of_mem hf
  have hnodup := c.layout.nodup_visits
  rw [hvisits, List.nodup_middle, List.nodup_cons, List.mem_append, not_or] at hnodup
  obtain ⟨⟨hbefore, hbehind⟩, -⟩ := hnodup
  have hp : q.pattern c slug = .ok (.separated [p]) := by
    apply pattern_of_single hvisits _ _ hseg
    · intro g hg
      exact hsingle g (fun he => hbefore (he ▸ hg))
    · intro g hg
      exact hsingle g (fun he => hbehind (he ▸ hg))
  exact ⟨_, regex_of_pattern hq hk hp,
    Regex.isMatch_iff_finds.trans (finds_regex_iff hq.anchorFree hext ht hp)⟩

/-- Whatever the layout, the order of the keywords and the file types: a name on one line, in which
separators and letters or numerals are told apart, is matched by the regular expression of a query
exactly if some stretch of it is as the pattern of the query describes it. -/
theorem isMatch_regex_iff_selects (hq : q.AnchorFree) (hext : q.ExtensionsApart c.fileTypes)
    (ht : t.Conventional) {r : List Regex} (hr : q.regex c slug = .ok r) :
    ∃ p, q.pattern c slug = .ok p ∧ (Regex.isMatch r t = true ↔ p.Selects t) := by
  obtain ⟨p, hp, rfl⟩ := regex_eq_ok hr
  exact ⟨p, hp, Regex.isMatch_iff_finds.trans (finds_regex_iff hq hext ht hp)⟩

def plans : Query :=
  { title := some (.pattern (.alt [.literal "plan".toList, .seq [.anyExactly 2, .anyRun]]))
    keywords := some (.group .or [.word "Agenda".toList,
      .group .and [.word "project".toList, .word "In-Progress".toList]])
    fileType := some ["org".toList, "text".toList] }

theorem isMatch_regex_iff_selects_of_plans :
    plans.AnchorFree ∧ plans.ExtensionsApart .builtin ∧
      Text.Conventional "20240115T090500--plan__home_inprogress_project.org".toList ∧
      ∃ r, plans.regex .standard slug = .ok r ∧
        ∃ p, plans.pattern .standard slug = .ok p ∧
          (Regex.isMatch r "20240115T090500--plan__home_inprogress_project.org".toList = true ↔
            p.Selects "20240115T090500--plan__home_inprogress_project.org".toList) := by
  have hq : plans.AnchorFree := by
    constructor
    · intro p hp
      cases hp
    · intro p hp
      cases hp
      rfl
  have hext : plans.ExtensionsApart .builtin := by
    intro tags htags tag htag e he
    cases htags
    rcases List.mem_cons.1 htag with rfl | htag
    · cases he
      exact ⟨'.', "org".toList, rfl, by decide⟩
    · obtain rfl := List.mem_singleton.1 htag
      cases he
      exact ⟨'.', "txt".toList, rfl, by decide⟩
  have ht : Text.Conventional "20240115T090500--plan__home_inprogress_project.org".toList :=
    ⟨by decide, forall_of_all (by decide)⟩
  have hr : ∃ r, plans.regex .standard slug = .ok r := ⟨_, by cbv⟩
  obtain ⟨r, hr⟩ := hr
  exact ⟨hq, hext, ht, r, hr, isMatch_regex_iff_selects hq hext ht hr⟩

end Query

end NoteQuery
