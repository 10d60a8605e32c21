import NoteQuery.Proofs.LegibleNote
import NoteQuery.Proofs.UntestedPattern
import NoteQuery.Proofs.Usable

namespace NoteQuery

open Pattern Text

theorem Text.conventional_of_ascii {t : Text} (hline : '\n' ∉ t) (h : ∀ c ∈ t, c.toNat < 128) :
    t.Conventional :=
  ⟨hline, fun c hc => isSeparator_of_ascii (h c hc)⟩

namespace Pattern

variable {p : Pattern} {ps : List Pattern} {W : Text → Prop}

theorem wordBuilt_separated (h : ∀ p ∈ ps, WordBuilt p) : WordBuilt (.separated ps) := by
  apply WordBuilt.seq
  intro p hp
  rcases mem_withGaps hp with hp | rfl
  · exact h p hp
  · exact .anyRun

theorem WordTree.wordBuilt (h : WordTree W p) (hW : ∀ w, W w → w ≠ []) : WordBuilt p := by
  induction h with
  | word hw => exact .word (hW _ hw)
  | alt _ _ ih => exact .alt ih
  | separated _ _ ih => exact wordBuilt_separated ih

theorem wordBuilt_pair {q : Pattern} (hp : WordBuilt p) (hq : WordBuilt q) :
    WordBuilt (.seq [p, q]) := by
  apply WordBuilt.seq
  simp only [List.forall_mem_cons]
  exact ⟨hp, hq, nofun⟩

end Pattern

namespace Query

variable {c : Convention} {normalize : Normalizer} {q : Query} {p : Pattern} {t : Text}
  {r : List Regex}

/-- The patterns that the query brings along are word-built. -/
structure WordBuilt (q : Query) : Prop where
  signature : ∀ p, q.signature = some (.pattern p) → p.WordBuilt
  title : ∀ p, q.title = some (.pattern p) → p.WordBuilt

theorem wordBuilt_wording {f : Field} {kind : SlugKind} {w : Wording}
    (h : ∀ p, w = .pattern p → p.WordBuilt) : (wordingSegment normalize f kind w).WordBuilt := by
  apply wordBuilt_pair
  · exact .literal _
  · cases w with
    | text raw => exact .literal _
    | pattern p => exact h p rfl

theorem wordBuilt_of_segment (hq : q.WordBuilt) {f : Field}
    (h : q.segment c normalize f = .ok (some p)) : p.WordBuilt := by
  cases f with
  | identifier =>
      obtain ⟨v, _, hv⟩ := ifAsked_eq_ok.1 h
      obtain ⟨n, body, _, hbody, rfl⟩ := identifierSegment_eq_ok hv
      have hbody : body.WordBuilt := by
        rcases hbody with ⟨rfl, _⟩ | ⟨rfl, _⟩
        · exact .literal v
        · exact wordBuilt_pair (.literal v) (.anyExactly n)
      split
      · exact hbody
      · exact wordBuilt_pair (.literal _) hbody
  | signature =>
      obtain ⟨w, hw, hp⟩ := ifAsked_eq_ok.1 h
      cases hp
      apply wordBuilt_wording
      rintro p rfl
      exact hq.signature p hw
  | title =>
      obtain ⟨w, hw, hp⟩ := ifAsked_eq_ok.1 h
      cases hp
      apply wordBuilt_wording
      rintro p rfl
      exact hq.title p hw
  | keywords =>
      obtain ⟨e, _, he⟩ := ifAsked_eq_ok.1 h
      obtain ⟨k, hk, rfl⟩ := Except.map_eq_ok.1 he
      have hk := Keyword.Expr.wordTree_of_pattern (W := (· ≠ [])) (fun _ h => h) e k hk
      apply WordBuilt.seq
      simp only [List.forall_mem_cons]
      exact ⟨.literal _, .anyRun, hk.wordBuilt fun _ h => h, nofun⟩
  | fileType =>
      obtain ⟨tags, _, ht⟩ := ifAsked_eq_ok.1 h
      obtain ⟨es, _, rfl⟩ := fileTypeSegment_eq_ok ht
      apply wordBuilt_pair _ .nameEnd
      apply WordBuilt.alt
      intro p hp
      obtain ⟨e, _, rfl⟩ := List.mem_map.1 hp
      exact .literal e

theorem WordBuilt.pattern (hq : q.WordBuilt) (hp : q.pattern c normalize = .ok p) :
    p.WordBuilt := by
  obtain ⟨ps, hps, rfl⟩ := pattern_eq_ok.1 hp
  apply wordBuilt_separated
  intro p hp
  obtain ⟨f, _, h⟩ := mem_segments hps hp
  exact wordBuilt_of_segment hq h

/-- Where nothing is left to the word boundaries of regular expressions, a name is matched exactly
if some stretch of it is as the pattern of the query describes it, with a character for each gap
that takes over a word boundary and has an unknown neighbour on its other side. -/
theorem isMatch_iff_firmed_selects (hq : q.WordBuilt) (ht : t.Conventional)
    (hr : q.regex c normalize = .ok r) (hfree : Regex.everyItem Regex.testFree r = true) :
    ∃ p, q.pattern c normalize = .ok p ∧ (Regex.isMatch r t = true ↔ p.firmed.Selects t) := by
  obtain ⟨p, hp, rfl⟩ := regex_eq_ok hr
  exact ⟨p, hp, Regex.isMatch_iff_finds.trans ((hq.pattern hp).finds_iff ht hfree)⟩

def orgPlan : Query :=
  { title := some (.pattern (.seq [wholeWord "plan".toList, .anyRun]))
    fileType := some ["org".toList] }

theorem orgPlan_wordBuilt : orgPlan.WordBuilt := by
  refine ⟨nofun, ?_⟩
  rintro _ ⟨⟩
  exact wordBuilt_pair (.word nofun) .anyRun

theorem isMatch_iff_firmed_selects_of_orgPlan :
    orgPlan.WordBuilt ∧ Text.Conventional "20240115T090500--plan-b.org".toList ∧
      ∃ r, orgPlan.regex .standard slug = .ok r ∧ Regex.everyItem Regex.testFree r = true ∧
        ∃ p, orgPlan.pattern .standard slug = .ok p ∧
          (Regex.isMatch r "20240115T090500--plan-b.org".toList = true ↔
            p.firmed.Selects "20240115T090500--plan-b.org".toList) := by
  have ht : Text.Conventional "20240115T090500--plan-b.org".toList :=
    conventional_of_ascii (by decide) (forall_of_all (by decide))
  have hr : ∃ r, orgPlan.regex .standard slug = .ok r ∧ Regex.everyItem Regex.testFree r = true :=
    ⟨_, by cbv, by cbv⟩
  obtain ⟨r, hr, hfree⟩ := hr
  exact ⟨orgPlan_wordBuilt, ht, r, hr, hfree,
    isMatch_iff_firmed_selects orgPlan_wordBuilt ht hr hfree⟩

theorem orgPlan_pattern : orgPlan.pattern .standard slug = .ok (.separated
    [.seq [.literal "--".toList, .seq [wholeWord "plan".toList, .anyRun]],
      .seq [.alt [.literal ".org".toList], .nameEnd]]) := by cbv

theorem orgPlan_selects : (Pattern.separated
    [.seq [.literal "--".toList, .seq [wholeWord "plan".toList, .anyRun]],
      .seq [.alt [.literal ".org".toList], .nameEnd]]).Selects
        "20240115T090500--plan.org".toList := by
  have hstart : StartsWord "20240115T090500--plan.org".toList 17 := by
    intro k c hk hc
    obtain rfl : k = 16 := by omega
    cases hc
    decide
  have hend : EndsWord "20240115T090500--plan.org".toList 21 := by
    intro c hc
    cases hc
    decide
  have hword : Covers "20240115T090500--plan.org".toList (wholeWord "plan".toList) 17 21 :=
    covers_wholeWord.2 ⟨hstart, ⟨rfl, by decide, by decide⟩, hend⟩
  have hgap : Covers "20240115T090500--plan.org".toList .anyRun 21 21 :=
    ⟨Nat.le_refl 21, by decide⟩
  refine ⟨15, 25, by decide, 21, ?_, 21, hgap, 25, ?_, rfl⟩
  · exact ⟨17, ⟨rfl, by decide, by decide⟩, 21, ⟨21, hword, 21, hgap, rfl⟩, rfl⟩
  · exact ⟨25, .inl ⟨rfl, by decide, by decide⟩, 25, ⟨rfl, by decide⟩, rfl⟩

/-- The gap of the title takes over the end of `plan` and has the gap in front of the extension as
its neighbour, so it takes up the dot that the extension needs. -/
theorem exists_selected_not_found :
    ∃ (q : Query) (t : Text) (r : List Regex) (p : Pattern), q.WordBuilt ∧ '\n' ∉ t ∧
      (∀ c ∈ t, c.toNat < 128) ∧ q.regex .standard slug = .ok r ∧ Regex.everyItem Regex.testFree r = true ∧
        q.pattern .standard slug = .ok p ∧ p.Selects t ∧ Regex.isMatch r t = false :=
  ⟨orgPlan, "20240115T090500--plan.org".toList, _, _, orgPlan_wordBuilt, by decide,
    forall_of_all (by decide), by cbv, by cbv, orgPlan_pattern, orgPlan_selects, by cbv⟩

end Query

end NoteQuery
