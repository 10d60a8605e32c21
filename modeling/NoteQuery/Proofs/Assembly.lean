import NoteQuery.Proofs.QuerySegments

namespace NoteQuery

namespace Pattern

variable {p : Pattern} {ps : List Pattern}

theorem withGaps_eq_intersperse (ps : List Pattern) : withGaps ps = ps.intersperse .anyRun := by
  induction ps with
  | nil => rfl
  | cons p rest ih =>
      cases rest with
      | nil => rfl
      | cons q more => exact congrArg (fun l => p :: .anyRun :: l) ih

theorem head?_withGaps (ps : List Pattern) : (withGaps ps).head? = ps.head? := by
  cases ps with
  | nil => rfl
  | cons p rest =>
      obtain ⟨more, h⟩ := withGaps_cons p rest
      rw [h, List.head?_cons, List.head?_cons]

theorem getLast?_withGaps (ps : List Pattern) : (withGaps ps).getLast? = ps.getLast? := by
  induction ps with
  | nil => rfl
  | cons p rest ih =>
      cases rest with
      | nil => rfl
      | cons q more =>
          obtain ⟨tail, h⟩ := withGaps_cons q more
          rw [withGaps, List.getLast?_cons_cons, h, List.getLast?_cons_cons, ← h, ih,
            List.getLast?_cons_cons]

theorem gaps_separated (h : ∀ p ∈ ps, p.isAnyRun = false) :
    (Pattern.separated ps).gaps = ps.length - 1 := by
  change (withGaps ps).countP isAnyRun = ps.length - 1
  induction ps with
  | nil => rfl
  | cons p rest ih =>
      obtain ⟨hp, hrest⟩ := List.forall_mem_cons.1 h
      cases rest with
      | nil => simp [withGaps, hp]
      | cons q more =>
          rw [withGaps, List.countP_cons_of_neg (by simp [hp]), List.countP_cons_of_pos rfl,
            ih hrest]
          rfl

theorem isUnconstrained_separated : (Pattern.separated ps).isUnconstrained = true ↔ ps = [] := by
  cases ps with
  | nil => exact iff_of_true rfl rfl
  | cons p rest =>
      obtain ⟨more, h⟩ := withGaps_cons p rest
      rw [Pattern.separated, h]
      exact iff_of_false Bool.noConfusion (List.cons_ne_nil p rest)

end Pattern

namespace Query

open Pattern

variable {c : Convention} {normalize : Normalizer} {q : Query} {p : Pattern} {ps : List Pattern}
  {fs : List Field} {e : Error}

def asked (layout : Layout) (q : Query) : List Field := layout.visits.filter q.asks

theorem isAnyRun_of_segment {f : Field} (h : q.segment c normalize f = .ok (some p)) :
    p.isAnyRun = false := by
  cases f with
  | identifier =>
      obtain ⟨v, _, hv⟩ := ifAsked_eq_ok.1 h
      obtain ⟨_, body, _, hbody, rfl⟩ := identifierSegment_eq_ok hv
      rcases hbody with ⟨rfl, _⟩ | ⟨rfl, _⟩ <;> split <;> rfl
  | signature | title =>
      obtain ⟨w, _, hp⟩ := ifAsked_eq_ok.1 h
      cases hp
      rfl
  | keywords =>
      obtain ⟨e, _, he⟩ := ifAsked_eq_ok.1 h
      obtain ⟨k, _, rfl⟩ := Except.map_eq_ok.1 he
      rfl
  | fileType =>
      obtain ⟨tags, _, ht⟩ := ifAsked_eq_ok.1 h
      obtain ⟨es, _, rfl⟩ := fileTypeSegment_eq_ok ht
      rfl

/-- A field that the query does not ask for leaves no trace. -/
theorem segments_filter_asks (fs : List Field) :
    q.segments c normalize (fs.filter q.asks) = q.segments c normalize fs := by
  induction fs with
  | nil => rfl
  | cons f rest ih =>
      cases hf : q.asks f with
      | true => rw [List.filter_cons_of_pos hf, segments, segments, ih]
      | false =>
          rw [List.filter_cons_of_neg (by simp [hf]), ih, segments, segment_of_not_asked hf]
          cases hrest : q.segments c normalize rest <;> rfl

theorem segments_eq_ok_iff (hfs : ∀ f ∈ fs, q.asks f = true) :
    q.segments c normalize fs = .ok ps ↔
      fs.map (q.segment c normalize) = ps.map fun p => .ok (some p) := by
  induction fs generalizing ps with
  | nil =>
      rw [segments, List.map_nil, eq_comm (a := []), List.map_eq_nil_iff, Except.ok.injEq, eq_comm]
  | cons f rest ih =>
      obtain ⟨hf, hrest⟩ := List.forall_mem_cons.1 hfs
      rw [segments_cons_eq_ok, List.map_cons, eq_comm (a := _ :: _), List.map_eq_cons_iff]
      constructor
      · rintro ⟨here, others, hhere, hothers, rfl⟩
        cases here with
        | none => simp [asks_of_segment_eq_none hhere] at hf
        | some p => exact ⟨p, others, rfl, hhere.symm, ((ih hrest).1 hothers).symm⟩
      · rintro ⟨p, others, rfl, hhere, hothers⟩
        exact ⟨some p, others, hhere.symm, (ih hrest).2 hothers.symm, rfl⟩

theorem segments_cons_of_error {f : Field} (h : q.segment c normalize f = .error e) :
    q.segments c normalize (f :: fs) = .error e := by
  rw [segments, h]
  rfl

theorem segments_cons_eq_error {f : Field} {s : Option Pattern}
    (h : q.segment c normalize f = .ok s) :
    q.segments c normalize (f :: fs) = .error e ↔ q.segments c normalize fs = .error e := by
  rw [segments, h]
  cases q.segments c normalize fs <;> simp [bind, Except.bind]

theorem exists_part_of_asked {f : Field} {s : Option Pattern} (hf : q.asks f = true)
    (h : q.segment c normalize f = .ok s) : ∃ p, q.segment c normalize f = .ok (some p) := by
  cases s with
  | none => simp [asks_of_segment_eq_none h] at hf
  | some p => exact ⟨p, h⟩

theorem segments_eq_error_iff (hfs : ∀ f ∈ fs, q.asks f = true) :
    q.segments c normalize fs = .error e ↔
      ∃ before f after, fs = before ++ f :: after ∧
        (∀ g ∈ before, ∃ p, q.segment c normalize g = .ok (some p)) ∧
          q.segment c normalize f = .error e := by
  induction fs with
  | nil => simp [segments]
  | cons g rest ih =>
      obtain ⟨hg, hrest⟩ := List.forall_mem_cons.1 hfs
      constructor
      · intro h
        cases hseg : q.segment c normalize g with
        | error e' =>
            obtain rfl : e' = e := Except.error.inj ((segments_cons_of_error hseg).symm.trans h)
            exact ⟨[], g, rest, rfl, List.forall_mem_nil _, hseg⟩
        | ok s =>
            obtain ⟨before, f, after, rfl, hbefore, hf⟩ :=
              (ih hrest).1 ((segments_cons_eq_error hseg).1 h)
            have hpart := exists_part_of_asked hg hseg
            exact ⟨g :: before, f, after, rfl, List.forall_mem_cons.2 ⟨hpart, hbefore⟩, hf⟩
      · rintro ⟨before, f, after, hsplit, hbefore, hf⟩
        cases before with
        | nil =>
            obtain ⟨rfl, rfl⟩ := List.cons.inj hsplit
            exact segments_cons_of_error hf
        | cons b before =>
            obtain ⟨rfl, rfl⟩ := List.cons.inj hsplit
            obtain ⟨⟨p, hseg⟩, hbefore⟩ := List.forall_mem_cons.1 hbefore
            have herror := (ih hrest).2 ⟨before, f, after, rfl, hbefore, hf⟩
            exact (segments_cons_eq_error hseg).2 herror

theorem asks_of_mem_asked {layout : Layout} : ∀ f ∈ q.asked layout, q.asks f = true :=
  fun _ hf => (List.mem_filter.1 hf).2

theorem pattern_eq_segments_asked :
    q.pattern c normalize = (q.segments c normalize (q.asked c.layout)).map Pattern.separated := by
  rw [asked, segments_filter_asks, pattern]

theorem pattern_eq_error_iff : q.pattern c normalize = .error e ↔
    ∃ before f after, q.asked c.layout = before ++ f :: after ∧
      (∀ g ∈ before, ∃ p, q.segment c normalize g = .ok (some p)) ∧
        q.segment c normalize f = .error e := by
  rw [pattern_eq_segments_asked, ← segments_eq_error_iff asks_of_mem_asked]
  cases q.segments c normalize (q.asked c.layout) <;> simp [Except.map]

theorem pattern_eq_ok_iff : q.pattern c normalize = .ok p ↔
    ∃ parts : List Pattern,
      (q.asked c.layout).map (q.segment c normalize) = parts.map (fun s => .ok (some s)) ∧
        .separated parts = p := by
  simp only [pattern_eq_segments_asked, Except.map_eq_ok, segments_eq_ok_iff asks_of_mem_asked]

theorem not_anyRun_of_parts {parts : List Pattern}
    (h : fs.map (q.segment c normalize) = parts.map fun s => .ok (some s)) :
    ∀ s ∈ parts, s.isAnyRun = false := by
  intro s hs
  have hmem : Except.ok (some s) ∈ fs.map (q.segment c normalize) :=
    h ▸ List.mem_map.2 ⟨s, hs, rfl⟩
  obtain ⟨f, -, hf⟩ := List.mem_map.1 hmem
  exact isAnyRun_of_segment hf

/-- A query is refused for the first field that it asks for in vain. Otherwise its pattern consists
of the segments of the fields that it asks for, with one gap between each two of them. -/
theorem pattern_assembled (c : Convention) (normalize : Normalizer) (q : Query) :
    (∀ e, q.pattern c normalize = .error e ↔
      ∃ before f after, q.asked c.layout = before ++ f :: after ∧
        (∀ g ∈ before, ∃ p, q.segment c normalize g = .ok (some p)) ∧
          q.segment c normalize f = .error e) ∧
      (∀ p, q.pattern c normalize = .ok p ↔
        ∃ parts : List Pattern,
          (q.asked c.layout).map (q.segment c normalize) = parts.map (fun s => .ok (some s)) ∧
            .seq (parts.intersperse .anyRun) = p) ∧
      ∀ p, q.pattern c normalize = .ok p →
        p.gaps = (q.asked c.layout).length - 1 ∧
          (∀ row, p = .seq row → row.head? ≠ some .anyRun ∧ row.getLast? ≠ some .anyRun) ∧
          (p.isUnconstrained = true ↔ q.asked c.layout = []) := by
  refine ⟨fun e => pattern_eq_error_iff, fun p => ?_, fun p hp => ?_⟩
  · rw [pattern_eq_ok_iff]
    simp only [Pattern.separated, withGaps_eq_intersperse]
  · obtain ⟨parts, hparts, rfl⟩ := pattern_eq_ok_iff.1 hp
    have hlen : (q.asked c.layout).length = parts.length := by
      simpa using congrArg List.length hparts
    have hnone := not_anyRun_of_parts hparts
    have hnot : Pattern.anyRun ∉ parts := fun hmem => Bool.noConfusion (hnone _ hmem)
    refine ⟨hlen ▸ gaps_separated hnone, ?_, ?_⟩
    · rintro _ ⟨⟩
      rw [head?_withGaps, getLast?_withGaps]
      exact ⟨fun h => hnot (List.mem_of_mem_head? h), fun h => hnot (List.mem_of_getLast? h)⟩
    · rw [isUnconstrained_separated, ← List.length_eq_zero_iff, ← hlen, List.length_eq_zero_iff]

end Query

end NoteQuery
