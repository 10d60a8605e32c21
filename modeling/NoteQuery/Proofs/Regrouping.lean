import NoteQuery.Proofs.Inlining
import NoteQuery.Proofs.RegexReading
import NoteQuery.Proofs.Segment

namespace NoteQuery

def Regex.beginsWithSeparator : Regex → Bool
  | .separator => true
  | .group _ ((.separator :: _) :: _) => true
  | _ => false

namespace Pattern

open Regex

variable {p q x y : Pattern} {ps l rest : List Pattern} {b b' : Behind} {a a' : Ahead} {e : Edge}

section Gaps

variable {w w' v v' : Bool} {left left' next next' : Edge} {xs ys : List Regex}

theorem gapItems_eq_cons (w v : Bool) (left next : Edge) :
    ∃ r rest, gapItems w v left next = r :: rest ∧ r.beginsWithSeparator = w := by
  cases w <;> cases v <;> cases left <;> cases next <;> exact ⟨_, _, rfl, rfl⟩

theorem wordEnds_of_gapItems (h : gapItems w v left next ++ xs = gapItems w' v' left' next' ++ ys) :
    w = w' := by
  obtain ⟨r, rest, hr, rfl⟩ := gapItems_eq_cons w v left next
  obtain ⟨r', rest', hr', rfl⟩ := gapItems_eq_cons w' v' left' next'
  rw [hr, hr'] at h
  exact congrArg beginsWithSeparator (List.cons.inj h).1

theorem gapItems_ne {rows rows' : List (List Regex)} :
    gapItems w false left next ++ .group false rows :: xs ≠
      gapItems w true left next ++ .group false rows' :: ys := by
  cases w with
  | false => cases left <;> simp [gapItems]
  | true => by_cases h : left = .separator ∧ next = .separator <;> cases next <;> simp_all [gapItems]

theorem wordStarts_of_gapItems {rows rows' : List (List Regex)}
    (h : gapItems w v left next ++ .group false rows :: xs =
      gapItems w v' left next ++ .group false rows' :: ys) : v = v' := by
  cases v <;> cases v'
  · rfl
  · exact absurd h gapItems_ne
  · exact absurd h.symm gapItems_ne
  · rfl

end Gaps

section Rows

/-- Wherever the pattern stands, it is written as its inlined form exactly if it is exposed, and then
the same is known behind the two. A gap that takes over the end of a word may follow only if the
pattern shows that end. -/
def RendersInlined (p : Pattern) : Prop :=
  ∀ b a, (a.gap = true → p.trailsWithWordEnd = true) →
    ((p.items b a).1 = ((Pattern.seq p.inlined).items b a).1 ↔ p.Exposed) ∧
      (p.Exposed → (p.items b a).2.edge = ((Pattern.seq p.inlined).items b a).2.edge)

def IsPart (x : Pattern) : Prop := ∀ ps, x ≠ .seq ps

theorem inlined_of_isPart (hx : x.IsPart) : x.inlined = [x.inlinedPart] := by
  cases x with
  | seq ps => exact absurd rfl (hx ps)
  | _ => rfl

theorem ahead_of_isPart (hx : x.IsPart) :
    x.ahead a = ⟨x.firstEdge a.edge, x.isAnyRun, x.leadsWithWordStart⟩ := by
  cases x with
  | seq ps => exact absurd rfl (hx ps)
  | _ => rfl

theorem wordEnds_of_isPart (hx : x.IsPart) : (x.items b a).2.wordEnds = x.trailsWithWordEnd := by
  cases x with
  | seq ps => exact absurd rfl (hx ps)
  | anyExactly n => cases n <;> rfl
  | _ => rfl

theorem isPart_inlinedPart (hx : x.IsPart) : x.inlinedPart.IsPart := by
  cases x with
  | seq ps => exact absurd rfl (hx ps)
  | _ => exact fun _ => Pattern.noConfusion

theorem isAnyRun_inlinedPart (x : Pattern) : x.inlinedPart.isAnyRun = x.isAnyRun := by
  cases x <;> rfl

theorem edge_ahead_inlinedPart (hl : ∀ x ∈ l, x.IsPart) :
    (aheadOfSeq a (l.map inlinedPart)).edge = (aheadOfSeq a l).edge := by
  induction l with
  | nil => rfl
  | cons x rest ih =>
      rw [List.forall_mem_cons] at hl
      have hx := firstEdge_inlined x (aheadOfSeq a rest).edge
      rw [inlined_of_isPart hl.1] at hx
      rw [List.map_cons, aheadOfSeq, aheadOfSeq, ahead_edge, ahead_edge, ih hl.2]
      exact hx

theorem gap_ahead_inlinedPart (hl : ∀ x ∈ l, x.IsPart) :
    (aheadOfSeq a (l.map inlinedPart)).gap = (aheadOfSeq a l).gap := by
  cases l with
  | nil => rfl
  | cons x rest =>
      have hx := hl x (List.mem_cons_self ..)
      rw [List.map_cons, aheadOfSeq, aheadOfSeq, ahead_of_isPart hx,
        ahead_of_isPart (isPart_inlinedPart hx), isAnyRun_inlinedPart]

theorem wordStarts_ahead_inlinedPart (hl : ∀ x ∈ l, x.IsPart)
    (hshow : ∀ x ∈ l.head?, x.ShowsStart) :
    (aheadOfSeq a (l.map inlinedPart)).wordStarts = (aheadOfSeq a l).wordStarts := by
  cases l with
  | nil => rfl
  | cons x rest =>
      have hx := hl x (List.mem_cons_self ..)
      have hstart : x.leadsWithWordStart = firstLeads x.inlined := hshow x rfl
      rw [List.map_cons, aheadOfSeq, aheadOfSeq, ahead_of_isPart hx,
        ahead_of_isPart (isPart_inlinedPart hx), hstart, inlined_of_isPart hx, firstLeads]

theorem edge_itemsOfAlt_inlined (h : ∀ c ∈ ps,
    (c.items ⟨e, false⟩ a).2.edge = ((Pattern.seq c.inlined).items ⟨e, false⟩ a).2.edge) :
    (itemsOfAlt e a ps).2 = (itemsOfAlt e a (inlinedBranches ps)).2 := by
  induction ps with
  | nil => rfl
  | cons p rest ih =>
      rw [List.forall_mem_cons] at h
      cases rest with
      | nil => exact h.1
      | cons q more => exact congrArg₂ Edge.join h.1 (ih h.2)

theorem alt_renders (hin : ∀ c ∈ ps, c.RendersInlined) (hb : b.edge = b'.edge)
    (he : a.edge = a'.edge) (hg : a.gap = a'.gap) (hend : a.gap = true → (Pattern.alt ps).ShowsEnd) :
    (((Pattern.alt ps).items b a).1 = ((Pattern.alt (inlinedBranches ps)).items b' a').1 ↔
        ∀ c ∈ ps, c.Exposed) ∧
      ((∀ c ∈ ps, c.Exposed) → ((Pattern.alt ps).items b a).2.edge =
        ((Pattern.alt (inlinedBranches ps)).items b' a').2.edge) := by
  have hahead : branchAhead (inlinedBranches ps) a' = branchAhead ps a := by
    have hgap : (a'.gap && (Pattern.alt (inlinedBranches ps)).trailsWithWordEnd) =
        (a.gap && (Pattern.alt ps).trailsWithWordEnd) := by
      rw [← hg]
      cases hgap : a.gap with
      | false => rfl
      | true => exact (hend hgap).symm
    rw [branchAhead, branchAhead, hgap, he]
  have hbranch (c : Pattern) (hc : c ∈ ps) := by
    refine hin c hc ⟨b.edge, false⟩ (branchAhead ps a) fun hgap => ?_
    have htrails := (Bool.and_eq_true_iff.1 hgap).2
    rw [trailsWithWordEnd, Bool.and_eq_true, allTrail_iff] at htrails
    exact htrails.2 c hc
  constructor
  · cases ps with
    | nil => simp [items, inlinedBranches]
    | cons p rest =>
        rw [items_alt_cons, inlinedBranches, items_alt_cons, ← inlinedBranches, hahead, ← hb,
          inlinedBranches_eq_map, List.map_map]
        simp only [List.cons.injEq, and_true, Regex.group.injEq, true_and, List.map_inj_left]
        exact forall₂_congr fun c hc => (hbranch c hc).1
  · intro hexposed
    change (itemsOfAlt b.edge (branchAhead ps a) ps).2 =
      (itemsOfAlt b'.edge (branchAhead (inlinedBranches ps) a') (inlinedBranches ps)).2
    rw [hahead, ← hb]
    exact edge_itemsOfAlt_inlined fun c hc => (hbranch c hc).2 (hexposed c hc)

theorem part_renders (hx : x.IsPart) (hin : ∀ c ∈ x.branches, c.RendersInlined)
    (hb : b.edge = b'.edge) (hw : x.isAnyRun = true → b.wordEnds = b'.wordEnds)
    (he : a.edge = a'.edge) (hg : a.gap = a'.gap) (hend : a.gap = true → x.ShowsEnd)
    (hstart : x.isAnyRun = true → a.wordStarts = a'.wordStarts) :
    ((x.items b a).1 = (x.inlinedPart.items b' a').1 ↔ ∀ c ∈ x.branches, c.Exposed) ∧
      ((∀ c ∈ x.branches, c.Exposed) →
        (x.items b a).2.edge = (x.inlinedPart.items b' a').2.edge) := by
  obtain ⟨e, w⟩ := b
  obtain ⟨e', w'⟩ := b'
  obtain rfl : e = e' := hb
  cases x with
  | seq ps => exact absurd rfl (hx ps)
  | alt ps => exact alt_renders hin rfl he hg hend
  | anyRun =>
      have hitems : Pattern.anyRun.items ⟨e, w⟩ a = Pattern.anyRun.items ⟨e, w'⟩ a' := by
        obtain rfl : w = w' := hw rfl
        rw [items, items, he, hstart rfl]
      exact ⟨iff_of_true (congrArg Prod.fst hitems) (List.forall_mem_nil _),
        fun _ => congrArg (·.2.edge) hitems⟩
  | anyExactly n => cases n <;> exact ⟨iff_of_true rfl (List.forall_mem_nil _), fun _ => rfl⟩
  | wordEnd =>
      have hitems : Pattern.wordEnd.items ⟨e, w⟩ a = Pattern.wordEnd.items ⟨e, w'⟩ a' := by
        rw [items, items, endBoundary, endBoundary, he, hg]
      exact ⟨iff_of_true (congrArg Prod.fst hitems) (List.forall_mem_nil _),
        fun _ => congrArg (·.2.edge) hitems⟩
  | literal | wordStart | nameEnd => exact ⟨iff_of_true rfl (List.forall_mem_nil _), fun _ => rfl⟩

theorem items_gap_cons : (itemsOfSeq b a (.anyRun :: rest)).1 =
    gapItems b.wordEnds (aheadOfSeq a rest).wordStarts b.edge (aheadOfSeq a rest).edge ++
      (itemsOfSeq ⟨gapEdge (aheadOfSeq a rest).wordStarts, false⟩ a rest).1 := rfl

theorem items_seq_cons : (itemsOfSeq b a (x :: rest)).1 = (x.items b (aheadOfSeq a rest)).1 ++
    (itemsOfSeq (x.items b (aheadOfSeq a rest)).2 a rest).1 := rfl

theorem showsStart_of_items_eq (hl : ∀ x ∈ y :: rest, x.IsPart) (hb : b.edge = b'.edge)
    (hw : b.wordEnds = b'.wordEnds)
    (h : (itemsOfSeq b a (.anyRun :: y :: rest)).1 =
      (itemsOfSeq b' a (.anyRun :: (y :: rest).map inlinedPart)).1) : y.ShowsStart := by
  cases y with
  | seq ps => exact absurd rfl (hl _ (List.mem_cons_self ..) ps)
  | alt ps =>
      cases ps with
      | nil => rfl
      | cons p ps =>
          have hedge := edge_ahead_inlinedPart (a := a) hl
          rw [items_gap_cons, items_gap_cons, ← hb, ← hw, hedge] at h
          exact wordStarts_of_gapItems h
  | _ => rfl

theorem showsEnd_of_items_eq (hx : x.IsPart)
    (h : (itemsOfSeq b a (x :: .anyRun :: rest)).1 =
      (itemsOfSeq b' a (x.inlinedPart :: .anyRun :: rest.map inlinedPart)).1) : x.ShowsEnd := by
  cases x with
  | seq ps => exact absurd rfl (hx ps)
  | alt ps =>
      cases ps with
      | nil => rfl
      | cons p ps =>
          rw [itemsOfSeq_cons_gap, itemsOfSeq_cons_gap] at h
          exact wordEnds_of_gapItems (List.cons.inj h).2
  | _ => rfl

theorem meets_of_items_eq (hl : ∀ z ∈ x :: rest, z.IsPart) (hb : b.edge = b'.edge)
    (hw : x.isAnyRun = true → b.wordEnds = b'.wordEnds)
    (h : (itemsOfSeq b a (x :: rest)).1 = (itemsOfSeq b' a ((x :: rest).map inlinedPart)).1) :
    ∀ y ∈ rest.head?, Meets x y := by
  intro y hy
  obtain ⟨more, rfl⟩ := List.head?_eq_some_iff.1 hy
  obtain ⟨hx, hrest⟩ := List.forall_mem_cons.1 hl
  constructor
  · intro hgap
    cases x with
    | anyRun => exact showsStart_of_items_eq hrest hb (hw rfl) h
    | _ => exact Bool.noConfusion hgap
  · intro hgap
    cases y with
    | anyRun => exact showsEnd_of_items_eq hx h
    | _ => exact Bool.noConfusion hgap

theorem part_items_eq (hx : x.IsPart) {xs ys : List Regex}
    (hother : x.branches = [] → (x.items b a).1 = (x.inlinedPart.items b' a').1)
    (h : (x.items b a).1 ++ xs = (x.inlinedPart.items b' a').1 ++ ys) :
    (x.items b a).1 = (x.inlinedPart.items b' a').1 := by
  cases x with
  | seq ps => exact absurd rfl (hx ps)
  | alt ps =>
      cases ps with
      | nil => rfl
      | cons p ps => exact congrArg (fun r => [r]) (List.cons.inj h).1
  | _ => exact hother rfl

theorem showsEnd_of_gap (hl : ∀ z ∈ x :: rest, z.IsPart) (hmeets : ∀ y ∈ rest.head?, Meets x y)
    (hlast : a.gap = true → lastTrails (x :: rest) = true)
    (hgap : (aheadOfSeq a rest).gap = true) : x.ShowsEnd := by
  cases rest with
  | nil =>
      have htrails : x.trailsWithWordEnd = true := hlast hgap
      exact htrails.trans (lastTrails_inlined htrails).symm
  | cons y more =>
      have hy : y.IsPart := hl y (by simp)
      rw [aheadOfSeq, ahead_of_isPart hy] at hgap
      exact (hmeets y rfl).2 hgap

theorem wordEnds_inlinedPart (hx : x.IsPart) (h : x.ShowsEnd) :
    (x.items b a).2.wordEnds = (x.inlinedPart.items b' a').2.wordEnds := by
  rw [wordEnds_of_isPart hx, wordEnds_of_isPart (isPart_inlinedPart hx), h, inlined_of_isPart hx,
    lastTrails]

theorem row_renders (hl : ∀ x ∈ l, x.IsPart) (hin : ∀ x ∈ l, ∀ c ∈ x.branches, c.RendersInlined)
    (hb : b.edge = b'.edge) (hw : ∀ x ∈ l.head?, x.isAnyRun = true → b.wordEnds = b'.wordEnds)
    (hlast : l ≠ [] → a.gap = true → lastTrails l = true) :
    ((itemsOfSeq b a l).1 = (itemsOfSeq b' a (l.map inlinedPart)).1 ↔ ExposedRow l) ∧
      (ExposedRow l → (itemsOfSeq b a l).2.edge = (itemsOfSeq b' a (l.map inlinedPart)).2.edge) := by
  induction l generalizing b b' with
  | nil => exact ⟨iff_of_true rfl ⟨.nil, nofun⟩, fun _ => hb⟩
  | cons x rest ih =>
      obtain ⟨hx, hrest⟩ := List.forall_mem_cons.1 hl
      obtain ⟨hinx, hinrest⟩ := List.forall_mem_cons.1 hin
      have hwx := hw x rfl
      -- Neighbours that do not meet are told apart by the gap, whatever else is written.
      by_cases hmeets : ∀ y ∈ rest.head?, Meets x y
      · have hstart : x.isAnyRun = true → (aheadOfSeq a rest).wordStarts =
            (aheadOfSeq a (rest.map inlinedPart)).wordStarts := fun hgap =>
          (wordStarts_ahead_inlinedPart hrest fun y hy => (hmeets y hy).1 hgap).symm
        have hlastx := hlast (List.cons_ne_nil x rest)
        have hpart := part_renders hx hinx hb hwx (edge_ahead_inlinedPart (a := a) hrest).symm
          (gap_ahead_inlinedPart hrest).symm (showsEnd_of_gap hl hmeets hlastx) hstart
        have hbehind (hexposed : ∀ c ∈ x.branches, c.Exposed) := by
          refine ih hrest hinrest (hpart.2 hexposed) (fun y hy hgap => ?_) fun hne hgap => ?_
          · exact wordEnds_inlinedPart hx ((hmeets y hy).2 hgap)
          · exact (lastTrails_cons hne).symm.trans (hlastx hgap)
        rw [exposedRow_cons, List.map_cons, items_seq_cons, items_seq_cons]
        constructor
        · constructor
          · intro h
            have hitems := part_items_eq hx (fun hnone => hpart.1.2 (by simp [hnone])) h
            have hexposed := hpart.1.1 hitems
            rw [hitems] at h
            exact ⟨⟨hmeets, hexposed⟩, (hbehind hexposed).1.1 (List.append_cancel_left h)⟩
          · rintro ⟨⟨-, hexposed⟩, hrow⟩
            rw [hpart.1.2 hexposed, (hbehind hexposed).1.2 hrow]
        · rintro ⟨⟨-, hexposed⟩, hrow⟩
          exact (hbehind hexposed).2 hrow
      · have hnot : ¬ ExposedRow (x :: rest) := fun h => hmeets (exposedRow_cons.1 h).1.1
        exact ⟨iff_of_false (fun h => hmeets (meets_of_items_eq hl hb hwx h)) hnot,
          fun h => absurd h hnot⟩

end Rows

section Texts

theorem rendersInlined_of_branches (h : ∀ x ∈ p.flat, ∀ c ∈ x.branches, c.RendersInlined) :
    p.RendersInlined := by
  intro b a hgap
  have hrow := row_renders (a := a) (fun x => ne_seq_of_mem_flat) h (rfl : b.edge = b.edge)
    (fun _ _ _ => rfl) fun _ hg => lastTrails_flat (hgap hg)
  rw [← inlined_eq_map, items_flat, ← exposed_iff] at hrow
  exact hrow

theorem rendersInlined (p : Pattern) : p.RendersInlined := by
  apply rendersInlined_of_branches
  induction p using induction_seq with
  | nil => nofun
  | cons p ps hp hps =>
      rw [flat_seq_cons, List.forall_mem_append]
      exact ⟨hp, hps⟩
  | alt ps ih =>
      exact List.forall_mem_singleton.2 fun c hc => rendersInlined_of_branches (ih c hc)
  | _ => exact List.forall_mem_singleton.2 nofun

theorem toText_inlined_iff : p.toText = (Pattern.seq p.inlined).toText ↔ p.Exposed :=
  toText_inj.trans (rendersInlined p ⟨.opening, false⟩ ⟨.closing, false, false⟩ nofun).1

/-- An exposed pattern is written as the same text however its sequences are nested, as long as the
other nesting is exposed too. -/
theorem toText_eq_iff_exposed (hinlined : p.inlined = q.inlined) (hp : p.Exposed) :
    p.toText = q.toText ↔ q.Exposed := by
  rw [toText_inlined_iff.2 hp, hinlined, eq_comm, toText_inlined_iff]

def shownWord : Pattern := .seq [.anyRun, .alt [wholeWord "a".toList]]

def nestedWord : Pattern :=
  .seq [.seq [.anyRun, .seq []], .alt [.seq [.wordStart, .seq [.literal "a".toList, .wordEnd]]]]

def hiddenWord : Pattern := .seq [.anyRun, .alt [.seq [.seq [], wholeWord "a".toList]]]

theorem toText_eq_iff_exposed_nestedWord :
    shownWord.inlined = nestedWord.inlined ∧ shownWord.Exposed ∧
      (shownWord.toText = nestedWord.toText ↔ nestedWord.Exposed) := by
  have hinlined : shownWord.inlined = nestedWord.inlined := rfl
  have hexposed : shownWord.Exposed := exposed_of_full rfl
  exact ⟨hinlined, hexposed, toText_eq_iff_exposed hinlined hexposed⟩

/-- How sequences are nested can change the text. -/
theorem exists_inlined_eq_toText_ne : ∃ p q : Pattern, p.inlined = q.inlined ∧ p.toText ≠ q.toText :=
  ⟨shownWord, hiddenWord, rfl, by decide⟩

end Texts

end Pattern

end NoteQuery
