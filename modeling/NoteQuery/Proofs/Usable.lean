import NoteQuery.Proofs.FieldStem

namespace NoteQuery

open Pattern Text

namespace Regex

/-- The counts fit, and the items are nested no deeper than the deepest gap. -/
structure Shallow (items : List Regex) : Prop where
  counts : everyItem countFits items = true
  depth : depthOfItems items ≤ 8

variable {xs ys : List Regex}

theorem depthOfItems_append :
    depthOfItems (xs ++ ys) = max (depthOfItems xs) (depthOfItems ys) := by
  induction xs with
  | nil => simp [depthOfItems]
  | cons r rest ih => rw [List.cons_append, depthOfItems, depthOfItems, ih, Nat.max_assoc]

theorem Shallow.append (hx : Shallow xs) (hy : Shallow ys) : Shallow (xs ++ ys) := by
  refine ⟨everyItem_append.trans (Bool.and_eq_true_iff.2 ⟨hx.counts, hy.counts⟩), ?_⟩
  rw [depthOfItems_append]
  exact Nat.max_le.2 ⟨hx.depth, hy.depth⟩

theorem Shallow.usable (h : Shallow xs) : usable xs = true := by
  have hdepth : depthOfSeq xs ≤ maxDepth := by
    have := h.depth
    rw [depthOfSeq, maxDepth]
    split <;> omega
  rw [Regex.usable, h.counts, decide_eq_true hdepth]
  rfl

theorem depthOfItems_chars (w : Text) : depthOfItems (w.map .char) = 0 := by
  induction w with
  | nil => rfl
  | cons c w ih => rw [List.map_cons, depthOfItems, depth, ih, Nat.max_zero]

theorem shallow_chars (w : Text) : Shallow (w.map .char) := by
  refine ⟨everyItem_chars (fun _ => rfl) w, ?_⟩
  rw [depthOfItems_chars]
  exact Nat.zero_le 8

theorem depthOfBranches_chars_le (es : List Text) :
    depthOfBranches (es.map (fun e => e.map .char)) ≤ 1 := by
  induction es with
  | nil => exact Nat.zero_le 1
  | cons e rest ih =>
      rw [List.map_cons, depthOfBranches, depthOfItems_chars]
      refine Nat.max_le.2 ⟨?_, ih⟩
      split <;> decide

end Regex

namespace Pattern

def IsShallow (p : Pattern) : Prop := ∀ b a, Regex.Shallow (p.items b a).1

theorem isShallow_literal (w : Text) : (Pattern.literal w).IsShallow := fun _ _ =>
  Regex.shallow_chars w

theorem shallow_gapItems (w w' : Bool) (left next : Edge) :
    Regex.Shallow (gapItems w w' left next) := by
  cases w <;> cases w' <;> cases left <;> cases next <;> exact ⟨rfl, by decide⟩

theorem Boundary.shallow_startItems (x : Boundary) : Regex.Shallow x.startItems := by
  cases x <;> exact ⟨rfl, by decide⟩

theorem Boundary.shallow_endItems (x : Boundary) : Regex.Shallow x.endItems := by
  cases x <;> exact ⟨rfl, by decide⟩

theorem isShallow_anyRun : Pattern.anyRun.IsShallow := fun _ _ => shallow_gapItems _ _ _ _

theorem isShallow_anyExactly {n : Nat} (h : n < Regex.countBound) :
    (Pattern.anyExactly n).IsShallow := by
  intro b a
  cases n with
  | zero => exact ⟨rfl, Nat.zero_le 8⟩
  | succ n =>
      refine ⟨?_, by simp [items, Regex.depthOfItems, Regex.depth]⟩
      simpa [items, Regex.everyItem, Regex.everywhere, Regex.countFits] using h

theorem isShallow_wordStart : Pattern.wordStart.IsShallow := fun _ _ =>
  Boundary.shallow_startItems _

theorem isShallow_wordEnd : Pattern.wordEnd.IsShallow := fun _ _ => Boundary.shallow_endItems _

theorem isShallow_nameEnd : Pattern.nameEnd.IsShallow := fun _ _ => ⟨rfl, Nat.zero_le 8⟩

theorem isShallow_literals (es : List Text) : (Pattern.alt (es.map .literal)).IsShallow := by
  intro b a
  cases es with
  | nil => exact ⟨rfl, by simp [items, Regex.depthOfItems, Regex.depth]⟩
  | cons e rest =>
      have hdepth := Regex.depthOfBranches_chars_le (e :: rest)
      have hitems : ((Pattern.alt ((e :: rest).map .literal)).items b a).1 =
          [.group false ((e :: rest).map (fun e => e.map .char))] := by
        simp only [items, itemsOfAlt_literals]
        rfl
      rw [hitems]
      constructor
      · rw [Regex.everyItem_group_iff, List.forall_mem_map]
        exact ⟨rfl, fun e _ => (Regex.shallow_chars e).counts⟩
      · simp only [Regex.depthOfItems, Regex.depth, Bool.false_eq_true, if_false]
        refine Nat.max_le.2 ⟨?_, Nat.zero_le 8⟩
        split <;> omega

theorem isShallow_seq {ps : List Pattern} (h : ∀ p ∈ ps, p.IsShallow) :
    (Pattern.seq ps).IsShallow := by
  intro b a
  rw [items]
  induction ps generalizing b with
  | nil => exact ⟨rfl, Nat.zero_le 8⟩
  | cons p rest ih =>
      exact (h p (by simp) _ _).append (ih (fun p hp => h p (by simp [hp])) _)

theorem isShallow_wholeWord (w : Text) : (wholeWord w).IsShallow :=
  isShallow_seq (by simp [isShallow_wordStart, isShallow_literal, isShallow_wordEnd])

theorem mem_withGaps {ps : List Pattern} {p : Pattern} (h : p ∈ withGaps ps) :
    p ∈ ps ∨ p = .anyRun := by
  induction ps with
  | nil => simp [withGaps] at h
  | cons q rest ih =>
      cases rest with
      | nil => exact .inl h
      | cons r more =>
          simp only [withGaps, List.mem_cons] at h
          rcases h with rfl | rfl | h
          · exact .inl (by simp)
          · exact .inr rfl
          · rcases ih h with h | h
            · exact .inl (List.mem_cons_of_mem _ h)
            · exact .inr h

theorem isShallow_separated {ps : List Pattern} (h : ∀ p ∈ ps, p.IsShallow) :
    (Pattern.separated ps).IsShallow := by
  apply isShallow_seq
  intro p hp
  rcases mem_withGaps hp with hp | rfl
  · exact h p hp
  · exact isShallow_anyRun

end Pattern

namespace Query

variable {c : Convention} {q : Query} {p : Pattern}

theorem isShallow_of_segment (hq : q.TextsOnly)
    (hk : ∀ e, q.keywords = some e → ∀ p, e.pattern slug c.sort = .ok p → p.IsShallow) {f : Field}
    (h : q.segment c slug f = .ok (some p)) : p.IsShallow := by
  cases f with
  | identifier =>
      obtain ⟨v, _, hp⟩ := ifAsked_eq_ok.1 h
      obtain ⟨n, body, hn, hbody, rfl⟩ := identifierSegment_eq_ok hp
      have hshallow : body.IsShallow := by
        rcases hbody with ⟨rfl, _⟩ | ⟨rfl, _⟩
        · exact isShallow_literal v
        · have hcount : n < Regex.countBound := by
            rw [Identifier.width] at hn
            rw [Regex.countBound]
            omega
          exact isShallow_seq (by simp [isShallow_literal, isShallow_anyExactly hcount])
      split
      · exact hshallow
      · exact isShallow_seq (by simp [isShallow_literal, hshallow])
  | signature =>
      obtain ⟨w, hw, hp⟩ := ifAsked_eq_ok.1 h
      cases w with
      | pattern p => exact absurd hw (hq.signature p)
      | text raw =>
          cases hp
          exact isShallow_seq (by simp [isShallow_literal])
  | title =>
      obtain ⟨w, hw, hp⟩ := ifAsked_eq_ok.1 h
      cases w with
      | pattern p => exact absurd hw (hq.title p)
      | text raw =>
          cases hp
          exact isShallow_seq (by simp [isShallow_literal])
  | keywords =>
      obtain ⟨e, he, hp⟩ := ifAsked_eq_ok.1 h
      obtain ⟨k, hkp, rfl⟩ := Except.map_eq_ok.1 hp
      exact isShallow_seq (by simp [isShallow_literal, isShallow_anyRun, hk e he k hkp])
  | fileType =>
      obtain ⟨tags, _, hp⟩ := ifAsked_eq_ok.1 h
      obtain ⟨es, _, rfl⟩ := fileTypeSegment_eq_ok hp
      exact isShallow_seq (by simp [isShallow_literals, isShallow_nameEnd])

/-- A query for texts has a usable regular expression if its keywords have a shallow pattern. -/
theorem regex_of_shallow (hq : q.TextsOnly)
    (hk : ∀ e, q.keywords = some e → ∀ p, e.pattern slug c.sort = .ok p → p.IsShallow)
    (hp : q.pattern c slug = .ok p) : q.regex c slug = .ok p.toRegex := by
  obtain ⟨ps, hps, rfl⟩ := pattern_eq_ok.1 hp
  have hshallow : (Pattern.separated ps).IsShallow := by
    apply isShallow_separated
    intro p hp
    obtain ⟨f, _, h⟩ := mem_segments hps hp
    exact isShallow_of_segment hq hk h
  have husable : Regex.usable (Pattern.separated ps).toRegex = true := (hshallow _ _).usable
  simp [Query.regex, hp, bind, Except.bind, Pattern.regex, husable]

theorem regex_of_pattern (hq : q.TextsOnly) (hk : ∀ e, q.keywords = some e → ∃ w, e = .word w)
    (hp : q.pattern c slug = .ok p) : q.regex c slug = .ok p.toRegex := by
  apply regex_of_shallow hq _ hp
  intro e he k hkp
  obtain ⟨w, rfl⟩ := hk e he
  obtain ⟨_, rfl⟩ := Keyword.Expr.wordPattern_eq_ok hkp
  exact isShallow_wholeWord _

end Query

end NoteQuery
