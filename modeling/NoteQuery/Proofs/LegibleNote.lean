import Mathlib.Data.List.Chain
import NoteQuery.Proofs.Boundary
import NoteQuery.Proofs.Consistency
import NoteQuery.Proofs.QuerySegments

namespace NoteQuery

open Text

def Field.sign : Field → Char
  | .identifier => '@'
  | .signature => '='
  | .title => '-'
  | .keywords => '_'
  | .fileType => '.'

/-- A dot with letters and numerals behind it. -/
def Text.IsExtension (x : Text) : Prop :=
  ∃ rest, x = '.' :: rest ∧ ∀ c ∈ rest, isAlphanumeric c = true

/-- A canonical note with only digits and `T` in its identifier, and only letters and numerals
behind the dot of its extension. -/
structure Note.Legible (note : Note) : Prop extends Note.Canonical note where
  identifier_chars : ∀ c ∈ note.identifier, isDigit c = true ∨ c = 'T'
  extension_chars : ∀ rest, note.extension = '.' :: rest → ∀ c ∈ rest, isAlphanumeric c = true

def Layout.behind (layout : Layout) (f : Field) : List Field :=
  (layout.visits.dropWhile (· ≠ f)).tail

def Note.behind (layout : Layout) (note : Note) (f : Field) : Text :=
  (layout.behind f).flatMap (note.segment layout)

def Text.Spaced (ch : Char) (t : Text) : Prop := (ch :: t).IsChain fun a b => a ≠ ch ∨ b ≠ ch

namespace Text

variable {ch : Char} {t u v : Text} {i : Nat}

theorem isChain_of_not_mem (a : Char) (h : ch ∉ t) :
    (a :: t).IsChain fun a b => a ≠ ch ∨ b ≠ ch := by
  induction t generalizing a with
  | nil => exact .singleton a
  | cons b t ih =>
      have hb : b ≠ ch := fun he => h (by simp [he])
      exact .cons_cons (.inr hb) (ih b (fun hc => h (List.mem_cons_of_mem b hc)))

theorem Spaced.of_not_mem (h : ch ∉ t) : Spaced ch t := isChain_of_not_mem ch h

theorem Spaced.append (ht : Spaced ch t) (hv : ch ∉ v) : Spaced ch (t ++ v) := by
  rw [Spaced, ← List.cons_append]
  refine List.isChain_append.2 ⟨ht, ?_, ?_⟩
  · exact (isChain_of_not_mem ch hv).tail
  · intro _ _ b hb
    refine .inr (fun he => hv ?_)
    exact he ▸ List.mem_of_mem_head? hb

theorem Spaced.join {words : List Text} (h : ∀ w ∈ words, w ≠ [] ∧ ch ∉ w) :
    Spaced ch (join [ch] words) := by
  induction words with
  | nil => exact .singleton ch
  | cons w rest ih =>
      obtain ⟨hne, hw⟩ := h w (by simp)
      cases rest with
      | nil => exact .of_not_mem hw
      | cons w' more =>
          have hrest := ih (fun w hw => h w (by simp [hw]))
          have hsplit : ch :: Text.join [ch] (w :: w' :: more) =
              (ch :: w) ++ (ch :: Text.join [ch] (w' :: more)) := by
            simp [Text.join]
          rw [Spaced, hsplit]
          refine List.isChain_append.2 ⟨isChain_of_not_mem ch hw, hrest, ?_⟩
          intro a ha _ _
          -- The last character before the sign belongs to a word.
          refine .inl (fun he => hw ?_)
          rw [List.getLast?_cons, List.getLast?_eq_some_getLast hne] at ha
          obtain rfl : w.getLast hne = a := by simpa using ha
          exact he ▸ List.getLast_mem hne

theorem eq_length_of_pair (hu : ch ∉ u) (hv : Spaced ch v)
    (h : [ch, ch] <+: (u ++ (ch :: ch :: v)).drop i) : i = u.length := by
  rcases Nat.lt_or_ge i u.length with hlt | hge
  · obtain ⟨x, hx⟩ := h
    have hfirst := congrArg List.head? hx
    rw [List.head?_drop, List.getElem?_append_left hlt] at hfirst
    exact absurd (List.mem_of_getElem? hfirst.symm) hu
  · obtain ⟨k, rfl⟩ := Nat.exists_eq_add_of_le hge
    cases k with
    | zero => rfl
    | succ k =>
        rw [List.drop_append, List.drop_eq_nil_of_le (Nat.le_add_right _ _), List.nil_append,
          Nat.add_sub_cancel_left, List.drop_succ_cons] at h
        obtain ⟨x, hx⟩ := h
        have hpair := hv.drop k
        rw [← hx, List.isChain_append, List.isChain_pair] at hpair
        exact absurd rfl (hpair.1.elim id id)

end Text

theorem spaced_words {ch : Char} (hch : isAlphanumeric ch = false) (raw : Text) :
    Spaced ch (join [ch] raw.words) := by
  apply Spaced.join
  intro w hw
  obtain ⟨hne, hal⟩ := mem_runs hw
  refine ⟨hne, fun hc => ?_⟩
  simp [hal ch hc] at hch

theorem IsSlug.spaced {s : Text} :
    (IsSlug .signature s → Spaced Field.signature.sign s) ∧
      (IsSlug .title s → Spaced Field.title.sign s) := by
  constructor
  · rintro ⟨_, raw, rfl⟩
    exact spaced_words (by decide) raw
  · rintro ⟨_, raw, rfl⟩
    exact spaced_words (by decide) raw

namespace Layout

variable {layout : Layout} {f : Field}

theorem exists_visits_eq (h : f ∈ layout.visits) :
    ∃ before, layout.visits = before ++ f :: layout.behind f ∧ f ∉ before ∧
      f ∉ layout.behind f := by
  have hsplit : layout.visits =
      layout.visits.takeWhile (· ≠ f) ++ f :: layout.behind f := by
    have hhead : ∀ fs : List Field, f ∈ fs →
        fs = fs.takeWhile (· ≠ f) ++ f :: (fs.dropWhile (· ≠ f)).tail := by
      intro fs hf
      induction fs with
      | nil => simp at hf
      | cons g rest ih =>
          by_cases hg : g = f
          · simp [hg]
          · have := ih (by simpa [Ne.symm hg] using hf)
            simpa [hg] using this
    exact hhead layout.visits h
  have hnodup := layout.nodup_visits
  rw [hsplit, List.nodup_append] at hnodup
  refine ⟨_, hsplit, ?_, (List.nodup_cons.1 hnodup.2.1).1⟩
  intro hf
  exact hnodup.2.2 f hf f (by simp) rfl

end Layout

theorem ascii_classes : ∀ n < 128,
    isSeparator (Char.ofNat n) = !isAlphanumeric (Char.ofNat n) ∧
      (isDigit (Char.ofNat n) = true → isAlphanumeric (Char.ofNat n) = true) := by decide

theorem isSeparator_of_ascii {c : Char} (h : c.toNat < 128) :
    isSeparator c = !isAlphanumeric c := by
  have := (ascii_classes c.toNat h).1
  rwa [Char.ofNat_toNat] at this

theorem isAlphanumeric_of_isDigit {c : Char} (h : isDigit c = true) :
    c.toNat < 128 ∧ isAlphanumeric c = true := by
  have hlt : c.toNat < 128 := by
    rw [isDigit, digit?] at h
    split at h
    · next hc =>
      have : c.toNat ≤ 57 := hc.2
      omega
    · simp at h
  have := (ascii_classes c.toNat hlt).2
  rw [Char.ofNat_toNat] at this
  exact ⟨hlt, this h⟩

namespace Note

variable {layout : Layout} {note : Note} {f : Field} {c : Char}

inductive Shows (note : Note) (c : Char) : Field → Prop
  | mark {f : Field} (h : c ∈ f.mark) : Shows note c f
  | identifier (h : c ∈ note.identifier) : Shows note c .identifier
  | signature {s : Text} (hs : note.signature = some s) (h : c ∈ s) : Shows note c .signature
  | title {s : Text} (hs : note.title = some s) (h : c ∈ s) : Shows note c .title
  | keyword {k : Text} (hk : k ∈ note.keywords) (h : c ∈ k) : Shows note c .keywords
  | extension (h : c ∈ note.extension) : Shows note c .fileType

theorem shows_of_mem_segment (hc : c ∈ note.segment layout f) : note.Shows c f := by
  have hmarked {f : Field} {s : Option Text} (hs : ∀ u, s = some u → c ∈ u → note.Shows c f)
      (hc : c ∈ marked f s) : note.Shows c f := by
    cases s with
    | none => simp [marked] at hc
    | some u =>
        rcases List.mem_append.1 hc with hc | hc
        · exact .mark hc
        · exact hs u rfl hc
  cases f with
  | identifier =>
      rw [segment, List.mem_append] at hc
      rcases hc with hc | hc
      · split at hc
        · simp at hc
        · exact .mark hc
      · exact .identifier hc
  | signature => exact hmarked (fun u hu hc => .signature hu hc) hc
  | title => exact hmarked (fun u hu hc => .title hu hc) hc
  | keywords =>
      refine hmarked (fun u hu hc => ?_) hc
      split at hu
      · cases hu
      · cases hu
        rcases mem_join hc with hc | ⟨k, hk, hc⟩
        · exact .mark (by simpa [Field.mark] using hc)
        · exact .keyword hk hc
  | fileType => exact .extension hc

theorem mark_chars (h : c ∈ f.mark) : c.toNat < 128 ∧ c = f.sign := by
  cases f <;> simp [Field.mark, Field.sign] at h ⊢ <;> simp [h]

theorem Shows.sign (h : note.Legible) (hc : note.Shows c f) :
    isAlphanumeric c = true ∨ c = f.sign := by
  cases hc with
  | mark hc => exact .inr (mark_chars hc).2
  | identifier hc =>
      rcases h.identifier_chars c hc with hd | rfl
      · exact .inl (isAlphanumeric_of_isDigit hd).2
      · exact .inl (by decide)
  | signature hs hc =>
      exact ((h.signature _ hs).mem hc).imp id (by simp [SlugKind.joiner, Field.sign])
  | title hs hc => exact ((h.title _ hs).mem hc).imp id (by simp [SlugKind.joiner, Field.sign])
  | keyword hk hc => exact ((h.keywords _ hk).mem hc).imp id (by simp [SlugKind.joiner])
  | extension hc =>
      obtain ⟨rest, he⟩ := h.extension
      rw [he] at hc
      rcases List.mem_cons.1 hc with rfl | hc
      · exact .inr rfl
      · exact .inl (h.extension_chars rest he c hc)

theorem sign_not_mem (h : note.Legible) {fs : List Field} (hfs : f ∉ fs) :
    f.sign ∉ fs.flatMap (note.segment layout) := by
  intro hmem
  obtain ⟨g, hg, hmem⟩ := List.mem_flatMap.1 hmem
  have hne : g ≠ f := fun he => hfs (he ▸ hg)
  rcases (shows_of_mem_segment hmem).sign h with hal | hs
  · cases f <;> exact absurd hal (by decide)
  · cases f <;> cases g <;> first | exact hne rfl | exact absurd hs (by decide)

theorem isWord_of_mem_keywords (h : note.Canonical) : ∀ w ∈ note.keywords, IsWord w := by
  intro w hw
  obtain ⟨hne, raw, rfl⟩ := h.keywords w hw
  exact isWord_slug_keyword hne

/-- The name up to a field, the field, and what is behind it; the sign of the field is its own. -/
theorem name_split {f : Field} (h : note.Legible) (hf : f ∈ layout.visits) :
    ∃ u, note.name layout = u ++ (note.segment layout f ++ note.behind layout f) ∧
      f.sign ∉ u ∧ f.sign ∉ note.behind layout f := by
  obtain ⟨before, hvisits, hbefore, hbehind⟩ := Layout.exists_visits_eq hf
  refine ⟨before.flatMap (note.segment layout), ?_, sign_not_mem h hbefore, sign_not_mem h hbehind⟩
  rw [name, hvisits, List.flatMap_append, List.flatMap_cons, behind]

theorem head_behind {f : Field} (h : note.Canonical) (hf : f ∈ layout.visits)
    (hne : f ≠ .fileType) :
    ∃ ch rest, ch ∈ ['@', '=', '-', '_', '.'] ∧ note.behind layout f = ch :: rest := by
  obtain ⟨before, hvisits, _, _⟩ := Layout.exists_visits_eq hf
  refine rest_begins h (fun g hg => Layout.isFirst_of_mem_tail ?_) ?_
  · rw [hvisits]
    cases before with
    | nil => exact hg
    | cons b before => simp [hg]
  · have hlast : layout.visits.getLast? = some .fileType := by simp [Layout.visits]
    rw [hvisits, List.getLast?_append] at hlast
    cases hbehind : layout.behind f with
    | nil =>
        rw [hbehind] at hlast
        exact absurd (by simpa using hlast) hne
    | cons b rest =>
        rw [hbehind, List.getLast?_cons_cons] at hlast
        exact List.mem_of_getLast? (by simpa using hlast)

theorem name_eq (layout : Layout) (note : Note) :
    note.name layout = layout.fields.flatMap (note.segment layout) ++ note.extension := by
  simp [name, Layout.visits, segment]

theorem eq_extension_of_drop (h : note.Legible) {x : Text} (hx : IsExtension x) {l : Nat}
    (hd : (note.name layout).drop l = x) :
    x = note.extension ∧ l = (layout.fields.flatMap (note.segment layout)).length := by
  obtain ⟨rest, rfl, _⟩ := hx
  obtain ⟨rest', he⟩ := h.extension
  have hdot : '.' ∉ layout.fields.flatMap (note.segment layout) :=
    sign_not_mem (f := .fileType) h layout.fileType_not_mem
  have hat : (note.name layout)[l]? = some '.' := by
    rw [← List.head?_drop, hd]
    rfl
  rw [name_eq, he] at hat hd
  generalize layout.fields.flatMap (note.segment layout) = u at *
  rcases Nat.lt_or_ge l u.length with hlt | hge
  · rw [List.getElem?_append_left hlt] at hat
    exact absurd (List.mem_of_getElem? hat) hdot
  · obtain ⟨k, rfl⟩ := Nat.exists_eq_add_of_le hge
    rw [List.getElem?_append_right hge, Nat.add_sub_cancel_left] at hat
    cases k with
    | zero =>
        rw [Nat.add_zero, List.drop_left] at hd
        exact ⟨hd.symm.trans he.symm, rfl⟩
    | succ k =>
        have hmem : '.' ∈ rest' := List.mem_of_getElem? (i := k) (by simpa using hat)
        exact absurd (h.extension_chars rest' he '.' hmem) (by decide)

end Note

end NoteQuery
