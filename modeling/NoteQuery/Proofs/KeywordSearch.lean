import Mathlib
import NoteQuery.Proofs.AsciiNote
import NoteQuery.Proofs.Selection

namespace NoteQuery

open Pattern Regex Text

namespace Pattern

variable {t w : Text}

theorem selects_keyword_iff (hw : IsWord w) :
    (Pattern.separated [.seq [.literal Field.keywords.mark, .anyRun, wholeWord w]]).Selects t ↔
      ∃ i m, Field.keywords.mark <+: t.drop i ∧ i + 2 ≤ m ∧ WordAt t w m := by
  have hmark : Field.keywords.mark.length = 2 := by decide
  simp only [Selects, Pattern.separated, withGaps, wholeWord, Covers, CoversAll]
  constructor
  · rintro ⟨i, j, hi, _, ⟨_, ⟨rfl, _, hm⟩, m, ⟨hle, _⟩, _, ⟨_, ⟨rfl, hstart⟩, _, ⟨rfl, _, hpre⟩, _,
      ⟨rfl, hend⟩, rfl⟩, rfl⟩, rfl⟩
    exact ⟨i, m, hm, hmark ▸ hle, hpre, hstart, hend⟩
  · rintro ⟨i, m, hm, hle, hpre, hstart, hend⟩
    have hlen := hpre.length_le
    have hpos := List.length_pos_iff.2 hw.ne_nil
    rw [List.length_drop] at hlen
    refine ⟨i, m + w.length, by omega, m + w.length, ?_, rfl⟩
    refine ⟨i + 2, ⟨by rw [hmark], by omega, hm⟩, m, ⟨hle, by omega⟩, m + w.length, ?_, rfl⟩
    exact ⟨m, ⟨rfl, hstart⟩, m + w.length, ⟨rfl, by omega, hpre⟩, m + w.length, ⟨rfl, hend⟩, rfl⟩

end Pattern

namespace Note

variable {layout : Layout} {note : Note} {w : Text}

theorem getElem?_of_mark {t : Text} {i : Nat} (h : Field.keywords.mark <+: t.drop i) :
    t[i]? = some '_' := by
  obtain ⟨rest, hrest⟩ := h
  rw [← List.head?_drop, ← hrest]
  rfl

theorem exists_name_eq (h : note.Legible) (hf : .keywords ∈ layout.visits)
    (hne : note.keywords ≠ []) : ∃ u, '_' ∉ u ∧ note.name layout =
      (u ++ Field.keywords.mark) ++
        (join ['_'] note.keywords ++ note.behind layout .keywords) := by
  obtain ⟨u, hname, hu, -⟩ := name_split h hf
  refine ⟨u, hu, ?_⟩
  rw [hname, segment_keywords layout hne]
  simp

theorem runs_row (h : note.Canonical) (hf : .keywords ∈ layout.visits) :
    runs isAlphanumeric (join ['_'] note.keywords ++ note.behind layout .keywords) =
      note.keywords ++ runs isAlphanumeric (note.behind layout .keywords) := by
  obtain ⟨ch, rest, hch, hrest⟩ := head_behind h hf (by decide)
  have hwords := isWord_of_mem_keywords h
  refine runs_join (by decide)
    (fun k hk => ⟨(hwords k hk).ne_nil, (hwords k hk).alphanumeric⟩) ?_
  intro c hc
  rw [hrest] at hc
  cases hc
  exact (isSeparator_of_mark hch).2

theorem exists_wordAt_iff (h : note.Ascii) (hf : .keywords ∈ layout.visits) (hw : IsWord w) :
    (∃ i m, Field.keywords.mark <+: (note.name layout).drop i ∧ i + 2 ≤ m ∧
      WordAt (note.name layout) w m) ↔
      note.keywords ≠ [] ∧ (w ∈ note.keywords ∨
        w ∈ runs isAlphanumeric (note.behind layout .keywords)) := by
  by_cases hne : note.keywords = []
  · simp only [hne, ne_eq, not_true, false_and, iff_false]
    rintro ⟨i, m, hm, _⟩
    obtain ⟨u, hname, hu, hbehind⟩ := name_split h.legible hf
    have hmem := List.mem_of_getElem? (getElem?_of_mark hm)
    have hseg : note.segment layout .keywords = [] := by simp [segment, hne, marked]
    rw [hname, hseg, List.nil_append, List.mem_append] at hmem
    exact hmem.elim hu hbehind
  · obtain ⟨u, hu, hname⟩ := exists_name_eq h.legible hf hne
    have hlast : ∀ c, (u ++ Field.keywords.mark).getLast? = some c → isAlphanumeric c = false := by
      intro c hc
      rw [show Field.keywords.mark = ['_', '_'] by decide, List.getLast?_append] at hc
      obtain rfl : '_' = c := by simpa using hc
      decide
    have hlen : (u ++ Field.keywords.mark).length = u.length + 2 := List.length_append
    simp only [ne_eq, hne, not_false_eq_true, true_and]
    rw [← List.mem_append, ← runs_row h.toCanonical hf,
      mem_runs_iff hw.alphanumeric hw.ne_nil, hname]
    constructor
    · rintro ⟨i, m, hm, hle, hword⟩
      have hi : u.length ≤ i := by
        refine Nat.le_of_not_lt (fun hlt => hu ?_)
        have hlow := getElem?_of_mark hm
        rw [List.append_assoc, List.getElem?_append_left hlt] at hlow
        exact List.mem_of_getElem? hlow
      obtain ⟨k, rfl⟩ : ∃ k, m = (u ++ Field.keywords.mark).length + k :=
        ⟨m - (u.length + 2), by omega⟩
      exact ⟨k, (wordAt_append (fun _ => hlast)).1 hword⟩
    · rintro ⟨k, hword⟩
      refine ⟨u.length, (u ++ Field.keywords.mark).length + k, ?_, by omega,
        (wordAt_append (fun _ => hlast)).2 hword⟩
      rw [List.append_assoc, List.drop_left]
      exact List.prefix_append _ _

end Note

namespace Query

variable {c : Convention} {note : Note} {k : Text}

/-- A search for one keyword finds the notes with keywords among which it is, or behind which it is
a word of the name. -/
theorem isMatch_keyword_iff (fits : List Regex → Bool) (hn : note.Ascii)
    (hf : .keywords ∈ c.layout.fields) (hk : slug .keyword k ≠ []) :
    ∃ r, (Query.empty.withKeywords (.word k)).compiled fits c slug = Regex.compile fits r ∧
      (Regex.isMatch r (note.name c.layout) = true ↔ note.keywords ≠ [] ∧
        (slug .keyword k ∈ note.keywords ∨
          slug .keyword k ∈ runs isAlphanumeric (note.behind c.layout .keywords))) := by
  have hvisit : .keywords ∈ c.layout.visits := by simp [Layout.visits, hf]
  have hasks : ∀ g, g ≠ .keywords → (Query.empty.withKeywords (.word k)).asks g = false := by
    intro g hg
    cases g with
    | keywords => exact absurd rfl hg
    | _ => rfl
  have hseg : (Query.empty.withKeywords (.word k)).segment c slug .keywords = .ok (some
      (.seq [.literal Field.keywords.mark, .anyRun, wholeWord (slug .keyword k)])) := by
    obtain ⟨ch, rest, he⟩ := List.exists_cons_of_ne_nil hk
    simp [segment, withKeywords, ifAsked, keywordsSegment, Keyword.Expr.pattern,
      Keyword.Expr.wordPattern, he, Except.map]
  have htexts : (Query.empty.withKeywords (.word k)).TextsOnly := by
    constructor <;> simp [withKeywords, empty]
  have hword : ∀ e, (Query.empty.withKeywords (.word k)).keywords = some e → ∃ w, e = .word w := by
    intro e he
    cases he
    exact ⟨k, rfl⟩
  have hext : (Query.empty.withKeywords (.word k)).ExtensionsApart c.fileTypes := by
    intro tags htags
    cases htags
  obtain ⟨r, hr, hmatch⟩ := exists_regex_of_single (Note.conventional_name hn) hvisit hasks htexts
    hword hext hseg
  refine ⟨r, compiled_of_regex hr fits, ?_⟩
  rw [hmatch, selects_keyword_iff (isWord_slug_keyword hk)]
  exact Note.exists_wordAt_iff hn hvisit (isWord_slug_keyword hk)

def workNote : Note := ⟨"20240115T090500".toList, none, none, ["work".toList], ".org".toList⟩

theorem workNote_ascii : workNote.Ascii := by
  have hsig : ∀ s, workNote.signature ≠ some s := fun s hs => by cases hs
  have htitle : ∀ s, workNote.title ≠ some s := fun s hs => by cases hs
  refine ⟨⟨rfl, by decide, fun s hs => absurd hs (hsig s), fun s hs => absurd hs (htitle s), ?_,
    "org".toList, rfl⟩, forall_of_all (by decide), fun s hs => absurd hs (hsig s),
    fun s hs => absurd hs (htitle s), ?_, ?_⟩
  · intro k hk
    obtain rfl := List.mem_singleton.1 hk
    exact ⟨by decide, "work".toList, by decide⟩
  · intro k hk
    obtain rfl := List.mem_singleton.1 hk
    exact forall_of_all (by decide)
  · intro rest he
    cases he
    exact forall_of_all (by decide)

theorem isMatch_keyword_iff_of_workNote :
    workNote.Ascii ∧ .keywords ∈ Convention.standard.layout.fields ∧
      slug .keyword "Work".toList ≠ [] ∧
      ∃ r, (Query.empty.withKeywords (.word "Work".toList)).compiled (fun _ => true) .standard slug =
          .ok r ∧
        (Regex.isMatch r (workNote.name Convention.standard.layout) = true ↔
          workNote.keywords ≠ [] ∧ (slug .keyword "Work".toList ∈ workNote.keywords ∨
            slug .keyword "Work".toList ∈
              runs isAlphanumeric (workNote.behind Convention.standard.layout .keywords))) := by
  have hf : .keywords ∈ Convention.standard.layout.fields := by decide
  have hk : slug .keyword "Work".toList ≠ [] := by decide
  exact ⟨workNote_ascii, hf, hk, isMatch_keyword_iff _ workNote_ascii hf hk⟩

theorem isMatch_keyword_of_extension :
    ∃ r, workNote.Ascii ∧ slug .keyword "org".toList ≠ [] ∧
      slug .keyword "org".toList ∉ workNote.keywords ∧
      (Query.empty.withKeywords (.word "org".toList)).regex .standard slug = .ok r ∧
        Regex.isMatch r (workNote.name Convention.standard.layout) = true :=
  ⟨_, workNote_ascii, by decide, by decide, by cbv, by cbv⟩

end Query

end NoteQuery
