import Mathlib
import NoteQuery.Proofs.AsciiNote
import NoteQuery.Proofs.Selection

namespace NoteQuery

open Pattern Regex Text

namespace Pattern

variable {t w : Text} {i j : Nat}

theorem covers_identifier_iff {n : Nat} {body : Pattern} (hn : Identifier.width = w.length + n)
    (hbody : body = .literal w ∧ n = 0 ∨ body = .seq [.literal w, .anyExactly n] ∧ n ≠ 0) :
    Covers t body i j ↔ j = i + Identifier.width ∧ j ≤ t.length ∧ w <+: t.drop i := by
  rcases hbody with ⟨rfl, rfl⟩ | ⟨rfl, _⟩
  · rw [hn]
    exact Iff.rfl
  · simp only [Covers, CoversAll]
    constructor
    · rintro ⟨_, ⟨rfl, _, hpre⟩, _, ⟨rfl, hj⟩, rfl⟩
      exact ⟨by omega, hj, hpre⟩
    · rintro ⟨rfl, hj, hpre⟩
      exact ⟨i + w.length, ⟨rfl, by omega, hpre⟩, _, ⟨rfl, by omega⟩, by omega⟩

theorem selects_identifier_iff {n : Nat} {body : Pattern} (hn : Identifier.width = w.length + n)
    (hbody : body = .literal w ∧ n = 0 ∨ body = .seq [.literal w, .anyExactly n] ∧ n ≠ 0) :
    (Pattern.separated [body]).Selects t ↔
      ∃ i, i + Identifier.width ≤ t.length ∧ w <+: t.drop i := by
  simp only [Selects, Pattern.separated, withGaps, Covers, CoversAll,
    covers_identifier_iff hn hbody]
  constructor
  · rintro ⟨i, _, _, _, ⟨rfl, hle, hpre⟩, rfl⟩
    exact ⟨i, hle, hpre⟩
  · rintro ⟨i, hle, hpre⟩
    exact ⟨i, _, by omega, _, ⟨rfl, hle, hpre⟩, rfl⟩

theorem selects_marked_identifier_iff {n : Nat} {body : Pattern}
    (hn : Identifier.width = w.length + n)
    (hbody : body = .literal w ∧ n = 0 ∨ body = .seq [.literal w, .anyExactly n] ∧ n ≠ 0) :
    (Pattern.separated [.seq [.literal Field.identifier.mark, body]]).Selects t ↔
      ∃ i, ['@', '@'] <+: t.drop i ∧ i + 2 + Identifier.width ≤ t.length ∧
        w <+: t.drop (i + 2) := by
  have hmark : Field.identifier.mark = ['@', '@'] := by decide
  simp only [Selects, Pattern.separated, withGaps, Covers, CoversAll,
    covers_identifier_iff hn hbody, hmark]
  constructor
  · rintro ⟨i, _, _, _, ⟨_, ⟨rfl, _, hm⟩, _, ⟨rfl, hle, hpre⟩, rfl⟩, rfl⟩
    exact ⟨i, hm, hle, hpre⟩
  · rintro ⟨i, hm, hle, hpre⟩
    exact ⟨i, _, by omega, _, ⟨i + 2, ⟨rfl, by omega, hm⟩, _, ⟨rfl, hle, hpre⟩, rfl⟩, rfl⟩

end Pattern

/-- The only marked stretch of a name is its identifier. -/
theorem Note.exists_marked_iff {layout : Layout} {note : Note} {p : Text} (h : note.Ascii)
    (hf : .identifier ∈ layout.visits) (hfirst : layout.isFirst .identifier = false)
    (hp : p.length ≤ Identifier.width) :
    (∃ i, ['@', '@'] <+: (note.name layout).drop i ∧
      i + 2 + Identifier.width ≤ (note.name layout).length ∧ p <+: (note.name layout).drop (i + 2)) ↔
      p <+: note.identifier := by
  obtain ⟨u, hname, hu, hbehind⟩ := name_split h.legible hf
  have hid : '@' ∉ note.identifier := by
    intro hc
    rcases h.identifier_chars _ hc with hd | he
    · exact absurd hd (by decide)
    · exact absurd he (by decide)
  have hsplit : note.name layout =
      u ++ ('@' :: '@' :: (note.identifier ++ note.behind layout .identifier)) := by
    rw [hname, segment, hfirst]
    simp [Field.mark]
  have hdrop : (note.name layout).drop (u.length + 2) =
      note.identifier ++ note.behind layout .identifier := by
    rw [hsplit, ← List.drop_drop, List.drop_left]
    rfl
  constructor
  · rintro ⟨i, hm, _, hpre⟩
    rw [hsplit] at hm
    have hv : '@' ∉ note.identifier ++ note.behind layout .identifier := fun hc =>
      (List.mem_append.1 hc).elim hid hbehind
    obtain rfl := eq_length_of_pair hu (.of_not_mem hv) hm
    rw [hdrop] at hpre
    apply List.prefix_of_prefix_length_le hpre (List.prefix_append _ _)
    rw [h.identifier_length]
    exact hp
  · intro hpre
    refine ⟨u.length, ?_, ?_, ?_⟩
    · rw [hsplit, List.drop_left]
      exact List.prefix_append ['@', '@'] _
    · rw [hsplit, ← h.identifier_length]
      simp
      omega
    · rw [hdrop]
      exact hpre.trans (List.prefix_append _ _)

namespace Query

variable {c : Convention} {note : Note} {p : Text}

/-- Where identifiers are marked, a search finds the notes whose identifiers begin as it asks. Where
they come first, it finds every name that has the beginning somewhere, and room for the rest. -/
theorem isMatch_identifier_iff (hn : note.Ascii) (hf : .identifier ∈ c.layout.fields)
    (hp : p.length ≤ Identifier.width) :
    ∃ r, (Query.empty.withIdentifier p).regex c slug = .ok r ∧
      (Regex.isMatch r (note.name c.layout) = true ↔
        if c.layout.isFirst .identifier then
          ∃ i, i + Identifier.width ≤ (note.name c.layout).length ∧ p <+: (note.name c.layout).drop i
        else p <+: note.identifier) := by
  have hvisit : .identifier ∈ c.layout.visits := by simp [Layout.visits, hf]
  have hasks : ∀ g, g ≠ .identifier → (Query.empty.withIdentifier p).asks g = false := by
    intro g hg
    cases g with
    | identifier => exact absurd rfl hg
    | _ => rfl
  obtain ⟨s, hs⟩ : ∃ s, identifierSegment c.layout p = .ok s := by
    rw [identifierSegment, if_neg (Nat.not_lt.2 hp)]
    exact ⟨_, rfl⟩
  have hseg : (Query.empty.withIdentifier p).segment c slug .identifier = .ok (some s) := by
    simp [segment, withIdentifier, ifAsked, hs, Except.map]
  have htexts : (Query.empty.withIdentifier p).TextsOnly := by
    constructor <;> simp [withIdentifier, empty]
  have hkeywords : (Query.empty.withIdentifier p).keywords = none := rfl
  have hext : (Query.empty.withIdentifier p).ExtensionsApart c.fileTypes := by
    intro tags htags
    cases htags
  obtain ⟨r, hr, hmatch⟩ := exists_regex_of_single (Note.conventional_name hn) hvisit hasks htexts
    (by simp [hkeywords]) hext hseg
  refine ⟨r, hr, ?_⟩
  obtain ⟨n, body, hwidth, hbody, rfl⟩ := identifierSegment_eq_ok hs
  rw [hmatch]
  cases hfirst : c.layout.isFirst .identifier with
  | true => exact selects_identifier_iff hwidth hbody
  | false =>
      simp only [Bool.false_eq_true, if_false]
      rw [selects_marked_identifier_iff hwidth hbody]
      exact Note.exists_marked_iff hn hvisit hfirst hp

def reviewNote : Note :=
  ⟨"20230115T090500".toList, none, some "review-of-2024-projects".toList, [], ".org".toList⟩

theorem reviewNote_ascii : reviewNote.Ascii := by
  have hsig : ∀ s, reviewNote.signature ≠ some s := fun s hs => by cases hs
  have hkeywords : ∀ k, k ∉ reviewNote.keywords := fun k hk => by cases hk
  refine ⟨⟨rfl, by decide, fun s hs => absurd hs (hsig s), ?_, fun k hk => absurd hk (hkeywords k),
    "org".toList, rfl⟩, forall_of_all (by decide), fun s hs => absurd hs (hsig s), ?_,
    fun k hk => absurd hk (hkeywords k), ?_⟩
  · intro s hs
    cases hs
    exact ⟨by decide, "review of 2024 projects".toList, by decide⟩
  · intro s hs
    cases hs
    exact forall_of_all (by decide)
  · intro rest he
    cases he
    exact forall_of_all (by decide)

theorem isMatch_identifier_iff_of_reviewNote :
    reviewNote.Ascii ∧ .identifier ∈ Convention.standard.layout.fields ∧
      "2023".toList.length ≤ Identifier.width ∧
      ∃ r, (Query.empty.withIdentifier "2023".toList).regex .standard slug = .ok r ∧
        (Regex.isMatch r (reviewNote.name Convention.standard.layout) = true ↔
          if Convention.standard.layout.isFirst .identifier then
            ∃ i, i + Identifier.width ≤ (reviewNote.name Convention.standard.layout).length ∧
              "2023".toList <+: (reviewNote.name Convention.standard.layout).drop i
          else "2023".toList <+: reviewNote.identifier) := by
  have hf : .identifier ∈ Convention.standard.layout.fields := by decide
  have hp : "2023".toList.length ≤ Identifier.width := by decide
  exact ⟨reviewNote_ascii, hf, hp, isMatch_identifier_iff reviewNote_ascii hf hp⟩

theorem isMatch_identifier_of_title :
    ∃ r, reviewNote.Ascii ∧ (Identifier.parse? reviewNote.identifier).isSome = true ∧
      ¬ "2024".toList <+: reviewNote.identifier ∧
      (Query.empty.withIdentifier "2024".toList).regex .standard slug = .ok r ∧
        Regex.isMatch r (reviewNote.name Convention.standard.layout) = true :=
  ⟨_, reviewNote_ascii, by decide, by decide, by cbv, by cbv⟩

end Query

end NoteQuery
