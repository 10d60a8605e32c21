import Mathlib
import NoteQuery.Proofs.KeywordOrder
import NoteQuery.Proofs.KeywordSelection
import NoteQuery.Proofs.Usable

namespace NoteQuery

open Pattern Regex Text

namespace Keyword.Expr

variable {normalize : Normalizer} {policy : SortPolicy} {ws : List Text} {p : Pattern}

theorem exists_wordPatterns (h : ∀ w ∈ ws, normalize .keyword w ≠ []) :
    ∃ ps, wordPatterns normalize ws = .ok ps := by
  induction ws with
  | nil => exact ⟨[], rfl⟩
  | cons w rest ih =>
      obtain ⟨hw, hrest⟩ := List.forall_mem_cons.1 h
      obtain ⟨ps, hps⟩ := ih hrest
      exact ⟨_, wordPatterns_cons_eq_ok.2 ⟨hw, ps, hps, rfl⟩⟩

theorem isShallow_of_wordPatterns {ps : List Pattern} (h : wordPatterns slug ws = .ok ps) :
    ∀ p ∈ ps, p.IsShallow := by
  induction ws generalizing ps with
  | nil =>
      cases h
      simp
  | cons w rest ih =>
      obtain ⟨-, others, hothers, rfl⟩ := wordPatterns_cons_eq_ok.1 h
      exact List.forall_mem_cons.2 ⟨isShallow_wholeWord _, ih hothers⟩

theorem exists_pattern_words (hne : ws ≠ []) (h : ∀ w ∈ ws, normalize .keyword w ≠ []) :
    ∃ p, (group .and (ws.map .word)).pattern normalize policy = .ok p := by
  have harranged : ∀ w ∈ policy.arrange ws, normalize .keyword w ≠ [] :=
    fun w hw => h w ((policy.perm_arrange ws).mem_iff.1 hw)
  obtain ⟨ps, hps⟩ := exists_wordPatterns harranged
  exact ⟨_, by rw [pattern_words hne, hps]; rfl⟩

end Keyword.Expr

namespace Query

variable {note : Note} {words : List Text} {tag : Text}

theorem regex_words {c : Convention} {tags : List Text} {p : Pattern} (hne : words ≠ [])
    (hp : (ofKeywords (.group .and (words.map .word)) tags).pattern c slug = .ok p) :
    (ofKeywords (.group .and (words.map .word)) tags).regex c slug = .ok p.toRegex := by
  apply regex_of_shallow (textsOnly_ofKeywords _ tags) _ hp
  intro e he k hk
  cases he
  rw [Keyword.Expr.pattern_words hne] at hk
  obtain ⟨ps, hps, rfl⟩ := Except.map_eq_ok.1 hk
  exact isShallow_separated (Keyword.Expr.isShallow_of_wordPatterns hps)

/-- Over ascending keywords a conjunction of words asks for each of them, and no two words may
change their order when they are normalised. -/
theorem isMatch_words_iff (fits : List Regex → Bool) (hn : note.Ascii)
    (hkeywords : Ascending note.keywords)
    (htag : Convention.standard.fileTypes.resolve tag = some note.extension) (hne : words ≠ [])
    (hwords : ∀ w ∈ words, slug .keyword w ≠ []) (hnodup : (words.map (slug .keyword)).Nodup) :
    ∃ r, (ofKeywords (.group .and (words.map .word)) [tag]).compiled fits .standard slug =
        Regex.compile fits r ∧
      (Regex.isMatch r (note.name Convention.standard.layout) = true ↔
        (∀ w ∈ words, slug .keyword w ∈ note.keywords) ∧ ∀ v ∈ words, ∀ w ∈ words,
          order v w = .lt → order (slug .keyword v) (slug .keyword w) = .lt) := by
  have hlast : Convention.standard.layout.fields.getLast? = some .keywords := rfl
  have hext : ∀ tag' ∈ [tag], ∀ x,
      Convention.standard.fileTypes.resolve tag' = some x → IsExtension x := by
    intro tag' htag' x hx
    obtain rfl := List.mem_singleton.1 htag'
    obtain rfl : note.extension = x := Option.some.inj (htag.symm.trans hx)
    obtain ⟨rest, he⟩ := hn.extension
    exact ⟨rest, he, hn.legible.extension_chars rest he⟩
  obtain ⟨p, hp⟩ : ∃ p,
      (ofKeywords (.group .and (words.map .word)) [tag]).pattern .standard slug = .ok p := by
    apply exists_pattern
    · exact nofun
    · intro e he
      cases he
      exact Keyword.Expr.exists_pattern_words hne hwords
    · intro tags htags
      cases htags
      apply exists_extensions
      intro tag' htag'
      exact ⟨_, List.mem_singleton.1 htag' ▸ htag⟩
  have htags : ∃ tag' ∈ [tag], Convention.standard.fileTypes.resolve tag' = some note.extension :=
    ⟨tag, by simp, htag⟩
  refine ⟨_, compiled_of_regex (regex_words hne hp) fits, ?_⟩
  rw [isMatch_iff_finds, finds_ofKeywords_iff hn hlast hext hp, and_iff_right htags]
  exact Keyword.Expr.metBy_words_iff hkeywords hnodup

theorem isMatch_words_iff_of_readingNote :
    readingNote.Ascii ∧ Ascending readingNote.keywords ∧
      Convention.standard.fileTypes.resolve "org".toList = some readingNote.extension ∧
      ["ZIG-2".toList, "Async!".toList] ≠ [] ∧
      (∀ w ∈ ["ZIG-2".toList, "Async!".toList], slug .keyword w ≠ []) ∧
      (["ZIG-2".toList, "Async!".toList].map (slug .keyword)).Nodup ∧
      ∃ r, (ofKeywords (.group .and (["ZIG-2".toList, "Async!".toList].map .word))
          ["org".toList]).compiled (fun _ => true) .standard slug = .ok r ∧
        (Regex.isMatch r (readingNote.name Convention.standard.layout) = true ↔
          (∀ w ∈ ["ZIG-2".toList, "Async!".toList], slug .keyword w ∈ readingNote.keywords) ∧
          ∀ v ∈ ["ZIG-2".toList, "Async!".toList], ∀ w ∈ ["ZIG-2".toList, "Async!".toList],
            order v w = .lt → order (slug .keyword v) (slug .keyword w) = .lt) := by
  have hkeywords : Ascending readingNote.keywords := by decide
  have hwords : ∀ w ∈ ["ZIG-2".toList, "Async!".toList], slug .keyword w ≠ [] := by decide
  have hnodup : (["ZIG-2".toList, "Async!".toList].map (slug .keyword)).Nodup := by decide
  exact ⟨readingNote_ascii, hkeywords, rfl, by simp, hwords, hnodup,
    isMatch_words_iff _ readingNote_ascii hkeywords rfl (by simp) hwords hnodup⟩

/-- Both words are keywords of the note, but the capital letter puts them in the other order. -/
theorem exists_words_not_found :
    ∃ (note : Note) (words : List Text) (r : List Regex), note.Ascii ∧ Ascending note.keywords ∧
      Convention.standard.fileTypes.resolve "org".toList = some note.extension ∧
      words ≠ [] ∧ (words.map (slug .keyword)).Nodup ∧
      (∀ w ∈ words, slug .keyword w ≠ [] ∧ slug .keyword w ∈ note.keywords) ∧
      (ofKeywords (.group .and (words.map .word)) ["org".toList]).regex .standard slug = .ok r ∧
        Regex.isMatch r (note.name Convention.standard.layout) = false := by
  refine ⟨⟨"20240115T090500".toList, none, none, ["alpha".toList, "zeta".toList], ".org".toList⟩,
    ["Zeta".toList, "alpha".toList], _, ?_, by decide, rfl, by simp, by decide, by decide, by cbv,
    by cbv⟩
  have hkeyword {k : Text} (hk : k ∈ ["alpha".toList, "zeta".toList]) :
      k = "alpha".toList ∨ k = "zeta".toList :=
    (List.mem_cons.1 hk).imp id List.mem_singleton.1
  refine ⟨⟨rfl, by decide, by simp, by simp, ?_, "org".toList, rfl⟩, forall_of_all (by decide),
    by simp, by simp, ?_, ?_⟩
  · intro k hk
    refine ⟨?_, k, ?_⟩ <;> rcases hkeyword hk with rfl | rfl <;> decide
  · intro k hk
    apply forall_of_all
    rcases hkeyword hk with rfl | rfl <;> decide
  · intro rest he
    cases he
    exact forall_of_all (by decide)

end Query

end NoteQuery
