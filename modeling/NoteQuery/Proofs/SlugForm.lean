import NoteQuery.Proofs.LegibleNote
import NoteQuery.Proofs.LowerCase

namespace NoteQuery

namespace Text

variable {sep ch c : Char} {raw t w : Text} {ws : List Text}

section Words

theorem words_eq_splitOnP (raw : Text) :
    raw.words = (raw.lowercase.splitOnP fun c => !isAlphanumeric c).filter fun w => !w.isEmpty :=
  runs_eq_splitOnP isAlphanumeric raw.lowercase

theorem flatten_words (raw : Text) : raw.words.flatten = raw.lowercase.filter isAlphanumeric :=
  flatten_runs isAlphanumeric raw.lowercase

theorem isWord_of_mem_words (h : w ∈ raw.words) : IsWord w := ⟨(mem_runs h).1, (mem_runs h).2⟩

theorem not_mem_of_mem_words (hch : isAlphanumeric ch = false) (h : w ∈ raw.words) : ch ∉ w := by
  intro hc
  simp [(isWord_of_mem_words h).alphanumeric ch hc] at hch

theorem isSmall_of_mem_words (h : w ∈ raw.words) (hc : c ∈ w) : IsSmall c := by
  have hflat : c ∈ raw.words.flatten := List.mem_flatten.2 ⟨w, h, hc⟩
  rw [flatten_words] at hflat
  exact isSmall_of_mem_lowercase (List.mem_filter.1 hflat).1

theorem map_words {f : Char → Char} (hf : ∀ c, isAlphanumeric c = true → f c = c) (raw : Text) :
    raw.words.map (List.map f) = raw.words := by
  have hword : ∀ w ∈ raw.words, w.map f = id w := by
    intro w hw
    have hchars : ∀ c ∈ w, f c = id c :=
      fun c hc => hf c ((isWord_of_mem_words hw).alphanumeric c hc)
    rw [List.map_congr_left hchars, List.map_id, id]
  rw [List.map_congr_left hword, List.map_id]

theorem words_join (hch : isAlphanumeric ch = false) (hsmall : IsSmall ch) (raw : Text) :
    (join [ch] raw.words).words = raw.words := by
  have hlower : (join [ch] raw.words).lowercase = join [ch] raw.words := by
    refine lowercase_of_isSmall fun c hc => ?_
    rcases mem_join hc with hc | ⟨w, hw, hc⟩
    · exact List.mem_singleton.1 hc ▸ hsmall
    · exact isSmall_of_mem_words hw hc
  have hruns := runs_join (t := []) hch (fun w (hw : w ∈ raw.words) => mem_runs hw) nofun
  rw [words, hlower]
  simpa [runs] using hruns

end Words

section Joined

theorem join_eq_intercalate (sep : Text) (ws : List Text) : join sep ws = sep.intercalate ws := by
  induction ws with
  | nil => rfl
  | cons w rest ih =>
      cases rest with
      | nil => simp [join, List.intercalate]
      | cons w' more => rw [join, List.intercalate_cons_cons, ih]

theorem map_join (f : Char → Char) (sep : Text) (ws : List Text) :
    (join sep ws).map f = join (sep.map f) (ws.map (List.map f)) := by
  induction ws with
  | nil => rfl
  | cons w rest ih =>
      cases rest with
      | nil => rfl
      | cons w' more => simpa [join] using ih

theorem filter_join (h : ∀ w ∈ ws, sep ∉ w) :
    (join [sep] ws).filter (fun c => c ≠ sep) = ws.flatten := by
  induction ws with
  | nil => rfl
  | cons w rest ih =>
      obtain ⟨hw, hrest⟩ := List.forall_mem_cons.1 h
      have hkept : w.filter (fun c => c ≠ sep) = w :=
        List.filter_eq_self.2 fun c hc => by
          have hne : c ≠ sep := fun he => hw (he ▸ hc)
          simpa using hne
      cases rest with
      | nil => simpa [join] using hkept
      | cons w' more =>
          rw [join, List.filter_append, List.filter_append, hkept, ih hrest]
          simp

theorem getLast?_join (h : ∀ w ∈ ws, w ≠ [] ∧ sep ∉ w) : (join [sep] ws).getLast? ≠ some sep := by
  induction ws with
  | nil => simp [join]
  | cons w rest ih =>
      obtain ⟨⟨-, hw⟩, hrest⟩ := List.forall_mem_cons.1 h
      cases rest with
      | nil => exact fun hlast => hw (List.mem_of_getLast? hlast)
      | cons w' more =>
          have hne : join [sep] (w' :: more) ≠ [] := by
            obtain ⟨⟨hne, -⟩, -⟩ := List.forall_mem_cons.1 hrest
            cases more with
            | nil => exact hne
            | cons _ _ => simp [join, hne]
          rw [join, List.getLast?_append_of_ne_nil _ hne]
          exact ih hrest

theorem Spaced.head? (h : Spaced ch t) : t.head? ≠ some ch := by
  intro hhead
  have hfirst := (List.isChain_cons.1 h).1 ch hhead
  exact hfirst.elim (fun hne => hne rfl) (fun hne => hne rfl)

theorem Spaced.not_pair_infix (h : Spaced ch t) : ¬ [ch, ch] <:+: t := by
  intro hpair
  have hchain := h.infix (hpair.trans (List.suffix_cons ch t).isInfix)
  exact (List.isChain_pair.1 hchain).elim (fun hne => hne rfl) (fun hne => hne rfl)

theorem not_pair_infix_of_not_mem (h : ch ∉ t) : ¬ [ch, ch] <:+: t :=
  fun hpair => h (hpair.subset (List.mem_cons_self ..))

end Joined

end Text

open Text

/-- A slug is its own slug. -/
theorem slug_slug (kind : SlugKind) (raw : Text) : slug kind (slug kind raw) = slug kind raw := by
  cases kind with
  | signature => exact congrArg (join ['=']) (words_join (by decide) ⟨by decide, by decide⟩ raw)
  | title => exact congrArg (join ['-']) (words_join (by decide) ⟨by decide, by decide⟩ raw)
  | keyword =>
      have hlower : (slug .keyword raw).lowercase = slug .keyword raw :=
        lowercase_of_isSmall fun c hc => isSmall_of_mem_lowercase (List.mem_filter.1 hc).1
      calc slug .keyword (slug .keyword raw)
          = (slug .keyword raw).filter isAlphanumeric := congrArg _ hlower
        _ = slug .keyword raw := List.filter_eq_self.2 fun _ hc => (List.mem_filter.1 hc).2

-- The dot of a dotted capital becomes a mark of its own, which ends the word.
example : slug .title "İΟΔΟΣ".toList = "i-οδος".toList := by decide

theorem slug_signature_eq_map (raw : Text) :
    slug .signature raw = (slug .title raw).map fun c => if c = '-' then '=' else c := by
  let resign (c : Char) : Char := if c = '-' then '=' else c
  have hkept : ∀ c, isAlphanumeric c = true → resign c = c := by
    intro c hc
    refine if_neg ?_
    rintro rfl
    exact absurd hc (by decide)
  calc slug .signature raw
      = join ['='] (raw.words.map (List.map resign)) :=
        congrArg (join ['=']) (map_words hkept raw).symm
    _ = (slug .title raw).map resign := (map_join resign ['-'] raw.words).symm

theorem slug_keyword_eq_filter (raw : Text) :
    slug .keyword raw = (slug .title raw).filter fun c => c ≠ '-' := by
  have hdash : ∀ w ∈ raw.words, '-' ∉ w := fun w hw => not_mem_of_mem_words (by decide) hw
  calc slug .keyword raw
      = raw.words.flatten := (flatten_words raw).symm
    _ = (slug .title raw).filter (fun c => c ≠ '-') := (filter_join hdash).symm

/-- The words of a title are the pieces of the text in lower case between the characters that are
neither letters nor numerals, each one set off from the next by one sign. A signature has another
sign there, and a keyword none. -/
theorem slug_conventions (raw : Text) :
    let words := (raw.lowercase.splitOnP fun c => !isAlphanumeric c).filter fun w => !w.isEmpty
    let title := slug .title raw
    (∀ w ∈ words, IsWord w) ∧ title = ['-'].intercalate words ∧
      title.head? ≠ some '-' ∧ title.getLast? ≠ some '-' ∧
      (∀ sign ∈ ['-', '=', '_', '@'], ¬ [sign, sign] <:+: title) ∧ '.' ∉ title ∧
      slug .signature raw = title.map (fun c => if c = '-' then '=' else c) ∧
      slug .keyword raw = title.filter (fun c => c ≠ '-') ∧
      slug .keyword raw = raw.lowercase.filter isAlphanumeric := by
  intro words title
  have hwords : words = raw.words := (words_eq_splitOnP raw).symm
  have hspaced : Spaced '-' title := spaced_words (by decide) raw
  have hlast : title.getLast? ≠ some '-' := getLast?_join fun w hw =>
    ⟨(isWord_of_mem_words hw).ne_nil, not_mem_of_mem_words (by decide) hw⟩
  have hnot {ch : Char} (hch : isAlphanumeric ch = false) (hne : ch ≠ '-') : ch ∉ title := by
    intro hc
    rcases mem_slug hc with hal | hc
    · simp [hch] at hal
    · exact hne (List.mem_singleton.1 hc)
  refine ⟨?_, ?_, hspaced.head?, hlast, ?_, hnot (by decide) (by decide),
    slug_signature_eq_map raw, slug_keyword_eq_filter raw, rfl⟩
  · exact fun w hw => isWord_of_mem_words (hwords ▸ hw)
  · exact hwords ▸ join_eq_intercalate ['-'] raw.words
  · intro sign hsign
    rcases List.mem_cons.1 hsign with rfl | hsign
    · exact hspaced.not_pair_infix
    · simp only [List.mem_cons, List.not_mem_nil, or_false] at hsign
      rcases hsign with rfl | rfl | rfl <;>
        exact not_pair_infix_of_not_mem (hnot (by decide) (by decide))

end NoteQuery
