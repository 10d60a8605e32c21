import Mathlib.Data.Nat.Find
import NoteQuery.Proofs.LeadingFields
import NoteQuery.Proofs.LegibleNote
import NoteQuery.Proofs.MissedNote

namespace NoteQuery

open Pattern Regex Text

namespace Text

def AsciiLine (t : Text) : Prop := ∀ c ∈ t, c.toNat < 128 ∧ c ≠ '\n'

/-- The extension may stand right behind a word, which another one may not, and no other one stands
at its end. -/
structure Outdone (e : Text) (es : List Text) : Prop where
  word : ∃ f ∈ es, f.BeginsWord
  noWord : ¬ e.BeginsWord
  alone : ∀ f ∈ es, f <:+ e → f = e

variable {t u e : Text} {es : List Text}

theorem AsciiLine.oneLine (h : t.AsciiLine) : '\n' ∉ t := fun hc => (h _ hc).2 rfl

theorem AsciiLine.of_subset (h : t.AsciiLine) (hu : u ⊆ t) : u.AsciiLine := fun c hc => h c (hu hc)

theorem AsciiLine.append (h : t.AsciiLine) (hu : u.AsciiLine) : (t ++ u).AsciiLine :=
  fun c hc => (List.mem_append.1 hc).elim (h c) (hu c)

theorem AsciiLine.separatorAt {k : Nat} (h : t.AsciiLine) (hk : k < t.length)
    (hword : ¬ BeginsWord (t.drop k)) : SeparatorAt t k := by
  refine ⟨t[k], List.getElem?_eq_getElem hk, ?_⟩
  rw [isSeparator_of_ascii (h _ (List.getElem_mem hk)).1]
  simp [not_beginsWord_iff.1 hword _ _ (List.drop_eq_getElem_cons hk)]

end Text

namespace Pattern

variable {xs : List Pattern} {es fs : List Text} {e t : Text} {k l : Nat} {w : Bool}

def FoundBy (xs : List Pattern) (es : List Text) (t : Text) : Prop :=
  ∃ k l, Reaches xs t k ∧ GapBefore es (lastTrails xs) t k l ∧ t.drop l ∈ es

theorem GapBefore.of_subset (h : GapBefore es w t k l) (hsub : fs ⊆ es) : GapBefore fs w t k l := by
  obtain ⟨hkl, hl, hgap⟩ := h
  exact ⟨hkl, hl, fun hw => (hgap hw).imp_left fun ⟨he, hall⟩ => ⟨he, fun f hf => hall f (hsub hf)⟩⟩

theorem FoundBy.exists_single (h : FoundBy xs es t) : ∃ e ∈ es, FoundBy xs [e] t := by
  obtain ⟨k, l, hk, hgap, hmem⟩ := h
  have hsub : [t.drop l] ⊆ es := by simpa using hmem
  exact ⟨t.drop l, hmem, k, l, hk, hgap.of_subset hsub, by simp⟩

theorem FoundBy.of_single (ht : t.AsciiLine) (he : e ∈ es) (h : FoundBy xs [e] t)
    (hout : lastTrails xs = true → ¬ e.Outdone es) : FoundBy xs es t := by
  obtain ⟨k, l, hk, ⟨hkl, hl, hgap⟩, hmem⟩ := h
  obtain rfl := List.mem_singleton.1 hmem
  by_cases hskip : lastTrails xs = true → k < l ∧ SeparatorAt t k
  · exact ⟨k, l, hk, ⟨hkl, hl, fun hw => .inr (hskip hw)⟩, he⟩
  -- The extension stands right behind the last keyword.
  obtain ⟨hw, hskip⟩ := Classical.not_imp.1 hskip
  obtain ⟨rfl, hno⟩ := (hgap hw).resolve_right hskip
  have hno : ¬ BeginsWord (t.drop k) := hno _ (by simp)
  by_cases hword : ∃ f ∈ es, f.BeginsWord
  · obtain ⟨f, hf, hsuffix, hne⟩ : ∃ f ∈ es, f <:+ t.drop k ∧ f ≠ t.drop k := by
      by_contra hnone
      exact hout hw ⟨hword, hno, fun f hf hsuffix => by_contra fun hne => hnone ⟨f, hf, hsuffix, hne⟩⟩
    have hlt : f.length < t.length - k := by
      rw [← List.length_drop]
      exact Nat.lt_of_le_of_ne hsuffix.length_le fun he => hne (hsuffix.eq_of_length he)
    have hdrop : t.drop (t.length - f.length) = f :=
      (List.suffix_iff_eq_drop.1 (hsuffix.trans (List.drop_suffix k t))).symm
    refine ⟨k, t.length - f.length, hk, ⟨by omega, by omega, fun _ => .inr ⟨by omega, ?_⟩⟩, ?_⟩
    · exact ht.separatorAt (by omega) hno
    · rwa [hdrop]
  · exact ⟨k, k, hk, ⟨hkl, hl, fun _ => .inl ⟨rfl, fun f hf hw => hword ⟨f, hf, hw⟩⟩⟩, he⟩

/-- In the shortest name that ends with an outdone extension right behind the segments, nothing is
left for another extension. -/
theorem exists_missed (hblind : everyItem blind (rowItems xs) = true) (hw : lastTrails xs = true)
    (hout : e.Outdone es) (ht : t.AsciiLine) (h : FoundBy xs [e] t) :
    ∃ s : Text, s.AsciiLine ∧ FoundBy xs [e] s ∧ ¬ FoundBy xs es s := by
  classical
  obtain ⟨k, l, hk, _, hmem⟩ := h
  obtain rfl := List.mem_singleton.1 hmem
  -- Where the segments match in a name, they match in the part of it up to their end.
  have hreach {s : Text} {k : Nat} (hs : s.AsciiLine) (hk : Reaches xs s k) :
      ∃ u : Text, u.AsciiLine ∧ u.length = k ∧ Reaches xs u k := by
    have hlen : (s.take k).length = k := List.length_take_of_le hk.le
    refine ⟨s.take k, hs.of_subset (List.take_subset k s), hlen, ?_⟩
    rw [← reaches_append_left (v := s.drop k) hblind (Nat.le_of_eq hlen.symm), List.take_append_drop]
    exact hk
  have hex : ∃ n, ∃ u : Text, u.AsciiLine ∧ u.length = n ∧ Reaches xs u n := ⟨k, hreach ht hk⟩
  obtain ⟨u, hu, hlen, hn⟩ := Nat.find_spec hex
  have hmin {n : Nat} (h : ∃ u : Text, u.AsciiLine ∧ u.length = n ∧ Reaches xs u n) :
      u.length ≤ n := hlen.trans_le (Nat.find_min' hex h)
  rw [← hlen] at hn
  have hs : (u ++ t.drop l).AsciiLine := hu.append (ht.of_subset (List.drop_subset l t))
  refine ⟨u ++ t.drop l, hs, ?_, ?_⟩
  · refine ⟨u.length, u.length, (reaches_append_left hblind (Nat.le_refl _)).2 hn, ?_, by simp⟩
    exact ⟨Nat.le_refl _, by simp, fun _ => .inl ⟨rfl, by simpa using hout.noWord⟩⟩
  · rintro ⟨k', l', hk', ⟨_, hl', hgap⟩, hmem'⟩
    rcases hgap hw with ⟨_, hall⟩ | ⟨hlt, _⟩
    · obtain ⟨f, hf, hword⟩ := hout.word
      exact hall f hf hword
    · have hle := hmin (hreach hs hk')
      have hdrop : (u ++ t.drop l).drop l' = (t.drop l).drop (l' - u.length) := by
        rw [List.drop_append, List.drop_eq_nil_of_le (by omega), List.nil_append]
      rw [hdrop] at hmem'
      have heq := congrArg List.length (hout.alone _ hmem' (List.drop_suffix _ _))
      rw [List.length_append] at hl'
      rw [List.length_drop] at heq
      omega

end Pattern

namespace Query

variable {c : Convention} {q : Query} {xs : List Pattern} {tags : List Text} {r : List Regex}
  {t : Text}

/-- Right behind the keywords the tag is not sure to be found, because of what the query asks for
besides. -/
def Shadowed (c : Convention) (q : Query) (tag : Text) : Prop :=
  (c.layout.fields.filter q.asks).getLast? = some .keywords ∧
    ∃ tags es e, q.fileType = some tags ∧ extensions c.fileTypes tags = .ok es ∧
      c.fileTypes.resolve tag = some e ∧ e.Outdone es

theorem segments_withFileType {normalize : Normalizer} {fs : List Field} (h : .fileType ∉ fs) :
    (q.withFileType tags).segments c normalize fs = q.segments c normalize fs := by
  induction fs with
  | nil => rfl
  | cons f rest ih =>
      simp only [List.mem_cons, not_or] at h
      have hf : (q.withFileType tags).segment c normalize f = q.segment c normalize f := by
        cases f with
        | fileType => exact absurd rfl h.1
        | _ => rfl
      rw [segments, segments, hf, ih h.2]

theorem isMatch_iff_foundBy (hq : q.TextsOnly) (htags : q.fileType = some tags)
    (hr : q.regex c slug = .ok r) : ∃ xs es, q.segments c slug c.layout.fields = .ok xs ∧
      extensions c.fileTypes tags = .ok es ∧
      ∀ t, '\n' ∉ t → (isMatch r t = true ↔ FoundBy xs es t) := by
  obtain ⟨p, hp, rfl⟩ := regex_eq_ok hr
  obtain ⟨ps, hps, rfl⟩ := pattern_eq_ok.1 hp
  obtain ⟨xs, ys, hxs, hys, rfl⟩ := segments_append_eq_ok.1 hps
  obtain ⟨here, others, hhere, hothers, rfl⟩ := segments_cons_eq_ok.1 hys
  cases hothers
  rw [segment, htags, ifAsked] at hhere
  obtain ⟨f, hf, rfl⟩ := Except.map_eq_ok.1 hhere
  obtain ⟨es, hes, rfl⟩ := fileTypeSegment_eq_ok hf
  refine ⟨xs, es, hxs, hes, fun t ht => ?_⟩
  rw [isMatch_iff_finds, finds_iff_chain hq.anchorFree hps]
  exact exists_chain_fileTypes_iff ht

theorem lastTrails_fields_iff (hq : q.TextsOnly)
    (hxs : q.segments c slug c.layout.fields = .ok xs) :
    lastTrails xs = true ↔ (c.layout.fields.filter q.asks).getLast? = some .keywords := by
  rw [lastTrails_iff, map_trails hq hxs, List.getLast?_map]
  simp

/-- What a query finds for several file types it finds for one of them alone. What it finds for one
of them it finds for all of them together exactly if nothing at all is found for a tag that is
shadowed. -/
theorem isMatch_fileTypes_iff (hq : q.TextsOnly) (htags : q.fileType = some tags)
    {rs : Text → List Regex} (hr : q.regex c slug = .ok r)
    (hrs : ∀ tag ∈ tags, (q.withFileType [tag]).regex c slug = .ok (rs tag)) :
    (∀ t : Text, t.AsciiLine → isMatch r t = true → ∃ tag ∈ tags, isMatch (rs tag) t = true) ∧
      ((∀ t : Text, t.AsciiLine → ∀ tag ∈ tags, isMatch (rs tag) t = true → isMatch r t = true) ↔
        ∀ tag ∈ tags, q.Shadowed c tag →
          ∀ t : Text, t.AsciiLine → isMatch (rs tag) t = false) := by
  obtain ⟨xs, es, hxs, hes, hfound⟩ := isMatch_iff_foundBy hq htags hr
  have hlast := lastTrails_fields_iff hq hxs
  have hsingle : ∀ tag ∈ tags, ∃ e ∈ es, c.fileTypes.resolve tag = some e ∧
      ∀ t, '\n' ∉ t → (isMatch (rs tag) t = true ↔ FoundBy xs [e] t) := by
    intro tag htag
    obtain ⟨e, he, hresolve⟩ := (resolve_of_mem_extensions hes).2 tag htag
    have hq' : (q.withFileType [tag]).TextsOnly := ⟨hq.signature, hq.title⟩
    obtain ⟨xs', es', hxs', hes', hfound'⟩ := isMatch_iff_foundBy hq' rfl (hrs tag htag)
    rw [segments_withFileType c.layout.fileType_not_mem, hxs] at hxs'
    rw [extensions, hresolve] at hes'
    cases hxs'
    cases hes'
    exact ⟨e, he, hresolve, hfound'⟩
  refine ⟨fun t ht h => ?_, fun hall tag htag hshadow t ht => ?_, fun hnone t ht tag htag h => ?_⟩
  · obtain ⟨e, he, h⟩ := ((hfound t ht.oneLine).1 h).exists_single
    obtain ⟨tag, htag, hresolve⟩ := (resolve_of_mem_extensions hes).1 e he
    obtain ⟨e', _, hresolve', hfound'⟩ := hsingle tag htag
    obtain rfl : e = e' := Option.some.inj (hresolve.symm.trans hresolve')
    exact ⟨tag, htag, (hfound' t ht.oneLine).2 h⟩
  · obtain ⟨e, he, hresolve, hfound'⟩ := hsingle tag htag
    obtain ⟨hkeywords, _, _, _, htags', hes', hresolve', hout⟩ := hshadow
    cases htags.symm.trans htags'
    cases hes.symm.trans hes'
    cases hresolve.symm.trans hresolve'
    by_contra hmatch
    rw [Bool.not_eq_false, hfound' t ht.oneLine] at hmatch
    obtain ⟨s, hs, hone, hmissed⟩ :=
      exists_missed (blind_fields hq hxs) (hlast.2 hkeywords) hout ht hmatch
    have := hall s hs tag htag ((hfound' s hs.oneLine).2 hone)
    exact hmissed ((hfound s hs.oneLine).1 this)
  · obtain ⟨e, he, hresolve, hfound'⟩ := hsingle tag htag
    refine (hfound t ht.oneLine).2 (.of_single ht he ((hfound' t ht.oneLine).1 h) fun hw hout => ?_)
    have := hnone tag htag ⟨hlast.1 hw, tags, es, e, htags, hes, hresolve, hout⟩ t ht
    simp [this] at h

def titled : Query where
  title := some (.text "rust".toList)
  fileType := some ["plain".toList, "org".toList]

theorem not_shadowed_titled (tag : Text) : ¬ titled.Shadowed undotted tag := by
  rintro ⟨h, _⟩
  exact absurd h (by decide)

theorem isMatch_fileTypes_iff_of_titled : ∃ (r : List Regex) (rs : Text → List Regex),
    titled.regex undotted slug = .ok r ∧
      (∀ tag ∈ ["plain".toList, "org".toList],
        (titled.withFileType [tag]).regex undotted slug = .ok (rs tag)) ∧
      ∀ t : Text, t.AsciiLine → (isMatch r t = true ↔
        ∃ tag ∈ ["plain".toList, "org".toList], isMatch (rs tag) t = true) := by
  obtain ⟨r, hr⟩ : ∃ r, titled.regex undotted slug = .ok r := ⟨_, by cbv⟩
  have hrs : ∀ tag ∈ ["plain".toList, "org".toList],
      (titled.withFileType [tag]).regex undotted slug =
        .ok (((titled.withFileType [tag]).regex undotted slug).toOption.getD []) := by
    simp only [List.forall_mem_cons, List.not_mem_nil, false_imp_iff, implies_true, and_true]
    constructor <;> cbv
  refine ⟨_, _, hr, hrs, fun t ht => ?_⟩
  have hiff := isMatch_fileTypes_iff (q := titled) ⟨by simp [titled], by simp [titled]⟩ rfl hr hrs
  constructor
  · exact hiff.1 t ht
  · rintro ⟨tag, htag, h⟩
    exact hiff.2.2 (fun tag _ hs => absurd hs (not_shadowed_titled tag)) t ht tag htag h

theorem exists_shadowed_missed : ∃ (q : Query) (tag name : Text) (r rs : List Regex),
    q.TextsOnly ∧ q.fileType = some ["plain".toList, tag] ∧ name.AsciiLine ∧
      q.regex undotted slug = .ok r ∧ (q.withFileType [tag]).regex undotted slug = .ok rs ∧
      (∃ others, (q.withFileType ["plain".toList]).regex undotted slug = .ok others) ∧
      isMatch rs name = true ∧ isMatch r name = false := by
  refine ⟨{ keywords := some (.word "rust".toList)
            fileType := some ["plain".toList, "org".toList] },
    "org".toList, "20240115T090500__rust.org".toList, _, _, ⟨by simp, by simp⟩, rfl,
    forall_of_all (by decide), by cbv, by cbv, ⟨_, by cbv⟩, by cbv, by cbv⟩

end Query

end NoteQuery
