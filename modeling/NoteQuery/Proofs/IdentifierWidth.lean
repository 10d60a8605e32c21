import Mathlib
import NoteQuery.Proofs.Assembly
import NoteQuery.Proofs.IdentifierSearch
import NoteQuery.Proofs.RegexReading

namespace NoteQuery

namespace Regex

variable {items : List Regex} {t : Text}

def anchored (items : List Regex) : List Regex := [.textStart, .group false [items], .textEnd]

theorem textOfSeq_anchored (items : List Regex) :
    textOfSeq (anchored items) = "^(?:".toList ++ textOfSeq items ++ ")$".toList := by
  have h : textOfSeq (anchored items) =
      "^(?:".toList ++ (textOfSeq items ++ ")".toList ++ "$".toList) := rfl
  rw [h, List.append_assoc, List.append_assoc]
  rfl

theorem hasBranches_anchored (h : everyItem hasBranches items = true) :
    everyItem hasBranches (anchored items) = true := by
  simp only [anchored, everyItem, everywhere, everyBranch, h]
  rfl

theorem allTimesFit_anchored (h : allTimesFit (nodes items) = true) :
    allTimesFit (nodes (anchored items)) = true := by
  simp [anchored, nodes, node, branchNodes, allTimesFit, Node.timesFit, allBranchesFit, h]

theorem Shallow.usable_anchored (h : Shallow items) : Regex.usable (anchored items) = true := by
  have hcounts : everyItem countFits (anchored items) = true := by
    simp [anchored, everyItem, everywhere, everyBranch, countFits, h.counts]
  have hdepth : depthOfSeq (anchored items) ≤ maxDepth := by
    have hitems := h.depth
    change 1 + max 0 (max (1 + 0 + max ((if items.length ≤ 1 then 0 else 1) + depthOfItems items) 0)
      (max 0 0)) ≤ 250
    split <;> omega
  rw [Regex.usable, hcounts, decide_eq_true hdepth]
  rfl

theorem isMatch_anchored_iff :
    isMatch (anchored items) t = true ↔ MatchesSeq t items 0 t.length := by
  rw [isMatch_iff_finds]
  constructor
  · rintro ⟨i, j, -, k, ⟨rfl, rfl⟩, l, hgroup, m, ⟨rfl, rfl⟩, rfl⟩
    obtain ⟨hno, -⟩ | hsome := hgroup
    · cases hno
    · obtain ⟨b, hb, hmatch⟩ := matchesSome_iff.1 hsome
      exact List.mem_singleton.1 hb ▸ hmatch
  · intro h
    exact ⟨0, t.length, Nat.zero_le _, 0, ⟨rfl, rfl⟩, t.length, .inr (.inl h), t.length, ⟨rfl, rfl⟩,
      rfl⟩

end Regex

namespace Pattern

open Regex

variable {p : Pattern} {t w : Text}

theorem parse_anchored (p : Pattern) (h : ∀ n ∈ p.counts, n < countBound) :
    Regex.parse ("^(?:".toList ++ p.toText ++ ")$".toList) = some [nodes (anchored p.toRegex)] := by
  have hhave := hasBranches_anchored (hasBranches_items p ⟨.opening, false⟩
    ⟨.closing, false, false⟩)
  have hfit := allTimesFit_anchored (timesFit_of_spells (spells_items p ⟨.opening, false⟩
    ⟨.closing, false, false⟩) h)
  have hread := readBranches_textOfSeq hhave
  rw [textOfSeq_anchored] at hread
  rw [Regex.parse, toText, toRegex, hread]
  simp [allBranchesFit, hfit]

theorem isMatch_anchored_iff_covers (ht : '\n' ∉ t) (hp : p.anchorFree = true) :
    isMatch (anchored p.toRegex) t = true ↔ Covers t p 0 t.length :=
  isMatch_anchored_iff.trans (matchesSeq_items ht rfl rfl (Nat.zero_le _) p hp)

theorem covers_separated_singleton {i j : Nat} :
    Covers t (Pattern.separated [p]) i j ↔ Covers t p i j := by
  simp [Pattern.separated, withGaps, Covers, CoversAll]

theorem covers_literal_cons :
    Covers t (.seq [.literal w, p]) 0 t.length ↔
      ∃ u, t = w ++ u ∧ Covers t p w.length t.length := by
  simp only [Covers, CoversAll, Nat.zero_add, List.drop_zero, exists_eq_right]
  constructor
  · rintro ⟨_, ⟨rfl, -, u, rfl⟩, hp⟩
    exact ⟨u, rfl, hp⟩
  · rintro ⟨u, rfl, hp⟩
    exact ⟨w.length, ⟨rfl, by simp, List.prefix_append w u⟩, hp⟩

end Pattern

namespace Query

open Pattern Regex

variable {c : Convention} {normalize : Normalizer} {v t : Text} {s : Pattern}

theorem asked_withIdentifier {layout : Layout} (h : .identifier ∈ layout.fields) :
    (empty.withIdentifier v).asked layout = [.identifier] := by
  have hasks : (empty.withIdentifier v).asks = (· == .identifier) := by
    funext f
    cases f <;> rfl
  have hcount : layout.visits.count .identifier = 1 :=
    List.count_eq_one_of_mem layout.nodup_visits (List.mem_append_left _ h)
  rw [asked, hasks, List.filter_beq, hcount]
  rfl

theorem pattern_withIdentifier (h : .identifier ∈ c.layout.fields) :
    (empty.withIdentifier v).pattern c normalize =
      (identifierSegment c.layout v).map fun s => .separated [s] := by
  have hseg : (empty.withIdentifier v).segment c normalize .identifier =
      (identifierSegment c.layout v).map some := rfl
  rw [pattern_eq_segments_asked, asked_withIdentifier h, segments, hseg]
  cases identifierSegment c.layout v <;> rfl

theorem identifierSegment_eq_error_iff (layout : Layout) {e : Error} :
    identifierSegment layout v = .error e ↔ 15 < v.length ∧ e = .identifierTooLong v.length := by
  rw [identifierSegment]
  by_cases hv : Identifier.width < v.length
  · rw [if_pos hv, Except.error.injEq, eq_comm]
    exact ⟨fun h => ⟨hv, h⟩, fun h => h.2⟩
  · rw [if_neg hv]
    exact iff_of_false (by simp) fun h => hv h.1

/-- Behind the first characters of a text, the rest is the value with what is missing from its
width. -/
theorem covers_body_iff {n : Nat} {body : Pattern} (hn : Identifier.width = v.length + n)
    (hbody : body = .literal v ∧ n = 0 ∨ body = .seq [.literal v, .anyExactly n] ∧ n ≠ 0)
    (m u : Text) : Covers (m ++ u) body m.length (m ++ u).length ↔
      ∃ rest : Text, rest.length = 15 - v.length ∧ u = v ++ rest := by
  rw [covers_identifier_iff hn hbody, List.drop_left, List.length_append]
  rw [Identifier.width] at hn ⊢
  constructor
  · rintro ⟨hlen, -, rest, rfl⟩
    exact ⟨rest, by rw [List.length_append] at hlen; omega, rfl⟩
  · rintro ⟨rest, hrest, rfl⟩
    exact ⟨by rw [List.length_append]; omega, Nat.le_refl _, List.prefix_append v rest⟩

theorem covers_identifierSegment_iff {layout : Layout} (h : identifierSegment layout v = .ok s) :
    Covers t s 0 t.length ↔ ∃ rest : Text, rest.length = 15 - v.length ∧
      t = (if layout.isFirst .identifier then [] else "@@".toList) ++ (v ++ rest) := by
  obtain ⟨n, body, hn, hbody, rfl⟩ := identifierSegment_eq_ok h
  cases layout.isFirst .identifier with
  | true => exact covers_body_iff hn hbody [] t
  | false =>
      have hmark : Field.identifier.mark = "@@".toList := rfl
      simp only [Bool.false_eq_true, if_false, hmark, covers_literal_cons]
      constructor
      · rintro ⟨u, rfl, hcov⟩
        obtain ⟨rest, hrest, rfl⟩ := (covers_body_iff hn hbody _ u).1 hcov
        exact ⟨rest, hrest, rfl⟩
      · rintro ⟨rest, hrest, rfl⟩
        exact ⟨_, rfl, (covers_body_iff hn hbody _ _).2 ⟨rest, hrest, rfl⟩⟩

theorem identifierSegment_plain {layout : Layout} (h : identifierSegment layout v = .ok s) :
    s.anchorFree = true ∧ ∀ n ∈ s.counts, n < countBound := by
  obtain ⟨n, body, hn, hbody, rfl⟩ := identifierSegment_eq_ok h
  have hcount : n < countBound := by
    rw [Identifier.width] at hn
    rw [countBound]
    omega
  rcases hbody with ⟨rfl, _⟩ | ⟨rfl, _⟩ <;> split <;>
    exact ⟨rfl, by simp [counts, allCounts, hcount]⟩

theorem isShallow_of_identifierSegment (h : identifierSegment c.layout v = .ok s) :
    s.IsShallow := by
  have htexts : (empty.withIdentifier v).TextsOnly := by
    constructor <;> simp [withIdentifier, empty]
  have hseg : (empty.withIdentifier v).segment c slug .identifier = .ok (some s) :=
    ifAsked_eq_ok.2 ⟨v, rfl, h⟩
  exact isShallow_of_segment htexts (by simp [withIdentifier, empty]) hseg

/-- A value of more than fifteen characters is refused as too long. For any other one, a text on one
line is matched as a whole exactly if it is the value with as many more characters as are missing
from fifteen, behind a mark unless identifiers come first. -/
theorem written_identifier_outcome (normalize : Normalizer) (v : Text)
    (hf : .identifier ∈ c.layout.fields) :
    (∀ e, (empty.withIdentifier v).written c normalize Pattern.toText = .error e ↔
      15 < v.length ∧ e = .identifierTooLong v.length) ∧
    (v.length ≤ 15 → ∃ text r,
      (empty.withIdentifier v).written c normalize Pattern.toText = .ok text ∧
        Regex.parse ("^(?:".toList ++ text ++ ")$".toList) = some [nodes r] ∧
          Regex.usable r = true ∧
            ∀ t, '\n' ∉ t → (Regex.isMatch r t = true ↔ ∃ rest : Text,
              rest.length = 15 - v.length ∧
                t = (if c.layout.isFirst .identifier then [] else "@@".toList) ++
                  (v ++ rest))) := by
  rw [written, pattern_withIdentifier hf]
  constructor
  · intro e
    rw [← identifierSegment_eq_error_iff c.layout]
    cases identifierSegment c.layout v <;> simp [Except.map]
  · intro hv
    cases hs : identifierSegment c.layout v with
    | error e => exact absurd ((identifierSegment_eq_error_iff c.layout).1 hs).1 (Nat.not_lt.2 hv)
    | ok s =>
        obtain ⟨hfree, hcounts⟩ := identifierSegment_plain hs
        have hcounts : ∀ n ∈ (Pattern.separated [s]).counts, n < countBound := by
          simpa [Pattern.separated, withGaps, counts, allCounts] using hcounts
        have hfree : (Pattern.separated [s]).anchorFree = true := by
          simp [Pattern.separated, withGaps, anchorFree, allAnchorFree, hfree]
        have hshallow : (Pattern.separated [s]).IsShallow :=
          isShallow_separated (List.forall_mem_singleton.2 (isShallow_of_identifierSegment hs))
        refine ⟨_, anchored (Pattern.separated [s]).toRegex, rfl, parse_anchored _ hcounts,
          (hshallow _ _).usable_anchored, fun t ht => ?_⟩
        rw [isMatch_anchored_iff_covers ht hfree, covers_separated_singleton,
          covers_identifierSegment_iff hs]

def titleBefore : Layout := ⟨[.title, .identifier], by decide, by decide⟩

theorem written_identifier_outcome_of_metaValue :
    .identifier ∈ titleBefore.fields ∧ "é.*(".toList.length ≤ 15 ∧
      ∃ r, Regex.parse "^(?:@@é\\.\\*\\(.\x7b11\x7d)$".toList = some [nodes r] ∧
        Regex.isMatch r "@@é.*(0115T090500".toList = true ∧
          Regex.isMatch r "é.*(0115T090500".toList = false := by
  have hf : .identifier ∈ titleBefore.fields := by decide
  have hv : "é.*(".toList.length ≤ 15 := by decide
  obtain ⟨text, r, htext, hparse, -, hmatch⟩ :=
    (written_identifier_outcome (c := ⟨titleBefore, .disabled, .builtin⟩) slug "é.*(".toList
      hf).2 hv
  have hwritten : (empty.withIdentifier "é.*(".toList).written
      ⟨titleBefore, .disabled, .builtin⟩ slug Pattern.toText =
        .ok "@@é\\.\\*\\(.\x7b11\x7d".toList := rfl
  obtain rfl := Except.ok.inj (htext.symm.trans hwritten)
  refine ⟨hf, hv, r, hparse, ?_, ?_⟩
  · rw [hmatch _ (by decide)]
    exact ⟨"0115T090500".toList, rfl, rfl⟩
  · rw [← Bool.not_eq_true, hmatch _ (by decide)]
    rintro ⟨rest, -, heq⟩
    cases heq

end Query

end NoteQuery
