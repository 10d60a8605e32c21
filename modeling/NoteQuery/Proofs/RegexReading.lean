import NoteQuery.Proofs.Digits
import NoteQuery.Proofs.Surroundings
import NoteQuery.Regex.Reader

namespace NoteQuery

namespace Regex

open Text

variable {c : Char} {t : Text} {k : Token} {n : Nat} {ks : List Token} {g : OpenGroup}
  {outer : List OpenGroup}

section Tokens

theorem tokens_cons (h : readToken c t = some (k, n)) :
    tokens (c :: t) = (tokens (t.drop n)).map (k :: ·) := by
  rw [tokens, h]
  rfl

theorem readNumber_append (hc : isDigit c = false) :
    readNumber (ofNat n ++ c :: t) = some (n, (ofNat n).length) := by
  have htake : (ofNat n ++ c :: t).takeWhile isDigit = ofNat n := by
    rw [List.takeWhile_append_of_pos (fun _ => isDigit_of_mem_ofNat), List.takeWhile_cons_of_neg
      (by simp [hc]), List.append_nil]
  have hne : (ofNat n).isEmpty = false := by simpa using ofNat_ne_nil n
  rw [readNumber, htake, hne, readDigits_ofNat]
  rfl

theorem readToken_times :
    readToken '\x7b' (ofNat n ++ '\x7d' :: t) =
      some (.times (.exactly n), (ofNat n).length + 1) := by
  have htimes : readTimes (ofNat n ++ '\x7d' :: t) =
      some (.exactly n, (ofNat n).length + 1) := by
    simp only [readTimes, readNumber_append (c := '\x7d') (by decide), Option.bind_some,
      List.drop_left]
  change (readTimes (ofNat n ++ '\x7d' :: t)).map _ = _
  rw [htimes]
  rfl

theorem tokens_charText : tokens (charText c ++ t) = (tokens t).map (.operand (.char c) :: ·) := by
  rw [charText]
  split
  · next hc =>
    have hescape : readEscape (c :: t) = some (.char c, 1) := if_pos hc
    have htoken : readToken '\\' (c :: t) = some (.operand (.char c), 1) := by
      change (readEscape (c :: t)).map _ = _
      rw [hescape]
      rfl
    exact tokens_cons htoken
  · next hc =>
    refine tokens_cons (n := 0) ?_
    rw [readToken.eq_def]
    split <;> first | rfl | exact absurd (by decide) hc

mutual

def tokensOf : Regex → List Token
  | .anyRun => [.operand .anyChar, .times .zeroOrMore]
  | .anyTimes n => [.operand .anyChar, .times (.exactly n)]
  | .group isOptional branches =>
    .opening false ::
      (tokensOfBranches branches ++ .closing :: if isOptional then [.times .zeroOrOne] else [])
  | r => [.operand r.node]

def tokensOfSeq : List Regex → List Token
  | [] => []
  | r :: rest => tokensOf r ++ tokensOfSeq rest

def tokensOfBranches : List (List Regex) → List Token
  | [] => []
  | [b] => tokensOfSeq b
  | b :: c :: more => tokensOfSeq b ++ .bar :: tokensOfBranches (c :: more)

end

mutual

theorem tokens_text (t : Text) : (r : Regex) →
    tokens (r.text ++ t) = (tokens t).map (r.tokensOf ++ ·)
  | .char c => tokens_charText
  | .anyRun => by
      change tokens ('.' :: '*' :: t) = _
      rw [tokens_cons (n := 0) rfl, List.drop_zero, tokens_cons (n := 0) rfl, List.drop_zero,
        Option.map_map]
      rfl
  | .anyTimes n => by
      have htext : Regex.text (.anyTimes n) ++ t = '.' :: '\x7b' :: (ofNat n ++ '\x7d' :: t) := by
        change ".\x7b".toList ++ ofNat n ++ "\x7d".toList ++ t = _
        rw [List.append_assoc, List.append_assoc]
        rfl
      rw [htext, tokens_cons (n := 0) rfl, List.drop_zero, tokens_cons readToken_times,
        ← List.drop_drop, List.drop_left, List.drop_one, List.tail_cons, Option.map_map]
      rfl
  | .separator => tokens_cons (n := 4) rfl
  | .never => tokens_cons (n := 6) rfl
  | .textStart => tokens_cons (n := 0) rfl
  | .textEnd => tokens_cons (n := 0) rfl
  | .veryEnd => tokens_cons (n := 1) rfl
  | .wordStartHalf => tokens_cons (n := 13) rfl
  | .wordEndHalf => tokens_cons (n := 11) rfl
  | .group isOptional branches => by
      -- The question mark of an optional group is a token of its own.
      have hclose : tokens ((if isOptional then ")?".toList else ")".toList) ++ t) =
          (tokens t).map ((.closing :: if isOptional then [.times .zeroOrOne] else []) ++ ·) := by
        cases isOptional with
        | false => exact tokens_cons (n := 0) rfl
        | true =>
            change tokens (')' :: '?' :: t) = _
            rw [tokens_cons (n := 0) rfl, List.drop_zero, tokens_cons (n := 0) rfl, List.drop_zero,
              Option.map_map]
            rfl
      have htext : Regex.text (.group isOptional branches) ++ t = '(' :: '?' :: ':' ::
          (textOfBranches branches ++ ((if isOptional then ")?".toList else ")".toList) ++ t)) := by
        change "(?:".toList ++ textOfBranches branches ++
          (if isOptional then ")?".toList else ")".toList) ++ t = _
        rw [List.append_assoc, List.append_assoc]
        rfl
      rw [htext, tokens_cons (n := 2) rfl, List.drop_succ_cons, List.drop_succ_cons, List.drop_zero,
        tokens_textOfBranches _ branches, hclose, Option.map_map, Option.map_map, tokensOf]
      exact Option.map_congr fun ks _ => by simp

theorem tokens_textOfSeq (t : Text) : (items : List Regex) →
    tokens (textOfSeq items ++ t) = (tokens t).map (tokensOfSeq items ++ ·)
  | [] => by
      cases h : tokens t <;> simp [textOfSeq, tokensOfSeq, h]
  | r :: rest => by
      rw [textOfSeq, List.append_assoc, tokens_text _ r, tokens_textOfSeq t rest, Option.map_map,
        tokensOfSeq]
      exact Option.map_congr fun ks _ => by simp

theorem tokens_textOfBranches (t : Text) : (branches : List (List Regex)) →
    tokens (textOfBranches branches ++ t) = (tokens t).map (tokensOfBranches branches ++ ·)
  | [] => by
      cases h : tokens t <;> simp [textOfBranches, tokensOfBranches, h]
  | [b] => tokens_textOfSeq t b
  | b :: c :: more => by
      rw [textOfBranches, List.append_assoc, List.cons_append, tokens_textOfSeq _ b,
        tokens_cons (n := 0) rfl, List.drop_zero, tokens_textOfBranches t (c :: more),
        Option.map_map, Option.map_map, tokensOfBranches]
      exact Option.map_congr fun ks _ => by simp

end

end Tokens

section Reading

def hasBranches : Regex → Bool
  | .group _ branches => !branches.isEmpty
  | _ => true

/-- The tokens do not begin by repeating what stands in front of them. -/
def BeginsAfresh (ks : List Token) : Prop := ∀ n rest, ks ≠ .times n :: rest

theorem beginsAfresh_tokensOf (r : Regex) (ks : List Token) : BeginsAfresh (r.tokensOf ++ ks) := by
  intro n rest h
  cases r <;> simp [tokensOf] at h

theorem beginsAfresh_tokensOfSeq (items : List Regex) (hks : BeginsAfresh ks) :
    BeginsAfresh (tokensOfSeq items ++ ks) := by
  cases items with
  | nil => exact hks
  | cons r rest =>
      rw [tokensOfSeq, List.append_assoc]
      exact beginsAfresh_tokensOf r _

theorem readFrom_operand (operand : Node) :
    readFrom g outer (.operand operand :: ks) = readFrom (g.add operand) outer ks := by
  rw [readFrom]

theorem readFrom_times (hks : BeginsAfresh ks) (m : Times) (operand : Node) :
    readFrom (g.add operand) outer (.times m :: ks) =
      readFrom (g.add (.repeated m false operand)) outer ks := by
  have hlast : (g.add operand).repeatLast m false = some (g.add (.repeated m false operand)) := by
    simp [OpenGroup.repeatLast, OpenGroup.add]
  rw [readFrom, hlast]
  · rfl
  · intro rest h
    exact hks _ _ h

mutual

theorem readFrom_tokensOf (g : OpenGroup) (outer : List OpenGroup) {ks : List Token}
    (hks : BeginsAfresh ks) :
    (r : Regex) → r.everywhere hasBranches = true →
    readFrom g outer (r.tokensOf ++ ks) = readFrom (g.add r.node) outer ks
  | .anyRun, _ => (readFrom_operand .anyChar).trans (readFrom_times hks .zeroOrMore .anyChar)
  | .anyTimes n, _ => (readFrom_operand .anyChar).trans (readFrom_times hks (.exactly n) .anyChar)
  | .group isOptional branches, h => by
      rw [everywhere, hasBranches, Bool.and_eq_true, Bool.not_eq_true', List.isEmpty_eq_false_iff] at h
      rw [tokensOf, List.cons_append, List.append_assoc, List.cons_append, readFrom,
        readFrom_tokensOfBranches _ _ _ _ _ branches h.1 h.2]
      cases isOptional with
      | false => rfl
      | true => exact readFrom_times hks .zeroOrOne _
  | .char _, _ | .separator, _ | .never, _ | .textStart, _ | .textEnd, _ | .veryEnd, _
  | .wordStartHalf, _ | .wordEndHalf, _ => readFrom_operand _

theorem readFrom_tokensOfSeq (g : OpenGroup) (outer : List OpenGroup) {ks : List Token}
    (hks : BeginsAfresh ks) :
    (items : List Regex) → everyItem hasBranches items = true →
    readFrom g outer (tokensOfSeq items ++ ks) =
      readFrom { g with items := g.items ++ nodes items } outer ks
  | [], _ => by rw [nodes, List.append_nil]; rfl
  | r :: rest, h => by
      rw [everyItem, Bool.and_eq_true] at h
      rw [tokensOfSeq, List.append_assoc,
        readFrom_tokensOf g outer (beginsAfresh_tokensOfSeq rest hks) r h.1,
        readFrom_tokensOfSeq _ outer hks rest h.2, nodes]
      simp [OpenGroup.add]

theorem readFrom_tokensOfBranches (captures : Bool) (before : List (List Node))
    (next : OpenGroup) (outer : List OpenGroup) (ks : List Token) :
    (branches : List (List Regex)) → branches ≠ [] → everyBranch hasBranches branches = true →
    readFrom ⟨captures, before, []⟩ (next :: outer) (tokensOfBranches branches ++ .closing :: ks) =
      readFrom (next.add (.group captures (before ++ branchNodes branches))) outer ks
  | [], h, _ => absurd rfl h
  | [b], _, h => by
      have hclosing : BeginsAfresh (.closing :: ks) := fun _ _ h => nomatch h
      rw [everyBranch, Bool.and_eq_true] at h
      rw [tokensOfBranches, readFrom_tokensOfSeq _ _ hclosing b h.1, readFrom]
      rfl
  | b :: c :: more, _, h => by
      have hbar : BeginsAfresh (.bar :: (tokensOfBranches (c :: more) ++ .closing :: ks)) :=
        fun _ _ h => nomatch h
      rw [everyBranch, Bool.and_eq_true] at h
      have hmore := readFrom_tokensOfBranches captures (before ++ [nodes b]) next outer ks
        (c :: more) (List.cons_ne_nil _ _) h.2
      rw [List.append_assoc] at hmore
      rw [tokensOfBranches, List.append_assoc, List.cons_append,
        readFrom_tokensOfSeq _ _ hbar b h.1, readFrom]
      exact hmore

end

theorem readBranches_textOfSeq {items : List Regex} (h : everyItem hasBranches items = true) :
    readBranches (textOfSeq items) = some [nodes items] := by
  have hnil : BeginsAfresh [] := fun _ _ h => nomatch h
  have htokens := tokens_textOfSeq [] items
  have hread := readFrom_tokensOfSeq ⟨false, [], []⟩ [] hnil items h
  rw [List.append_nil] at htokens hread
  rw [readBranches, htokens, tokens, Option.map_some, List.append_nil, Option.bind_some, hread]
  rfl

end Reading

section Lists

variable {xs ys : List Regex} {ns ms : List Node}

theorem allTimesFit_append (hn : allTimesFit ns = true) (hm : allTimesFit ms = true) :
    allTimesFit (ns ++ ms) = true := by
  induction ns with
  | nil => exact hm
  | cons n rest ih =>
      rw [allTimesFit, Bool.and_eq_true] at hn
      rw [List.cons_append, allTimesFit, hn.1, ih hn.2]
      rfl

theorem nodes_append : nodes (xs ++ ys) = nodes xs ++ nodes ys := by
  induction xs with
  | nil => rfl
  | cons r rest ih => rw [List.cons_append, nodes, ih]; rfl

theorem branchNodes_eq_map (branches : List (List Regex)) :
    branchNodes branches = branches.map nodes := by
  induction branches with
  | nil => rfl
  | cons b rest ih => rw [branchNodes, ih]; rfl

mutual

theorem node_injective : (r s : Regex) → r.node = s.node → r = s
  | .group false xs, s, h => by
      cases s with
      | group isOptional ys =>
          cases isOptional with
          | false => rw [branchNodes_injective xs ys (by simpa [node] using h)]
          | true => simp [node] at h
      | _ => simp [node] at h
  | .group true xs, s, h => by
      cases s with
      | group isOptional ys =>
          cases isOptional with
          | false => simp [node] at h
          | true => rw [branchNodes_injective xs ys (by simpa [node] using h)]
      | _ => simp [node] at h
  | .char _, s, h | .anyRun, s, h | .anyTimes _, s, h | .separator, s, h | .never, s, h
  | .textStart, s, h | .textEnd, s, h | .veryEnd, s, h | .wordStartHalf, s, h
  | .wordEndHalf, s, h => by
      cases s with
      | group isOptional ys => cases isOptional <;> simp [node] at h
      | _ => simp_all [node]

theorem nodes_injective : (xs ys : List Regex) → nodes xs = nodes ys → xs = ys
  | [], [], _ => rfl
  | x :: xs, y :: ys, h => by
      rw [nodes, nodes, List.cons.injEq] at h
      rw [node_injective x y h.1, nodes_injective xs ys h.2]

theorem branchNodes_injective : (xs ys : List (List Regex)) → branchNodes xs = branchNodes ys →
    xs = ys
  | [], [], _ => rfl
  | x :: xs, y :: ys, h => by
      rw [branchNodes, branchNodes, List.cons.injEq] at h
      rw [nodes_injective x y h.1, branchNodes_injective xs ys h.2]

end

end Lists

end Regex

namespace Pattern

open Regex

variable {p : Pattern} {ps : List Pattern} {b : Behind} {a : Ahead} {ns : List Node}

mutual

def counts : Pattern → List Nat
  | .seq parts => allCounts parts
  | .alt branches => allCounts branches
  | .anyExactly n => [n]
  | _ => []

def allCounts : List Pattern → List Nat
  | [] => []
  | p :: rest => p.counts ++ allCounts rest

end

mutual

/-- The operands are those of the pattern, place by place: a literal is its characters one by one,
and an alternation is one group of its branches. -/
def Spells : Pattern → List Node → Prop
  | .seq parts, ns => ∃ rows, SpellsAll parts rows ∧ ns = rows.flatten
  | .alt branches, ns => ∃ rows, SpellsAll branches rows ∧
    ns = if branches.isEmpty then [Regex.never.node] else [.group false rows]
  | .literal t, ns => ns = t.map .char
  | .anyRun, ns => ∃ afterWord beforeWord left next,
    ns = nodes (gapItems afterWord beforeWord left next)
  | .anyExactly 0, ns => ns = []
  | .anyExactly (n + 1), ns => ns = [.repeated (.exactly (n + 1)) false .anyChar]
  | .wordStart, ns => ∃ x : Boundary, ns = nodes x.startItems
  | .wordEnd, ns => ∃ x : Boundary, ns = nodes x.endItems
  | .nameEnd, ns => ns = [.anchor .veryEnd]

def SpellsAll : List Pattern → List (List Node) → Prop
  | [], rows => rows = []
  | p :: rest, rows => ∃ ns more, Spells p ns ∧ SpellsAll rest more ∧ rows = ns :: more

end

theorem spellsAll_map {f : Pattern → List Node} (h : ∀ p ∈ ps, p.Spells (f p)) :
    SpellsAll ps (ps.map f) := by
  induction ps with
  | nil => rfl
  | cons p rest ih =>
      rw [List.forall_mem_cons] at h
      exact ⟨_, _, h.1, ih h.2, rfl⟩

theorem spells_items (p : Pattern) (b : Behind) (a : Ahead) :
    p.Spells (nodes (p.items b a).1) := by
  induction p using induction_seq generalizing b a with
  | nil => exact ⟨[], rfl, rfl⟩
  | cons p ps hp hps =>
      obtain ⟨rows, hrows, hflat⟩ := hps (p.items b ((Pattern.seq ps).ahead a)).2 a
      refine ⟨_ :: rows, ⟨_, rows, hp b ((Pattern.seq ps).ahead a), hrows, rfl⟩, ?_⟩
      rw [List.flatten_cons, ← hflat]
      exact nodes_append
  | alt ps ih =>
      refine ⟨_, spellsAll_map fun p hp => ih p hp ⟨b.edge, false⟩ (branchAhead ps a), ?_⟩
      cases ps with
      | nil => rfl
      | cons p rest =>
          rw [items_alt_cons]
          change [Node.group false (branchNodes _)] = _
          rw [branchNodes_eq_map, List.map_map]
          rfl
  | literal w =>
      change nodes (w.map .char) = w.map .char
      induction w with
      | nil => rfl
      | cons c w ih => rw [List.map_cons, nodes, ih]; rfl
  | anyRun => exact ⟨_, _, _, _, rfl⟩
  | anyExactly n => cases n <;> rfl
  | wordStart | wordEnd => exact ⟨_, rfl⟩
  | nameEnd => rfl

theorem hasBranches_gapItems (afterWord beforeWord : Bool) (left next : Edge) :
    everyItem hasBranches (gapItems afterWord beforeWord left next) = true := by
  cases afterWord <;> cases beforeWord <;> cases left <;> cases next <;> rfl

theorem hasBranches_items (p : Pattern) (b : Behind) (a : Ahead) :
    everyItem hasBranches (p.items b a).1 = true := by
  induction p using induction_seq generalizing b a with
  | nil => rfl
  | cons p ps hp hps =>
      exact everyItem_append.trans (Bool.and_eq_true_iff.2 ⟨hp _ _, hps _ _⟩)
  | alt ps ih =>
      cases ps with
      | nil => rfl
      | cons p rest =>
          rw [items_alt_cons, everyItem_group_iff, List.forall_mem_map]
          exact ⟨rfl, fun q hq => ih q hq _ _⟩
  | literal w =>
      exact everyItem_chars (fun _ => rfl) w
  | anyRun => exact hasBranches_gapItems _ _ _ _
  | anyExactly n => cases n <;> rfl
  | wordStart =>
      change everyItem hasBranches (startBoundary b.edge).startItems = true
      cases startBoundary b.edge <;> rfl
  | wordEnd =>
      change everyItem hasBranches (endBoundary a).endItems = true
      cases endBoundary a <;> rfl
  | nameEnd => rfl

theorem readBranches_toText (p : Pattern) : readBranches p.toText = some [nodes p.toRegex] :=
  readBranches_textOfSeq (hasBranches_items p _ _)

theorem allTimesFit_chars (w : Text) : allTimesFit (w.map .char) = true := by
  induction w with
  | nil => rfl
  | cons c w ih => exact ih

theorem allBranchesFit_of_spells {rows : List (List Node)} (h : SpellsAll ps rows)
    (hp : ∀ n ∈ allCounts ps, n < countBound)
    (hfit : ∀ p ∈ ps, ∀ {ns}, p.Spells ns → (∀ n ∈ p.counts, n < countBound) →
      allTimesFit ns = true) : allBranchesFit rows = true := by
  induction ps generalizing rows with
  | nil =>
      obtain rfl : rows = [] := h
      rfl
  | cons p rest ih =>
      obtain ⟨row, more, hrow, hmore, rfl⟩ := h
      rw [allCounts, List.forall_mem_append] at hp
      rw [List.forall_mem_cons] at hfit
      rw [allBranchesFit, hfit.1 hrow hp.1, ih hmore hp.2 hfit.2]
      rfl

theorem timesFit_of_spells (h : p.Spells ns) (hp : ∀ n ∈ p.counts, n < countBound) :
    allTimesFit ns = true := by
  induction p using induction_seq generalizing ns with
  | nil =>
      obtain ⟨_, rfl, rfl⟩ := h
      rfl
  | cons p ps ihp ihps =>
      obtain ⟨_, ⟨row, more, hrow, hmore, rfl⟩, rfl⟩ := h
      change ∀ n ∈ p.counts ++ (Pattern.seq ps).counts, n < countBound at hp
      rw [List.forall_mem_append] at hp
      exact allTimesFit_append (ihp hrow hp.1) (ihps ⟨more, hmore, rfl⟩ hp.2)
  | alt ps ih =>
      obtain ⟨rows, hrows, rfl⟩ := h
      have hfit : allBranchesFit rows = true := allBranchesFit_of_spells hrows hp ih
      split
      · rfl
      · change (allBranchesFit rows && true) = true
        rw [hfit]
        rfl
  | literal w =>
      obtain rfl : ns = w.map .char := h
      exact allTimesFit_chars w
  | anyRun =>
      obtain ⟨w, w', left, next, rfl⟩ := h
      cases w <;> cases w' <;> cases left <;> cases next <;> rfl
  | anyExactly n =>
      cases n with
      | zero =>
          obtain rfl : ns = [] := h
          rfl
      | succ n =>
          obtain rfl : ns = [.repeated (.exactly (n + 1)) false .anyChar] := h
          simpa [allTimesFit, Node.timesFit, Times.fits, counts] using hp
  | wordStart | wordEnd =>
      obtain ⟨x, rfl⟩ := h
      cases x <;> rfl
  | nameEnd =>
      obtain rfl : ns = [.anchor .veryEnd] := h
      rfl

/-- No literal can add to the syntax of a pattern: as long as its counts have 32 bits, its text is a
regular expression, read as the operands that the pattern was written as and no others. -/
theorem parse_toText (p : Pattern) (h : ∀ n ∈ p.counts, n < countBound) :
    parse p.toText = some [nodes p.toRegex] ∧ p.Spells (nodes p.toRegex) := by
  have hspells := spells_items p ⟨.opening, false⟩ ⟨.closing, false, false⟩
  refine ⟨?_, hspells⟩
  have hfit : allTimesFit (nodes p.toRegex) = true := timesFit_of_spells hspells h
  rw [parse, readBranches_toText]
  simp [allBranchesFit, hfit]

def metaLiterals : Pattern :=
  .seq [.literal "a|(".toList, .anyRun, .alt [wholeWord ")*\x7b2\x7d".toList, .literal []],
    .anyExactly 3]

theorem parse_toText_metaLiterals :
    (∀ n ∈ metaLiterals.counts, n < countBound) ∧
      ∃ ns, parse metaLiterals.toText = some [ns] ∧ metaLiterals.Spells ns ∧
        ns = [.char 'a', .char '|', .char '(', .repeated .zeroOrMore false .anyChar,
          .group false [[.anchor .wordStartHalf, .char ')', .char '*', .char '\x7b', .char '2',
            .char '\x7d', .anchor .wordEndHalf], []],
          .repeated (.exactly 3) false .anyChar] := by
  have hcounts : ∀ n ∈ metaLiterals.counts, n < countBound := by decide
  obtain ⟨hparse, hspells⟩ := parse_toText metaLiterals hcounts
  exact ⟨hcounts, _, hparse, hspells, rfl⟩

theorem toText_inj {q : Pattern} : p.toText = q.toText ↔ p.toRegex = q.toRegex := by
  constructor
  · intro h
    have hread := readBranches_toText p
    rw [h, readBranches_toText q, Option.some.injEq, List.cons.injEq] at hread
    exact nodes_injective _ _ hread.1.symm
  · intro h
    rw [toText, toText, h]

end Pattern

end NoteQuery
