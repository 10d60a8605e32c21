import Mathlib
import NoteQuery.Proofs.NumberText

namespace NoteQuery.Json

open Decimal Text

variable {v : Json} {items : List Json} {members : List (Text × Json)} {t rest : Text} {levels : Nat}

/-- What JSON values hold: whole numbers of 64 bits, finite numbers, and members in the order of
their names. -/
inductive Proper : Json → Prop
  | null : Proper .null
  | bool (b : Bool) : Proper (.bool b)
  | integer {n : Int} (hlow : -9223372036854775808 ≤ n) (hhigh : n ≤ 18446744073709551615) :
      Proper (.integer n)
  | float {negative : Bool} {m : Nat} {e : Int} (h : InRange m e) :
      Proper (.float (.finite negative m e))
  | string (t : Text) : Proper (.string t)
  | array {items : List Json} (h : ∀ v ∈ items, Proper v) : Proper (.array items)
  | object {members : List (Text × Json)} (hnames : Dictionary.Ascending members)
      (h : ∀ m ∈ members, Proper m.2) : Proper (.object members)

mutual

def nesting : Json → Nat
  | .array items => itemsNesting items + 1
  | .object members => membersNesting members + 1
  | _ => 0

def itemsNesting : List Json → Nat
  | [] => 0
  | v :: rest => max (nesting v) (itemsNesting rest)

def membersNesting : List (Text × Json) → Nat
  | [] => 0
  | m :: rest => max (memberNesting m) (membersNesting rest)

def memberNesting : Text × Json → Nat
  | (_, v) => nesting v

end

def rereadFloat (x : Binary64) : Binary64 :=
  match readNumber (floatText x) with
  | some (.float y, _) => y
  | _ => x

mutual

def reread : Json → Json
  | .float x => .float (rereadFloat x)
  | .array items => .array (rereadItems items)
  | .object members => .object (rereadMembers members)
  | v => v

def rereadItems : List Json → List Json
  | [] => []
  | v :: rest => reread v :: rereadItems rest

def rereadMembers : List (Text × Json) → List (Text × Json)
  | [] => []
  | m :: rest => rereadMember m :: rereadMembers rest

def rereadMember : Text × Json → Text × Json
  | (name, v) => (name, reread v)

end

section Strings

theorem hexValue?_hexDigit : ∀ n < 16, hexValue? (hexDigit n) = some n := by decide

theorem readUnicodeEscape_hexDigits {c : Char} (hc : c.toNat < 32) (rest : Text) :
    readUnicodeEscape ('0' :: '0' :: hexDigit (c.toNat / 16) :: hexDigit (c.toNat % 16) :: rest) =
      some (c, rest) := by
  have hhex : readHex4 ('0' :: '0' :: hexDigit (c.toNat / 16) :: hexDigit (c.toNat % 16) ::
      rest) = some (c.toNat, rest) := by
    have hzero : hexValue? '0' = some 0 := rfl
    have hvalue : 16 * (c.toNat / 16) + c.toNat % 16 = c.toNat := by omega
    simp [readHex4, hzero, hexValue?_hexDigit (c.toNat / 16) (by omega),
      hexValue?_hexDigit (c.toNat % 16) (by omega), hvalue]
  have hlow : c.toNat < 0xd800 ∨ 0xe000 ≤ c.toNat := .inl (by omega)
  simp [readUnicodeEscape, hhex, hlow, Char.ofNat_toNat]

theorem readString_escaped (c : Char) (fuel : Nat) (rest : Text) :
    readString (fuel + 1) (escaped c ++ rest) =
      (readString fuel rest).map fun (s, rest) => (c :: s, rest) := by
  by_cases hquote : c = '"'
  · subst hquote
    rfl
  by_cases hbackslash : c = '\\'
  · subst hbackslash
    rfl
  by_cases hline : c = '\n'
  · subst hline
    rfl
  by_cases hreturn : c = '\r'
  · subst hreturn
    rfl
  by_cases htab : c = '\t'
  · subst htab
    rfl
  by_cases hback : c = '\x08'
  · subst hback
    rfl
  by_cases hfeed : c = '\x0c'
  · subst hfeed
    rfl
  rw [escaped, if_neg hquote, if_neg hbackslash, if_neg hline, if_neg hreturn, if_neg htab,
    if_neg hback, if_neg hfeed]
  by_cases hcontrol : c.toNat < 32
  · have hread : readString (fuel + 1) ('\\' :: 'u' :: '0' :: '0' :: hexDigit (c.toNat / 16) ::
        hexDigit (c.toNat % 16) :: rest) =
          (readString fuel rest).map fun (s, rest) => (c :: s, rest) := by
      rw [readString, readUnicodeEscape_hexDigits hcontrol]
      rfl
    rw [if_pos hcontrol]
    exact hread
  · rw [if_neg hcontrol, List.cons_append, List.nil_append, readString]
    · rw [if_neg hcontrol]
    · exact hquote
    · exact fun _ h => absurd h hbackslash
    · exact fun _ _ h => absurd h hbackslash

theorem readString_escapedText {fuel : Nat} (h : t.length < fuel) (rest : Text) :
    readString fuel (t.flatMap escaped ++ '"' :: rest) = some (t, rest) := by
  induction t generalizing fuel with
  | nil =>
      obtain ⟨fuel, rfl⟩ := Nat.exists_eq_succ_of_ne_zero (Nat.ne_zero_of_lt h)
      rfl
  | cons c t ih =>
      obtain ⟨fuel, rfl⟩ := Nat.exists_eq_succ_of_ne_zero (Nat.ne_zero_of_lt h)
      rw [List.flatMap_cons, List.append_assoc, readString_escaped,
        ih (Nat.lt_of_succ_lt_succ h)]
      rfl

theorem length_le_escapedText (t : Text) : t.length ≤ (t.flatMap escaped).length := by
  induction t with
  | nil => exact le_rfl
  | cons c t ih =>
      have hpos : 1 ≤ (escaped c).length := by
        rw [escaped]
        repeat' split
        all_goals simp
      rw [List.flatMap_cons, List.length_append, List.length_cons]
      omega

theorem readString_stringText (t rest : Text) :
    readString ((t.flatMap escaped ++ '"' :: rest).length + 1) (t.flatMap escaped ++ '"' :: rest) =
      some (t, rest) := by
  apply readString_escapedText
  have := length_le_escapedText t
  rw [List.length_append]
  omega

end Strings

section Values

/-- A text that a value may begin with, as long as an array is not closed before it. -/
def Starts (t : Text) : Prop := ∃ c u, t = c :: u ∧ isBlank c = false ∧ c ≠ ']'

theorem Starts.append (h : Starts t) (rest : Text) : Starts (t ++ rest) := by
  obtain ⟨c, u, rfl, hc⟩ := h
  exact ⟨c, u ++ rest, rfl, hc⟩

theorem Starts.skipBlanks (h : Starts t) : skipBlanks t = t := by
  obtain ⟨c, u, rfl, hblank, -⟩ := h
  rw [Json.skipBlanks, hblank]
  rfl

theorem starts_of_readNumber {r : Json × Text} (h : readNumber t = some r) : Starts t := by
  cases t with
  | nil => cases h
  | cons c t =>
      refine ⟨c, t, rfl, ?_, ?_⟩
      · by_contra hblank
        simp only [isBlank, Bool.not_eq_false, Bool.or_eq_true, beq_iff_eq] at hblank
        rcases hblank with ((rfl | rfl) | rfl) | rfl <;> cases h
      · rintro rfl
        cases h

theorem readValue_of_readNumber {r : Json × Text} (h : readNumber t = some r) (levels : Nat) :
    readValue levels t = some r := by
  unfold readValue
  split
  all_goals first | exact h | cases h

theorem ends_nil : Ends [] := nofun

theorem starts_text (hv : Proper v) : Starts (text v) := by
  cases hv with
  | null => exact ⟨_, _, rfl, rfl, by decide⟩
  | bool b => cases b <;> exact ⟨_, _, rfl, rfl, by decide⟩
  | integer hlow hhigh =>
      have hread := readNumber_ofInt hlow hhigh ends_nil
      rw [List.append_nil] at hread
      exact starts_of_readNumber hread
  | float h =>
      obtain ⟨y, hread⟩ := exists_readNumber_floatText _ h
      have halone := hread [] ends_nil
      rw [List.append_nil] at halone
      exact starts_of_readNumber halone
  | string t => exact ⟨_, _, rfl, rfl, by decide⟩
  | array h => exact ⟨_, _, rfl, rfl, by decide⟩
  | object hnames h => exact ⟨_, _, rfl, rfl, by decide⟩

theorem stringText_append (t rest : Text) :
    stringText t ++ rest = '"' :: (t.flatMap escaped ++ '"' :: rest) := by
  rw [stringText, List.cons_append, List.cons_append, List.append_assoc]
  rfl

theorem readValue_string (levels : Nat) (t rest : Text) :
    readValue levels (stringText t ++ rest) = some (.string t, rest) := by
  rw [stringText_append]
  unfold readValue
  exact congrArg (Option.map fun (s, rest) => (Json.string s, rest)) (readString_stringText t rest)

theorem readValue_array (h : Starts t) (levels : Nat) : readValue (levels + 1) ('[' :: t) =
    (readItems (readValue levels) (t.length + 1) t).map fun (vs, rest) => (.array vs, rest) := by
  have hblanks := h.skipBlanks
  obtain ⟨c, u, rfl, -, hclosing⟩ := h
  rw [readValue]
  dsimp only
  rw [hblanks]
  split
  · next heq => exact absurd (List.cons.inj heq).1 hclosing
  · rfl

theorem readValue_object {u : Text} (h : t = '"' :: u) (levels : Nat) :
    readValue (levels + 1) ('\x7b' :: t) =
      (readMembers (readValue levels) (t.length + 1) t).map fun (ms, rest) =>
        (.object (Dictionary.ofList ms), rest) := by
  subst h
  rfl

theorem ends_comma (t : Text) : Ends (',' :: t) := by
  rintro _ ⟨⟩
  exact .inl rfl

theorem ends_bracket (t : Text) : Ends (']' :: t) := by
  rintro _ ⟨⟩
  exact .inr (.inl rfl)

theorem ends_brace (t : Text) : Ends ('\x7d' :: t) := by
  rintro _ ⟨⟩
  exact .inr (.inr rfl)

end Values

section Items

def ReadBy (value : Text → Option (Json × Text)) (levels : Nat) (v : Json) : Prop :=
  ∀ rest, Ends rest →
    value (text v ++ rest) = if nesting v ≤ levels then some (reread v, rest) else none

variable {value : Text → Option (Json × Text)}

theorem readItems_itemsText {fuel : Nat} (hproper : ∀ v ∈ items, Proper v)
    (hvalue : ∀ v ∈ items, ReadBy value levels v) (hne : items ≠ []) (hfuel : items.length ≤ fuel)
    (rest : Text) : readItems value fuel (itemsText items ++ ']' :: rest) =
      if itemsNesting items ≤ levels then some (rereadItems items, rest) else none := by
  induction items generalizing fuel with
  | nil => exact absurd rfl hne
  | cons v items ih =>
      obtain ⟨fuel, rfl⟩ := Nat.exists_eq_succ_of_ne_zero (Nat.ne_zero_of_lt hfuel)
      obtain ⟨hv, hproper⟩ := List.forall_mem_cons.1 hproper
      obtain ⟨hread, hvalue⟩ := List.forall_mem_cons.1 hvalue
      have hskip (u : Text) : skipBlanks (text v ++ u) = text v ++ u :=
        ((starts_text hv).append u).skipBlanks
      cases items with
      | nil =>
          have hmax : itemsNesting [v] = nesting v := Nat.max_zero _
          rw [itemsText, readItems, hskip, hread _ (ends_bracket rest), hmax]
          split <;> rfl
      | cons w more =>
          have hmax : itemsNesting (v :: w :: more) ≤ levels ↔
              nesting v ≤ levels ∧ itemsNesting (w :: more) ≤ levels := Nat.max_le
          have hmore := ih hproper hvalue (List.cons_ne_nil w more) (Nat.le_of_succ_le_succ hfuel)
          rw [itemsText, List.append_assoc, List.cons_append, readItems, hskip,
            hread _ (ends_comma _)]
          rw [if_congr hmax rfl rfl, ite_and]
          split
          · refine (congrArg (Option.map fun (vs, rest) => (reread v :: vs, rest)) hmore).trans ?_
            exact Option.map_if
          · rfl

theorem memberText_append (name : Text) (v : Json) (rest : Text) :
    memberText (name, v) ++ rest =
      '"' :: (name.flatMap escaped ++ '"' :: (':' :: (text v ++ rest))) := by
  rw [memberText, List.append_assoc, stringText_append]
  rfl

theorem exists_readMembers {v : Json} (hv : Proper v) (fuel : Nat) (name : Text) :
    ∃ behind : Json × Text → Option (List (Text × Json) × Text),
      (∀ u, readMembers value (fuel + 1) (memberText (name, v) ++ u) =
        (value (text v ++ u)).bind behind) ∧
      (∀ w u, behind (w, ',' :: u) =
        (readMembers value fuel u).map fun more => ((name, w) :: more.1, more.2)) ∧
      ∀ w u, behind (w, '\x7d' :: u) = some ([(name, w)], u) := by
  have hblank (t : Text) : skipBlanks ('"' :: t) = '"' :: t := rfl
  have hcolon (t : Text) : skipBlanks (':' :: t) = ':' :: t := rfl
  have hskip (u : Text) : skipBlanks (text v ++ u) = text v ++ u :=
    ((starts_text hv).append u).skipBlanks
  constructor
  refine ⟨fun u => ?_, fun w u => ?_, fun w u => ?_⟩
  · rw [memberText_append, readMembers, hblank]
    split
    · next heq =>
      cases heq
      rw [readString_stringText, Option.bind_eq_bind, Option.bind_some]
      dsimp only
      rw [hcolon]
      split
      · next heq =>
        cases heq
        rw [hskip]
        rfl
      · next hno => exact absurd rfl (hno _)
    · next hno => exact absurd rfl (hno _)
  · rfl
  · rfl

theorem readMembers_membersText {fuel : Nat} (hproper : ∀ m ∈ members, Proper m.2)
    (hvalue : ∀ m ∈ members, ReadBy value levels m.2) (hne : members ≠ [])
    (hfuel : members.length ≤ fuel) (rest : Text) :
    readMembers value fuel (membersText members ++ '\x7d' :: rest) =
      if membersNesting members ≤ levels then some (rereadMembers members, rest) else none := by
  induction members generalizing fuel with
  | nil => exact absurd rfl hne
  | cons m members ih =>
      obtain ⟨name, v⟩ := m
      obtain ⟨fuel, rfl⟩ := Nat.exists_eq_succ_of_ne_zero (Nat.ne_zero_of_lt hfuel)
      obtain ⟨hv, hproper⟩ := List.forall_mem_cons.1 hproper
      obtain ⟨hread, hvalue⟩ := List.forall_mem_cons.1 hvalue
      obtain ⟨behind, hmember, hcomma, hbrace⟩ := exists_readMembers hv fuel name
      cases members with
      | nil =>
          have hmax : membersNesting [(name, v)] = nesting v := Nat.max_zero _
          rw [membersText, hmember, hread _ (ends_brace rest), hmax]
          split
          · exact hbrace _ _
          · rfl
      | cons w more =>
          have hmax : membersNesting ((name, v) :: w :: more) ≤ levels ↔
              nesting v ≤ levels ∧ membersNesting (w :: more) ≤ levels := Nat.max_le
          have hmore := ih hproper hvalue (List.cons_ne_nil w more) (Nat.le_of_succ_le_succ hfuel)
          rw [membersText, List.append_assoc, List.cons_append, hmember, hread _ (ends_comma _)]
          rw [if_congr hmax rfl rfl, ite_and]
          split
          · rw [Option.bind_some, hcomma, hmore]
            exact Option.map_if
          · rfl

end Items

section RoundTrip

theorem length_le_itemsText (items : List Json) : items.length ≤ (itemsText items).length + 1 := by
  induction items with
  | nil => exact Nat.zero_le _
  | cons v items ih =>
      cases items with
      | nil => exact Nat.le_add_left ..
      | cons w more =>
          rw [itemsText, List.length_append, List.length_cons (a := ',')]
          rw [List.length_cons]
          omega

theorem length_le_membersText (members : List (Text × Json)) :
    members.length ≤ (membersText members).length + 1 := by
  induction members with
  | nil => exact Nat.zero_le _
  | cons m members ih =>
      cases members with
      | nil => exact Nat.le_add_left ..
      | cons n more =>
          rw [membersText, List.length_append, List.length_cons (a := ',')]
          rw [List.length_cons]
          omega

theorem starts_itemsText (hproper : ∀ v ∈ items, Proper v) (hne : items ≠ []) :
    Starts (itemsText items) := by
  cases items with
  | nil => exact absurd rfl hne
  | cons v items =>
      have hv := starts_text (hproper v (List.mem_cons_self ..))
      cases items with
      | nil => exact hv
      | cons w more =>
          rw [itemsText]
          exact hv.append _

theorem exists_membersText (hne : members ≠ []) (rest : Text) :
    ∃ u, membersText members ++ rest = '"' :: u := by
  cases members with
  | nil => exact absurd rfl hne
  | cons m members =>
      obtain ⟨name, v⟩ := m
      cases members with
      | nil => exact ⟨_, memberText_append name v rest⟩
      | cons n more =>
          rw [membersText, List.append_assoc]
          exact ⟨_, memberText_append name v _⟩

theorem rereadMembers_eq_map (members : List (Text × Json)) :
    rereadMembers members = members.map fun m => (m.1, reread m.2) := by
  induction members with
  | nil => rfl
  | cons m members ih => rw [rereadMembers, ih, List.map_cons, rereadMember]

theorem ascending_rereadMembers (h : Dictionary.Ascending members) :
    Dictionary.Ascending (rereadMembers members) := by
  rw [rereadMembers_eq_map, Dictionary.Ascending, List.pairwise_map]
  exact h

theorem readBy_leaf {value : Text → Option (Json × Text)} (hleaf : nesting v = 0)
    (hread : ∀ rest, Ends rest → value (text v ++ rest) = some (reread v, rest)) :
    ReadBy value levels v := by
  intro rest hrest
  rw [if_pos (hleaf.trans_le (Nat.zero_le levels)), hread rest hrest]

theorem readBy_array (hproper : ∀ v ∈ items, Proper v)
    (hvalue : ∀ v ∈ items, ∀ levels, ReadBy (readValue levels) levels v) (levels : Nat) :
    ReadBy (readValue levels) levels (.array items) := by
  intro rest _
  have htext : text (.array items) ++ rest = '[' :: (itemsText items ++ ']' :: rest) := by
    rw [text, List.cons_append, List.cons_append, List.append_assoc]
    rfl
  rw [htext, nesting]
  cases levels with
  | zero =>
      rw [if_neg (Nat.not_succ_le_zero _)]
      unfold readValue
      rfl
  | succ levels =>
      by_cases hne : items = []
      · subst hne
        have hnesting : itemsNesting [] + 1 ≤ levels + 1 := Nat.le_add_left ..
        rw [if_pos hnesting]
        unfold readValue
        rfl
      · have hfuel : items.length ≤ (itemsText items ++ ']' :: rest).length + 1 := by
          have := length_le_itemsText items
          rw [List.length_append]
          omega
        rw [readValue_array ((starts_itemsText hproper hne).append _),
          readItems_itemsText hproper (fun v hv => hvalue v hv levels) hne hfuel]
        rw [if_congr Nat.succ_le_succ_iff rfl rfl]
        exact Option.map_if

theorem readBy_object (hnames : Dictionary.Ascending members)
    (hproper : ∀ m ∈ members, Proper m.2)
    (hvalue : ∀ m ∈ members, ∀ levels, ReadBy (readValue levels) levels m.2) (levels : Nat) :
    ReadBy (readValue levels) levels (.object members) := by
  intro rest _
  have htext : text (.object members) ++ rest =
      '\x7b' :: (membersText members ++ '\x7d' :: rest) := by
    rw [text, List.cons_append, List.cons_append, List.append_assoc]
    rfl
  rw [htext, nesting]
  cases levels with
  | zero =>
      rw [if_neg (Nat.not_succ_le_zero _)]
      unfold readValue
      rfl
  | succ levels =>
      by_cases hne : members = []
      · subst hne
        have hnesting : membersNesting [] + 1 ≤ levels + 1 := Nat.le_add_left ..
        rw [if_pos hnesting]
        unfold readValue
        rfl
      · have hfuel : members.length ≤ (membersText members ++ '\x7d' :: rest).length + 1 := by
          have := length_le_membersText members
          rw [List.length_append]
          omega
        obtain ⟨u, hu⟩ := exists_membersText hne ('\x7d' :: rest)
        rw [readValue_object hu,
          readMembers_membersText hproper (fun m hm => hvalue m hm levels) hne hfuel]
        have hsorted := Dictionary.ofList_ascending (ascending_rereadMembers hnames)
        rw [if_congr Nat.succ_le_succ_iff rfl rfl, reread]
        nth_rewrite 2 [← hsorted]
        exact Option.map_if

theorem readBy_text (hv : Proper v) (levels : Nat) : ReadBy (readValue levels) levels v := by
  induction hv generalizing levels with
  | null =>
      refine readBy_leaf rfl fun rest _ => ?_
      unfold readValue
      rfl
  | bool b =>
      refine readBy_leaf rfl fun rest _ => ?_
      unfold readValue
      cases b <;> rfl
  | integer hlow hhigh =>
      exact readBy_leaf rfl fun rest hrest =>
        readValue_of_readNumber (readNumber_ofInt hlow hhigh hrest) levels
  | float h =>
      obtain ⟨y, hread⟩ := exists_readNumber_floatText _ h
      refine readBy_leaf rfl fun rest hrest => ?_
      have halone := hread [] ends_nil
      rw [List.append_nil] at halone
      rw [reread, rereadFloat, halone]
      exact readValue_of_readNumber (hread rest hrest) levels
  | string t => exact readBy_leaf rfl fun rest _ => readValue_string levels t rest
  | array h ih => exact readBy_array h ih levels
  | object hnames h ih => exact readBy_object hnames h ih levels

/-- What is written is read again, unless more arrays and objects stand inside one another than the
reader takes. -/
theorem read_text (hv : Proper v) :
    read (text v) = if nesting v ≤ maxNesting then some (reread v) else none := by
  have hprefix : readPrefix (text v) =
      if nesting v ≤ maxNesting then some (reread v, []) else none := by
    have := readBy_text hv maxNesting [] ends_nil
    rwa [List.append_nil, ← (starts_text hv).skipBlanks] at this
  rw [read, hprefix]
  by_cases hnesting : nesting v ≤ maxNesting
  · rw [if_pos hnesting, if_pos hnesting]
    rfl
  · rw [if_neg hnesting, if_neg hnesting]

end RoundTrip

end NoteQuery.Json
