import Mathlib
import NoteQuery.Proofs.JsonRoundTrip
import NoteQuery.Proofs.LayerPrecedence

namespace NoteQuery

namespace Json

/-- A change to a value that leaves everything but its floating point numbers. -/
structure KeepsShape (r : Json → Json) : Prop where
  null : r .null = .null
  bool (b : Bool) : r (.bool b) = .bool b
  integer (n : Int) : r (.integer n) = .integer n
  float (x : Binary64) : ∃ y, r (.float x) = .float y
  string (t : Text) : r (.string t) = .string t
  array (items : List Json) : r (.array items) = .array (items.map r)
  object (members : List (Text × Json)) :
    r (.object members) = .object (members.map fun m => (m.1, r m.2))

theorem keepsShape_id : KeepsShape id where
  null := rfl
  bool _ := rfl
  integer _ := rfl
  float x := ⟨x, rfl⟩
  string _ := rfl
  array items := congrArg Json.array (List.map_id items).symm
  object members := congrArg Json.object (List.map_id members).symm

theorem keepsShape_reread : KeepsShape reread where
  null := rfl
  bool _ := rfl
  integer _ := rfl
  float x := ⟨_, rfl⟩
  string _ := rfl
  array items := by
    rw [reread]
    congr 1
    induction items with
    | nil => rfl
    | cons v items ih => rw [rereadItems, ih, List.map_cons]
  object members := by rw [reread, rereadMembers_eq_map]

end Json

namespace Setting

open Json

variable {r : Json → Json} {v : Json} {members : List (Text × Json)} {key : Text}
  {d es : Dictionary Setting}

theorem listOfJson_eq_map (items : List Json) : listOfJson items = items.map ofJson := by
  induction items with
  | nil => rfl
  | cons v items ih => rw [listOfJson, ih, List.map_cons]

theorem entriesOfJson_eq_map (members : List (Text × Json)) :
    entriesOfJson members = members.map fun m => (m.1, ofJson m.2) := by
  induction members with
  | nil => rfl
  | cons m members ih => rw [entriesOfJson, ih, List.map_cons, entryOfJson]

variable (hr : KeepsShape r)

include hr

theorem ofJson_object (members : List (Text × Json)) :
    ofJson (r (.object members)) = .table (members.map fun m => (m.1, ofJson (r m.2))) := by
  rw [hr.object, ofJson, entriesOfJson_eq_map, List.map_map]
  rfl

theorem ofJson_array (items : List Json) :
    ofJson (r (.array items)) = .list (items.map fun v => ofJson (r v)) := by
  rw [hr.array, ofJson, listOfJson_eq_map, List.map_map]
  rfl

theorem overlay_ofJson (hv : Proper v) : overlay (ofJson (r v)) .nothing = ofJson (r v) := by
  induction hv with
  | null => rw [hr.null]; rfl
  | bool b => rw [hr.bool]; rfl
  | @integer n hlow hhigh =>
      rw [hr.integer, ofJson]
      split <;> rfl
  | float h =>
      obtain ⟨y, hy⟩ := hr.float _
      rw [hy]
      rfl
  | string t => rw [hr.string]; rfl
  | array h ih => rw [ofJson_array hr]; rfl
  | @object members hnames h ih =>
      rw [ofJson_object hr, overlay]
      congr 1
      refine overlayEntries_ascending (d := []) ?_ ?_
      · rw [List.nil_append, List.pairwise_map]
        exact hnames
      · intro entry hentry
        obtain ⟨m, hm, rfl⟩ := List.mem_map.1 hentry
        exact ih m hm

omit hr

end Setting

namespace Config

open Json Setting

variable {r : Json → Json} {v : Json} {members : List (Text × Json)} {n : Text} {c : Config}

section Values

theorem mapM_map {α β γ : Type} {f : α → Option γ} {g : β → Option γ} {k : α → β}
    (h : ∀ x y, f x = some y → g (k x) = some y) {xs : List α} {ys : List γ}
    (hxs : xs.mapM f = some ys) : (xs.map k).mapM g = some ys := by
  induction xs generalizing ys with
  | nil => exact hxs
  | cons x xs ih =>
      rw [List.mapM_cons] at hxs
      obtain ⟨y, hy, hxs⟩ := Option.bind_eq_some_iff.1 hxs
      obtain ⟨rest, hrest, hxs⟩ := Option.bind_eq_some_iff.1 hxs
      rw [List.map_cons, List.mapM_cons, h x y hy, ih hrest]
      exact hxs

variable (hr : KeepsShape r)

include hr

theorem asName?_of_nameOfJson? (h : nameOfJson? v = some n) : (ofJson (r v)).asName? = some n := by
  unfold nameOfJson? at h
  split at h
  · cases h
    rw [hr.string]
    rfl
  · cases h
    rw [ofJson_object hr]
    rfl
  · cases h

theorem asBool?_of_boolOfJson? {b : Bool} (h : boolOfJson? v = some b) :
    (ofJson (r v)).asBool? = some b := by
  unfold boolOfJson? at h
  split at h
  · cases h
    rw [hr.bool]
    rfl
  · cases h

theorem asText?_of_textOfJson? {t : Text} (h : textOfJson? v = some t) :
    (ofJson (r v)).asText? = some t := by
  unfold textOfJson? at h
  split at h
  · cases h
    rw [hr.string]
    rfl
  · cases h

theorem comparatorOfSetting?_of_ofJson {comparator : Keyword.Comparator}
    (h : comparatorOfJson? v = some comparator) :
    comparatorOfSetting? (ofJson (r v)) = some comparator := by
  obtain ⟨name, hname, hcomparator⟩ := Option.bind_eq_some_iff.1 h
  rw [comparatorOfSetting?, asName?_of_nameOfJson? hr hname]
  exact hcomparator

theorem fieldsOfSetting?_of_ofJson {fields : List Field} (h : fieldsOfJson? v = some fields) :
    fieldsOfSetting? (ofJson (r v)) = some fields := by
  unfold fieldsOfJson? at h
  split at h
  · rw [ofJson_array hr]
    refine mapM_map (fun v field hfield => ?_) h
    obtain ⟨name, hname, hfield⟩ := Option.bind_eq_some_iff.1 hfield
    rw [asName?_of_nameOfJson? hr hname]
    exact hfield
  · cases h

theorem fileTypesOfSetting?_of_ofJson {fileTypes : Dictionary Text}
    (h : fileTypesOfJson? v = some fileTypes) :
    fileTypesOfSetting? (ofJson (r v)) = some fileTypes := by
  unfold fileTypesOfJson? at h
  split at h
  · rw [ofJson_object hr]
    refine mapM_map (fun m entry hentry => ?_) h
    obtain ⟨t, ht, rfl⟩ := Option.map_eq_some_iff.1 hentry
    dsimp only
    rw [asText?_of_textOfJson? hr ht]
    rfl
  · cases h

end Values

section Sections

variable (hr : KeepsShape r)

include hr

/-- A section over its defaults: a key that the section lacks is found among them, and stands for
what it stands for when it is missing. -/
theorem exists_member {β : Type} {absent b : β} {read : Json → Option β}
    {readSetting : Setting → Option β} {size position : Nat} {key : Text} {m : Option Json}
    {d : Dictionary Setting} {x : Setting} (hv : Proper v) (hx : x.entries = [])
    (hdefault : Dictionary.find? key d = some x) (habsent : readSetting x = some absent)
    (hread : ∀ w b, read w = some b → readSetting (ofJson (r w)) = some b)
    (hm : Config.member? size key position v = some m) (h : orAbsent absent read m = some b) :
    ∃ m', (overlay (ofJson (r v)) (.table d)).member? key position = some m' ∧
      orAbsent absent readSetting m' = some b := by
  unfold Config.member? at hm
  split at hm
  · next members =>
    cases hv with
    | object hnames hproper =>
        have hes : Dictionary.Ascending (members.map fun m => (m.1, ofJson (r m.2))) :=
          List.pairwise_map.2 hnames
        rw [ofJson_object hr, overlay, entries_table, Setting.member?,
          find?_overlayEntries_distinct hes.nodup_keys, Dictionary.find?_map (fun w => ofJson (r w)),
          hdefault]
        refine ⟨_, rfl, ?_⟩
        cases hm
        cases hw : Dictionary.find? key members with
        | none =>
            rw [hw] at h
            cases h
            exact habsent
        | some w =>
            rw [hw] at h
            have hover : overlay (ofJson (r w)) x = ofJson (r w) :=
              (overlay_congr hx).trans
                (overlay_ofJson hr (hproper _ (Dictionary.mem_of_find? hw)))
            exact (congrArg readSetting hover).trans (hread w b h)
  · next items =>
    split at hm
    · cases hm
      rw [ofJson_array hr]
      refine ⟨_, rfl, ?_⟩
      rw [List.getElem?_map]
      cases hw : items[position]? with
      | none =>
          rw [hw] at h
          exact h
      | some w =>
          rw [hw] at h
          exact hread w b h
    · cases hm
  · cases hm

theorem orderOfSetting?_of_ofJson {fields : List Field} (hv : Proper v)
    (h : orderOfJson? v = some fields) :
    orderOfSetting? (overlay (ofJson (r v)) (.table Part.naming.defaults)) = some fields := by
  obtain ⟨m, hm, h⟩ := Option.bind_eq_some_iff.1 h
  obtain ⟨m', hm', h'⟩ := exists_member hr hv rfl find?_order_default fieldsOfSetting?_default
    (fun _ _ => fieldsOfSetting?_of_ofJson hr) hm h
  exact Option.bind_eq_some_iff.2 ⟨m', hm', h'⟩

theorem sortingOfSetting?_of_ofJson {sorting : Bool × Keyword.Comparator} (hv : Proper v)
    (h : sortingOfJson? v = some sorting) :
    sortingOfSetting? (overlay (ofJson (r v)) (.table Part.keywords.defaults)) = some sorting := by
  obtain ⟨m, hm, h⟩ := Option.bind_eq_some_iff.1 h
  obtain ⟨sort, hsort, h⟩ := Option.bind_eq_some_iff.1 h
  obtain ⟨n, hn, h⟩ := Option.bind_eq_some_iff.1 h
  obtain ⟨comparator, hcomparator, h⟩ := Option.bind_eq_some_iff.1 h
  have habsent : asBool? (.bool true) = some standard.sort := rfl
  obtain ⟨m', hm', hsort'⟩ := exists_member hr hv rfl find?_sort_default habsent
    (fun _ _ => asBool?_of_boolOfJson? hr) hm hsort
  obtain ⟨n', hn', hcomparator'⟩ := exists_member hr hv rfl find?_comparator_default
    comparatorOfSetting?_default (fun _ _ => comparatorOfSetting?_of_ofJson hr) hn hcomparator
  exact Option.bind_eq_some_iff.2 ⟨m', hm', Option.bind_eq_some_iff.2 ⟨sort, hsort',
    Option.bind_eq_some_iff.2 ⟨n', hn', Option.bind_eq_some_iff.2 ⟨comparator, hcomparator', h⟩⟩⟩⟩

theorem fileTypesOfSetting?_over_ofJson {fileTypes : Dictionary Text} (hv : Proper v)
    (h : fileTypesOfJson? v = some fileTypes) :
    fileTypesOfSetting? (overlay (ofJson (r v)) (.table Part.fileTypes.defaults)) =
      some fileTypes := by
  have hover : overlay (ofJson (r v)) (.table Part.fileTypes.defaults) =
      overlay (ofJson (r v)) .nothing := overlay_congr rfl
  rw [hover, overlay_ofJson hr hv]
  exact fileTypesOfSetting?_of_ofJson hr h

end Sections

section Loading

theorem pathOf_partName (part : Part) : pathOf part.name = [.key part.name] := by
  cases part <;> rfl

variable {entries : List (Text × Setting)}
  (hentries : entries.Perm (members.map fun m => (m.1, ofJson (r m.2))))

include hentries

theorem layered_entries (hkeys : ∀ m ∈ members, ∃ part : Part, m.1 = part.name) :
    layered entries [] = .table (overlayEntries entries Config.defaults) := by
  have hpaths : ∀ entry ∈ entries, pathOf entry.1 = [.key entry.1] := by
    intro entry hentry
    obtain ⟨m, hm, rfl⟩ := List.mem_map.1 (hentries.mem_iff.1 hentry)
    obtain ⟨part, hpart⟩ := hkeys m hm
    exact hpart ▸ pathOf_partName part
  rw [layered, placeAll_defaults, placeAll_of_names hpaths]
  rfl

theorem find?_layered (hnames : Dictionary.Ascending members) (part : Part) :
    part.of? (.table (overlayEntries entries Config.defaults)) =
      match Dictionary.find? part.name members with
      | some w => some (overlay (ofJson (r w)) (.table part.defaults))
      | none => some (.table part.defaults) := by
  have hes : Dictionary.Ascending (members.map fun m => (m.1, ofJson (r m.2))) :=
    List.pairwise_map.2 hnames
  have hdistinct : (Dictionary.keys entries).Nodup :=
    (hentries.map Prod.fst).nodup_iff.2 hes.nodup_keys
  rw [Part.of?, entries_table, find?_overlayEntries_distinct hdistinct, find?_defaults,
    Dictionary.find?_perm hentries hdistinct, Dictionary.find?_map (fun w => ofJson (r w))]
  cases Dictionary.find? part.name members <;> rfl

theorem read_layered {β : Type} {absent b : β} {read : Json → Option β}
    {readSetting : Setting → Option β} (hv : Proper (.object members)) (part : Part)
    (habsent : readSetting (.table part.defaults) = some absent)
    (hread : ∀ w b, Proper w → read w = some b →
      readSetting (overlay (ofJson (r w)) (.table part.defaults)) = some b)
    (h : orAbsent absent read (Dictionary.find? part.name members) = some b) :
    orAbsent absent readSetting
      (part.of? (.table (overlayEntries entries Config.defaults))) = some b := by
  cases hv with
  | object hnames hproper =>
      rw [find?_layered hentries hnames]
      cases hw : Dictionary.find? part.name members with
      | none =>
          rw [hw] at h
          cases h
          exact habsent
      | some w =>
          rw [hw] at h
          exact hread w b (hproper _ (Dictionary.mem_of_find? hw)) h

theorem ofSetting?_layered (hr : KeepsShape r) (hv : Proper (.object members))
    (hkeys : ∀ m ∈ members, ∃ part : Part, m.1 = part.name)
    (h : ofJson? (.object members) = some c) : ofSetting? (layered entries []) = some c := by
  simp only [ofJson?, Config.member?, Option.bind_eq_bind, Option.bind_some,
    Option.bind_eq_some_iff] at h
  obtain ⟨order, horder, ⟨sort, comparator⟩, hsorting, fileTypes, hfileTypes, hc⟩ := h
  cases hc
  rw [layered_entries hentries hkeys, ofSetting?_eq_some_iff]
  refine ⟨?_, ?_, ?_⟩
  · exact read_layered hentries hv .naming orderOfSetting?_defaults
      (fun _ _ => orderOfSetting?_of_ofJson hr) horder
  · exact read_layered hentries hv .keywords sortingOfSetting?_defaults
      (fun _ _ => sortingOfSetting?_of_ofJson hr) hsorting
  · exact read_layered hentries hv .fileTypes rfl
      (fun _ _ => fileTypesOfSetting?_over_ofJson hr) hfileTypes

omit hentries

theorem read_of_mark (t : Text) : Json.read ('\ufeff' :: t) = none := by
  have hprefix : readPrefix ('\ufeff' :: t) = none := by
    have hblank : Json.skipBlanks ('\ufeff' :: t) = '\ufeff' :: t := rfl
    rw [readPrefix, hblank]
    unfold readValue
    rfl
  rw [Json.read, hprefix]

theorem readFile_json {t : Text} (h : t.head? ≠ some '\ufeff') :
    readFile .json t = (Json.read t).bind fun v => (Setting.ofJson v).entries? := by
  have hmark : Text.after? ['\ufeff'] t = none := by
    cases t with
    | nil => rfl
    | cons first t => exact if_neg fun heq => h (congrArg some heq.symm)
  rw [readFile, hmark, Option.getD_none]

variable {arrange : List (Text × Setting) → List (Text × Setting)}

theorem loadFile_of_read (harrange : ∀ entries, (arrange entries).Perm entries)
    (hr : KeepsShape r) (hv : Proper (.object members))
    (hkeys : ∀ m ∈ members, ∃ part : Part, m.1 = part.name)
    (h : ofJson? (.object members) = some c) {t : Text}
    (ht : Json.read t = some (r (.object members))) : loadFile arrange .json t [] = some c := by
  have hmark : t.head? ≠ some '\ufeff' := by
    intro hhead
    obtain ⟨rest, rfl⟩ := List.head?_eq_some_iff.1 hhead
    rw [read_of_mark] at ht
    cases ht
  have hfile : readFile .json t = some (members.map fun m => (m.1, ofJson (r m.2))) := by
    rw [readFile_json hmark, ht, Option.bind_some, ofJson_object hr]
    rfl
  rw [loadFile, hfile]
  exact ofSetting?_layered (harrange _) hr hv hkeys h

theorem loadFile_of_not_read (members : List (Text × Json))
    (hread : Json.read (Json.text (.object members)) = none) :
    loadFile arrange .json (Json.text (.object members)) [] = none := by
  have hmark : (Json.text (.object members)).head? ≠ some '\ufeff' := by
    rw [Json.text]
    exact fun heq => absurd (Option.some.inj heq) (by decide)
  rw [loadFile, readFile_json hmark, hread]
  rfl

/-- A configuration that a JSON object is read as is loaded from every file that holds the object,
in particular from the one that it is written to, unless the object is nested too deeply to be read
at all. The order in which the entries of the file are gone through does not matter. -/
theorem load_written (harrange : ∀ entries, (arrange entries).Perm entries)
    (hv : Proper (.object members)) (hkeys : ∀ m ∈ members, ∃ part : Part, m.1 = part.name)
    (h : ofJson? (.object members) = some c) :
    loadFile arrange .json (Json.text (.object members)) [] =
        (if nesting (.object members) ≤ maxNesting then some c else none) ∧
      ∀ t, Json.read t = some (.object members) → loadFile arrange .json t [] = some c := by
  refine ⟨?_, fun t ht => loadFile_of_read harrange keepsShape_id hv hkeys h ht⟩
  have hread := read_text hv
  split
  · next hnesting =>
    rw [if_pos hnesting] at hread
    exact loadFile_of_read harrange keepsShape_reread hv hkeys h hread
  · next hnesting =>
    rw [if_neg hnesting] at hread
    exact loadFile_of_not_read members hread

def partlyFilled : List (Text × Json) :=
  [("file_types".toList, .object [("org".toList, .string ".txt".toList)]),
   ("keywords".toList, .object
     [("comparator".toList, .object [("reverse".toList, .null)]),
      ("weight".toList, .float (.finite false 7205759403792794 (-56)))])]

theorem load_written_of_partlyFilled :
    (∀ entries : List (Text × Setting), entries.reverse.Perm entries) ∧
      Proper (.object partlyFilled) ∧ (∀ m ∈ partlyFilled, ∃ part : Part, m.1 = part.name) ∧
      ∃ c, ofJson? (.object partlyFilled) = some c ∧
        loadFile List.reverse .json (Json.text (.object partlyFilled)) [] = some c := by
  have hfileTypes : Proper (.object [("org".toList, .string ".txt".toList)]) :=
    .object (by decide) (List.forall_mem_singleton.2 (.string _))
  have hcomparator : Proper (.object [("reverse".toList, .null)]) :=
    .object (by decide) (List.forall_mem_singleton.2 .null)
  have hkeywords : Proper (.object
      [("comparator".toList, .object [("reverse".toList, .null)]),
       ("weight".toList, .float (.finite false 7205759403792794 (-56)))]) :=
    .object (by decide) (List.forall_mem_cons.2
      ⟨hcomparator, List.forall_mem_singleton.2 (.float ⟨by decide, by decide, by decide⟩)⟩)
  have hproper : Proper (.object partlyFilled) :=
    .object (by decide) (List.forall_mem_cons.2
      ⟨hfileTypes, List.forall_mem_singleton.2 hkeywords⟩)
  have hkeys : ∀ m ∈ partlyFilled, ∃ part : Part, m.1 = part.name := by
    rw [partlyFilled, List.forall_mem_cons, List.forall_mem_singleton]
    exact ⟨⟨.fileTypes, rfl⟩, ⟨.keywords, rfl⟩⟩
  have hnesting : nesting (.object partlyFilled) ≤ maxNesting := by decide
  obtain ⟨c, hc⟩ := Option.isSome_iff_exists.1
    (show (ofJson? (.object partlyFilled)).isSome = true by decide)
  have hload := (load_written List.reverse_perm hproper hkeys hc).1
  rw [if_pos hnesting] at hload
  exact ⟨List.reverse_perm, hproper, hkeys, c, hc, hload⟩

/-- Arrays inside one another. -/
def nest : Nat → Json
  | 0 => .array []
  | n + 1 => .array [nest n]

theorem proper_nest (n : Nat) : Proper (nest n) := by
  induction n with
  | zero => exact .array nofun
  | succ n ih => exact .array (List.forall_mem_singleton.2 ih)

theorem nesting_nest (n : Nat) : nesting (nest n) = n + 1 := by
  induction n with
  | zero => rfl
  | succ n ih => rw [nest, nesting, itemsNesting, itemsNesting, ih, Nat.max_zero]

/-- A key without a meaning makes a file of 128 levels, which is one too many. -/
theorem load_eq_none_of_nest :
    ofJson? (.object [("naming".toList, .object [("x".toList, nest 125)])]) = some standard ∧
      loadFile id .json (Json.text
        (.object [("naming".toList, .object [("x".toList, nest 125)])])) [] = none := by
  refine ⟨rfl, loadFile_of_not_read _ ?_⟩
  have hinner : Proper (.object [("x".toList, nest 125)]) :=
    .object (by decide) (List.forall_mem_singleton.2 (proper_nest 125))
  have hproper : Proper (.object [("naming".toList, .object [("x".toList, nest 125)])]) :=
    .object (by decide) (List.forall_mem_singleton.2 hinner)
  rw [read_text hproper, if_neg]
  simp only [nesting, membersNesting, memberNesting, nesting_nest]
  decide

end Loading

end Config

end NoteQuery
