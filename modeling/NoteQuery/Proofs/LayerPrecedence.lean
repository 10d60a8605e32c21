import Mathlib
import NoteQuery.Proofs.EnvironmentLayer

namespace NoteQuery.Config

open Setting

namespace Slot

def position? (s : Slot) : Option Nat :=
  if s = order ∨ s = sort then some 0 else if s = comparator then some 1 else none

/-- What a section says. One that is a list is read by position, but not once a variable has made a
table of it. -/
def ofSection? (s : Slot) (overwritten : Bool) : Setting → Option Setting
  | .table members => Dictionary.find? s.key members
  | .list items => if overwritten then none else s.position?.bind (items[·]?)
  | _ => none

/-- What the file says: what its entries come to in their order, laid over nothing. -/
def ofFile? (entries : List (Text × Setting)) (overwritten : Bool) (s : Slot) : Option Setting :=
  (s.part.of? (placeAll entries (.table []))).bind (s.ofSection? overwritten)

def chosen? (entries : List (Text × Setting)) (vars : List (Text × Text)) (s : Slot) :
    Option Setting :=
  (s.ofVariables? vars).or (s.ofFile? entries (s.part.overwritten vars))

end Slot

/-- The keys are no paths and none comes twice, and every value is in order itself: laid over
nothing, it is what it was. -/
structure PlainKeys (entries : List (Text × Setting)) : Prop where
  names : ∀ entry ∈ entries, pathOf entry.1 = [.key entry.1]
  distinct : (Dictionary.keys entries).Nodup
  values : ∀ entry ∈ entries, overlay entry.2 .nothing = entry.2

/-- No key of the file reaches into the list of the default order. -/
def OrderWhole (entries : List (Text × Setting)) : Prop :=
  ∀ entry ∈ entries, ∀ i path, pathOf entry.1 ≠
    .key Part.naming.name :: .key Slot.order.key :: .item i :: path

open Slot

variable {s : Slot} {vars : List (Text × Text)} {setting x : Setting} {part : Part}
  {entries : List (Text × Setting)} {d : Dictionary Setting}

section Defaults

def Part.defaults : Part → Dictionary Setting
  | .naming => [("component_order".toList,
      .list (["identifier", "signature", "title", "keywords"].map (.text ·.toList)))]
  | .keywords =>
    [("comparator".toList, .text "lexicographic".toList), ("sort".toList, .bool true)]
  | .fileTypes => []

theorem placeAll_defaults : placeAll Config.defaults (.table []) = .table Config.defaults := by
  have hkeywords : overlayEntries Part.keywords.defaults [] = Part.keywords.defaults := by
    apply overlayEntries_ascending (d := [])
    · simp only [Part.defaults, List.nil_append, List.pairwise_cons, List.forall_mem_cons]
      exact ⟨⟨by decide, nofun⟩, nofun, .nil⟩
    · simp only [Part.defaults, List.forall_mem_cons]
      exact ⟨rfl, rfl, nofun⟩
  rw [placeAll_of_names, overlayEntries_ascending]
  · rfl
  · simp only [Config.defaults, List.nil_append, List.pairwise_cons, List.forall_mem_cons]
    exact ⟨⟨by decide, by decide, nofun⟩, ⟨by decide, nofun⟩, nofun, .nil⟩
  · simp only [Config.defaults, List.forall_mem_cons]
    exact ⟨rfl, congrArg Setting.table hkeywords, rfl, nofun⟩
  · simp only [Config.defaults, List.forall_mem_cons]
    exact ⟨rfl, rfl, rfl, nofun⟩

theorem find?_defaults (part : Part) :
    Dictionary.find? part.name Config.defaults = some (.table part.defaults) := by
  cases part with
  | fileTypes => exact if_pos rfl
  | keywords => exact (if_neg (by decide)).trans (if_pos rfl)
  | naming => exact (if_neg (by decide)).trans ((if_neg (by decide)).trans (if_pos rfl))

theorem defaults_shallow (part : Part) (m : Text) (w : Setting)
    (h : Dictionary.find? m part.defaults = some w) :
    w.entries = [] ∧ (w.items? = none ∨ part = .naming ∧ m = Slot.order.key) := by
  cases part with
  | naming =>
      simp only [Part.defaults, Dictionary.find?] at h
      split at h
      · next hm =>
        cases h
        exact ⟨rfl, .inr ⟨rfl, hm.symm⟩⟩
      · cases h
  | keywords =>
      simp only [Part.defaults, Dictionary.find?] at h
      split at h
      · cases h
        exact ⟨rfl, .inl rfl⟩
      split at h
      · cases h
        exact ⟨rfl, .inl rfl⟩
      · cases h
  | fileTypes => cases h

theorem over_defaults (h : OrderWhole entries) (part : Part) :
    Over part.defaults
      (part.of? (placeAll entries (placeAll Config.defaults (.table []))))
      (part.of? (placeAll entries (.table []))) := by
  apply over_placeAll fun m w hw => (defaults_shallow part m w hw).1
  · intro entry he path hpath m rest w hrest hw v
    obtain ⟨hentries, hlist⟩ := defaults_shallow part m w hw
    apply place_congr hentries
    intro i more hmore
    rcases hlist with hlist | ⟨rfl, rfl⟩
    · exact hlist
    · subst hrest hmore
      exact absurd hpath (h entry he i more)
  · rw [placeAll_defaults, entries_table, find?_defaults]
    exact .untouched

end Defaults

section Members

theorem position?_order : Slot.order.position? = some 0 := if_pos (.inl rfl)

theorem position?_sort : Slot.sort.position? = some 0 := if_pos (.inr rfl)

theorem position?_comparator : Slot.comparator.position? = some 1 :=
  (if_neg (by decide)).trans (if_pos rfl)

theorem position?_fileType (tag : Text) : (fileType tag).position? = none := by
  simp [Slot.position?, fileType, Slot.order, Slot.sort, Slot.comparator]

theorem ofFile?_eq_at? {overwritten : Bool} (h : overwritten = true ∨ s.position? = none) :
    s.ofFile? entries overwritten = s.at? (placeAll entries (.table [])) := by
  rw [ofFile?, at?]
  cases s.part.of? (placeAll entries (.table [])) with
  | none => rfl
  | some x =>
      cases x with
      | list items =>
          rcases h with rfl | h
          · rfl
          · cases overwritten <;> simp [ofSection?, h] <;> rfl
      | _ => rfl

theorem ofFile?_of_plainKeys (h : PlainKeys entries) (s : Slot) (overwritten : Bool) :
    s.ofFile? entries overwritten =
      (Dictionary.find? s.part.name entries).bind (s.ofSection? overwritten) := by
  have hpart : s.part.of? (placeAll entries (.table [])) =
      Dictionary.find? s.part.name entries := by
    rw [placeAll_of_names h.names, Part.of?, entries_table, find?_overlayEntries_distinct h.distinct]
    cases hv : Dictionary.find? s.part.name entries with
    | none => rfl
    | some v => exact congrArg some (h.values _ (Dictionary.mem_of_find? hv))
  rw [ofFile?, hpart]

/-- What a section of the layers has for a slot is what was chosen, or the default where nothing
was. -/
theorem member_eq_chosen {position : Nat} {member : Option Setting} (hvars : ProperVariables vars)
    (hpart : s.part ≠ .fileTypes) (hposition : s.position? = some position)
    (hover : Over d (s.part.of? setting) (s.part.of? (placeAll entries (.table []))))
    (hx : s.part.of? (placeAll (Environment.layer vars) setting) = some x)
    (hmember : x.member? s.key position = some member) :
    member = (s.chosen? entries vars).or (Dictionary.find? s.key d) ∨
      member = s.chosen? entries vars := by
  rw [chosen?]
  by_cases h : s.part.overwritten vars = true
  · -- The section is a table by now, so the position of the value no longer matters.
    obtain ⟨e, he⟩ : ∃ e, s.part.of? (placeAll (Environment.layer vars) setting) =
        some (.table e) := exists_table_of_overwritten hvars hpart (.inl h)
    obtain rfl : Setting.table e = x := Option.some.inj (he.symm.trans hx)
    obtain rfl : Dictionary.find? s.key e = member := Option.some.inj hmember
    have hat : s.at? (placeAll (Environment.layer vars) setting) =
        (s.ofVariables? vars).or (s.at? setting) := at?_layer hvars s
    rw [at?, he, at?] at hat
    rw [ofFile?_eq_at? (.inl h), at?]
    rcases hover.find?_entries s.key with hkey | hkey
    · rw [hkey, ← Option.or_assoc] at hat
      exact .inl hat
    · rw [hkey] at hat
      exact .inr hat
  · rw [of?_layer_of_not_overwritten hvars h] at hx
    rw [ofVariables?_of_not_overwritten h, Option.none_or, Bool.eq_false_iff.2 h, ofFile?]
    rw [hx] at hover
    generalize s.part.of? (placeAll entries (.table [])) = y at hover ⊢
    cases hover with
    | untouched => exact .inl (Option.some.inj hmember).symm
    | merged hmerged => exact .inl ((Option.some.inj hmember).symm.trans (hmerged s.key))
    | replaced _ =>
        cases x with
        | table e => exact .inr (Option.some.inj hmember).symm
        | list items =>
            refine .inr ((Option.some.inj hmember).symm.trans ?_)
            exact (congrArg (·.bind (items[·]?)) hposition).symm
        | _ => cases hmember

end Members

section Reading

theorem find?_order_default : Dictionary.find? Slot.order.key Part.naming.defaults =
    some (.list (["identifier", "signature", "title", "keywords"].map (.text ·.toList))) :=
  if_pos rfl

theorem find?_sort_default : Dictionary.find? Slot.sort.key Part.keywords.defaults =
    some (.bool true) :=
  (if_neg (by decide)).trans (if_pos rfl)

theorem find?_comparator_default : Dictionary.find? Slot.comparator.key Part.keywords.defaults =
    some (.text "lexicographic".toList) :=
  if_pos rfl

theorem fieldsOfSetting?_default : fieldsOfSetting?
    (.list (["identifier", "signature", "title", "keywords"].map (.text ·.toList))) =
      some standard.order := by decide

theorem comparatorOfSetting?_default :
    comparatorOfSetting? (.text "lexicographic".toList) = some standard.comparator := by
  rw [comparatorOfSetting?, asName?, Option.bind_some, Keyword.Comparator.ofName?, if_pos rfl]
  rfl

theorem orderOfSetting?_defaults :
    orderOfSetting? (.table Part.naming.defaults) = some standard.order := by decide

theorem sortingOfSetting?_defaults : sortingOfSetting? (.table Part.keywords.defaults) =
    some (standard.sort, standard.comparator) := by
  rfl

theorem ofSetting?_eq_some_iff {c : Config} : ofSetting? (.table d) = some c ↔
    orAbsent standard.order orderOfSetting? (Part.naming.of? (.table d)) = some c.order ∧
      orAbsent (standard.sort, standard.comparator) sortingOfSetting?
        (Part.keywords.of? (.table d)) = some (c.sort, c.comparator) ∧
      orAbsent standard.fileTypes fileTypesOfSetting? (Part.fileTypes.of? (.table d)) =
        some c.fileTypes := by
  simp only [ofSetting?, Setting.member?, Option.bind_eq_bind, Option.bind_some,
    Option.bind_eq_some_iff]
  constructor
  · rintro ⟨order, horder, ⟨sort, comparator⟩, hsorting, fileTypes, hfileTypes, hc⟩
    cases hc
    exact ⟨horder, hsorting, hfileTypes⟩
  · rintro ⟨horder, hsorting, hfileTypes⟩
    exact ⟨_, horder, _, hsorting, _, hfileTypes, rfl⟩

theorem orAbsent_or {α β : Type} {absent : β} {read : α → Option β} {default : α}
    {member chosen : Option α} (hdefault : read default = some absent)
    (h : member = chosen.or (some default) ∨ member = chosen) :
    orAbsent absent read member = orAbsent absent read chosen := by
  rcases h with rfl | rfl
  · cases chosen with
    | none => exact hdefault
    | some v => rfl
  · rfl

theorem find?_mapM {out : Dictionary Text}
    (h : (d.mapM fun (tag, v) => v.asText?.map (tag, ·)) = some out) (tag : Text) :
    (Dictionary.find? tag out).map some = (Dictionary.find? tag d).map asText? := by
  induction d generalizing out with
  | nil =>
      cases h
      rfl
  | cons entry rest ih =>
      obtain ⟨k, v⟩ := entry
      rw [List.mapM_cons] at h
      obtain ⟨first, hfirst, h⟩ := Option.bind_eq_some_iff.1 h
      obtain ⟨others, hothers, h⟩ := Option.bind_eq_some_iff.1 h
      obtain ⟨x, hx, rfl⟩ := Option.map_eq_some_iff.1 hfirst
      cases h
      rw [Dictionary.find?, Dictionary.find?]
      split
      · exact congrArg some hx.symm
      · exact ih hothers

section Layered

variable (horder : OrderWhole entries) (hvars : ProperVariables vars)

include horder hvars

theorem read_member {β : Type} {absent : β} {read : Setting → Option β} {default : Setting}
    {position : Nat} {member : Option Setting} (hpart : s.part ≠ .fileTypes)
    (hposition : s.position? = some position)
    (hdefault : Dictionary.find? s.key s.part.defaults = some default)
    (hread : read default = some absent)
    (hx : s.part.of? (layered entries (Environment.layer vars)) = some x)
    (hmember : x.member? s.key position = some member) :
    orAbsent absent read member = orAbsent absent read (s.chosen? entries vars) := by
  apply orAbsent_or hread
  rw [← hdefault]
  exact member_eq_chosen hvars hpart hposition (over_defaults horder s.part) hx hmember

theorem exists_section (part : Part) (hpart : part ≠ .fileTypes) :
    ∃ x, part.of? (layered entries (Environment.layer vars)) = some x := by
  by_cases h : part.overwritten vars = true
  · obtain ⟨d, hd⟩ := exists_table_of_overwritten hvars hpart (.inl h)
    exact ⟨_, hd⟩
  · rw [layered, of?_layer_of_not_overwritten hvars h]
    have hover := over_defaults horder part
    generalize part.of? (placeAll entries (.table [])) = y at hover
    generalize part.of? _ = x at hover ⊢
    cases hover <;> exact ⟨_, rfl⟩

theorem find?_fileTypes {fileTypes : Dictionary Text} (tag : Text)
    (h : orAbsent standard.fileTypes fileTypesOfSetting?
      (Part.fileTypes.of? (layered entries (Environment.layer vars))) = some fileTypes) :
    (Dictionary.find? tag fileTypes).map some =
      ((fileType tag).chosen? entries vars).map asText? := by
  have hat (setting : Setting) : (fileType tag).at? setting =
      Dictionary.find? tag ((Part.fileTypes.of? setting).getD .nothing).entries := rfl
  have hread : (Dictionary.find? tag fileTypes).map some =
      ((fileType tag).at? (layered entries (Environment.layer vars))).map asText? := by
    rw [hat]
    cases hx : Part.fileTypes.of? (layered entries (Environment.layer vars)) with
    | none =>
        rw [hx] at h
        cases h
        rfl
    | some x =>
        rw [hx] at h
        obtain ⟨e, he, h⟩ := Option.bind_eq_some_iff.1 h
        rw [Option.getD_some, Setting.entries, he]
        exact find?_mapM h tag
  rw [hread, chosen?, ofFile?_eq_at? (.inr (position?_fileType tag)), layered, at?_layer hvars,
    hat, hat]
  rcases (over_defaults horder .fileTypes).find?_entries tag with hkey | hkey
  · rw [hkey]
    exact congrArg (fun x => (Option.or _ x).map asText?) (Option.or_none ..)
  · rw [hkey]

end Layered

/-- Every value of a loaded configuration comes from the environment if a variable sets it, or else
from the file if that sets it, or else from the defaults; no tag comes from anywhere else. This is so
in whatever order the entries of the file are gone through, and a file with plain keys sets what its
sections say in any order. -/
theorem loaded_values {c : Config} (horder : OrderWhole entries) (hvars : ProperVariables vars)
    (h : load true (some entries) vars = some c) :
    orAbsent standard.order fieldsOfSetting? (Slot.order.chosen? entries vars) = some c.order ∧
      orAbsent standard.sort asBool? (Slot.sort.chosen? entries vars) = some c.sort ∧
      orAbsent standard.comparator comparatorOfSetting? (Slot.comparator.chosen? entries vars) =
        some c.comparator ∧
      (∀ tag, (Dictionary.find? tag c.fileTypes).map some =
        ((fileType tag).chosen? entries vars).map asText?) ∧
      (PlainKeys entries → ∀ (s : Slot) (overwritten : Bool), s.ofFile? entries overwritten =
        (Dictionary.find? s.part.name entries).bind (s.ofSection? overwritten)) := by
  have h : ofSetting? (layered entries (Environment.layer vars)) = some c := h
  obtain ⟨e, he⟩ : ∃ e, layered entries (Environment.layer vars) = .table e := by
    obtain ⟨e, he⟩ := placeAll_table entries Config.defaults
    rw [layered, placeAll_defaults, he]
    exact placeAll_table _ e
  rw [he] at h
  obtain ⟨hfields, hsorting, hfileTypes⟩ := ofSetting?_eq_some_iff.1 h
  rw [← he] at hfields hsorting hfileTypes
  obtain ⟨naming, hnaming⟩ := exists_section horder hvars .naming nofun
  obtain ⟨keywords, hkeywords⟩ := exists_section horder hvars .keywords nofun
  rw [hnaming] at hfields
  obtain ⟨fmember, hfmember, hfields⟩ := Option.bind_eq_some_iff.1 hfields
  rw [hkeywords] at hsorting
  obtain ⟨smember, hsmember, hsorting⟩ := Option.bind_eq_some_iff.1 hsorting
  obtain ⟨sort, hsort, hsorting⟩ := Option.bind_eq_some_iff.1 hsorting
  obtain ⟨cmember, hcmember, hsorting⟩ := Option.bind_eq_some_iff.1 hsorting
  obtain ⟨comparator, hcomparator, hsorting⟩ := Option.bind_eq_some_iff.1 hsorting
  obtain ⟨rfl, rfl⟩ := Prod.mk.inj (Option.some.inj hsorting)
  rw [← hfields, ← hsort, ← hcomparator]
  refine ⟨?_, ?_, ?_, fun tag => find?_fileTypes horder hvars tag hfileTypes,
    ofFile?_of_plainKeys⟩ <;> symm
  · exact read_member (s := .order) horder hvars nofun position?_order find?_order_default
      fieldsOfSetting?_default hnaming hfmember
  · exact read_member (s := .sort) horder hvars nofun position?_sort find?_sort_default
      rfl hkeywords hsmember
  · exact read_member (s := .comparator) horder hvars nofun position?_comparator
      find?_comparator_default comparatorOfSetting?_default hkeywords hcmember

def wipedKeywords : Text := "keywords = 5\nfile_types.org = \".txt\"".toList

def wipedEntries : List (Text × Setting) :=
  [("file_types".toList, .table [("org".toList, .text ".txt".toList)]),
   ("keywords".toList, .integer 5)]

def someVariables : List (Text × Text) :=
  [("NOTENAME__KEYWORDS__SORT".toList, "off".toList),
   ("NoteName__File_Types__plain".toList, ".txt".toList)]

theorem loaded_values_of_wipedKeywords :
    readFile .toml wipedKeywords = some wipedEntries ∧ OrderWhole wipedEntries ∧
      ProperVariables someVariables ∧ PlainKeys wipedEntries ∧
      ∃ c, load true (some wipedEntries) someVariables = some c ∧
        orAbsent standard.order fieldsOfSetting? (Slot.order.chosen? wipedEntries someVariables) =
          some c.order ∧
        orAbsent standard.sort asBool? (Slot.sort.chosen? wipedEntries someVariables) =
          some c.sort ∧
        orAbsent standard.comparator comparatorOfSetting?
          (Slot.comparator.chosen? wipedEntries someVariables) = some c.comparator ∧
        (∀ tag, (Dictionary.find? tag c.fileTypes).map some =
          ((fileType tag).chosen? wipedEntries someVariables).map asText?) ∧
        (fileType "org".toList).ofFile? wipedEntries true = some (.text ".txt".toList) := by
  have hfile : readFile .toml wipedKeywords = some wipedEntries := by cbv
  have hplain : PlainKeys wipedEntries :=
    ⟨List.forall_mem_cons.2 ⟨rfl, List.forall_mem_singleton.2 rfl⟩, by decide,
      List.forall_mem_cons.2 ⟨rfl, List.forall_mem_singleton.2 rfl⟩⟩
  have horder : OrderWhole wipedEntries := by
    intro entry hentry i path hpath
    rw [hplain.names entry hentry] at hpath
    cases (List.cons.inj hpath).2
  have hvars : ProperVariables someVariables := by
    constructor
    · have hplain : ∀ c ∈ "plain".toList, c ≠ '_' ∧ c ≠ '.' ∧ c ≠ '[' := by
        have : "plain".toList = ['p', 'l', 'a', 'i', 'n'] := by decide
        rw [this]
        simp
      simp only [someVariables, List.forall_mem_cons]
      refine ⟨⟨.sort, .sort, by decide +kernel⟩,
        ⟨fileType "plain".toList, .fileType hplain, by decide +kernel⟩,
        fun _ h => absurd h List.not_mem_nil⟩
    · decide +kernel
  have hload : (load true (some wipedEntries) someVariables).isSome = true := by decide +kernel
  obtain ⟨c, hc⟩ := Option.isSome_iff_exists.1 hload
  obtain ⟨hfields, hsort, hcomparator, hfileTypes, hsections⟩ := loaded_values horder hvars hc
  have horg : (fileType "org".toList).ofFile? wipedEntries true = some (.text ".txt".toList) :=
    hsections hplain _ _
  exact ⟨hfile, horder, hvars, hplain, c, hc, hfields, hsort, hcomparator, hfileTypes, horg⟩

/-- A file that gives the keywords as a list sets whether they are sorted, but no longer once a
variable sets how; a key can reach into the list of the default order; a variable sets no tag that
cannot be a step of a path; and of two keys for one place the one that is gone through last counts. -/
theorem exceptions_to_layers :
    (loadFile id .toml "keywords = [false]".toList []).map (·.sort) = some false ∧
      (loadFile id .toml "keywords = [false]".toList
        [("NOTENAME__KEYWORDS__COMPARATOR".toList, "reverse".toList)]).map (·.sort) = some true ∧
      (loadFile id .toml "\"naming.component_order[1]\" = \"title\"".toList []).map (·.order) =
        some [.identifier, .title, .title, .keywords] ∧
      (loadFile id .toml [] [("NOTENAME__FILE_TYPES__é".toList, ".x".toList)]).map
        (·.fileTypes) = some [] ∧
      (loadFile id .toml "keywords.sort = true\n\"keywords.sort\" = false".toList []).map
        (·.sort) = some false ∧
      (loadFile List.reverse .toml "keywords.sort = true\n\"keywords.sort\" = false".toList []).map
        (·.sort) = some true := by
  refine ⟨?_, ?_, ?_, ?_, ?_, ?_⟩ <;> decide +kernel

end Reading

end NoteQuery.Config
