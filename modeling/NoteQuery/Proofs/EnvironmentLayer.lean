import NoteQuery.Proofs.FileLayer

namespace NoteQuery.Config

open Setting

inductive Part where
  | naming
  | keywords
  | fileTypes
deriving DecidableEq

namespace Part

def name : Part → Text
  | .naming => "naming".toList
  | .keywords => "keywords".toList
  | .fileTypes => "file_types".toList

def of? (part : Part) (setting : Setting) : Option Setting :=
  Dictionary.find? part.name setting.entries

def variableLead (part : Part) : Text := Environment.lead ++ (part.name ++ "__".toList)

end Part

structure Slot where
  part : Part
  key : Text
deriving DecidableEq

namespace Slot

def order : Slot := ⟨.naming, "component_order".toList⟩

def sort : Slot := ⟨.keywords, "sort".toList⟩

def comparator : Slot := ⟨.keywords, "comparator".toList⟩

def fileType (tag : Text) : Slot := ⟨.fileTypes, tag⟩

/-- The slots that variables are for. Within a tag no further part of a path may begin. -/
inductive Known : Slot → Prop
  | order : Known order
  | sort : Known sort
  | comparator : Known comparator
  | fileType {tag : Text} (h : ∀ c ∈ tag, c ≠ '_' ∧ c ≠ '.' ∧ c ≠ '[') : Known (fileType tag)

/-- Only ASCII letters, numerals and a few more characters can stand in a step of a path. -/
def isPath (s : Slot) : Bool := !s.key.isEmpty && s.key.all isNameChar

def path (s : Slot) : Text := s.part.name ++ '.' :: s.key

def variableName (s : Slot) : Text := s.part.variableLead ++ s.key

def ofVariables? (vars : List (Text × Text)) (s : Slot) : Option Setting :=
  if s.isPath then
    (vars.find? fun v => v.1.lowercase = s.variableName).map fun v => Environment.value s.path v.2
  else none

def at? (s : Slot) (setting : Setting) : Option Setting :=
  Dictionary.find? s.key ((s.part.of? setting).getD .nothing).entries

end Slot

def Part.overwritten (vars : List (Text × Text)) (part : Part) : Bool :=
  vars.any fun v => part.variableLead.isPrefixOf v.1.lowercase

/-- Every variable names a slot, and no two of them the same one. -/
structure ProperVariables (vars : List (Text × Text)) : Prop where
  known : ∀ v ∈ vars, ∃ s : Slot, s.Known ∧ v.1.lowercase = s.variableName
  distinct : (vars.map (·.1.lowercase)).Nodup

open Slot

variable {s s' : Slot} {name t u w : Text} {vars : List (Text × Text)} {setting : Setting}
  {part part' : Part} {v : Text × Text}

theorem ProperVariables.cons (h : ProperVariables (v :: vars)) :
    (∃ s : Slot, s.Known ∧ v.1.lowercase = s.variableName ∧
      s.variableName ∉ vars.map (·.1.lowercase)) ∧ ProperVariables vars := by
  obtain ⟨⟨s, hs, hname⟩, hknown⟩ := List.forall_mem_cons.1 h.known
  obtain ⟨hfresh, hdistinct⟩ := List.nodup_cons.1 h.distinct
  exact ⟨⟨s, hs, hname, hname ▸ hfresh⟩, hknown, hdistinct⟩

theorem Part.eq_of_append (h : part.name ++ u = part'.name ++ w) : part = part' := by
  cases part <;> cases part' <;>
    first
    | rfl
    | exact absurd (Option.some.inj (congrArg List.head? h)) (by decide)

theorem Part.eq_of_name (h : part.name = part'.name) : part = part' :=
  Part.eq_of_append (congrArg (· ++ []) h)

theorem Slot.eq_of_names (hpart : s.part = s'.part) (hkey : s.key = s'.key) : s = s' := by
  cases s
  cases s'
  cases hpart
  cases hkey
  rfl

theorem isPrefixOf_variableName : part.variableLead.isPrefixOf s.variableName = true ↔
    s.part = part := by
  rw [List.isPrefixOf_iff_prefix]
  constructor
  · rintro ⟨w, hw⟩
    simp only [variableName, Part.variableLead, List.append_assoc] at hw
    exact (Part.eq_of_append (List.append_cancel_left hw)).symm
  · rintro rfl
    exact List.prefix_append _ _

theorem Slot.eq_of_variableName (h : s.variableName = s'.variableName) : s = s' := by
  have hpart : s.part = s'.part :=
    isPrefixOf_variableName.1 (h ▸ isPrefixOf_variableName.2 rfl)
  rw [variableName, variableName, hpart] at h
  exact Slot.eq_of_names hpart (List.append_cancel_left h)

section Paths

theorem after?_append (u w : Text) : Text.after? u (u ++ w) = some w := by
  induction u with
  | nil => rfl
  | cons c u ih => rw [List.cons_append, Text.after?, if_pos rfl, ih]

theorem dotted_of_not_mem (h : '_' ∉ t) : Environment.dotted t = t := by
  induction t with
  | nil => rfl
  | cons c t ih =>
      obtain ⟨hc, ht⟩ := not_or.1 (mt List.mem_cons.2 h)
      rw [Environment.dotted.eq_2, ih ht]
      rintro rest rfl
      exact absurd rfl hc

theorem key?_of_known (h : s.Known) (hname : name.lowercase = s.variableName) :
    Environment.key? name = some s.path := by
  rw [Environment.key?, hname, variableName, Part.variableLead, List.append_assoc, after?_append]
  cases h with
  | order => rfl
  | sort => rfl
  | comparator => rfl
  | @fileType tag h =>
      have := dotted_of_not_mem (t := tag) fun hc => (h _ hc).1 rfl
      exact congrArg (fun t => some ("file_types.".toList ++ t)) this

theorem stepsFrom_plain (h : ∀ c ∈ t, c ≠ '.' ∧ c ≠ '[') (w : Text) :
    stepsFrom (.name w) t =
      if t.all isNameChar ∧ (w ≠ [] ∨ t ≠ []) then some [.key (w.reverse ++ t)] else none := by
  induction t generalizing w with
  | nil => cases w <;> simp [stepsFrom]
  | cons c t ih =>
      obtain ⟨⟨hdot, hopen⟩, ht⟩ := List.forall_mem_cons.1 h
      rw [stepsFrom]
      by_cases hc : isNameChar c = true
      · rw [if_pos hc, ih ht]
        simp [hc]
      · simp [hc, hdot, hopen]

theorem pathOf_of_known (h : s.Known) :
    pathOf s.path = if s.isPath then [.key s.part.name, .key s.key] else [.key s.path] := by
  cases h with
  | order => rfl
  | sort => rfl
  | comparator => rfl
  | @fileType tag h =>
      have hstep : stepsFrom (.name []) (fileType tag).path =
          (stepsFrom (.name []) tag).map (.key "file_types".toList :: ·) := rfl
      rw [pathOf, hstep, stepsFrom_plain fun c hc => (h c hc).2]
      by_cases hpath : (fileType tag).isPath = true
      · obtain ⟨hne, hall⟩ := Bool.and_eq_true_iff.1 hpath
        rw [if_pos hpath, if_pos ⟨hall, .inr (by simpa [fileType] using hne)⟩]
        rfl
      · rw [if_neg hpath, if_neg]
        · rfl
        · rintro ⟨hall, hne⟩
          exact hpath (Bool.and_eq_true_iff.2 ⟨by simpa [fileType] using hne, hall⟩)

end Paths

section Environment

theorem overlay_value (key t : Text) (old : Setting) :
    overlay (Environment.value key t) old = Environment.value key t := by
  simp only [Environment.value]
  repeat' split
  all_goals rfl

theorem path_ne_name (s : Slot) (part : Part) : s.path ≠ part.name := by
  intro h
  have hdot : '.' ∈ part.name := h ▸ List.mem_append_right _ (List.mem_cons_self ..)
  cases part <;> revert hdot <;> decide

theorem of?_place (h : s.Known) (t : Text) :
    part.of? (place (Environment.value s.path t) (pathOf s.path) setting) =
      if s.part = part ∧ s.isPath then
        some (.table (((part.of? setting).getD .nothing).entries.insert s.key
          (Environment.value s.path t)))
      else part.of? setting := by
  rw [pathOf_of_known h, Part.of?]
  by_cases hpath : s.isPath = true
  · rw [if_pos hpath, find?_place_key]
    by_cases hpart : s.part = part
    · subst hpart
      rw [if_pos rfl, if_pos ⟨rfl, hpath⟩]
      simp only [place, overlay_value, Part.of?]
    · rw [if_neg fun h => hpart (Part.eq_of_name h), if_neg fun h => hpart h.1]
      rfl
  · rw [if_neg hpath, find?_place_key, if_neg (path_ne_name s part), if_neg fun h => hpath h.2]
    rfl

theorem at?_place (h : s'.Known) (t : Text) :
    s.at? (place (Environment.value s'.path t) (pathOf s'.path) setting) =
      if s = s' ∧ s.isPath then some (Environment.value s.path t) else s.at? setting := by
  rw [at?, of?_place h]
  by_cases hpart : s'.part = s.part ∧ s'.isPath = true
  · rw [if_pos hpart, Option.getD_some, entries_table, Dictionary.find?_insert]
    by_cases hkey : s'.key = s.key
    · obtain rfl := Slot.eq_of_names hpart.1 hkey
      rw [if_pos rfl, if_pos ⟨rfl, hpart.2⟩]
    · rw [if_neg hkey, if_neg]
      · rfl
      · rintro ⟨rfl, -⟩
        exact hkey rfl
  · rw [if_neg hpart, if_neg]
    · rfl
    · rintro ⟨rfl, hpath⟩
      exact hpart ⟨rfl, hpath⟩

theorem layer_cons (h : s.Known) (hname : v.1.lowercase = s.variableName) :
    Environment.layer (v :: vars) =
      (s.path, Environment.value s.path v.2) :: Environment.layer vars := by
  obtain ⟨name, t⟩ := v
  apply List.filterMap_cons_some
  exact congrArg (Option.map fun key => (key, Environment.value key t)) (key?_of_known h hname)

theorem ofVariables?_cons_of_eq (hpath : s.isPath = true)
    (hname : v.1.lowercase = s.variableName) :
    s.ofVariables? (v :: vars) = some (Environment.value s.path v.2) := by
  rw [ofVariables?, if_pos hpath, List.find?_cons_of_pos (by simpa using hname)]
  rfl

theorem ofVariables?_cons_of_ne (hname : v.1.lowercase ≠ s.variableName) :
    s.ofVariables? (v :: vars) = s.ofVariables? vars := by
  rw [ofVariables?, ofVariables?, List.find?_cons_of_neg (by simpa using hname)]

theorem ofVariables?_of_not_mem (h : s.variableName ∉ vars.map (·.1.lowercase)) :
    s.ofVariables? vars = none := by
  induction vars with
  | nil =>
      rw [ofVariables?]
      split <;> rfl
  | cons v rest ih =>
      obtain ⟨hv, hrest⟩ := not_or.1 (mt List.mem_cons.2 h)
      rw [ofVariables?_cons_of_ne fun he => hv he.symm, ih hrest]

/-- Behind all variables a slot holds what they say, or what it held before. -/
theorem at?_layer (h : ProperVariables vars) (s : Slot) :
    s.at? (placeAll (Environment.layer vars) setting) =
      (s.ofVariables? vars).or (s.at? setting) := by
  induction vars generalizing setting with
  | nil =>
      rw [ofVariables?_of_not_mem List.not_mem_nil, Option.none_or]
      rfl
  | cons v rest ih =>
      obtain ⟨⟨s', hs', hname, hfresh⟩, hrest⟩ := h.cons
      rw [layer_cons hs' hname, placeAll_cons, ih hrest, at?_place hs']
      by_cases he : s = s'
      · -- No later variable says anything about the slot, so this one is the last word.
        subst he
        rw [ofVariables?_of_not_mem hfresh, Option.none_or]
        by_cases hpath : s.isPath = true
        · rw [if_pos ⟨rfl, hpath⟩, ofVariables?_cons_of_eq hpath hname, Option.some_or]
        · rw [if_neg fun h => hpath h.2, ofVariables?, if_neg hpath, Option.none_or]
      · rw [if_neg fun h => he h.1, ofVariables?_cons_of_ne fun h => ?_]
        exact he (eq_of_variableName (h.symm.trans hname))

theorem overwritten_cons (h : v.1.lowercase = s.variableName) :
    part.overwritten (v :: vars) = true ↔ s.part = part ∨ part.overwritten vars = true := by
  rw [Part.overwritten, List.any_cons, Bool.or_eq_true, h, isPrefixOf_variableName]
  rfl

theorem ofVariables?_of_not_overwritten (h : ¬ s.part.overwritten vars = true) :
    s.ofVariables? vars = none := by
  apply ofVariables?_of_not_mem
  intro hmem
  obtain ⟨v, hv, hname⟩ := List.mem_map.1 hmem
  refine h (List.any_eq_true.2 ⟨v, hv, ?_⟩)
  rw [hname]
  exact isPrefixOf_variableName.2 rfl

theorem of?_layer_of_not_overwritten (h : ProperVariables vars)
    (hpart : ¬ part.overwritten vars = true) :
    part.of? (placeAll (Environment.layer vars) setting) = part.of? setting := by
  induction vars generalizing setting with
  | nil => rfl
  | cons v rest ih =>
      obtain ⟨⟨s, hs, hname, -⟩, hrest⟩ := h.cons
      obtain ⟨hne, hpart⟩ := not_or.1 (mt (overwritten_cons hname).2 hpart)
      rw [layer_cons hs hname, placeAll_cons, ih hrest hpart, of?_place hs, if_neg fun h => hne h.1]

theorem exists_table_of_overwritten (h : ProperVariables vars) (hpart : part ≠ .fileTypes)
    (hover : part.overwritten vars = true ∨ ∃ d, part.of? setting = some (.table d)) :
    ∃ d, part.of? (placeAll (Environment.layer vars) setting) = some (.table d) := by
  induction vars generalizing setting with
  | nil => exact hover.resolve_left nofun
  | cons v rest ih =>
      obtain ⟨⟨s, hs, hname, -⟩, hrest⟩ := h.cons
      rw [layer_cons hs hname, placeAll_cons]
      apply ih hrest
      rw [of?_place hs]
      by_cases hown : s.part = part
      · have hpath : s.isPath = true := by
          cases hs with
          | order | sort | comparator => rfl
          | fileType => exact absurd hown.symm hpart
        rw [if_pos ⟨hown, hpath⟩]
        exact .inr ⟨_, rfl⟩
      · rw [if_neg fun h => hown h.1]
        rcases hover with hover | hover
        · exact .inl (((overwritten_cons hname).1 hover).resolve_left hown)
        · exact .inr hover

end Environment

end NoteQuery.Config
