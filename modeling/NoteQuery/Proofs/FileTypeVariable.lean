import NoteQuery.Proofs.LayerPrecedence
import NoteQuery.Proofs.VariableValue

namespace NoteQuery.Config

open Setting Slot

variable {tag name t u : Text} {setting : Setting} {v : Setting} {d : Dictionary Setting}

section Standard

theorem ofSetting?_of_fileTypes {entries : Dictionary Setting} {fileTypes : Dictionary Text}
    (hnaming : Part.naming.of? (.table d) = some (.table Part.naming.defaults))
    (hkeywords : Part.keywords.of? (.table d) = some (.table Part.keywords.defaults))
    (hfileTypes : Part.fileTypes.of? (.table d) = some (.table entries))
    (hread : fileTypesOfSetting? (.table entries) = some fileTypes) :
    ofSetting? (.table d) = some { standard with fileTypes } := by
  rw [ofSetting?_eq_some_iff, hnaming, hkeywords, hfileTypes]
  exact ⟨orderOfSetting?_defaults, sortingOfSetting?_defaults, hread⟩

theorem convention_of_fileTypes (fileTypes : Dictionary Text) :
    ({ standard with fileTypes } : Config).convention =
      .ok { Convention.standard with fileTypes := FileTypes.withOverrides fileTypes } := by
  rfl

end Standard

section Loading

theorem find?_common_eq_none (h : ¬ (fileType tag).isPath = true) :
    Dictionary.find? tag FileTypes.common = none := by
  have hkeys : ∀ key ∈ FileTypes.common.keys, (fileType key).isPath = true := by
    decide
  rw [← Option.not_isSome_iff_eq_none, ← Dictionary.mem_keys_iff]
  exact mt (hkeys tag) h

theorem layered_variable {s : Slot} (hs : s.Known) (hname : name.lowercase = s.variableName) :
    layered [] (Environment.layer [(name, t)]) =
      place (Environment.value s.path t) (pathOf s.path) (.table Config.defaults) := by
  rw [layered, placeAll_defaults, layer_cons hs hname, placeAll_cons]
  rfl

theorem load_fileType_variable (htag : ∀ c ∈ tag, c ≠ '_' ∧ c ≠ '.' ∧ c ≠ '[')
    (hname : name.lowercase = (fileType tag).variableName)
    (hu : (Environment.value (fileType tag).path t).asText? = some u) :
    load false none [(name, t)] = some { standard with
      fileTypes := if (fileType tag).isPath then [(tag, u)] else [] } := by
  have hload : load false none [(name, t)] =
      ofSetting? (layered [] (Environment.layer [(name, t)])) := rfl
  have hpart (part : Part) : part.of? (.table Config.defaults) = some (.table part.defaults) :=
    find?_defaults part
  rw [hload, layered_variable (.fileType htag) hname]
  obtain ⟨m, path, hm⟩ := pathOf_eq (fileType tag).path
  have hplace (part : Part) :
      part.of? (place (Environment.value (fileType tag).path t) (.key m :: path)
          (.table Config.defaults)) =
        if (fileType tag).part = part ∧ (fileType tag).isPath then
          some (.table (Dictionary.insert (fileType tag).key
            (Environment.value (fileType tag).path t) part.defaults))
        else some (.table part.defaults) := by
    rw [← hm, of?_place (.fileType htag), hpart]
    rfl
  rw [hm]
  have hnaming := (hplace .naming).trans (if_neg fun h => nomatch h.1)
  have hkeywords := (hplace .keywords).trans (if_neg fun h => nomatch h.1)
  by_cases hpath : (fileType tag).isPath = true
  · have hfileTypes := (hplace .fileTypes).trans (if_pos ⟨rfl, hpath⟩)
    rw [if_pos hpath]
    have hread : fileTypesOfSetting? (.table [(tag, Environment.value (fileType tag).path t)]) =
        some [(tag, u)] := by
      simp [fileTypesOfSetting?, Setting.entries?, hu]
    exact ofSetting?_of_fileTypes hnaming hkeywords hfileTypes hread
  · have hfileTypes := (hplace .fileTypes).trans (if_neg fun h => hpath h.2)
    rw [if_neg hpath]
    exact ofSetting?_of_fileTypes hnaming hkeywords hfileTypes rfl

/-- A variable for a file type is always loaded. If the tag can be a step of a path, it stands for the
text of what the value is read as, and for the very value exactly if that is kept. -/
theorem resolve_variable (htag : ∀ c ∈ tag, c ≠ '_' ∧ c ≠ '.' ∧ c ≠ '[')
    (hname : name.lowercase = (fileType tag).variableName) (e : Text) :
    ∃ config convention, load false none [(name, e)] = some config ∧
      config.convention = .ok convention ∧
        convention.fileTypes.resolve tag =
          (if (fileType tag).isPath then (Environment.value (fileType tag).path e).asText?
            else none) ∧
        (convention.fileTypes.resolve tag = some e ↔
          (fileType tag).isPath = true ∧ Environment.Kept e) := by
  have hkey : (fileType tag).path ≠ Environment.listKey := fun h =>
    absurd (Option.some.inj (congrArg List.head? h)) (by decide)
  obtain ⟨u, hu, hkept⟩ := Environment.exists_asText?_value hkey e
  refine ⟨_, _, load_fileType_variable htag hname hu, convention_of_fileTypes _, ?_⟩
  by_cases hpath : (fileType tag).isPath = true
  · have hresolve : (FileTypes.withOverrides [(tag, u)]).resolve tag = some u := by
      simp [FileTypes.resolve, FileTypes.withOverrides, Dictionary.ofList, Dictionary.insert,
        Dictionary.find?]
    rw [if_pos hpath, if_pos hpath, hu, hresolve]
    refine ⟨rfl, ?_⟩
    rw [Option.some.injEq, hkept, and_iff_right hpath]
  · have hresolve : (FileTypes.withOverrides []).resolve tag = none := find?_common_eq_none hpath
    rw [if_neg hpath, if_neg hpath, hresolve]
    exact ⟨rfl, iff_of_false (Option.some_ne_none e).symm fun h => hpath h.1⟩

theorem resolve_variable_of_typst :
    ∃ config convention,
      load false none [("NOTENAME__FILE_TYPES__TYPST".toList, ".typ".toList)] = some config ∧
        config.convention = .ok convention ∧
          convention.fileTypes.resolve "typst".toList = some ".typ".toList := by
  have htag : ∀ c ∈ "typst".toList, c ≠ '_' ∧ c ≠ '.' ∧ c ≠ '[' := by
    have hchars : "typst".toList = ['t', 'y', 'p', 's', 't'] := by decide
    rw [hchars]
    simp
  have hname : Text.lowercase "NOTENAME__FILE_TYPES__TYPST".toList =
      (fileType "typst".toList).variableName := by decide +kernel
  have htruth : ¬ Environment.TruthWord ".typ".toList := by
    unfold Environment.TruthWord
    decide +kernel
  have hnumeral : ¬ Environment.Numeral ".typ".toList := by
    rw [← Environment.isSome_float?_iff]
    decide
  obtain ⟨config, convention, hload, hconvention, -, hkept⟩ :=
    resolve_variable htag hname ".typ".toList
  exact ⟨config, convention, hload, hconvention,
    hkept.2 ⟨by decide, .word htruth hnumeral⟩⟩

/-- The extension of the first section of a manual is read as a number. -/
theorem resolve_variable_of_manual :
    (load false none [("NOTENAME__FILE_TYPES__MAN".toList, ".1".toList)]).bind
      (fun config => config.convention.toOption.bind (·.fileTypes.resolve "man".toList)) =
        some "0.1".toList := by
  decide +kernel

end Loading

end NoteQuery.Config
