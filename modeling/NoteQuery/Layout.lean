import NoteQuery.Error

namespace NoteQuery

def Field.named (name : Text) : Except Error Field :=
  match Field.parse? name with
  | some f => .ok f
  | none => .error (.unknownField name)

/-- The fields that a name shows before its extension, in order. The file type is always shown
last, by the extension, so it is not listed. -/
@[ext]
structure Layout where
  fields : List Field
  nodup : fields.Nodup
  fileType_not_mem : Field.fileType ∉ fields

namespace Layout

def empty : Layout := ⟨[], List.nodup_nil, List.not_mem_nil⟩

/-- The layout with a further field at its end. A field that it shows already is refused, and the
file type is passed over. -/
def add (layout : Layout) (f : Field) : Except Error Layout :=
  if htype : f = .fileType then .ok layout
  else if hmem : f ∈ layout.fields then .error (.repeatedField f)
  else .ok
    { fields := layout.fields ++ [f]
      nodup := List.nodup_append.2 ⟨layout.nodup, by simp, fun _ hg _ hf he =>
        hmem (List.mem_singleton.1 hf ▸ he ▸ hg)⟩
      fileType_not_mem := fun h => (List.mem_append.1 h).elim layout.fileType_not_mem
        fun h => htype (List.mem_singleton.1 h).symm }

def ofFields (fields : List Field) : Except Error Layout := fields.foldlM add empty

def ofNames (names : List Text) : Except Error Layout := do
  let fields ← names.mapM Field.named
  ofFields fields

def isFirst (layout : Layout) (f : Field) : Bool := layout.fields.head? == some f

def visits (layout : Layout) : List Field := layout.fields ++ [.fileType]

theorem nodup_visits (layout : Layout) : layout.visits.Nodup :=
  List.nodup_append.2 ⟨layout.nodup, by simp, fun _ hg _ hf =>
    fun he => layout.fileType_not_mem (List.mem_singleton.1 hf ▸ he ▸ hg)⟩

def standard : Layout :=
  ⟨[.identifier, .signature, .title, .keywords], by decide, by decide⟩

end Layout

end NoteQuery
