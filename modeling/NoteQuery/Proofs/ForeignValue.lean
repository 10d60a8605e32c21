import NoteQuery.Error
import NoteQuery.Proofs.QuoteFree

namespace NoteQuery

namespace Json

/-- The second value is the first one or an item of an array that the first one leads to. -/
inductive LeadsTo : Json → Json → Prop
  | here (v : Json) : LeadsTo v v
  | item {items : List Json} {v w : Json} (hv : v ∈ items) (h : LeadsTo v w) :
      LeadsTo (.array items) w

def isForeign : Json → Bool
  | .string _ | .array _ => false
  | _ => true

mutual

/-- All values that a value leads to: a value before its items, and the items from left to right. -/
def walk : Json → List Json
  | .array items => .array items :: walkOf items
  | v => [v]

def walkOf : List Json → List Json
  | [] => []
  | v :: rest => walk v ++ walkOf rest

end

theorem mem_walkOf {w : Json} {items : List Json} : w ∈ walkOf items ↔ ∃ v ∈ items, w ∈ walk v := by
  induction items with
  | nil => simp [walkOf]
  | cons v rest ih => simp [walkOf, ih]

theorem mem_walk_self (v : Json) : v ∈ walk v := by
  cases v <;> simp [walk]

mutual

theorem leadsTo_of_mem_walk {w : Json} : (v : Json) → w ∈ walk v → LeadsTo v w
  | .array items, h => by
      rw [walk] at h
      rcases List.mem_cons.1 h with rfl | h
      · exact .here _
      · exact leadsTo_of_mem_walkOf items h fun v hv => .item hv
  | .null, h | .bool _, h | .integer _, h | .float _, h | .string _, h | .object _, h => by
      rw [walk, List.mem_singleton] at h
      · subst h
        exact .here _
      · exact fun items hi => Json.noConfusion hi

theorem leadsTo_of_mem_walkOf {u w : Json} : (items : List Json) → w ∈ walkOf items →
    (∀ v ∈ items, LeadsTo v w → LeadsTo u w) → LeadsTo u w
  | v :: rest, h, hitem => by
      rw [walkOf] at h
      rcases List.mem_append.1 h with h | h
      · exact hitem v (List.mem_cons_self ..) (leadsTo_of_mem_walk v h)
      · exact leadsTo_of_mem_walkOf rest h fun x hx => hitem x (List.mem_cons_of_mem _ hx)

end

theorem mem_walk_iff {v w : Json} : w ∈ walk v ↔ LeadsTo v w := by
  constructor
  · exact leadsTo_of_mem_walk v
  · intro h
    induction h with
    | here v => exact mem_walk_self v
    | item hv _ ih =>
        rw [walk]
        exact List.mem_cons_of_mem _ (mem_walkOf.2 ⟨_, hv, ih⟩)

end Json

namespace Keyword.Expr

open Json

variable {α β : Type} {first : Option Json} {x : Except Fault α} {v : Json}

def StopsAt (first : Option Json) : Except Fault α → Prop
  | .ok _ => first = none
  | .error fault => ∃ w, first = some w ∧ fault = .foreignValue w

theorem stopsAt_map {f : α → β} : StopsAt first (x.map f) ↔ StopsAt first x := by
  cases x <;> exact Iff.rfl

theorem StopsAt.bind {f : α → Except Fault β} {second : Option Json} (h : StopsAt first x)
    (hf : ∀ a, StopsAt second (f a)) : StopsAt (first.or second) (x >>= f) := by
  cases x with
  | ok a =>
      obtain rfl : first = none := h
      exact hf a
  | error fault =>
      obtain ⟨w, rfl, rfl⟩ := h
      exact ⟨w, rfl, rfl⟩

theorem stopsAt_array {items : List Json}
    (h : StopsAt ((walkOf items).find? isForeign) (childrenOf items)) :
    StopsAt ((walk (.array items)).find? isForeign) (ofJson (.array items)) := by
  rw [walk, List.find?_cons_of_neg Bool.false_ne_true, ofJson]
  rcases untagged_or_tagged items with hitems | ⟨op, rest, hitems⟩
  · rw [hitems.read]
    exact stopsAt_map.2 h
  · rw [hitems.read]
    apply stopsAt_map.2
    -- The name of the operator is no child, and no foreign value either.
    obtain rfl := hitems.cons
    rw [childrenOf, ofJson] at h
    exact stopsAt_map.1 h

mutual

theorem stopsAt_ofJson : (v : Json) → StopsAt ((walk v).find? isForeign) (ofJson v)
  | .array items => stopsAt_array (stopsAt_childrenOf items)
  | .string _ => rfl
  | .null | .bool _ | .integer _ | .float _ | .object _ => ⟨_, rfl, rfl⟩

theorem stopsAt_childrenOf : (items : List Json) →
    StopsAt ((walkOf items).find? isForeign) (childrenOf items)
  | [] => rfl
  | v :: rest => by
      rw [walkOf, List.find?_append, childrenOf]
      apply (stopsAt_ofJson v).bind
      intro first
      exact stopsAt_map.2 (stopsAt_childrenOf rest)

end

/-- The form with every operator named is read back. A value is refused exactly if it leads to a
foreign one, and then for the first of them. -/
theorem ofJson_eq_error_iff_leadsTo :
    (∀ e : Expr, ofJson e.toJson = .ok e) ∧
      ∀ v : Json,
        ((∃ fault, ofJson v = .error fault) ↔ ∃ w, v.LeadsTo w ∧ w.isForeign = true) ∧
        ∀ fault, ofJson v = .error fault →
          ∃ w, v.walk.find? isForeign = some w ∧ fault = .foreignValue w ∧
            (Error.malformedKeywords fault).message =
              "malformed keyword expression: " ++
                ("expected a string or a list, found " ++ w.text.toOutput) := by
  refine ⟨ofJson_toJson, fun v => ⟨?_, ?_⟩⟩
  · have h := stopsAt_ofJson v
    constructor
    · rintro ⟨fault, hv⟩
      rw [hv] at h
      obtain ⟨w, hw, -⟩ := h
      exact ⟨w, mem_walk_iff.1 (List.mem_of_find?_eq_some hw), List.find?_some hw⟩
    · rintro ⟨w, hlead, hw⟩
      cases hv : ofJson v with
      | error fault => exact ⟨fault, rfl⟩
      | ok e =>
          rw [hv] at h
          exact absurd hw (List.find?_eq_none.1 h w (mem_walk_iff.2 hlead))
  · intro fault hv
    have h := stopsAt_ofJson v
    rw [hv] at h
    obtain ⟨w, hw, rfl⟩ := h
    exact ⟨w, hw, rfl, rfl⟩

end Keyword.Expr

end NoteQuery
