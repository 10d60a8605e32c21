import Mathlib.Data.List.Chain
import NoteQuery.Proofs.Surroundings

namespace NoteQuery.Pattern

variable {p x y : Pattern} {ps l rest : List Pattern} {b : Behind} {a : Ahead} {e : Edge}

section Inlining

mutual

/-- The parts of a pattern, with the parts of nested sequences in their place. Alternations are
parts as they stand. -/
def flat : Pattern → List Pattern
  | .seq parts => flatAll parts
  | p => [p]

def flatAll : List Pattern → List Pattern
  | [] => []
  | p :: rest => p.flat ++ flatAll rest

end

mutual

/-- The parts of a pattern with nested sequences inlined everywhere, and with every branch of an
alternation as one sequence. -/
def inlined : Pattern → List Pattern
  | .seq parts => inlinedAll parts
  | .alt branches => [.alt (inlinedBranches branches)]
  | p => [p]

def inlinedAll : List Pattern → List Pattern
  | [] => []
  | p :: rest => p.inlined ++ inlinedAll rest

def inlinedBranches : List Pattern → List Pattern
  | [] => []
  | p :: rest => .seq p.inlined :: inlinedBranches rest

end

def inlinedPart : Pattern → Pattern
  | .alt branches => .alt (inlinedBranches branches)
  | p => p

def branches : Pattern → List Pattern
  | .alt branches => branches
  | _ => []

theorem inlinedBranches_eq_map (ps : List Pattern) :
    inlinedBranches ps = ps.map fun p => .seq p.inlined := by
  induction ps with
  | nil => rfl
  | cons p rest ih => rw [inlinedBranches, ih, List.map_cons]

theorem flat_seq_cons : (Pattern.seq (p :: ps)).flat = p.flat ++ (Pattern.seq ps).flat := rfl

theorem inlined_seq_cons :
    (Pattern.seq (p :: ps)).inlined = p.inlined ++ (Pattern.seq ps).inlined := rfl

theorem inlined_eq_map (p : Pattern) : p.inlined = p.flat.map inlinedPart := by
  induction p using induction_seq with
  | cons p ps hp hps => rw [inlined_seq_cons, hp, hps, flat_seq_cons, List.map_append]
  | _ => rfl

theorem ne_seq_of_mem_flat (hx : x ∈ p.flat) (ps : List Pattern) : x ≠ .seq ps := by
  induction p using induction_seq with
  | nil => exact nomatch hx
  | cons p ps hp hps =>
      rw [flat_seq_cons, List.mem_append] at hx
      exact hx.elim hp hps
  | _ =>
      obtain rfl := List.mem_singleton.1 hx
      exact Pattern.noConfusion

theorem aheadOfSeq_append :
    aheadOfSeq a (ps ++ rest) = aheadOfSeq (aheadOfSeq a rest) ps := by
  induction ps with
  | nil => rfl
  | cons p ps ih => rw [List.cons_append, aheadOfSeq, ih, aheadOfSeq]

theorem itemsOfSeq_append : itemsOfSeq b a (ps ++ rest) =
    let front := itemsOfSeq b (aheadOfSeq a rest) ps
    let back := itemsOfSeq front.2 a rest
    (front.1 ++ back.1, back.2) := by
  induction ps generalizing b with
  | nil => rfl
  | cons p ps ih => simp [itemsOfSeq, ih, aheadOfSeq_append]

theorem ahead_flat (p : Pattern) (a : Ahead) : aheadOfSeq a p.flat = p.ahead a := by
  induction p using induction_seq generalizing a with
  | cons p ps hp hps =>
      rw [flat_seq_cons, aheadOfSeq_append, hps, hp]
      rfl
  | _ => rfl

theorem itemsOfSeq_singleton : itemsOfSeq b a [p] = p.items b a := Prod.ext (List.append_nil _) rfl

theorem items_flat (p : Pattern) (b : Behind) (a : Ahead) :
    itemsOfSeq b a p.flat = p.items b a := by
  induction p using induction_seq generalizing b a with
  | nil => rfl
  | cons p ps hp hps =>
      simp only [flat_seq_cons, itemsOfSeq_append, ahead_flat, hp, hps]
      rfl
  | _ => exact itemsOfSeq_singleton

theorem firstEdgeOfSeq_append :
    firstEdgeOfSeq e (ps ++ rest) = firstEdgeOfSeq (firstEdgeOfSeq e rest) ps := by
  induction ps with
  | nil => rfl
  | cons p ps ih => rw [List.cons_append, firstEdgeOfSeq, ih, firstEdgeOfSeq]

theorem firstEdge_inlined (p : Pattern) (e : Edge) :
    firstEdgeOfSeq e p.inlined = p.firstEdge e := by
  induction p using induction_seq generalizing e with
  | cons p ps hp hps =>
      rw [inlined_seq_cons, firstEdgeOfSeq_append, hps, hp]
      rfl
  | alt ps ih =>
      change firstEdgeOfAlt e (inlinedBranches ps) = firstEdgeOfAlt e ps
      induction ps with
      | nil => rfl
      | cons p rest ihrest =>
          rw [List.forall_mem_cons] at ih
          cases rest with
          | nil => exact ih.1 e
          | cons q more => exact congrArg₂ Edge.join (ih.1 e) (ihrest ih.2)
  | _ => rfl

theorem lastTrails_append_of_ne_nil (hne : rest ≠ []) :
    lastTrails (ps ++ rest) = lastTrails rest := by
  induction ps with
  | nil => rfl
  | cons p ps ih => rw [List.cons_append, lastTrails_cons (by simp [hne]), ih]

theorem lastTrails_append {xs ys : List Pattern} (hnil : ps = [] → ys = [])
    (hp : p.trailsWithWordEnd = true → lastTrails xs = true)
    (hps : lastTrails ps = true → lastTrails ys = true) (h : lastTrails (p :: ps) = true) :
    lastTrails (xs ++ ys) = true := by
  cases ps with
  | nil =>
      rw [hnil rfl, List.append_nil]
      exact hp h
  | cons q more =>
      have hne : ys ≠ [] := by
        rintro rfl
        exact Bool.noConfusion (hps h)
      exact (lastTrails_append_of_ne_nil hne).trans (hps h)

theorem lastTrails_flat (h : p.trailsWithWordEnd = true) : lastTrails p.flat = true := by
  induction p using induction_seq with
  | nil => exact Bool.noConfusion h
  | cons p ps hp hps =>
      refine lastTrails_append ?_ hp hps h
      rintro rfl
      rfl
  | _ => exact h

theorem lastTrails_inlined (h : p.trailsWithWordEnd = true) : lastTrails p.inlined = true := by
  induction p using induction_seq with
  | nil => exact Bool.noConfusion h
  | cons p ps hp hps =>
      refine lastTrails_append ?_ hp hps h
      rintro rfl
      rfl
  | alt ps ih =>
      rw [trailsWithWordEnd, Bool.and_eq_true, allTrail_iff] at h
      change (!(inlinedBranches ps).isEmpty && allTrail (inlinedBranches ps)) = true
      rw [inlinedBranches_eq_map, List.isEmpty_map, Bool.and_eq_true, allTrail_iff,
        List.forall_mem_map]
      exact ⟨h.1, fun p hp => ih p hp (h.2 p hp)⟩
  | _ => exact h

end Inlining

section Exposed

def ShowsStart (p : Pattern) : Prop := p.leadsWithWordStart = firstLeads p.inlined

def ShowsEnd (p : Pattern) : Prop := p.trailsWithWordEnd = lastTrails p.inlined

/-- What a gap is to take over from its neighbour can be seen without inlining. -/
def Meets (x y : Pattern) : Prop :=
  (x.isAnyRun = true → y.ShowsStart) ∧ (y.isAnyRun = true → x.ShowsEnd)

/-- No empty sequence hides the start or the end of a word from a gap next to it, neither among the
parts of the pattern nor in a branch. -/
inductive Exposed : Pattern → Prop where
  | intro {p : Pattern} (meets : p.flat.IsChain Meets)
    (inside : ∀ x ∈ p.flat, ∀ c ∈ x.branches, Exposed c) : Exposed p

def ExposedRow (l : List Pattern) : Prop :=
  l.IsChain Meets ∧ ∀ x ∈ l, ∀ c ∈ x.branches, c.Exposed

theorem exposed_iff : p.Exposed ↔ ExposedRow p.flat :=
  ⟨fun ⟨meets, inside⟩ => ⟨meets, inside⟩, fun ⟨meets, inside⟩ => ⟨meets, inside⟩⟩

theorem exposedRow_cons : ExposedRow (x :: rest) ↔
    ((∀ y ∈ rest.head?, Meets x y) ∧ ∀ c ∈ x.branches, c.Exposed) ∧ ExposedRow rest := by
  rw [ExposedRow, ExposedRow, List.isChain_cons, List.forall_mem_cons]
  exact and_and_and_comm

end Exposed

section Full

mutual

def full : Pattern → Bool
  | .seq parts => !parts.isEmpty && allFull parts
  | .alt branches => allFull branches
  | _ => true

def allFull : List Pattern → Bool
  | [] => true
  | p :: rest => p.full && allFull rest

end

theorem allFull_iff : allFull ps = true ↔ ∀ p ∈ ps, p.full = true := by
  induction ps with
  | nil => simp [allFull]
  | cons p rest ih => simp [allFull, ih]

theorem full_seq_cons (h : (Pattern.seq (p :: ps)).full = true) :
    p.full = true ∧ (ps ≠ [] → (Pattern.seq ps).full = true) := by
  obtain ⟨hp, hps⟩ := Bool.and_eq_true_iff.1 h
  cases ps with
  | nil => exact ⟨hp, fun hne => absurd rfl hne⟩
  | cons q more => exact ⟨hp, fun _ => hps⟩

theorem inlined_ne_nil (h : p.full = true) : p.inlined ≠ [] := by
  induction p using induction_seq with
  | nil => exact Bool.noConfusion h
  | cons p ps hp hps => exact List.append_ne_nil_of_left_ne_nil (hp (full_seq_cons h).1) _
  | _ => exact List.cons_ne_nil _ _

theorem isEmpty_inlinedBranches : (inlinedBranches ps).isEmpty = ps.isEmpty := by
  cases ps <;> rfl

theorem showsStart_alt (h : ∀ p ∈ ps, p.ShowsStart) : (Pattern.alt ps).ShowsStart := by
  have hall : allLead ps = allLead (inlinedBranches ps) := by
    induction ps with
    | nil => rfl
    | cons p rest ih =>
        rw [List.forall_mem_cons] at h
        rw [inlinedBranches, allLead, allLead, h.1, ih h.2]
        rfl
  rw [ShowsStart, leadsWithWordStart, hall, ← isEmpty_inlinedBranches]
  rfl

theorem showsEnd_alt (h : ∀ p ∈ ps, p.ShowsEnd) : (Pattern.alt ps).ShowsEnd := by
  have hall : allTrail ps = allTrail (inlinedBranches ps) := by
    induction ps with
    | nil => rfl
    | cons p rest ih =>
        rw [List.forall_mem_cons] at h
        rw [inlinedBranches, allTrail, allTrail, h.1, ih h.2]
        rfl
  rw [ShowsEnd, trailsWithWordEnd, hall, ← isEmpty_inlinedBranches]
  rfl

theorem showsStart_of_full (h : p.full = true) : p.ShowsStart := by
  induction p using induction_seq with
  | nil => exact Bool.noConfusion h
  | cons p ps hp hps =>
      have hfull := (full_seq_cons h).1
      obtain ⟨q, more, hq⟩ := List.exists_cons_of_ne_nil (inlined_ne_nil hfull)
      have hshows := hp hfull
      rw [ShowsStart, hq] at hshows
      rw [ShowsStart, inlined_seq_cons, hq]
      exact hshows
  | alt ps ih => exact showsStart_alt fun p hp => ih p hp (allFull_iff.1 h p hp)
  | _ => rfl

theorem showsEnd_of_full (h : p.full = true) : p.ShowsEnd := by
  induction p using induction_seq with
  | nil => exact Bool.noConfusion h
  | cons p ps hp hps =>
      obtain ⟨hfull, hrest⟩ := full_seq_cons h
      rw [ShowsEnd, inlined_seq_cons]
      cases ps with
      | nil => exact (hp hfull).trans (congrArg lastTrails (List.append_nil _).symm)
      | cons q more =>
          have hrest := hrest (List.cons_ne_nil _ _)
          rw [lastTrails_append_of_ne_nil (inlined_ne_nil hrest)]
          exact hps hrest
  | alt ps ih => exact showsEnd_alt fun p hp => ih p hp (allFull_iff.1 h p hp)
  | _ => rfl

theorem full_of_mem_flat (h : p.full = true) (hx : x ∈ p.flat) : x.full = true := by
  induction p using induction_seq with
  | nil => exact nomatch hx
  | cons p ps hp hps =>
      obtain ⟨hfull, hrest⟩ := full_seq_cons h
      rcases List.mem_append.1 hx with hx | hx
      · exact hp hfull hx
      · cases ps with
        | nil => exact nomatch hx
        | cons q more => exact hps (hrest (List.cons_ne_nil _ _)) hx
  | _ =>
      obtain rfl := List.mem_singleton.1 hx
      exact h

theorem exposed_of_inside (h : p.full = true) (hin : ∀ x ∈ p.flat, ∀ c ∈ x.branches, c.Exposed) :
    p.Exposed := by
  have hmeets (x : Pattern) (hx : x ∈ p.flat) (y : Pattern) (hy : y ∈ p.flat) : Meets x y :=
    ⟨fun _ => showsStart_of_full (full_of_mem_flat h hy),
      fun _ => showsEnd_of_full (full_of_mem_flat h hx)⟩
  exact .intro (List.pairwise_of_forall_mem_list hmeets).isChain hin

theorem exposed_of_full (h : p.full = true) : p.Exposed := by
  apply exposed_of_inside h
  induction p using induction_seq with
  | nil => nofun
  | cons p ps hp hps =>
      obtain ⟨hfull, hrest⟩ := full_seq_cons h
      rw [flat_seq_cons, List.forall_mem_append]
      refine ⟨hp hfull, ?_⟩
      cases ps with
      | nil => nofun
      | cons q more => exact hps (hrest (List.cons_ne_nil _ _))
  | alt ps ih =>
      refine List.forall_mem_singleton.2 fun c hc => ?_
      have hfull := allFull_iff.1 h c hc
      exact exposed_of_inside hfull (ih c hc hfull)
  | _ => exact List.forall_mem_singleton.2 nofun

end Full

end NoteQuery.Pattern
