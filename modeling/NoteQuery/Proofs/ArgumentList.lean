import Mathlib
import NoteQuery.Query.Arguments

namespace NoteQuery

namespace Argument

def pairs : List Argument → List (Argument × Argument)
  | name :: value :: rest => (name, value) :: pairs rest
  | _ => []

def named? : Argument × Argument → Option (Field × Argument)
  | (.key name, value) => (Field.parse? name).map (·, value)
  | _ => none

def named (ps : List (Argument × Argument)) : List (Field × Argument) := ps.filterMap named?

/-- The first value of every field. -/
def firsts (l : List (Field × Argument)) : List (Field × Argument) :=
  l.eraseDupsBy fun a b => a.1 = b.1

end Argument

inductive Entry where
  | identifier (t : Text)
  | signature (w : Wording)
  | title (w : Wording)
  | keywords (e : Keyword.Expr)
  | fileType (tags : List Text)

namespace Entry

def field : Entry → Field
  | .identifier _ => .identifier
  | .signature _ => .signature
  | .title _ => .title
  | .keywords _ => .keywords
  | .fileType _ => .fileType

def of? : Field × Argument → Option Entry
  | (.identifier, .text t) => some (.identifier t)
  | (.signature, .text t) => some (.signature (.text t))
  | (.signature, .pattern p) => some (.signature (.pattern p))
  | (.title, .text t) => some (.title (.text t))
  | (.title, .pattern p) => some (.title (.pattern p))
  | (.keywords, .text t) => some (.keywords (.word t))
  | (.keywords, .keywords e) => some (.keywords e)
  | (.fileType, .text t) => some (.fileType [t])
  | (.fileType, .tags ts) => some (.fileType ts)
  | _ => none

theorem field_of? {p : Field × Argument} {e : Entry} (h : of? p = some e) : e.field = p.1 := by
  obtain ⟨f, a⟩ := p
  cases f <;> cases a <;> cases h <;> rfl

end Entry

namespace Argument

variable {l : List (Field × Argument)} {es : List Entry} {ps : List (Argument × Argument)}

theorem named_cons_of_none {name : Text} {v : Argument} (h : Field.parse? name = none) :
    named ((.key name, v) :: ps) = named ps := List.filterMap_cons_none (by rw [named?, h]; rfl)

theorem named_cons_of_some {name : Text} {v : Argument} {f : Field}
    (h : Field.parse? name = some f) : named ((.key name, v) :: ps) = (f, v) :: named ps :=
  List.filterMap_cons_some (by rw [named?, h]; rfl)

theorem named_append (ps ps' : List (Argument × Argument)) :
    named (ps ++ ps') = named ps ++ named ps' := List.filterMap_append

theorem firsts_cons (p : Field × Argument) (l : List (Field × Argument)) :
    firsts (p :: l) = p :: firsts (l.filter (·.1 ≠ p.1)) := by
  simp [firsts, List.eraseDupsBy_cons]

@[elab_as_elim]
theorem induction_firsts {motive : List (Field × Argument) → Prop} (nil : motive [])
    (cons : ∀ p l, motive (l.filter (·.1 ≠ p.1)) → motive (p :: l)) : ∀ l, motive l
  | [] => nil
  | p :: l => cons p l (induction_firsts nil cons (l.filter (·.1 ≠ p.1)))
termination_by l => l.length
decreasing_by exact Nat.lt_succ_of_le (List.length_filter_le _ l)

theorem mem_of_mem_firsts {p : Field × Argument} : p ∈ firsts l → p ∈ l := by
  induction l using induction_firsts with
  | nil => exact id
  | cons p' l ih =>
      rw [firsts_cons, List.mem_cons, List.mem_cons]
      exact Or.imp_right fun h => (List.mem_filter.1 (ih h)).1

theorem nodup_firsts : ((firsts l).map Prod.fst).Nodup := by
  induction l using induction_firsts with
  | nil => exact List.nodup_nil
  | cons p l ih =>
      rw [firsts_cons, List.map_cons, List.nodup_cons]
      refine ⟨fun hmem => ?_, ih⟩
      obtain ⟨p', hp', heq⟩ := List.mem_map.1 hmem
      simpa [heq] using (List.mem_filter.1 (mem_of_mem_firsts hp')).2

def ReadAs (l : List (Field × Argument)) (es : List Entry) : Prop :=
  l.map Entry.of? = es.map some

theorem readAs_cons {p : Field × Argument} : ReadAs (p :: l) es ↔
    ∃ x rest, Entry.of? p = some x ∧ ReadAs l rest ∧ es = x :: rest := by
  rw [ReadAs, List.map_cons, eq_comm, List.map_eq_cons_iff]
  constructor
  · rintro ⟨x, rest, rfl, hx, hrest⟩
    exact ⟨x, rest, hx.symm, hrest.symm, rfl⟩
  · rintro ⟨x, rest, hx, hrest, rfl⟩
    exact ⟨x, rest, rfl, hx.symm, hrest.symm⟩

theorem ReadAs.fields (h : ReadAs l es) : es.map Entry.field = l.map Prod.fst := by
  induction l generalizing es with
  | nil =>
      obtain rfl : es = [] := List.map_eq_nil_iff.1 (Eq.symm h)
      rfl
  | cons p l ih =>
      obtain ⟨x, rest, hx, hrest, rfl⟩ := readAs_cons.1 h
      rw [List.map_cons, List.map_cons, Entry.field_of? hx, ih hrest]

theorem ReadAs.filter (h : ReadAs l es) (f : Field) :
    ReadAs (l.filter (·.1 ≠ f)) (es.filter (·.field ≠ f)) := by
  induction l generalizing es with
  | nil =>
      obtain rfl : es = [] := List.map_eq_nil_iff.1 (Eq.symm h)
      rfl
  | cons p l ih =>
      obtain ⟨x, rest, hx, hrest, rfl⟩ := readAs_cons.1 h
      have hfield := Entry.field_of? hx
      by_cases hf : p.1 = f
      · rw [List.filter_cons_of_neg (by simp [hf]), List.filter_cons_of_neg (by simp [hfield, hf])]
        exact ih hrest
      · rw [List.filter_cons_of_pos (by simp [hf]), List.filter_cons_of_pos (by simp [hfield, hf])]
        exact readAs_cons.2 ⟨x, _, hx, ih hrest, rfl⟩

end Argument

namespace Query

open Argument (pairs named firsts ReadAs readAs_cons)

def put (q : Query) : Entry → Query
  | .identifier t => q.withIdentifier t
  | .signature w => q.withSignature w
  | .title w => q.withTitle w
  | .keywords e => q.withKeywords e
  | .fileType tags => q.withFileType tags

variable {q q' : Query} {f : Field} {x y : Entry} {es es' : List Entry} {e : Error}
  {l : List (Field × Argument)}

theorem asks_put : (q.put x).asks f = true ↔ f = x.field ∨ q.asks f = true := by
  cases x <;> cases f <;> simp [put, asks, Entry.field, withIdentifier, withSignature, withTitle,
    withKeywords, withFileType]

theorem put_comm (h : x.field ≠ y.field) : (q.put x).put y = (q.put y).put x := by
  cases x <;> cases y <;> first | rfl | exact absurd rfl h

theorem put_put (h : x.field = y.field) : (q.put x).put y = q.put y := by
  cases x <;> cases y <;> first | rfl | cases h

theorem foldl_put_perm (h : es.Perm es') (hn : (es.map Entry.field).Nodup) (q : Query) :
    es.foldl put q = es'.foldl put q := by
  refine h.foldl_eq' (fun x hx y hy q => ?_) q
  by_cases hxy : x.field = y.field
  · rw [List.inj_on_of_nodup_map hn hx hy hxy]
  · exact put_comm hxy

theorem put_foldr_filter (x : Entry) (es : List Entry) (q : Query) :
    ((es.filter (·.field ≠ x.field)).foldr (fun y q => q.put y) q).put x =
      (es.foldr (fun y q => q.put y) q).put x := by
  induction es with
  | nil => rfl
  | cons y es ih =>
      rw [List.foldr_cons]
      by_cases hy : y.field = x.field
      · rw [List.filter_cons_of_neg (by simp [hy]), put_put hy, ih]
      · rw [List.filter_cons_of_pos (by simp [hy]), List.foldr_cons, put_comm hy, ih, put_comm hy]

/-- Set from the last to the first, the first entry of every field is what is left. -/
theorem foldr_put_firsts (h : ReadAs l es) (h' : ReadAs (firsts l) es') (q : Query) :
    es.foldr (fun x q => q.put x) q = es'.foldr (fun x q => q.put x) q := by
  induction l using Argument.induction_firsts generalizing es es' with
  | nil => rw [List.map_injective_iff.2 (Option.some_injective _) (h.symm.trans h')]
  | cons p l ih =>
      rw [Argument.firsts_cons] at h'
      obtain ⟨x, rest, hx, hrest, rfl⟩ := readAs_cons.1 h
      obtain ⟨x', rest', hx', hrest', rfl⟩ := readAs_cons.1 h'
      obtain rfl : x = x' := Option.some.inj (hx.symm.trans hx')
      have hfilter := hrest.filter p.1
      rw [List.foldr_cons, List.foldr_cons, ← ih hfilter hrest', ← Entry.field_of? hx,
        put_foldr_filter]

inductive Step (q : Query) (position : Nat) : Argument → Argument → Except Error Query → Prop
  | nameless {a v : Argument} (ha : ∀ name, a ≠ .key name) :
      Step q position a v (.error (.fieldExpected position))
  | unknown {name : Text} {v : Argument} (hname : Field.parse? name = none) :
      Step q position (.key name) v (.ok q)
  | repeated {name : Text} {v : Argument} {f : Field} (hname : Field.parse? name = some f)
      (hf : q.asks f = true) : Step q position (.key name) v (.ok q)
  | set {name : Text} {v : Argument} {f : Field} {x : Entry} (hname : Field.parse? name = some f)
      (hf : q.asks f = false) (hv : Entry.of? (f, v) = some x) :
      Step q position (.key name) v (.ok (q.put x))
  | unfit {name : Text} {v : Argument} {f : Field} (hname : Field.parse? name = some f)
      (hf : q.asks f = false) (hv : Entry.of? (f, v) = none) :
      Step q position (.key name) v (.error (.unfitValue f))

theorem assign_eq (q : Query) (f : Field) (v : Argument) :
    q.assign f v = match Entry.of? (f, v) with
      | some x => .ok (q.put x)
      | none => .error (.unfitValue f) := by
  cases f <;> cases v <;> rfl

theorem takePairs_cons (q : Query) (position : Nat) (a v : Argument) (rest : List Argument) :
    ∃ r, Step q position a v r ∧
      q.takePairs position (a :: v :: rest) = r.bind (takePairs · (position + 2) rest) := by
  cases a with
  | key name =>
      rw [takePairs]
      cases hname : Field.parse? name with
      | none => exact ⟨_, .unknown hname, rfl⟩
      | some f =>
          cases hf : q.asks f with
          | true => exact ⟨_, .repeated hname hf, by simp only [hf]; rfl⟩
          | false =>
              simp only [assign_eq, hf]
              cases hv : Entry.of? (f, v) with
              | none => exact ⟨_, .unfit hname hf hv, rfl⟩
              | some x => exact ⟨_, .set hname hf hv, rfl⟩
  | text | pattern | keywords | tags => exact ⟨_, .nameless (by simp), rfl⟩

theorem takePairs_singleton (q : Query) (position : Nat) (a : Argument) :
    q.takePairs position [a] = .ok q := by
  cases a <;> rfl

theorem exists_entries_of_takePairs {q q' : Query} {position : Nat} : (args : List Argument) →
    q.takePairs position args = .ok q' →
      ∃ es, ReadAs (firsts ((named (pairs args)).filter fun p => !q.asks p.1)) es ∧
        q' = es.foldl put q
  | [], h => ⟨[], rfl, (Except.ok.inj h).symm⟩
  | [a], h => ⟨[], rfl, (Except.ok.inj ((takePairs_singleton q position a).symm.trans h)).symm⟩
  | a :: v :: rest, h => by
      obtain ⟨r, hstep, htake⟩ := takePairs_cons q position a v rest
      rw [htake] at h
      rw [pairs]
      cases hstep with
      | nameless | unfit => cases h
      | unknown hname =>
          rw [Argument.named_cons_of_none hname]
          exact exists_entries_of_takePairs rest h
      | repeated hname hf =>
          rw [Argument.named_cons_of_some hname, List.filter_cons_of_neg (by simp [hf])]
          exact exists_entries_of_takePairs rest h
      | @set _ _ f x hname hf hv =>
          obtain ⟨es, hes, rfl⟩ := exists_entries_of_takePairs rest h
          have hunset : ∀ p : Field × Argument,
              (!(q.put x).asks p.1) = (decide (p.1 ≠ f) && !q.asks p.1) := by
            intro p
            rw [Bool.eq_iff_iff, Bool.not_eq_true', ← Bool.not_eq_true, asks_put,
              Entry.field_of? hv]
            simp
          refine ⟨x :: es, ?_, rfl⟩
          rw [Argument.named_cons_of_some hname, List.filter_cons_of_pos (by simp [hf]),
            Argument.firsts_cons, List.filter_filter]
          simp only [hunset] at hes
          exact readAs_cons.2 ⟨x, es, hv, hes, rfl⟩

/-- What is wrong with the pair at `i`: it begins with something else than a name, or it is the
first one for its field and has a value that the field does not take. Behind pairs without a fault
it is the first one exactly if the field is not set yet. -/
inductive Fault (ps : List (Argument × Argument)) (i : Nat) : Error → Prop
  | nameless {a v : Argument} (hp : ps[i]? = some (a, v)) (ha : ∀ name, a ≠ .key name) :
      Fault ps i (.fieldExpected (2 * i))
  | unfit {name : Text} {v : Argument} {f : Field} (hp : ps[i]? = some (.key name, v))
      (hname : Field.parse? name = some f) (hnew : f ∉ (named (ps.take i)).map Prod.fst)
      (hv : Entry.of? (f, v) = none) : Fault ps i (.unfitValue f)

/-- Of the pairs from `start` on, the first one that has a fault has this one. -/
def FirstFault (ps : List (Argument × Argument)) (start : Nat) (e : Error) : Prop :=
  ∃ i, start ≤ i ∧ Fault ps i e ∧ ∀ j, start ≤ j → j < i → ∀ e', ¬ Fault ps j e'

def AsksNamed (q : Query) (ps : List (Argument × Argument)) : Prop :=
  ∀ f, q.asks f = true ↔ f ∈ (named ps).map Prod.fst

section Faults

variable {before after : List (Argument × Argument)} {a v : Argument} {r : Except Error Query}

theorem Step.asksNamed {position : Nat} (h : Step q position a v (.ok q'))
    (hq : q.AsksNamed before) : q'.AsksNamed (before ++ [(a, v)]) := by
  intro f
  rw [Argument.named_append, List.map_append, List.mem_append, ← hq f]
  cases h with
  | unknown hname =>
      rw [Argument.named_cons_of_none hname]
      simp [named]
  | repeated hname hf =>
      rw [Argument.named_cons_of_some hname]
      simp only [named, List.filterMap_nil, List.map_cons, List.map_nil, List.mem_singleton]
      exact ⟨Or.inl, fun h => h.elim id fun h => h ▸ hf⟩
  | set hname hf hv =>
      rw [Argument.named_cons_of_some hname, asks_put, Entry.field_of? hv, or_comm]
      simp [named]

theorem Step.fault_iff (h : Step q (2 * before.length) a v r) (hq : q.AsksNamed before) :
    Fault (before ++ (a, v) :: after) before.length e ↔ r = .error e := by
  have hpair : (before ++ (a, v) :: after)[before.length]? = some (a, v) := by simp
  have htake : (before ++ (a, v) :: after).take before.length = before := by simp
  constructor
  · intro hfault
    cases hfault with
    | nameless hp ha =>
        obtain ⟨rfl, rfl⟩ := Prod.mk.inj (Option.some.inj (hpair.symm.trans hp))
        cases h with
        | nameless => rfl
        | _ => exact absurd rfl (ha _)
    | unfit hp hname hnew hv =>
        obtain ⟨rfl, rfl⟩ := Prod.mk.inj (Option.some.inj (hpair.symm.trans hp))
        rw [htake, ← hq] at hnew
        cases h with
        | nameless ha => exact absurd rfl (ha _)
        | unknown hname' => simp [hname] at hname'
        | repeated hname' hf =>
            obtain rfl := Option.some.inj (hname.symm.trans hname')
            exact absurd hf hnew
        | set hname' hf hv' =>
            obtain rfl := Option.some.inj (hname.symm.trans hname')
            simp [hv] at hv'
        | unfit hname' =>
            obtain rfl := Option.some.inj (hname.symm.trans hname')
            rfl
  · rintro rfl
    cases h with
    | nameless ha => exact .nameless hpair ha
    | unfit hname hf hv =>
        refine .unfit hpair hname ?_ hv
        rw [htake, ← hq, hf]
        exact Bool.false_ne_true

theorem firstFault_of_fault {ps : List (Argument × Argument)} {start : Nat} {e' : Error}
    (h : ∀ e, Fault ps start e ↔ e' = e) : FirstFault ps start e ↔ e' = e := by
  constructor
  · rintro ⟨i, hle, hi, hnone⟩
    rcases Nat.lt_or_eq_of_le hle with hlt | rfl
    · exact absurd ((h e').2 rfl) (hnone start (Nat.le_refl start) hlt e')
    · exact (h e).1 hi
  · intro he
    exact ⟨start, Nat.le_refl start, (h e).2 he, fun j hj hlt => absurd hlt (Nat.not_lt.2 hj)⟩

theorem firstFault_succ {ps : List (Argument × Argument)} {start : Nat}
    (h : ∀ e, ¬ Fault ps start e) : FirstFault ps start e ↔ FirstFault ps (start + 1) e := by
  constructor
  · rintro ⟨i, hle, hi, hnone⟩
    have hne : start ≠ i := fun he => h e (he ▸ hi)
    exact ⟨i, by omega, hi, fun j hj => hnone j (by omega)⟩
  · rintro ⟨i, hle, hi, hnone⟩
    refine ⟨i, by omega, hi, fun j hj hlt => ?_⟩
    rcases Nat.lt_or_eq_of_le hj with hj | rfl
    · exact hnone j hj hlt
    · exact h

theorem not_firstFault_length {ps : List (Argument × Argument)} : ¬ FirstFault ps ps.length e := by
  rintro ⟨i, hle, hi, -⟩
  have hnone : ps[i]? = none := List.getElem?_eq_none hle
  cases hi with
  | nameless hp | unfit hp => simp [hnone] at hp

theorem takePairs_eq_error_iff {q : Query} {before : List (Argument × Argument)}
    (hq : q.AsksNamed before) : (args : List Argument) →
    (q.takePairs (2 * before.length) args = .error e ↔
      FirstFault (before ++ pairs args) before.length e)
  | [] => by
      rw [show before ++ pairs [] = before from List.append_nil before]
      exact iff_of_false (by simp [takePairs]) not_firstFault_length
  | [a] => by
      rw [takePairs_singleton, show before ++ pairs [a] = before from List.append_nil before]
      exact iff_of_false (by simp) not_firstFault_length
  | a :: v :: rest => by
      obtain ⟨r, hstep, htake⟩ := takePairs_cons q (2 * before.length) a v rest
      rw [htake, pairs]
      cases r with
      | error e' =>
          rw [firstFault_of_fault fun e => (hstep.fault_iff hq).trans (by rw [Except.error.injEq])]
          exact iff_of_eq (Except.error.injEq e' e)
      | ok q' =>
          rw [firstFault_succ fun e he => by cases (hstep.fault_iff hq).1 he]
          have ih := takePairs_eq_error_iff (hstep.asksNamed hq) rest
          rwa [List.length_append, List.append_assoc] at ih

end Faults

theorem ofArguments_of_even {args : List Argument} (h : args.length % 2 = 0) :
    ofArguments args = empty.takePairs 0 args := if_neg (by omega)

theorem filter_empty (l : List (Field × Argument)) : (l.filter fun p => !empty.asks p.1) = l :=
  List.filter_eq_self.2 fun p _ => by cases hp : p.1 <;> rfl

theorem exists_firstFault_iff {ps : List (Argument × Argument)} :
    (∃ e, FirstFault ps 0 e) ↔ ∃ i e, Fault ps i e := by
  constructor
  · rintro ⟨e, i, -, hi, -⟩
    exact ⟨i, e, hi⟩
  · intro h
    classical
    obtain ⟨e, he⟩ := Nat.find_spec h
    exact ⟨e, Nat.find h, Nat.zero_le _, he,
      fun j _ hj e' he' => Nat.find_min h hj ⟨e', he'⟩⟩

/-- A list of odd length is refused, whatever its elements are. The other lists are refused for the
first pair that has a fault. If there is none, the query is what the first values of the fields make
of it in any order, and also what all values make of it from the last to the first, if all of them
fit. -/
theorem ofArguments_outcome (args : List Argument) :
    (args.length % 2 = 1 → ofArguments args = .error (.unpairedArguments args.length)) ∧
    (args.length % 2 = 0 →
      (∀ e, ofArguments args = .error e ↔
        ∃ i, Fault (pairs args) i e ∧ ∀ j < i, ∀ e', ¬ Fault (pairs args) j e') ∧
      ((∃ q, ofArguments args = .ok q) ↔ ∀ i e, ¬ Fault (pairs args) i e) ∧
      ∀ q, ofArguments args = .ok q →
        (∃ es, ReadAs (firsts (named (pairs args))) es ∧
          ∀ order : List Entry, order.Perm es → q = order.foldl put empty) ∧
        ∀ es, ReadAs (named (pairs args)) es → q = es.reverse.foldl put empty) := by
  refine ⟨fun hodd => if_pos hodd, fun heven => ?_⟩
  have hasks : empty.AsksNamed [] := fun f => by cases f <;> simp [empty, asks, named]
  have herror : ∀ e, ofArguments args = .error e ↔ FirstFault (pairs args) 0 e := by
    intro e
    rw [ofArguments_of_even heven]
    exact takePairs_eq_error_iff hasks args
  refine ⟨fun e => ?_, ?_, fun q hq => ?_⟩
  · simp only [herror, FirstFault, Nat.zero_le, true_and, forall_const]
  · have hok : (∃ q, ofArguments args = .ok q) ↔ ¬ ∃ e, ofArguments args = .error e := by
      cases ofArguments args <;> simp
    simp only [hok, herror, exists_firstFault_iff, not_exists]
  · rw [ofArguments_of_even heven] at hq
    obtain ⟨es, hes, rfl⟩ := exists_entries_of_takePairs args hq
    rw [filter_empty] at hes
    have hnodup : (es.map Entry.field).Nodup := hes.fields ▸ Argument.nodup_firsts
    refine ⟨⟨es, hes, fun order horder => foldl_put_perm horder.symm hnodup empty⟩, ?_⟩
    intro all hall
    rw [List.foldl_reverse, foldr_put_firsts hall hes, ← List.foldl_reverse]
    exact foldl_put_perm (List.reverse_perm es).symm hnodup empty

example : ofArguments [.key ":title".toList, .text "Plan".toList, .key "directory".toList, .tags [],
    .key "title".toList, .tags [], .key "keywords".toList, .text "home".toList] =
      .ok ((empty.withTitle (.text "Plan".toList)).withKeywords (.word "home".toList)) := rfl

end Query

end NoteQuery
