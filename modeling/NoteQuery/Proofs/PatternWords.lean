import NoteQuery.Proofs.KeywordOrder

namespace NoteQuery

namespace Pattern

mutual

/-- The whole words in a pattern, from left to right. -/
def words : Pattern → List Text
  | .seq [.wordStart, .literal w, .wordEnd] => [w]
  | .seq parts => wordsOf parts
  | .alt branches => wordsOf branches
  | _ => []

def wordsOf : List Pattern → List Text
  | [] => []
  | p :: rest => p.words ++ wordsOf rest

end

variable {p : Pattern} {ps : List Pattern} {W : Text → Prop}

theorem mem_wordsOf {w : Text} : w ∈ wordsOf ps ↔ ∃ p ∈ ps, w ∈ p.words := by
  induction ps with
  | nil => simp [wordsOf]
  | cons p rest ih => simp [wordsOf, ih]

theorem wordsOf_withGaps (ps : List Pattern) : wordsOf (withGaps ps) = wordsOf ps := by
  induction ps with
  | nil => rfl
  | cons p rest ih =>
      cases rest with
      | nil => rfl
      | cons q more => exact congrArg (p.words ++ ·) ih

theorem words_separated (ps : List Pattern) : (Pattern.separated ps).words = wordsOf ps := by
  rw [← wordsOf_withGaps]
  cases ps with
  | nil => rfl
  | cons p rest =>
      cases rest with
      | nil => cases p <;> rfl
      | cons q more => cases p <;> rfl

theorem WordTree.of_mem_words (h : WordTree W p) : ∀ w ∈ p.words, W w := by
  induction h with
  | word hw => exact List.forall_mem_singleton.2 hw
  | alt _ _ ih =>
      intro w hw
      obtain ⟨p, hp, hw⟩ := mem_wordsOf.1 hw
      exact ih p hp w hw
  | separated _ _ ih =>
      intro w hw
      rw [words_separated] at hw
      obtain ⟨p, hp, hw⟩ := mem_wordsOf.1 hw
      exact ih p hp w hw

end Pattern

namespace Keyword

def Op.joined : Op → List Pattern → Pattern
  | .or, ps => .alt ps
  | .and, ps => .separated ps

theorem Op.words_joined (op : Op) (ps : List Pattern) :
    (op.joined ps).words = Pattern.wordsOf ps := by
  cases op with
  | or => rfl
  | and => exact Pattern.words_separated ps

namespace Expr

inductive Within (x : Expr) : Expr → Prop
  | here : Within x x
  | child {op : Op} {cs : List Expr} {c : Expr} (hc : c ∈ cs) (h : Within x c) :
      Within x (.group op cs)

/-- A group without children, or a word of which normalisation leaves nothing. -/
def IsVoid (normalize : Normalizer) : Expr → Prop
  | .word raw => normalize .keyword raw = []
  | .group _ cs => cs = []

mutual

def words : Expr → List Text
  | .word w => [w]
  | .group _ cs => wordsOf cs

def wordsOf : List Expr → List Text
  | [] => []
  | e :: rest => e.words ++ wordsOf rest

end

variable {normalize : Normalizer} {policy : SortPolicy} {e x : Expr} {es cs ds : List Expr}
  {p : Pattern} {ps : List Pattern} {op : Op}

@[elab_as_elim]
theorem induction_children {P : Expr → Prop} (word : ∀ w, P (.word w))
    (group : ∀ op cs, (∀ c ∈ cs, P c) → P (.group op cs)) (e : Expr) : P e :=
  @Expr.rec P (fun cs => ∀ c ∈ cs, P c) word group (fun _ h => nomatch h)
    (fun _ _ hc hcs => List.forall_mem_cons.2 ⟨hc, hcs⟩) e

theorem within_word {raw : Text} : Within x (.word raw) ↔ x = .word raw := by
  constructor
  · rintro ⟨⟩
    rfl
  · rintro rfl
    exact .here

theorem within_group : Within x (.group op cs) ↔ x = .group op cs ∨ ∃ c ∈ cs, Within x c := by
  constructor
  · rintro (_ | ⟨hc, h⟩)
    · exact .inl rfl
    · exact .inr ⟨_, hc, h⟩
  · rintro (rfl | ⟨c, hc, h⟩)
    · exact .here
    · exact .child hc h

theorem wordsOf_eq_flatMap (es : List Expr) : wordsOf es = es.flatMap words := by
  induction es with
  | nil => rfl
  | cons e rest ih => rw [wordsOf, ih, List.flatMap_cons]

theorem allWords?_eq_some {ws : List Text} (h : allWords? es = some ws) : es = ws.map .word := by
  induction es generalizing ws with
  | nil =>
      cases h
      rfl
  | cons e rest ih =>
      cases e with
      | group _ _ => exact nomatch h
      | word w =>
          obtain ⟨vs, hvs, rfl⟩ := Option.map_eq_some_iff.1 h
          rw [List.map_cons, ih hvs]

theorem patterns_words (ws : List Text) :
    patterns normalize policy (ws.map .word) = wordPatterns normalize ws := by
  induction ws with
  | nil => rfl
  | cons w rest ih => rw [List.map_cons, patterns, wordPatterns, ih, pattern]

theorem pattern_group (normalize : Normalizer) (policy : SortPolicy) (op : Op) (hne : cs ≠ []) :
    ∃ ds : List Expr, ds.Perm cs ∧ (group op cs).pattern normalize policy =
      (patterns normalize policy ds).map op.joined := by
  obtain ⟨c, rest, rfl⟩ := List.exists_cons_of_ne_nil hne
  cases op with
  | or => exact ⟨c :: rest, .refl _, by rw [pattern]; rfl⟩
  | and =>
      rw [pattern]
      split
      · next ws hws =>
        refine ⟨(policy.arrange ws).map .word, ?_, by rw [patterns_words]; rfl⟩
        rw [allWords?_eq_some hws]
        exact (policy.perm_arrange ws).map Expr.word
      · exact ⟨c :: rest, .refl _, rfl⟩

theorem exists_patterns_iff : (∃ ps, patterns normalize policy es = .ok ps) ↔
    ∀ e ∈ es, ∃ p, e.pattern normalize policy = .ok p := by
  induction es with
  | nil => simp [patterns]
  | cons e rest ih =>
      rw [List.forall_mem_cons, ← ih]
      constructor
      · rintro ⟨_, h⟩
        obtain ⟨first, others, hfirst, hothers, -⟩ := patterns_cons_eq_ok.1 h
        exact ⟨⟨first, hfirst⟩, others, hothers⟩
      · rintro ⟨⟨first, hfirst⟩, others, hothers⟩
        exact ⟨_, patterns_cons_eq_ok.2 ⟨first, others, hfirst, hothers, rfl⟩⟩

theorem exists_pattern_iff : (∃ p, e.pattern normalize policy = .ok p) ↔
    ∀ x, Within x e → ¬ x.IsVoid normalize := by
  induction e using induction_children with
  | word raw =>
      simp only [within_word, forall_eq, IsVoid, pattern]
      constructor
      · rintro ⟨p, hp⟩
        exact (wordPattern_eq_ok hp).1
      · exact fun hne => ⟨_, wordPattern_of_ne_nil hne⟩
  | group op cs ih =>
      by_cases hne : cs = []
      · subst hne
        simp [pattern, within_group, IsVoid]
      · obtain ⟨ds, hperm, hp⟩ := pattern_group normalize policy op hne
        have hchildren : (∃ p, (group op cs).pattern normalize policy = .ok p) ↔
            ∀ c ∈ cs, ∃ p, c.pattern normalize policy = .ok p := by
          simp only [hp, Except.map_eq_ok, ← hperm.mem_iff, ← exists_patterns_iff]
          constructor
          · rintro ⟨_, ps, hps, -⟩
            exact ⟨ps, hps⟩
          · rintro ⟨ps, hps⟩
            exact ⟨_, ps, hps, rfl⟩
        rw [hchildren]
        constructor
        · intro h x hx
          rcases within_group.1 hx with rfl | ⟨c, hc, hx⟩
          · exact hne
          · exact (ih c hc).1 (h c hc) x hx
        · exact fun h c hc => (ih c hc).2 fun x hx => h x (.child hc hx)

theorem perm_words_of_patterns (h : patterns normalize policy es = .ok ps)
    (hes : ∀ e ∈ es, ∀ p, e.pattern normalize policy = .ok p →
      p.words.Perm (e.words.map (normalize .keyword))) :
    (Pattern.wordsOf ps).Perm ((wordsOf es).map (normalize .keyword)) := by
  induction es generalizing ps with
  | nil =>
      cases h
      exact .nil
  | cons e rest ih =>
      obtain ⟨first, others, hfirst, hothers, rfl⟩ := patterns_cons_eq_ok.1 h
      obtain ⟨he, hrest⟩ := List.forall_mem_cons.1 hes
      rw [Pattern.wordsOf, wordsOf, List.map_append]
      exact (he first hfirst).append (ih hothers hrest)

theorem perm_words_of_pattern (h : e.pattern normalize policy = .ok p) :
    p.words.Perm (e.words.map (normalize .keyword)) := by
  induction e using induction_children generalizing p with
  | word raw =>
      obtain ⟨-, rfl⟩ := wordPattern_eq_ok h
      exact .refl _
  | group op cs ih =>
      by_cases hne : cs = []
      · subst hne
        exact nomatch h
      · obtain ⟨ds, hperm, hp⟩ := pattern_group normalize policy op hne
        rw [hp] at h
        obtain ⟨ps, hps, rfl⟩ := Except.map_eq_ok.1 h
        have hds := perm_words_of_patterns hps fun d hd p hp => ih d (hperm.mem_iff.1 hd) hp
        have hwords : (wordsOf ds).Perm (wordsOf cs) := by
          rw [wordsOf_eq_flatMap, wordsOf_eq_flatMap]
          exact hperm.flatMap_right words
        rw [op.words_joined]
        exact hds.trans (hwords.map _)

/-- An expression is refused exactly if something void stands in it, whatever the sort policy. Its
pattern is made of whole words, none of them empty, which are what normalisation makes of the words
in the expression. -/
theorem pattern_outcome (normalize : Normalizer) (policy : SortPolicy) (e : Expr) :
    ((∃ f, e.pattern normalize policy = .error f) ↔ ∃ x, Within x e ∧ x.IsVoid normalize) ∧
      (∀ policy', (∃ f, e.pattern normalize policy = .error f) ↔
        ∃ f, e.pattern normalize policy' = .error f) ∧
      ∀ p, e.pattern normalize policy = .ok p →
        p.words.Perm (e.words.map (normalize .keyword)) ∧ [] ∉ p.words ∧
          Pattern.WordTree (· ≠ []) p := by
  have hrefused (policy : SortPolicy) : (∃ f, e.pattern normalize policy = .error f) ↔
      ∃ x, Within x e ∧ x.IsVoid normalize := by
    have hok : (∃ p, e.pattern normalize policy = .ok p) ↔ _ := exists_pattern_iff
    cases hp : e.pattern normalize policy with
    | error f => simpa [hp] using hok
    | ok p => simpa [hp] using hok
  refine ⟨hrefused policy, fun policy' => (hrefused policy).trans (hrefused policy').symm, ?_⟩
  intro p hp
  have htree : Pattern.WordTree (· ≠ []) p := wordTree_of_pattern (fun _ hne => hne) e p hp
  exact ⟨perm_words_of_pattern hp, fun hnil => htree.of_mem_words [] hnil rfl, htree⟩

end Expr

end Keyword

end NoteQuery
