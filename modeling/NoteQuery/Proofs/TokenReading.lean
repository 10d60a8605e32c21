import NoteQuery.Keyword.Text

namespace NoteQuery.Keyword

/-- The tokens up to `rest` spell the expressions one after another. -/
inductive Spells : List Token → List Expr → List Token → Prop
  | done (rest : List Token) : Spells rest [] rest
  | bare {tokens rest : List Token} {es : List Expr} (w : Text) (h : Spells tokens es rest) :
      Spells (.bare w :: tokens) (.word w :: es) rest
  | quoted {tokens rest : List Token} {es : List Expr} (w : Text) (h : Spells tokens es rest) :
      Spells (.quoted w :: tokens) (.word w :: es) rest
  | group {tokens behind rest : List Token} {children es : List Expr}
      (inside : Spells (Expr.takeOperator tokens).2 children (.closing :: behind))
      (outside : Spells behind es rest) :
      Spells (.opening :: tokens) (.group (Expr.takeOperator tokens).1 children :: es) rest

variable {tokens rest behind : List Token} {es fs : List Expr} {e : Expr} {fault : Fault} {n m : Nat}

theorem Spells.append (h : Spells tokens es rest) (h' : Spells rest fs behind) :
    Spells tokens (es ++ fs) behind := by
  induction h with
  | done => exact h'
  | bare w _ ih => exact .bare w (ih h')
  | quoted w _ ih => exact .quoted w (ih h')
  | group inside _ _ ih => exact .group inside (ih h')

/-- How many groups are open behind the tokens if `n` are open before them. Nothing if more are
closed than are open. -/
def level : Nat → List Token → Option Nat
  | n, [] => some n
  | n, .opening :: rest => level (n + 1) rest
  | 0, .closing :: _ => none
  | n + 1, .closing :: rest => level n rest
  | n, .bare _ :: rest => level n rest
  | n, .quoted _ :: rest => level n rest

theorem level_succ (h : level n tokens = some m) : level (n + 1) tokens = some (m + 1) := by
  fun_induction level n tokens with
  | case1 => simpa [level] using h
  | case2 n rest ih => exact ih h
  | case3 => simp at h
  | case4 n rest ih => exact ih h
  | case5 n w rest ih => exact ih h
  | case6 n w rest ih => exact ih h

theorem level_takeOperator (n : Nat) (tokens : List Token) :
    level n (Expr.takeOperator tokens).2 = level n tokens := by
  unfold Expr.takeOperator
  split
  · split <;> rfl
  · rfl

theorem Spells.level_eq (h : Spells tokens es rest) (n : Nat) : level n tokens = level n rest := by
  induction h generalizing n with
  | done => rfl
  | bare w _ ih => exact ih n
  | quoted w _ ih => exact ih n
  | @group tokens behind rest children es _ _ ihin ihout =>
      calc
        level n (.opening :: tokens) = level (n + 1) (Expr.takeOperator tokens).2 :=
          (level_takeOperator (n + 1) tokens).symm
        _ = level (n + 1) (.closing :: behind) := ihin (n + 1)
        _ = level n rest := ihout n

namespace Expr

def OneOutcome (tokens : List Token) : Except Fault (Expr × Rest tokens) → Prop
  | .ok (e, rest) => Spells tokens [e] rest.1
  | .error fault =>
    tokens = [] ∧ fault = .unexpectedEnd ∨
      (∃ more, tokens = .closing :: more) ∧ fault = .unexpectedClose ∨
      (∃ m, level 0 tokens = some (m + 1)) ∧ fault = .missingClose

def GroupOutcome (tokens : List Token) : Except Fault (List Expr × Rest tokens) → Prop
  | .ok (es, rest) => Spells tokens es (.closing :: rest.1)
  | .error fault => (∃ m, level 0 tokens = some m) ∧ fault = .missingClose

theorem readGroup_of_error {token : Token} {more : List Token} (hclosing : token ≠ .closing)
    (h : readOne (token :: more) = .error fault) : readGroup (token :: more) = .error fault := by
  rw [readGroup.eq_3 _ (by simp) fun _ he => hclosing (List.cons.inj he).1, h]

theorem readGroup_of_ok {token : Token} {more : List Token} {rest : Rest (token :: more)}
    (hclosing : token ≠ .closing) (h : readOne (token :: more) = .ok (e, rest)) :
    readGroup (token :: more) = (readGroup rest.1).map fun (es, ⟨behind, hlt⟩) =>
      (e :: es, ⟨behind, Nat.lt_trans hlt rest.2⟩) := by
  rw [readGroup.eq_3 _ (by simp) fun _ he => hclosing (List.cons.inj he).1, h]

mutual

theorem readOne_outcome : (tokens : List Token) → OneOutcome tokens (readOne tokens)
  | [] => by
      rw [readOne]
      exact .inl ⟨rfl, rfl⟩
  | .closing :: more => by
      rw [readOne]
      exact .inr (.inl ⟨⟨more, rfl⟩, rfl⟩)
  | .bare w :: rest => by
      rw [readOne]
      exact .bare w (.done rest)
  | .quoted w :: rest => by
      rw [readOne]
      exact .quoted w (.done rest)
  | .opening :: rest => by
      have hle := length_takeOperator rest
      have hgroup := readGroup_outcome (takeOperator rest).2
      rw [readOne]
      cases h : readGroup (takeOperator rest).2 with
      | error fault =>
          rw [h] at hgroup
          obtain ⟨⟨m, hm⟩, rfl⟩ := hgroup
          rw [level_takeOperator] at hm
          exact .inr (.inr ⟨⟨m, level_succ hm⟩, rfl⟩)
      | ok result =>
          rw [h] at hgroup
          exact .group hgroup (.done result.2.1)
termination_by tokens => (tokens.length, 0)

theorem readGroup_outcome : (tokens : List Token) → GroupOutcome tokens (readGroup tokens)
  | [] => by
      rw [readGroup]
      exact ⟨⟨0, rfl⟩, rfl⟩
  | token :: more => by
      by_cases hclosing : token = .closing
      · subst hclosing
        rw [readGroup]
        exact .done _
      · have hone := readOne_outcome (token :: more)
        cases h : readOne (token :: more) with
        | error fault =>
            rw [h] at hone
            rw [readGroup_of_error hclosing h]
            rcases hone with ⟨he, _⟩ | ⟨⟨rest, he⟩, _⟩ | ⟨⟨m, hm⟩, rfl⟩
            · cases he
            · exact absurd (List.cons.inj he).1 hclosing
            · exact ⟨⟨m + 1, hm⟩, rfl⟩
        | ok result =>
            obtain ⟨first, rest, hlt⟩ := result
            rw [h] at hone
            have hgroup := readGroup_outcome rest
            rw [readGroup_of_ok hclosing h]
            cases h' : readGroup rest with
            | error fault =>
                rw [h'] at hgroup
                obtain ⟨⟨m, hm⟩, rfl⟩ := hgroup
                exact ⟨⟨m, (Spells.level_eq hone 0).trans hm⟩, rfl⟩
            | ok result =>
                rw [h'] at hgroup
                exact Spells.append hone hgroup
termination_by tokens => (tokens.length, 1)

end

def AllOutcome (tokens : List Token) : Except Fault (List Expr) → Prop
  | .ok es => Spells tokens es []
  | .error fault =>
    level 0 tokens = none ∧ fault = .unexpectedClose ∨
      (∃ m, level 0 tokens = some (m + 1)) ∧ fault = .missingClose

theorem readAll_outcome (tokens : List Token) : AllOutcome tokens (readAll tokens) := by
  fun_induction readAll tokens with
  | case1 => exact .done []
  | case2 token more fault h =>
      have hone := readOne_outcome (token :: more)
      rw [h] at hone
      rcases hone with ⟨he, _⟩ | ⟨⟨rest, he⟩, rfl⟩ | hmissing
      · cases he
      · exact .inl ⟨by rw [he, level], rfl⟩
      · exact .inr hmissing
  | case3 token more first rest hlt h ih =>
      have hone : Spells (token :: more) [first] rest := by
        have := readOne_outcome (token :: more)
        rwa [h] at this
      cases hrest : readAll rest with
      | error fault =>
          rw [hrest] at ih
          rw [AllOutcome, ← hone.level_eq] at ih
          exact ih
      | ok es =>
          rw [hrest] at ih
          exact hone.append ih

/-- The tokens are read as the expressions, whether a group ends at `rest` or all tokens do. -/
def ReadAs (tokens : List Token) (es : List Expr) (rest : List Token) : Prop :=
  (∀ behind, rest = .closing :: behind → ∃ hlt, readGroup tokens = .ok (es, ⟨behind, hlt⟩)) ∧
    (rest = [] → readAll tokens = .ok es)

theorem ReadAs.cons {token : Token} {more : List Token} {hlt : behind.length < (token :: more).length}
    (hclosing : token ≠ .closing) (h : readOne (token :: more) = .ok (e, ⟨behind, hlt⟩))
    (hrest : ReadAs behind es rest) : ReadAs (token :: more) (e :: es) rest := by
  constructor
  · rintro last rfl
    obtain ⟨_, hgroup⟩ := hrest.1 last rfl
    rw [readGroup_of_ok hclosing h, hgroup]
    exact ⟨_, rfl⟩
  · rintro rfl
    simp only [readAll, h, hrest.2 rfl, Except.map]

theorem readAs_of_spells (h : Spells tokens es rest) : ReadAs tokens es rest := by
  induction h with
  | done rest =>
      constructor
      · rintro behind rfl
        exact ⟨Nat.lt_succ_self _, by rw [readGroup]⟩
      · rintro rfl
        rw [readAll]
  | bare w _ ih => exact .cons (by simp) (by rw [readOne]) ih
  | quoted w _ ih => exact .cons (by simp) (by rw [readOne]) ih
  | @group tokens behind rest children es _ _ ihin ihout =>
      obtain ⟨_, hgroup⟩ := ihin.1 behind rfl
      exact .cons (by simp) (by rw [readOne, hgroup]; rfl) ihout

theorem readAll_eq_ok_iff : readAll tokens = .ok es ↔ Spells tokens es [] := by
  constructor
  · intro h
    have := readAll_outcome tokens
    rwa [h] at this
  · intro h
    exact (readAs_of_spells h).2 rfl

end Expr

end NoteQuery.Keyword
