import NoteQuery.Keyword.Json
import NoteQuery.Proofs.TokenReading
import NoteQuery.Proofs.TokenScan

namespace NoteQuery.Keyword

open Token

/-- A value that has a text form: a string without quotes, or an array of such values. -/
inductive Shared : Json → Prop
  | string {w : Text} (h : '"' ∉ w) : Shared (.string w)
  | array {items : List Json} (h : ∀ v ∈ items, Shared v) : Shared (.array items)

theorem shared_string_iff {w : Text} : Shared (.string w) ↔ '"' ∉ w :=
  ⟨fun h => by cases h with | string h => exact h, .string⟩

theorem shared_array_iff {items : List Json} : Shared (.array items) ↔ ∀ v ∈ items, Shared v :=
  ⟨fun h => by cases h with | array h => exact h, .array⟩

mutual

/-- The text form of a value. Strings are quoted, apart from an operator at the head of an array. -/
def textForm : Json → Text
  | .string w => '"' :: (w ++ ['"'])
  | .array items => '(' :: (Text.join [' '] (itemForms items) ++ [')'])
  | _ => []

def itemForms : List Json → List Text
  | [] => []
  | .string w :: rest =>
    (if w = "or".toList ∨ w = "and".toList then w else '"' :: (w ++ ['"'])) :: restForms rest
  | v :: rest => textForm v :: restForms rest

def restForms : List Json → List Text
  | [] => []
  | v :: rest => textForm v :: restForms rest

end

mutual

def formTokens : Json → List Token
  | .string w => [.quoted w]
  | .array items => .opening :: (itemTokens items ++ [.closing])
  | _ => []

def itemTokens : List Json → List Token
  | [] => []
  | .string w :: rest =>
    (if w = "or".toList ∨ w = "and".toList then .bare w else .quoted w) :: restTokens rest
  | v :: rest => formTokens v ++ restTokens rest

def restTokens : List Json → List Token
  | [] => []
  | v :: rest => formTokens v ++ restTokens rest

end

variable {v : Json} {items : List Json} {tokens rest : List Token} {t u : Text} {e : Expr}
  {es : List Expr}

section Head

theorem restTokens_eq_flatMap (items : List Json) : restTokens items = items.flatMap formTokens := by
  induction items with
  | nil => rfl
  | cons v rest ih => rw [restTokens, ih, List.flatMap_cons]

theorem restForms_eq_map (items : List Json) : restForms items = items.map textForm := by
  induction items with
  | nil => rfl
  | cons v rest ih => rw [restForms, ih, List.map_cons]

theorem Op.ofName?_name (op : Op) : Op.ofName? op.name = some op := by
  cases op <;> decide

theorem Op.ofName?_eq_none {w : Text} (h : ¬ (w = "or".toList ∨ w = "and".toList)) :
    Op.ofName? w = none := by
  obtain ⟨hor, hand⟩ := not_or.1 h
  rw [Op.ofName?, Op.name, Op.name, if_neg hor, if_neg hand]

structure Untagged (items : List Json) : Prop where
  read : Expr.ofItems items = (Expr.childrenOf items).map (.group .and)
  tokens : itemTokens items = items.flatMap formTokens
  forms : itemForms items = items.map textForm

theorem untagged_cons (h : ∀ w, v = .string w → False) (items : List Json) :
    Untagged (v :: items) := by
  refine ⟨?_, ?_, ?_⟩
  · rw [Expr.ofItems.eq_3 _ _ h, Expr.childrenOf]
    cases Expr.ofJson v with
    | error fault => rfl
    | ok first => cases Expr.childrenOf items <;> rfl
  · rw [itemTokens.eq_3 _ _ h, restTokens_eq_flatMap, List.flatMap_cons]
  · rw [itemForms.eq_3 _ _ h, restForms_eq_map, List.map_cons]

theorem untagged_string {w : Text} (h : ¬ (w = "or".toList ∨ w = "and".toList))
    (items : List Json) : Untagged (.string w :: items) := by
  refine ⟨?_, ?_, ?_⟩
  · rw [Expr.ofItems, Op.ofName?_eq_none h, Expr.childrenOf, Expr.ofJson]
    cases Expr.childrenOf items <;> rfl
  · rw [itemTokens, if_neg h, restTokens_eq_flatMap]
    rfl
  · rw [itemForms, if_neg h, restForms_eq_map]
    rfl

structure Tagged (op : Op) (items rest : List Json) : Prop where
  cons : items = .string op.name :: rest
  read : Expr.ofItems items = (Expr.childrenOf rest).map (.group op)
  tokens : itemTokens items = .bare op.name :: rest.flatMap formTokens
  forms : itemForms items = op.name :: rest.map textForm

theorem tagged_cons (op : Op) (items : List Json) : Tagged op (.string op.name :: items) items := by
  have h : op.name = "or".toList ∨ op.name = "and".toList := by cases op <;> simp [Op.name]
  refine ⟨rfl, ?_, ?_, ?_⟩
  · rw [Expr.ofItems, Op.ofName?_name]
  · rw [itemTokens, if_pos h, restTokens_eq_flatMap]
  · rw [itemForms, if_pos h, restForms_eq_map]

theorem untagged_or_tagged (items : List Json) :
    Untagged items ∨ ∃ op rest, Tagged op items rest := by
  cases items with
  | nil => exact .inl ⟨rfl, rfl, rfl⟩
  | cons v rest =>
      cases v with
      | string w =>
          by_cases h : w = "or".toList ∨ w = "and".toList
          · obtain ⟨op, rfl⟩ : ∃ op : Op, w = op.name := h.elim (⟨.or, ·⟩) (⟨.and, ·⟩)
            exact .inr ⟨op, rest, tagged_cons op rest⟩
          · exact .inl (untagged_string h rest)
      | _ => exact .inl (untagged_cons (by simp) rest)

end Head

section Layout

theorem Token.LaidOut.append (h : LaidOut tokens t) (h' : LaidOut rest u) :
    LaidOut (tokens ++ rest) (t ++ u) := by
  induction h with
  | nil hb => exact h'.blank_append hb
  | cons hb _ ih =>
      rw [List.cons_append, List.append_assoc, List.append_assoc]
      exact .cons hb ih

theorem laidOut_join {forms : List Text} (h : LaidOut tokens t)
    (hrest : LaidOut rest (Text.join [' '] forms)) :
    LaidOut (tokens ++ rest) (Text.join [' '] (t :: forms)) := by
  cases forms with
  | nil => simpa [Text.join] using h.append hrest
  | cons form forms =>
      have hblank : Text.Blank [' '] := by simp [Text.Blank]; decide
      rw [Text.join, List.append_assoc]
      exact h.append (hrest.blank_append hblank)

theorem laidOut_items (h : ∀ v ∈ items, LaidOut (formTokens v) (textForm v)) :
    LaidOut (items.flatMap formTokens) (Text.join [' '] (items.map textForm)) := by
  induction items with
  | nil => exact .empty
  | cons v rest ih =>
      obtain ⟨hv, hrest⟩ := List.forall_mem_cons.1 h
      exact laidOut_join hv (ih hrest)

theorem laidOut_textForm (h : Shared v) : LaidOut (formTokens v) (textForm v) := by
  induction h with
  | @string w h =>
      simpa [formTokens, textForm, Token.text] using LaidOut.empty.cons_token (.quoted w)
  | @array items h ih =>
      have hitems : LaidOut (itemTokens items) (Text.join [' '] (itemForms items)) := by
        rcases untagged_or_tagged items with ⟨_, htokens, hforms⟩ | ⟨op, rest, rfl, _, htokens, hforms⟩
        · rw [htokens, hforms]
          exact laidOut_items ih
        · rw [htokens, hforms]
          have hrest := laidOut_items (List.forall_mem_cons.1 ih).2
          exact laidOut_join (by simpa using LaidOut.empty.cons_token (.bare op.name)) hrest
      exact (hitems.append (LaidOut.empty.cons_token .closing)).cons_token .opening

end Layout

section Reading

theorem formTokens_eq_cons (h : Shared v) :
    ∃ token more, formTokens v = token :: more ∧ token.isBare = false := by
  cases h with
  | string h => exact ⟨_, _, rfl, rfl⟩
  | array h => exact ⟨_, _, rfl, rfl⟩

theorem head?_items (h : ∀ v ∈ items, Shared v) :
    ∀ b ∈ (items.flatMap formTokens ++ .closing :: rest).head?, b.isBare = false := by
  cases items with
  | nil => simp [isBare]
  | cons v more =>
      obtain ⟨token, tokens, htokens, hbare⟩ := formTokens_eq_cons (h v (by simp))
      simpa [htokens] using hbare

theorem bare_name (op : Op) : Token.WellFormed (.bare op.name) := by
  cases op <;> simp [WellFormed, Op.name, Bare] <;> decide

theorem wellFormed_formTokens (h : Shared v) : ∀ token ∈ formTokens v, token.WellFormed := by
  induction h with
  | string h => simpa [formTokens, WellFormed] using h
  | @array items h ih =>
      have hitems : ∀ token ∈ itemTokens items, token.WellFormed := by
        rcases untagged_or_tagged items with ⟨_, htokens, _⟩ | ⟨op, rest, rfl, _, htokens, _⟩
        · rw [htokens]
          exact List.forall_mem_flatMap.2 ih
        · rw [htokens]
          exact List.forall_mem_cons.2 ⟨bare_name op,
            List.forall_mem_flatMap.2 (List.forall_mem_cons.1 ih).2⟩
      simpa [formTokens, WellFormed, or_imp, forall_and] using hitems

/-- No two bare words stand side by side. -/
def Apart (tokens : List Token) : Prop :=
  tokens.IsChain fun a b => a.isBare = true → b.isBare = false

theorem Apart.cons {token : Token} (h : Apart tokens) (hbare : token.isBare = false) :
    Apart (token :: tokens) :=
  List.isChain_cons.2 ⟨fun _ _ hb => by simp [hbare] at hb, h⟩

theorem apart_items (h : ∀ v ∈ items, ∀ rest, Apart rest → Apart (formTokens v ++ rest))
    (hrest : Apart rest) : Apart (items.flatMap formTokens ++ rest) := by
  induction items with
  | nil => exact hrest
  | cons v more ih =>
      obtain ⟨hv, hmore⟩ := List.forall_mem_cons.1 h
      rw [List.flatMap_cons, List.append_assoc]
      exact hv _ (ih hmore)

theorem apart_formTokens (h : Shared v) (rest : List Token) (hrest : Apart rest) :
    Apart (formTokens v ++ rest) := by
  induction h generalizing rest with
  | string h => exact hrest.cons rfl
  | @array items h ih =>
      have hclosing : Apart (.closing :: rest) := hrest.cons rfl
      have hitems : Apart (itemTokens items ++ .closing :: rest) := by
        rcases untagged_or_tagged items with ⟨_, htokens, _⟩ | ⟨op, more, rfl, _, htokens, _⟩
        · rw [htokens]
          exact apart_items ih hclosing
        · have hhead : ∀ b ∈ (more.flatMap formTokens ++ .closing :: rest).head?,
              b.isBare = false := head?_items (List.forall_mem_cons.1 h).2
          rw [htokens]
          exact List.isChain_cons.2 ⟨fun b hb _ => hhead b hb,
            apart_items (List.forall_mem_cons.1 ih).2 hclosing⟩
      have hopening : Apart (.opening :: (itemTokens items ++ .closing :: rest)) := hitems.cons rfl
      simpa [formTokens] using hopening

theorem takeOperator_of_head? (h : ∀ b ∈ tokens.head?, b.isBare = false) :
    Expr.takeOperator tokens = (.and, tokens) := by
  unfold Expr.takeOperator
  split
  · simp [isBare] at h
  · rfl

theorem takeOperator_name (op : Op) (tokens : List Token) :
    Expr.takeOperator (.bare op.name :: tokens) = (op, tokens) := by
  simp only [Expr.takeOperator, Op.ofName?_name]

/-- The value is read as an expression, and its tokens spell the same one. -/
def Agrees (v : Json) : Prop :=
  ∃ e, Expr.ofJson v = .ok e ∧ ∀ rest, Spells (formTokens v ++ rest) [e] rest

theorem exists_children (h : ∀ v ∈ items, Agrees v) : ∃ es, Expr.childrenOf items = .ok es ∧
    ∀ rest, Spells (items.flatMap formTokens ++ rest) es rest := by
  induction items with
  | nil => exact ⟨[], rfl, .done⟩
  | cons v more ih =>
      obtain ⟨hv, hmore⟩ := List.forall_mem_cons.1 h
      obtain ⟨e, he, hspells⟩ := hv
      obtain ⟨es, hes, hothers⟩ := ih hmore
      refine ⟨e :: es, ?_, fun rest => ?_⟩
      · rw [Expr.childrenOf, he, hes]
        rfl
      · rw [List.flatMap_cons, List.append_assoc]
        exact (hspells _).append (hothers rest)

theorem spells_array {op : Op} {inside : List Token}
    (htake : Expr.takeOperator (itemTokens items ++ .closing :: rest) = (op, inside))
    (h : Spells inside es (.closing :: rest)) :
    Spells (formTokens (.array items) ++ rest) [.group op es] rest := by
  have hgroup : Spells (.opening :: (itemTokens items ++ .closing :: rest))
      [.group (Expr.takeOperator (itemTokens items ++ .closing :: rest)).1 es] rest :=
    .group (by rwa [htake]) (.done rest)
  rw [htake] at hgroup
  simpa [formTokens] using hgroup

theorem agrees_of_shared (h : Shared v) : Agrees v := by
  induction h with
  | @string w h => exact ⟨.word w, rfl, fun rest => .quoted w (.done rest)⟩
  | @array items h ih =>
      rcases untagged_or_tagged items with ⟨hof, htokens, _⟩ | ⟨op, more, rfl, hof, htokens, _⟩
      · obtain ⟨es, hes, hspells⟩ := exists_children ih
        refine ⟨.group .and es, by rw [Expr.ofJson, hof, hes]; rfl, fun rest => ?_⟩
        refine spells_array ?_ (hspells (.closing :: rest))
        rw [htokens]
        exact takeOperator_of_head? (head?_items h)
      · obtain ⟨es, hes, hspells⟩ := exists_children (List.forall_mem_cons.1 ih).2
        refine ⟨.group op es, by rw [Expr.ofJson, hof, hes]; rfl, fun rest => ?_⟩
        refine spells_array ?_ (hspells (.closing :: rest))
        rw [htokens]
        exact takeOperator_name op _

theorem ofTokens_of_spells (h : Spells tokens [e] []) : Expr.ofTokens tokens = .ok e := by
  rw [Expr.ofTokens, Expr.readAll_eq_ok_iff.2 h]

theorem parse_of_laidOut (h : Shared v) (ht : LaidOut (formTokens v) t) :
    Expr.parse t = Expr.ofJson v := by
  obtain ⟨e, he, hspells⟩ := agrees_of_shared h
  have hapart : Apart (formTokens v) := by
    simpa using apart_formTokens h [] List.isChain_nil
  have hscan := ht.scan (wellFormed_formTokens h) hapart
  rw [Expr.parse, hscan, he]
  exact ofTokens_of_spells (by simpa using hspells [])

/-- A value and its text form are the same expression. -/
theorem parse_textForm (h : Shared v) :
    ∃ e, Expr.parse (textForm v) = .ok e ∧ Expr.ofJson v = .ok e := by
  obtain ⟨e, he, _⟩ := agrees_of_shared h
  exact ⟨e, by rw [parse_of_laidOut h (laidOut_textForm h), he], he⟩

def nestedValue : Json :=
  .array [.string "or".toList, .string "or".toList,
    .array [.string "in progress".toList, .string "and".toList], .array [],
    .array [.string "and".toList]]

theorem shared_nestedValue : Shared nestedValue := by
  simp [nestedValue, shared_string_iff, shared_array_iff]

theorem parse_textForm_of_nestedValue : Shared nestedValue ∧
    textForm nestedValue = "(or \"or\" (\"in progress\" \"and\") () (and))".toList ∧
    ∃ e, Expr.parse (textForm nestedValue) = .ok e ∧ Expr.ofJson nestedValue = .ok e :=
  ⟨shared_nestedValue, by decide, parse_textForm shared_nestedValue⟩

end Reading

end NoteQuery.Keyword
