import NoteQuery.Proofs.TextForm

namespace NoteQuery.Keyword.Expr

open Token

variable {tokens rest : List Token} {t : Text} {e : Expr} {es : List Expr}

mutual

def written : Expr → List Token
  | .word w => [.quoted w]
  | .group op children => .opening :: .bare op.name :: (writtenOf children ++ [.closing])

def writtenOf : List Expr → List Token
  | [] => []
  | e :: rest => written e ++ writtenOf rest

end

/-- No keyword of the expression has a quote in it. -/
inductive QuoteFree : Expr → Prop
  | word {w : Text} (h : '"' ∉ w) : QuoteFree (.word w)
  | group {op : Op} {children : List Expr} (h : ∀ e ∈ children, QuoteFree e) :
      QuoteFree (.group op children)

mutual

theorem ofJson_toJson : (e : Expr) → ofJson (toJson e) = .ok e
  | .word w => by rw [toJson, ofJson]
  | .group op children => by
      rw [toJson, ofJson, (tagged_cons op _).read, childrenOf_itemsOf children]
      rfl

theorem childrenOf_itemsOf : (es : List Expr) → childrenOf (itemsOf es) = .ok es
  | [] => by rw [itemsOf, childrenOf]
  | e :: es => by
      rw [itemsOf, childrenOf, ofJson_toJson e, childrenOf_itemsOf es]
      rfl

end

mutual

theorem formTokens_toJson : (e : Expr) → formTokens (toJson e) = e.written
  | .word w => by rw [toJson, formTokens, written]
  | .group op children => by
      rw [toJson, formTokens, (tagged_cons op _).tokens, flatMap_itemsOf children, written]
      rfl

theorem flatMap_itemsOf : (es : List Expr) → (itemsOf es).flatMap formTokens = writtenOf es
  | [] => by rw [itemsOf, writtenOf, List.flatMap_nil]
  | e :: es => by
      rw [itemsOf, List.flatMap_cons, formTokens_toJson e, flatMap_itemsOf es, writtenOf]

end

theorem shared_toJson (h : QuoteFree e) : Shared (toJson e) := by
  induction h with
  | word h => exact .string h
  | @group op children h ih =>
      have hitems {es : List Expr} (ih : ∀ e ∈ es, Shared (toJson e)) :
          ∀ v ∈ itemsOf es, Shared v := by
        induction es with
        | nil => simp [itemsOf]
        | cons e es ihes =>
            obtain ⟨he, hes⟩ := List.forall_mem_cons.1 ih
            exact List.forall_mem_cons.2 ⟨he, ihes hes⟩
      have hname : '"' ∉ op.name := by cases op <;> decide
      exact .array (List.forall_mem_cons.2 ⟨.string hname, hitems ih⟩)

theorem takeOperator_suffix (tokens : List Token) : (takeOperator tokens).2 <:+ tokens := by
  unfold takeOperator
  split
  · split
    · exact List.suffix_cons _ _
    · exact List.suffix_rfl
  · exact List.suffix_rfl

theorem quoteFree_of_spells (h : Spells tokens es rest) (hwf : ∀ token ∈ tokens, token.WellFormed) :
    (∀ e ∈ es, QuoteFree e) ∧ ∀ token ∈ rest, token.WellFormed := by
  induction h with
  | done rest => exact ⟨by simp, hwf⟩
  | bare w _ ih =>
      obtain ⟨hw, hwf⟩ := List.forall_mem_cons.1 hwf
      obtain ⟨hes, hrest⟩ := ih hwf
      exact ⟨List.forall_mem_cons.2 ⟨.word fun hc => (hw.2 _ hc).2.2.1 rfl, hes⟩, hrest⟩
  | quoted w _ ih =>
      obtain ⟨hw, hwf⟩ := List.forall_mem_cons.1 hwf
      obtain ⟨hes, hrest⟩ := ih hwf
      exact ⟨List.forall_mem_cons.2 ⟨.word hw, hes⟩, hrest⟩
  | group _ _ ihin ihout =>
      obtain ⟨_, hwf⟩ := List.forall_mem_cons.1 hwf
      obtain ⟨hchildren, hbehind⟩ := ihin fun token hmem =>
        hwf token ((takeOperator_suffix _).mem hmem)
      obtain ⟨hes, hrest⟩ := ihout (List.forall_mem_cons.1 hbehind).2
      exact ⟨List.forall_mem_cons.2 ⟨.group hchildren, hes⟩, hrest⟩

theorem quoteFree_of_ofTokens (hwf : ∀ token ∈ tokens, token.WellFormed)
    (h : ofTokens tokens = .ok e) : QuoteFree e := by
  unfold ofTokens at h
  cases hall : readAll tokens with
  | error fault => simp [hall] at h
  | ok es =>
      have hes := (quoteFree_of_spells (readAll_eq_ok_iff.1 hall) hwf).1
      rw [hall] at h
      match es with
      | [] => simp at h
      | [e'] =>
          cases h
          exact hes e (by simp)
      | e₁ :: e₂ :: more =>
          cases h
          exact .group hes

theorem quoteFree_of_parse (h : parse t = .ok e) : QuoteFree e := by
  unfold parse at h
  cases hscan : scan t with
  | none => simp [hscan] at h
  | some tokens =>
      rw [hscan] at h
      exact quoteFree_of_ofTokens (laidOut_of_scan hscan).2 h

/-- The text form expresses exactly the expressions without quotes in their keywords: their tokens
are read back from every layout, and no text is read as any other expression. -/
theorem parse_layout_and_quoteFree (e : Expr) :
    (QuoteFree e → ∀ t, LaidOut e.written t → parse t = .ok e) ∧
      ∀ t, parse t = .ok e → QuoteFree e := by
  refine ⟨fun h t ht => ?_, fun t => quoteFree_of_parse⟩
  rw [← formTokens_toJson] at ht
  rw [parse_of_laidOut (shared_toJson h) ht, ofJson_toJson]

/-- A group with an empty keyword, keywords named like operators, one that looks like a group and a
group without children. -/
def oddExpr : Expr :=
  .group .or [.word [], .word "and".toList, .group .and [], .word "(or a)".toList]

theorem quoteFree_oddExpr : QuoteFree oddExpr := by
  have hword (w : Text) (h : '"' ∉ w) : QuoteFree (.word w) := .word h
  refine .group (List.forall_mem_cons.2 ⟨hword _ (by decide), ?_⟩)
  refine List.forall_mem_cons.2 ⟨hword _ (by decide), ?_⟩
  refine List.forall_mem_cons.2 ⟨.group (by simp), ?_⟩
  exact List.forall_mem_singleton.2 (hword _ (by decide))

/-- The text `\t(or"" "and"(  and)"(or a)" )\n`, where the first and the last character are blanks. -/
def oddText : Text := "\t(or\"\" \"and\"(  and)\"(or a)\" )\n".toList

theorem laidOut_oddText : LaidOut oddExpr.written oddText :=
  (laidOut_of_scan (by decide)).1

theorem parse_oddText : QuoteFree oddExpr ∧ LaidOut oddExpr.written oddText ∧
    parse oddText = .ok oddExpr :=
  ⟨quoteFree_oddExpr, laidOut_oddText,
    (parse_layout_and_quoteFree oddExpr).1 quoteFree_oddExpr oddText laidOut_oddText⟩

end NoteQuery.Keyword.Expr
