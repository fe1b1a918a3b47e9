import Hantec.Proofs.Grammar.Exactness

/-!
# Progress of the parser

On tokens that end once, a routine returns at a position that is not behind the end, or it fails at
a token. That it does nothing else says that it looks at no position without a token, that it never
looks back from the first one, and that it does not use up its bound, so that all its loops and
recursions end.
-/

namespace Hantec

open Grammar

variable {α : Type} {ts us front : List Token} {z : Token} {i n : Nat} {advances : Bool}
  {p : Nat → Parser α}

/-- The routines of the parser, and whether they take a token whenever they return. A loop is given
the expression that was read before it. -/
inductive IsRoutine : {α : Type} → Bool → (Nat → Parser α) → Prop where
  | program : IsRoutine false parseDeclarations
  | expr : IsRoutine true parseExpr
  | level {l : Nat} : l ≤ levelCount → IsRoutine true (parseLevel · l)
  | operands {l : Nat} {us : List Token} {e : Expr} : l < levelCount → Phrase (.level l) us e →
      IsRoutine false (parseOperands · l e)
  | power : IsRoutine true parsePower
  | unary : IsRoutine true parseUnary
  | suffixes {us : List Token} {e : Expr} : Phrase .postfixed us e →
      IsRoutine false (parseSuffixes · e)
  | primary : IsRoutine true parsePrimary
  | items {κ : TokenKind} (what : String) : fills κ = true → IsRoutine true (parseItems · κ what)
  | moreItems {κ : TokenKind} (what : String) : fills κ = true →
      IsRoutine true (parseMoreItems · κ what)
  | names : IsRoutine true parseNames
  | params : IsRoutine true parseParams
  | condition (word : String) : IsRoutine true (parseCondition · word)
  | unless (κ : TokenKind) : IsRoutine false (parseUnless · κ)
  | init : IsRoutine true parseInit
  | handler : IsRoutine false parseHandler
  | finalizer : IsRoutine false parseFinalizer
  | body : IsRoutine true parseBody
  | letDecl (line : Nat) : IsRoutine true (parseLet · line)
  | statement : IsRoutine true parseStatement
  | declaration : IsRoutine true parseDeclaration

/-- What a routine comes to at a position: it returns and leaves another position, or it finds that
a token is wrong. From the bound `n` on the bound makes no difference. -/
inductive Proceeds (ts : List Token) (i n : Nat) (advances : Bool) (p : Nat → Parser α) :
    Prop where
  | returns (a : α) {j : Nat} : i ≤ j → (advances = true → i < j) → j < ts.length →
      (∀ m, n ≤ m → p m ⟨ts.toArray, i⟩ = .ok (a, ⟨ts.toArray, j⟩)) → Proceeds ts i n advances p
  | fails (cause : ParseCause) {j : Nat} {t : Token} : i ≤ j → ts[j]? = some t →
      (∀ m, n ≤ m → p m ⟨ts.toArray, i⟩ = .error (.wrong (.at cause t))) →
      Proceeds ts i n advances p

namespace Grammar.Sources

/-- What takes tokens off the front at a position moves the position. -/
theorem proceeds (hz : z.kind = .eof) (hi : i ≤ front.length) {g : α → α} (hg : ∀ a, g a = a)
    {Q : List Token → α → List Token → Prop}
    (hQ : advances = true → ∀ as a vs, Q as a vs → as ≠ [])
    (hread : ∀ extra, (beside hz extra).Runs g n (front.drop i) Q p) :
    Proceeds (front ++ [z]) i n advances p := by
  have hdrop : (front ++ [z]).drop i = front.drop i ++ [z] := List.drop_append_of_le_length hi
  obtain ⟨a, as, vs, heq, ha, hr⟩ | ⟨cause, t, ht, hr⟩ :=
    runs_beside (c := ⟨(front ++ [z]).toArray, i⟩) hz hg hread hdrop
  · have hlen : as.length + vs.length = front.length - i := by
      rw [← List.length_append, ← heq, List.length_drop]
    refine .returns a (Nat.le_add_right i as.length) (fun h => ?_) ?_ hr
    · have := List.length_pos_iff.2 (hQ h as a vs ha)
      omega
    · rw [List.length_append, List.length_singleton]
      omega
  · obtain ⟨k, hk⟩ := List.mem_iff_getElem?.1 ht
    rw [← hdrop, List.getElem?_drop] at hk
    exact .fails cause (Nat.le_add_right i k) hk hr

end Grammar.Sources

open Sources in
theorem IsRoutine.proceeds (hp : IsRoutine advances p) (hz : z.kind = .eof)
    (hi : i ≤ front.length) (hn : 16 * (front.length - i) + 16 ≤ n) :
    Proceeds (front ++ [z]) i n advances p := by
  rw [← List.length_drop] at hn
  have hsome : ∀ x : Symbol, x.nullable = false → ∀ as (tree : x.Tree) (_ : List Token),
      Phrase x as tree → as ≠ [] := by
    rintro x hx as tree _ hp rfl
    obtain ⟨_, _, heq, -⟩ := hp.exists_first hx
    cases heq
  have hclosed : ∀ (x : Symbol) {κ : TokenKind}, ∀ as (tree : x.Tree) (vs : List Token),
      YieldsUpTo x κ as tree vs → as ≠ [] := by
    rintro x κ _ tree vs ⟨us, c, rfl, -⟩
    simp
  have hall : ∀ extra, (beside hz extra).ReadsAt n := fun _ => readsAt _ n
  cases hp with
  | program =>
    exact Sources.proceeds (Q := Yields .declarations) hz hi relinedBody_id (by simp)
      fun k => ((hall k).declarations _ (by omega)).mono fun _ _ _ h => h.1
  | expr =>
    exact Sources.proceeds hz hi Expr.relined_id (fun _ => hsome .expr rfl)
      fun k => (hall k).expr _ (by omega)
  | @level l hl =>
    exact Sources.proceeds hz hi Expr.relined_id (fun _ => hsome (.level l) rfl)
      fun k => (hall k).level _ hl (by omega)
  | @operands l us e hl he =>
    refine Sources.proceeds (Q := fun as e _ => Phrase (.level l) (us ++ as) e) hz hi
      Expr.relined_id (by simp) fun k => ?_
    simpa [Runs, beside, Expr.relined_id] using (hall k).operands _ hl he (by omega)
  | power =>
    exact Sources.proceeds hz hi Expr.relined_id (fun _ => hsome .power rfl)
      fun k => (hall k).power _ (by omega)
  | unary =>
    exact Sources.proceeds hz hi Expr.relined_id (fun _ => hsome .unary rfl)
      fun k => (hall k).unary _ (by omega)
  | @suffixes us e he =>
    refine Sources.proceeds (Q := fun as e _ => Phrase .postfixed (us ++ as) e) hz hi
      Expr.relined_id (by simp) fun k => ?_
    simpa [Runs, beside, Expr.relined_id] using (hall k).suffixes _ he (by omega)
  | primary =>
    exact Sources.proceeds hz hi Expr.relined_id (fun _ => hsome .primary rfl)
      fun k => (hall k).primary _ (by omega)
  | items what hκ =>
    exact Sources.proceeds hz hi relinedItems_id (fun _ => hclosed .items) fun k =>
      (hall k).items _ hκ (by omega)
  | moreItems what hκ =>
    exact Sources.proceeds hz hi relinedItems_id (fun _ => hclosed .someItems) fun k =>
      (hall k).moreItems _ hκ (by omega)
  | names =>
    exact Sources.proceeds hz hi (fun _ => rfl) (fun _ => hsome .names rfl)
      fun k => (hall k).names _ (by omega)
  | params =>
    exact Sources.proceeds hz hi (fun _ => rfl) (fun _ => hsome .params rfl)
      fun k => reads_params (hall k) _ (by omega) (by omega)
  | condition word =>
    exact Sources.proceeds hz hi Expr.relined_id (fun _ => hsome .condition rfl)
      fun k => (hall k).condition _ (by omega)
  | «unless» κ =>
    exact Sources.proceeds (Q := Yields .optional) hz hi relinedExpr?_id (by simp)
      fun k => (hall k).optional _ (by omega)
  | init =>
    exact Sources.proceeds hz hi relinedStmt?_id (fun _ => hsome .init rfl)
      fun k => (hall k).init _ (by omega)
  | handler =>
    exact Sources.proceeds (Q := Yields .handler) hz hi
      (fun h => congrArg (Prod.mk h.1) (relinedBody?_id h.2)) (by simp)
      fun k => (hall k).handler _ (by omega)
  | finalizer =>
    exact Sources.proceeds (Q := Yields .finalizer) hz hi relinedBody?_id (by simp)
      fun k => (hall k).finalizer _ (by omega)
  | body =>
    exact Sources.proceeds hz hi relinedBody_id (fun _ => hclosed .declarations) fun k =>
      (hall k).body _ (by omega)
  | letDecl line =>
    refine Sources.proceeds hz hi Stmt.relined_id (fun _ as s vs hs => ?_) fun k =>
      (hall k).letDecl (t := ⟨.nech, "", .none, line, 0⟩) _ rfl (by omega)
    rintro rfl
    cases hs
  | statement =>
    exact Sources.proceeds hz hi Stmt.relined_id (fun _ => hsome .statement rfl) fun k =>
      ((hall k).statement _ (by omega)).mono fun _ _ _ h => h.1
  | declaration =>
    exact Sources.proceeds hz hi Stmt.relined_id (fun _ => hsome .declaration rfl)
      fun k => (hall k).declaration _ (by omega)

/-- The parser makes progress and is safe. Every routine proceeds, from every position up to the
end, once its bound has sixteen units for each token from there on; the whole parser takes all
tokens up to the end for a program, or finds that one of the tokens is wrong. -/
theorem parser_proceeds (hts : EndsOnce ts) :
    (∀ {α : Type} {advances : Bool} {p : Nat → Parser α}, IsRoutine advances p →
      ∀ i n, i < ts.length → 16 * (ts.length - i) ≤ n → Proceeds ts i n advances p) ∧
    ((∃ p, parseTokens ts = .ok p ∧ Program ts p) ∨
      ∃ cause, ∃ t ∈ ts, parseTokens ts = .error (.wrong (.at cause t))) := by
  refine ⟨fun hp i n hi hn => ?_, ?_⟩
  · obtain ⟨us, z, rfl, hz, -⟩ := hts
    rw [List.length_append, List.length_singleton] at hi hn
    exact hp.proceeds hz (by omega) (by omega)
  · cases hres : parseTokens ts with
    | ok p => exact .inl ⟨p, rfl, program_of_parseTokens hres hts⟩
    | error halt =>
      obtain ⟨cause, t, ht, rfl⟩ := wrong_of_parseTokens hres hts
      exact .inr ⟨cause, t, ht, rfl⟩

/-- The tokens of a call that nothing closes. -/
def unclosedCall : List Token :=
  [⟨.identifier, "x", .text "x", 1, 1⟩, ⟨.leftParen, "(", .none, 1, 2⟩, ⟨.eof, "", .none, 1, 3⟩]

theorem parser_proceeds_unclosedCall :
    EndsOnce unclosedCall ∧ Proceeds unclosedCall 0 48 true parseStatement ∧
      ∃ cause, ∃ t ∈ unclosedCall, parseTokens unclosedCall = .error (.wrong (.at cause t)) := by
  have hends : EndsOnce unclosedCall := ⟨unclosedCall.take 2, _, rfl, rfl, by simp [unclosedCall]⟩
  obtain ⟨hroutine, ⟨p, hp, -⟩ | hfails⟩ := parser_proceeds hends
  · cases hp
  · exact ⟨hends, hroutine .statement 0 48 (by decide) (by decide), hfails⟩

end Hantec
