import Hantec.Proofs.Print.RoundTrip

/-!
# Programs that are read are well-formed

The scanner yields names that are no keywords, numbers that are values of literals and texts
without quotes. The grammar puts them where well-formed programs have room for them. So parsing
yields exactly the well-formed programs, up to the lines.
-/

namespace Hantec

open Grammar

/-- What the scanner ensures of a token. -/
structure Token.Lexical (t : Token) : Prop where
  name : t.kind = .identifier → IsName t.lexeme
  number : t.kind = .number → ∃ s x, t.literal = .number x ∧ IsNumeral s x
  text : t.kind = .string → ∃ s, t.literal = .text s ∧ '"' ∉ s.toList

theorem Token.lexical_of_regular {t : Token} (h : t.word.Regular) : t.Lexical := by
  obtain ⟨hname, hnumber, htext⟩ := h.of_kind
  refine ⟨hname, fun hk => ?_, fun hk => ?_⟩
  · obtain ⟨x, hx, hnumeral⟩ := hnumber hk
    exact ⟨t.lexeme, x, hx, hnumeral⟩
  · obtain ⟨s, hs, -, hquote⟩ := htext hk
    exact ⟨s, hs, hquote⟩

/-! ## Phrases -/

/-- What a phrase stands for is well-formed. -/
def Fits : (x : Symbol) → x.Tree → Prop
  | .expr, e | .level _, e | .power, e | .unary, e | .postfixed, e | .primary, e | .condition, e =>
    WellFormed .expr e
  | .items, es | .someItems, es => WellFormed .items es
  | .names, ns | .params, ns => ∀ n ∈ ns, IsName n
  | .optional, e => WellFormed .optional e
  | .declarations, ss | .braced, ss => WellFormed .declarations ss
  | .declaration, s => WellFormed .declaration s
  | .letDecl, s => WellFormed .letDecl s
  | .init, s => WellFormed .init s
  | .handler, h => WellFormed .handler h
  | .finalizer, body => WellFormed .finalizer body
  | .statement, s => WellFormed .statement s

theorem WellFormed.isName {n : String} (h : WellFormed .expr (.variable n)) : IsName n := by
  cases h with
  | ident hn => exact hn

theorem WellFormed.assigned {n : String} {op : Option BinaryOp} {e : Expr} {k : TokenKind}
    (hn : IsName n) (hop : (k, op) ∈ assignments) (he : WellFormed .expr e) :
    WellFormed .expr (.assign n (Hantec.assigned n op e)) := by
  have hops : ∀ a ∈ assignments, ∀ op ∈ a.2, op ∈ BinaryOp.all := by decide
  cases op with
  | none => exact .assign hn he
  | some op => exact .assign hn (.binary (hops _ hop op rfl) (.ident hn) he)

theorem WellFormed.literal {t : Token} (ht : t.Lexical) (h : t.kind = .number ∨ t.kind = .string) :
    WellFormed .expr (.constant t.literal.toConstant) := by
  obtain hk | hk := h
  · obtain ⟨s, x, hlit, hx⟩ := ht.number hk
    rw [hlit]
    exact .num hx
  · obtain ⟨s, hlit, hs⟩ := ht.text hk
    rw [hlit]
    exact .str hs

theorem levelOp_mem_all {l : Nat} {k : TokenKind} {op : BinaryOp} (h : LevelOp l k op) :
    op ∈ BinaryOp.all := by
  have hall : ∀ level ∈ leftLevels, ∀ a ∈ level, a.2 ∈ BinaryOp.all := by decide
  unfold LevelOp at h
  rw [List.getD_eq_getElem?_getD] at h
  cases hlevel : leftLevels[l]? with
  | none => simp [hlevel] at h
  | some level =>
    rw [hlevel, Option.getD_some] at h
    exact hall level (List.mem_of_getElem? hlevel) _ h

theorem WellFormed.ofPhrase {x : Symbol} {ts : List Token} {tree : x.Tree} (h : Phrase x ts tree)
    (hts : ∀ t ∈ ts, t.Lexical) : Fits x tree := by
  -- The tokens of the parts of a phrase are lexical as well.
  induction h with try simp only [List.forall_mem_append, List.forall_mem_cons] at hts
  | loosest _ ih | tighter _ _ ih | tightest _ ih | base _ ih | operand _ ih | primary _ ih
  | paren _ ih | items _ ih => exact ih hts
  | assign _ hop _ ihn ihe => exact .assigned (ihn hts.1).isName hop (ihe hts.2.2)
  | binary _ hop _ iha ihb => exact .binary (levelOp_mem_all hop) (iha hts.1) (ihb hts.2.2)
  | power _ _ _ iha ihb => exact .binary (by decide) (iha hts.1) (ihb hts.2.2)
  | unary hop _ ih =>
    have hops : ∀ a ∈ unaryOps, a.2 ∈ [UnaryOp.not, .neg] := by decide
    exact .unary (hops _ hop) (ih hts.2)
  | call _ _ _ _ ihf ihargs => exact .call (ihf hts.1) (ihargs hts.2.2.1)
  | member _ _ ht ih => exact .member (ih hts.1) (hts.2.2.1.name ht)
  | step _ _ ih => exact .step (ih hts.1).isName
  | literal hk => exact .literal hts.1 hk
  | truth | falsity => exact .bool
  | null => exact .null
  | ident ht => exact .ident (hts.1.name ht)
  | array _ _ _ ih => exact .call (.ident (by decide)) (ih hts.2.1)
  | function _ _ _ ihps ihbody => exact .function (ihps hts.2.1) (ihbody hts.2.2)
  | noItems => exact .noItems
  | lastItem _ ih => exact .nextItem (ih hts) .noItems
  | nextItem _ _ _ ih ihs => exact .nextItem (ih hts.1) (ihs hts.2.2)
  | lastName ht => simpa [Fits] using hts.1.name ht
  | nextName ht _ _ ih => simpa [Fits] using ⟨hts.1.name ht, ih hts.2.2⟩
  | noParams => simp [Fits]
  | params _ _ _ ih => exact ih hts.2.1
  | condition _ _ _ ih => exact ih hts.2.1
  | absent => exact .absent
  | present _ ih => exact .present (ih hts)
  | noDeclarations => exact .noDeclarations
  | nextDeclaration _ _ ih ihs => exact .nextDeclaration (ih hts.1) (ihs hts.2)
  | braced _ _ _ ih => exact ih hts.2.1
  | letDecl _ ih => exact .letDecl (ih hts)
  | define _ hn _ _ ihps ihbody => exact .define (hts.2.1.name hn) (ihps hts.2.2.1) (ihbody hts.2.2.2)
  | statement _ _ ih => exact .statement (ih (List.forall_mem_cons.2 hts))
  | declareNull _ hn _ => exact .declare (hts.2.1.name hn) .absent
  | declare _ hn _ _ _ ih => exact .declare (hts.2.1.name hn) (.present (ih hts.2.2.2.1))
  | noInit => exact .noInit
  | letInit _ ih => exact .letInit (ih hts)
  | exprInit _ _ ih => exact .exprInit (ih hts.1)
  | noHandler => exact .noHandler
  | handler _ _ _ _ ih => exact .handler nofun (ih hts.2.2.2)
  | namedHandler _ _ hn _ _ ih =>
    refine .handler ?_ (ih hts.2.2.2.2)
    rintro _ ⟨⟩
    exact hts.2.2.1.name hn
  | noFinalizer => exact .noFinalizer
  | finalizer _ _ ih => exact .finalizer (ih hts.2)
  | block _ ih => exact .block (ih hts)
  | cond _ _ _ ihe ihyes => exact .cond (ihe hts.2.1) (ihyes hts.2.2)
  | condElse _ _ _ hopen _ _ ihe ihyes ihno =>
    exact .condElse (ihe hts.2.1) (ihyes hts.2.2.1) hopen (ihno hts.2.2.2.2)
  | loop _ _ _ ihe ihs => exact .loop (ihe hts.2.1) (ihs hts.2.2)
  | circuit _ _ _ _ _ _ _ _ ihi iht ihst ihs =>
    exact .circuit (ihi hts.2.2.1) (iht hts.2.2.2.1) (ihst hts.2.2.2.2.2.1) (ihs hts.2.2.2.2.2.2.2)
  | ret _ _ _ ih => exact .ret (ih hts.2.1)
  | print _ _ _ ih => exact .print (ih hts.2.1)
  | load _ _ _ ih => exact .load (ih hts.2.1)
  | attempt _ _ _ _ ihb ihh ihf =>
    exact .attempt (ihb hts.2.1) (ihh hts.2.2.1) (ihf hts.2.2.2)
  | leave => exact .leave
  | skip => exact .skip
  | exprStmt _ _ ih => exact .expr (ih hts.1)

theorem wellFormed_of_parseProgram {source : String} {p : List Stmt}
    (h : parseProgram source = .ok p) : WellFormed .declarations p := by
  obtain ⟨us, hphrase, hregular⟩ := exists_phrase_of_parseProgram h
  exact WellFormed.ofPhrase hphrase fun t ht => Token.lexical_of_regular (hregular t ht).1

theorem exists_writesNumbers : ∃ numeral, WritesNumbers numeral := by
  have hchoice : ∀ x : Float, ∃ s, (∃ r, IsNumeral r x) → IsNumeral s x := by
    intro x
    by_cases hx : ∃ r, IsNumeral r x
    · exact ⟨hx.choose, fun _ => hx.choose_spec⟩
    · exact ⟨"", fun h => absurd h hx⟩
  exact ⟨fun x => (hchoice x).choose, fun x hx => (hchoice x).choose_spec hx⟩

/-- The programs that can be read are the well-formed ones: a well-formed program is read from its
text, whichever literals write its numbers, and whatever is read is well-formed. -/
theorem parseProgram_writtenText_wellFormed :
    (∃ numeral, WritesNumbers numeral) ∧
    (∀ numeral, WritesNumbers numeral → ∀ p, WellFormed .declarations p →
      ∃ q, parseProgram (writtenText numeral p) = .ok q ∧ unlinedBody q = unlinedBody p) ∧
    (∀ source p, parseProgram source = .ok p → WellFormed .declarations p) :=
  ⟨exists_writesNumbers, fun _ hnum _ hp => parseProgram_writtenText hnum hp,
    fun _ _ hp => wellFormed_of_parseProgram hp⟩

/-- A negation of a negation, and a condition in a loop before a second branch. -/
def twiceNegated : List Stmt :=
  [.mk 1 (.expr (.unary .neg (.unary .neg (.variable "a")))),
    .mk 1 (.cond (.variable "a")
      (.mk 1 (.loop (.variable "b") (.mk 1 (.cond (.variable "c") (.mk 1 .skip) (some (.mk 1 .leave))))))
      (some (.mk 1 (.expr (.call (.variable printer) [.step "a" .increment])))))]

theorem parseProgram_writtenText_twiceNegated :
    ∃ numeral q, WritesNumbers numeral ∧ WellFormed .declarations twiceNegated ∧
      parseProgram (writtenText numeral twiceNegated) = .ok q ∧
      unlinedBody q = unlinedBody twiceNegated ∧ WellFormed .declarations q := by
  obtain ⟨⟨numeral, hnum⟩, hread, hback⟩ := parseProgram_writtenText_wellFormed
  have ha : IsName "a" := by decide
  have hb : IsName "b" := by decide
  have hc : IsName "c" := by decide
  have hp : WellFormed .declarations twiceNegated :=
    .nextDeclaration (.statement (.expr (.unary (by decide) (.unary (by decide) (.ident ha)))))
      (.nextDeclaration
        (.statement (.condElse (.ident ha) (.loop (.ident hb) (.condElse (.ident hc) .skip rfl .leave))
          rfl (.print (.step ha))))
        .noDeclarations)
  obtain ⟨q, hq, hsame⟩ := hread numeral hnum _ hp
  exact ⟨numeral, q, hnum, hp, hq, hsame, hback _ _ hq⟩

end Hantec
