import Hantec.Proofs.Grammar.Lines
import Hantec.Proofs.Print.Image

/-!
# Tidy programs

A program is tidy if no name that it binds is spelled as a keyword, and all its statements, at any
depth, have a line. Every program that was read is tidy: the scanner makes no name of a keyword, and
it counts lines from one on.
-/

namespace Hantec

/-- The name can be bound by a program. -/
def IsFree (name : String) : Prop := keyword? name = none

instance (name : String) : Decidable (IsFree name) := inferInstanceAs (Decidable (_ = none))

mutual

def Expr.IsTidy : Expr → Prop
  | .assign name e => IsFree name ∧ e.IsTidy
  | .unary _ e => e.IsTidy
  | .binary _ l r => l.IsTidy ∧ r.IsTidy
  | .call c args => c.IsTidy ∧ exprsTidy args
  | .step name _ => IsFree name
  | .member e _ => e.IsTidy
  | .function params body => (∀ p ∈ params, IsFree p) ∧ stmtsTidy body
  | .constant _ | .compound _ _ | .variable _ | .misplaced _ | .unlisted _ => True

def exprsTidy : List Expr → Prop
  | [] => True
  | e :: es => e.IsTidy ∧ exprsTidy es

def optionalExprTidy : Option Expr → Prop
  | none => True
  | some e => e.IsTidy

def Stmt.IsTidy : Stmt → Prop
  | .mk line form => line ≠ 0 ∧ form.IsTidy

def Form.IsTidy : Form → Prop
  | .expr e => e.IsTidy
  | .declare name init => IsFree name ∧ optionalExprTidy init
  | .block body => stmtsTidy body
  | .cond test yes no => test.IsTidy ∧ yes.IsTidy ∧ optionalStmtTidy no
  | .loop test body => test.IsTidy ∧ body.IsTidy
  | .circuit init test step body =>
    optionalStmtTidy init ∧ optionalExprTidy test ∧ optionalExprTidy step ∧ body.IsTidy
  | .define name params body => IsFree name ∧ (∀ p ∈ params, IsFree p) ∧ stmtsTidy body
  | .ret value => optionalExprTidy value
  | .load path => path.IsTidy
  | .attempt body name handler finalizer =>
    stmtsTidy body ∧ (∀ x ∈ name, IsFree x) ∧ optionalStmtsTidy handler ∧
      optionalStmtsTidy finalizer
  | .leave | .skip | .misplaced _ | .unlisted _ => True

def optionalStmtTidy : Option Stmt → Prop
  | none => True
  | some s => s.IsTidy

def stmtsTidy : List Stmt → Prop
  | [] => True
  | s :: ss => s.IsTidy ∧ stmtsTidy ss

def optionalStmtsTidy : Option (List Stmt) → Prop
  | none => True
  | some ss => stmtsTidy ss

end

open Grammar

/-- The parts of a phrase are tidy. -/
def Grammar.Symbol.IsTidy : (x : Symbol) → x.Tree → Prop
  | .expr, e | .level _, e | .power, e | .unary, e | .postfixed, e | .primary, e
  | .condition, e => Expr.IsTidy e
  | .items, es | .someItems, es => exprsTidy es
  | .names, ns | .params, ns => ∀ n ∈ ns, IsFree n
  | .optional, o => optionalExprTidy o
  | .declarations, ss | .braced, ss => stmtsTidy ss
  | .declaration, s | .letDecl, s | .statement, s => Stmt.IsTidy s
  | .init, o => optionalStmtTidy o
  | .handler, p => (∀ n ∈ p.1, IsFree n) ∧ optionalStmtsTidy p.2
  | .finalizer, o => optionalStmtsTidy o

/-- What the scanner ensures of a token, with its line. -/
structure Token.Placed (t : Token) : Prop extends t.Lexical where
  line_pos : 0 < t.line

theorem Token.Placed.line_ne {t : Token} (ht : t.Placed) : (t.line : Int) ≠ 0 := by
  have hpos := ht.line_pos
  omega

theorem Token.Placed.isFree {t : Token} (ht : t.Placed) (hk : t.kind = .identifier) :
    IsFree t.lexeme :=
  (ht.name hk).2

theorem isFree_of_fits {ts : List Token} {name : String} (hts : ∀ t ∈ ts, t.Placed)
    (h : (∀ t ∈ ts, t.Lexical) → WellFormed .expr (.variable name)) : IsFree name :=
  (h fun t ht => (hts t ht).toLexical).isName.2

theorem firstLine_ne_zero {x : Symbol} {ts : List Token} {tree : x.Tree} (h : Phrase x ts tree)
    (hx : x.nullable = false) (hts : ∀ t ∈ ts, t.Placed) : firstLine ts ≠ 0 := by
  obtain ⟨t, us, rfl, -⟩ := h.exists_first hx
  exact (hts t (by simp)).line_ne

theorem Grammar.Phrase.isTidy {x : Symbol} {ts : List Token} {tree : x.Tree}
    (h : Phrase x ts tree) (hts : ∀ t ∈ ts, t.Placed) : x.IsTidy tree := by
  -- The tokens of the parts of a phrase are placed as well.
  induction h with try simp only [List.forall_mem_append, List.forall_mem_cons] at hts
  | loosest _ ih | tighter _ _ ih | tightest _ ih | base _ ih | operand _ ih | primary _ ih
  | paren _ ih | items _ ih | present _ ih | letDecl _ ih | letInit _ ih => exact ih hts
  | @assign _ _ _ _ op _ hn _ _ _ ihe =>
    have hfree := isFree_of_fits hts.1 (WellFormed.ofPhrase hn)
    cases op with
    | none => exact ⟨hfree, ihe hts.2.2⟩
    | some op => exact ⟨hfree, trivial, ihe hts.2.2⟩
  | binary _ _ _ iha ihb | power _ _ _ iha ihb => exact ⟨iha hts.1, ihb hts.2.2⟩
  | unary _ _ ih => exact ih hts.2
  | call _ _ _ _ ihf ihargs => exact ⟨ihf hts.1, ihargs hts.2.2.1⟩
  | member _ _ _ ih => exact ih hts.1
  | step hn _ _ => exact isFree_of_fits hts.1 (WellFormed.ofPhrase hn)
  | literal | truth | falsity | null | ident | noItems | absent | noDeclarations | noInit
  | noFinalizer => trivial
  | array _ _ _ ih => exact ⟨trivial, ih hts.2.1⟩
  | function _ _ _ ihps ihbody => exact ⟨ihps hts.2.1, ihbody hts.2.2⟩
  | lastItem _ ih => exact ⟨ih hts, trivial⟩
  | nextItem _ _ _ ih ihs => exact ⟨ih hts.1, ihs hts.2.2⟩
  | lastName ht => exact List.forall_mem_singleton.2 (hts.1.isFree ht)
  | nextName ht _ _ ih => exact List.forall_mem_cons.2 ⟨hts.1.isFree ht, ih hts.2.2⟩
  | noParams => exact nofun
  | params _ _ _ ih | condition _ _ _ ih | braced _ _ _ ih => exact ih hts.2.1
  | nextDeclaration _ _ ih ihs => exact ⟨ih hts.1, ihs hts.2⟩
  | define _ hn _ _ ihps ihbody =>
    exact ⟨hts.1.line_ne, hts.2.1.isFree hn, ihps hts.2.2.1, ihbody hts.2.2.2⟩
  | statement _ _ ih => exact ih (List.forall_mem_cons.2 hts)
  | declareNull _ hn _ => exact ⟨hts.1.line_ne, hts.2.1.isFree hn, trivial⟩
  | declare _ hn _ _ _ ih => exact ⟨hts.1.line_ne, hts.2.1.isFree hn, ih hts.2.2.2.1⟩
  | exprInit he _ ih | exprStmt he _ ih => exact ⟨firstLine_ne_zero he rfl hts.1, ih hts.1⟩
  | noHandler => exact ⟨nofun, trivial⟩
  | handler _ _ _ _ ih => exact ⟨nofun, ih hts.2.2.2⟩
  | namedHandler _ _ hn _ _ ih =>
    refine ⟨?_, ih hts.2.2.2.2⟩
    rintro _ ⟨⟩
    exact hts.2.2.1.isFree hn
  | finalizer _ _ ih => exact ih hts.2
  | block hbody ih => exact ⟨firstLine_ne_zero hbody rfl hts, ih hts⟩
  | cond _ _ _ ihe ihyes => exact ⟨hts.1.line_ne, ihe hts.2.1, ihyes hts.2.2, trivial⟩
  | condElse _ _ _ _ _ _ ihe ihyes ihno =>
    exact ⟨hts.1.line_ne, ihe hts.2.1, ihyes hts.2.2.1, ihno hts.2.2.2.2⟩
  | loop _ _ _ ihe ihs => exact ⟨hts.1.line_ne, ihe hts.2.1, ihs hts.2.2⟩
  | circuit _ _ _ _ _ _ _ _ ihi iht ihst ihs =>
    exact ⟨hts.1.line_ne, ihi hts.2.2.1, iht hts.2.2.2.1, ihst hts.2.2.2.2.2.1,
      ihs hts.2.2.2.2.2.2.2⟩
  | ret _ _ _ ih | load _ _ _ ih => exact ⟨hts.1.line_ne, ih hts.2.1⟩
  | print _ _ _ ih => exact ⟨hts.1.line_ne, trivial, ih hts.2.1, trivial⟩
  | attempt _ _ _ _ ihb ihh ihf =>
    have hhandler := ihh hts.2.2.1
    exact ⟨hts.1.line_ne, ihb hts.2.1, hhandler.1, hhandler.2, ihf hts.2.2.2⟩
  | leave | skip => exact ⟨hts.1.line_ne, trivial⟩

theorem tidy_of_parseProgram {source : String} {p : List Stmt} (h : parseProgram source = .ok p) :
    stmtsTidy p := by
  obtain ⟨us, hphrase, hregular⟩ := exists_phrase_of_parseProgram h
  refine hphrase.isTidy fun t ht => ⟨Token.lexical_of_regular (hregular t ht).1, ?_⟩
  exact (hregular t ht).2

end Hantec
