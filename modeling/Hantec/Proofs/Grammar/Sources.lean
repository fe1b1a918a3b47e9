import Hantec.Proofs.Grammar.Relining

/-!
# A routine on two sources

The parser looks one token ahead and never back, and at the words of the tokens but never at their
places. So on two sources that start with the same words a routine does the same until it comes to
the end of the first one. What it reads there is a phrase; where it is stuck at the end, the words
that complete the phrase are found by running what is left of the routine on nothing. The relation
`Reads` says all this of one routine, and has a rule for each step that routines are made of.
-/

namespace Hantec

namespace Grammar

variable {us : List Token} {l : Nat}

/-! ## Expressions at every level -/

/-- What stands at a level stands at every looser one. -/
theorem Phrase.loosen {d : Nat} {e : Expr} (h : Phrase (.level (l + d)) us e)
    (hd : l + d ≤ levelCount) : Phrase (.level l) us e := by
  induction d with
  | zero => exact h
  | succ d ih => exact ih (.tighter (by omega) h) (by omega)

theorem Phrase.level_of_power {e : Expr} (h : Phrase .power us e) (hl : l ≤ levelCount) :
    Phrase (.level l) us e := by
  obtain ⟨d, hd⟩ := Nat.exists_eq_add_of_le hl
  exact .loosen (hd ▸ .tightest h) (Nat.le_of_eq hd.symm)

theorem Phrase.level {e : Expr} (h : Phrase .primary us e) (hl : l ≤ levelCount) :
    Phrase (.level l) us e :=
  .level_of_power (.base (.operand (.primary h))) hl

theorem Phrase.expr {e : Expr} (h : Phrase .primary us e) : Phrase .expr us e :=
  .loosest (h.level (Nat.zero_le _))

/-! ## Completions -/

/-- Whether there is a word for the kind that needs no choice: a fixed one, or else a name. -/
def fills (k : TokenKind) : Bool := k.isFixed || k == .identifier

theorem ne_eof_of_fills {k : TokenKind} (h : fills k = true) : k ≠ .eof := by
  rintro rfl
  cases h

def fillerWord (k : TokenKind) : Word := if k = .identifier then .name "x" else .fixed k

/-- A token that completes a phrase. -/
def filler (k : TokenKind) : Token := ⟨k, (fillerWord k).lexeme, (fillerWord k).literal, 0, 0⟩

/-- There are words after which the tokens satisfy `P`. -/
def Completable (P : List Token → Prop) (us : List Token) : Prop :=
  ∃ ks : List TokenKind, ks.all fills = true ∧ P (us ++ ks.map filler)

theorem Completable.of_nil (ks : List TokenKind) {P : List Token → Prop}
    (hks : ks.all fills = true) (h : P (ks.map filler)) : Completable P [] :=
  ⟨ks, hks, h⟩

/-- Whether there are phrases of the kind. -/
def Symbol.isInhabited : Symbol → Bool
  | .level l => l ≤ levelCount
  | _ => true

/-- The shortest phrase of every kind. -/
theorem completable_phrase (x : Symbol) (hx : x.isInhabited = true) :
    Completable (fun ts => ∃ tree, Phrase x ts tree) [] := by
  have hname : Phrase .primary [filler .identifier] (.variable (filler .identifier).lexeme) :=
    .ident rfl
  cases x with
  | expr => exact .of_nil [.identifier] rfl ⟨_, hname.expr⟩
  | level l =>
    have hl : l ≤ levelCount := by simpa [Symbol.isInhabited] using hx
    exact .of_nil [.identifier] rfl ⟨_, hname.level hl⟩
  | power => exact .of_nil [.identifier] rfl ⟨_, .base (.operand (.primary hname))⟩
  | unary => exact .of_nil [.identifier] rfl ⟨_, .operand (.primary hname)⟩
  | postfixed => exact .of_nil [.identifier] rfl ⟨_, .primary hname⟩
  | primary => exact .of_nil [.identifier] rfl ⟨_, hname⟩
  | items => exact .of_nil [] rfl ⟨_, .noItems⟩
  | someItems => exact .of_nil [.identifier] rfl ⟨_, .lastItem hname.expr⟩
  | names => exact .of_nil [.identifier] rfl ⟨_, .lastName rfl⟩
  | params => exact .of_nil [.leftParen, .rightParen] rfl ⟨_, .noParams rfl rfl⟩
  | condition =>
    exact .of_nil [.leftParen, .identifier, .rightParen] rfl ⟨_, .condition rfl hname.expr rfl⟩
  | optional => exact .of_nil [] rfl ⟨_, .absent⟩
  | declarations => exact .of_nil [] rfl ⟨_, .noDeclarations⟩
  | braced => exact .of_nil [.leftBrace, .rightBrace] rfl ⟨_, .braced rfl .noDeclarations rfl⟩
  | declaration =>
    exact .of_nil [.identifier, .pica] rfl ⟨_, .statement (.exprStmt hname.expr rfl) (by decide)⟩
  | letDecl => exact .of_nil [.nech, .identifier, .pica] rfl ⟨_, .declareNull rfl rfl rfl⟩
  | init => exact .of_nil [.pica] rfl ⟨_, .noInit rfl⟩
  | handler => exact .of_nil [] rfl ⟨_, .noHandler⟩
  | finalizer => exact .of_nil [] rfl ⟨_, .noFinalizer⟩
  | statement => exact .of_nil [.identifier, .pica] rfl ⟨_, .exprStmt hname.expr rfl⟩

/-! ## Positions -/

end Grammar

namespace Cursor

variable (c : Cursor)

/-- The tokens from the position on. -/
def rest : List Token := c.tokens.toList.drop c.pos

/-- The position behind some more tokens. -/
def skip (n : Nat) : Cursor := { c with pos := c.pos + n }

@[simp]
theorem rest_skip (n : Nat) : (c.skip n).rest = c.rest.drop n := by simp [rest, skip]

@[simp]
theorem skip_skip (m n : Nat) : (c.skip m).skip n = c.skip (m + n) := by
  simp [skip, Nat.add_assoc]

end Cursor

namespace Parser

variable {α β : Type} {c c' : Cursor} {t : Token} {ts : List Token} {p : Parser α}
  {f : α → Parser β} {a : α} {h : Halt}

theorem bind_of_ok (hp : p c = .ok (a, c')) : (p >>= f) c = f a c' := by
  show (p c >>= fun x => f x.1 x.2) = _
  rw [hp]
  rfl

theorem bind_of_error (hp : p c = .error h) : (p >>= f) c = .error h := by
  show (p c >>= fun x => f x.1 x.2) = _
  rw [hp]
  rfl

theorem peek_eq (hc : c.rest = t :: ts) : peek c = .ok (t, c) := by
  have ht : c.tokens[c.pos]? = some t := by
    simpa [Cursor.rest] using congrArg List.head? hc
  simp [peek, ht]

/-- What takes a token that is not the end, and yields it. -/
def Moves (p : Parser Token) : Prop :=
  ∀ (c : Cursor) (t : Token) (ts : List Token), c.rest = t :: ts → t.kind ≠ .eof →
    p c = .ok (t, c.skip 1)

theorem moves_advance : Moves advance := by
  intro c t ts hc ht
  rw [advance, bind_of_ok (peek_eq hc), if_pos ht]
  rfl

theorem moves_take : Moves take := by
  intro c t ts hc ht
  have hprevious : previous (c.skip 1) = peek c >>= fun x => .ok (x.1, c.skip 1) := by
    simp only [previous, peek, Cursor.skip]
    cases c.tokens[c.pos]? <;> rfl
  rw [take, bind_of_ok (moves_advance c t ts hc ht), hprevious, peek_eq hc]
  rfl

/-! Every step looks at the next token first. -/

theorem accept_bind (k : TokenKind) (p q : Parser α) :
    (accept k >>= fun b => if b = true then p else q) =
      peek >>= fun t => if t.kind = k then advance >>= fun _ => p else q := by
  simp only [accept, bind_assoc]
  congr 1
  funext t
  split <;> simp

theorem accept?_bind (φ : TokenKind → Option α) (f : Option (Token × α) → Parser β) :
    accept? φ >>= f = peek >>= fun t =>
      match φ t.kind with
      | none => f none
      | some a => take >>= fun t => f (some (t, a)) := by
  simp only [accept?, bind_assoc]
  congr 1
  funext t
  cases φ t.kind <;> simp

theorem expect_bind (k : TokenKind) (what : String) (f : Token → Parser α) :
    expect k what >>= f =
      peek >>= fun t => if t.kind = k then advance >>= f else throw (.at (.expected what) t) := by
  simp only [expect, bind_assoc]
  congr 1
  funext t
  split
  · rfl
  · rfl

end Parser

namespace Grammar

/-! ## Two sources -/

/-- Tokens are moved: they keep their words, and their lines change. -/
structure Relines (f : Token → Token) (φ : Int → Int) : Prop where
  word : ∀ t, (f t).word = t.word
  line : ∀ t, ((f t).line : Int) = φ t.line

/-- How two sources go on after tokens that they share. The first one ends, and the second one,
where the tokens are moved, has a rest. Its bound is larger. If they are `twins`, the second one
ends there too. -/
structure Sources where
  move : Token → Token
  line : Int → Int
  last : Token
  rest : List Token
  extra : Nat
  twins : Prop
  relines : Relines move line
  kind_last : last.kind = .eof
  rest_eq : twins → rest = [move last]

namespace Sources

variable (w : Sources) {α β : Type} {g : α → α} {h : β → β}

/-- The first source, after some tokens. -/
def first (us : List Token) : List Token := us ++ [w.last]

/-- The second source, after the same tokens. -/
def second (us : List Token) : List Token := us.map w.move ++ w.rest

/-- The next token of the first source. -/
def next : List Token → Token
  | [] => w.last
  | u :: _ => u

@[simp]
theorem kind_move (t : Token) : (w.move t).kind = t.kind := congrArg Word.kind (w.relines.word t)

@[simp]
theorem lexeme_move (t : Token) : (w.move t).lexeme = t.lexeme :=
  congrArg Word.lexeme (w.relines.word t)

@[simp]
theorem literal_move (t : Token) : (w.move t).literal = t.literal :=
  congrArg Word.literal (w.relines.word t)

@[simp]
theorem line_move (t : Token) : ((w.move t).line : Int) = w.line t.line := w.relines.line t

/-! ## Routines -/

/-- What a routine comes to at a position before the tokens `us` in the first source, beside what it
comes to in the second one, where trees are changed by `g`. It has taken some tokens, and `Q` holds
of these, the tree and the tokens that are left; or it fails at one of the tokens; or it fails at
the end, and `Q` could be completed. The two agree unless the end was looked at and the sources are
no twins. -/
inductive Comes (g : α → α) (us : List Token) (Q : List Token → α → List Token → Prop)
    (c c' : Cursor) : Except Halt (α × Cursor) → Except Halt (α × Cursor) → Prop where
  | ended (a : α) (r' : Except Halt (α × Cursor)) : Q us a [] →
      (w.twins → r' = .ok (g a, c'.skip us.length)) →
      Comes g us Q c c' (.ok (a, c.skip us.length)) r'
  | stuck (cause : ParseCause) (r' : Except Halt (α × Cursor)) :
      Completable (fun ts => ∃ a, Q ts a []) us →
      (w.twins → r' = .error (.at cause (w.move w.last))) →
      Comes g us Q c c' (.error (.at cause w.last)) r'
  | goes (a : α) {as vs : List Token} (v : Token) : us = as ++ v :: vs → Q as a (v :: vs) →
      Comes g us Q c c' (.ok (a, c.skip as.length)) (.ok (g a, c'.skip as.length))
  | wrong (cause : ParseCause) {t : Token} : t ∈ us →
      Comes g us Q c c' (.error (.at cause t)) (.error (.at cause (w.move t)))

/-- What a routine comes to wherever the tokens `us` come next. -/
def Reads (g : α → α) (us : List Token) (Q : List Token → α → List Token → Prop)
    (p p' : Parser α) : Prop :=
  ∀ c c' : Cursor, c.rest = w.first us → c'.rest = w.second us → w.Comes g us Q c c' (p c) (p' c')

variable {w} {us : List Token} {P Q : List Token → α → List Token → Prop}
  {R : List Token → β → List Token → Prop}

namespace Comes

variable {c c' : Cursor} {r r' r'' : Except Halt (α × Cursor)}

theorem mono (hr : w.Comes g us P c c' r r') (h : ∀ as a vs, P as a vs → Q as a vs) :
    w.Comes g us Q c c' r r' := by
  cases hr with
  | ended a _ ha hw => exact .ended a _ (h _ _ _ ha) hw
  | stuck cause _ hc hw =>
    obtain ⟨ks, hks, a, ha⟩ := hc
    exact .stuck cause _ ⟨ks, hks, a, h _ _ _ ha⟩ hw
  | goes a v heq ha => exact .goes a v heq (h _ _ _ ha)
  | wrong cause ht => exact .wrong cause ht

/-- At the end, the second source matters only for twins. -/
theorem at_end (hr : w.Comes g [] Q c c' r r') (hw : w.twins → r'' = r') :
    w.Comes g [] Q c c' r r'' := by
  cases hr with
  | ended a _ ha h => exact .ended a _ ha fun ht => (hw ht).trans (h ht)
  | stuck cause _ hc h => exact .stuck cause _ hc fun ht => (hw ht).trans (h ht)
  | goes a v heq => simp at heq
  | wrong cause ht => cases ht

/-- Some tokens have been taken before. -/
theorem append (as : List Token) {vs : List Token}
    (hr : w.Comes g vs (fun bs a ws => Q (as ++ bs) a ws) (c.skip as.length) (c'.skip as.length)
      r r') :
    w.Comes g (as ++ vs) Q c c' r r' := by
  cases hr with
  | ended a _ ha hw =>
    simp only [Cursor.skip_skip, ← List.length_append] at hw ⊢
    exact .ended a _ ha hw
  | stuck cause _ hc hw =>
    obtain ⟨ks, hks, a, ha⟩ := hc
    exact .stuck cause _ ⟨ks, hks, a, by rwa [List.append_assoc]⟩ hw
  | goes a v heq ha =>
    simp only [Cursor.skip_skip, ← List.length_append]
    exact .goes a v (by rw [heq, List.append_assoc]) ha
  | wrong cause ht => exact .wrong cause (List.mem_append_right as ht)

end Comes

theorem ne_nil_of_kind_next (h : (w.next us).kind ≠ .eof) : us ≠ [] := by
  rintro rfl
  exact h w.kind_last

theorem rest_skip_first {c : Cursor} (as : List Token) {vs : List Token} (hc : c.rest = w.first (as ++ vs)) :
    (c.skip as.length).rest = w.first vs := by
  simp [hc, first]

theorem rest_skip_second {c : Cursor} (as : List Token) {vs : List Token} (hc : c.rest = w.second (as ++ vs)) :
    (c.skip as.length).rest = w.second vs := by
  simp [hc, second]

namespace Reads

variable {p p' : Parser α} {f f' : α → Parser β}

theorem mono (hp : w.Reads g us P p p') (h : ∀ as a vs, P as a vs → Q as a vs) :
    w.Reads g us Q p p' :=
  fun c c' hc hc' => (hp c c' hc hc').mono h

theorem pure (a : α) (us : List Token) (h : Q [] a us) :
    w.Reads g us Q (Pure.pure a) (Pure.pure (g a)) := by
  intro c c' _ _
  cases us with
  | nil => exact .ended a _ h fun _ => rfl
  | cons u us => exact .goes a u rfl h

/-- One routine after another. Where the first one is stuck, the second one has only the end before
it, so it tells how to go on from there. -/
theorem bind (hp : w.Reads g us P p p')
    (hf : ∀ as a vs, P as a vs → as.length + vs.length ≤ us.length ∨ vs.length = 0 →
      w.Reads h vs (fun bs b ws => R (as ++ bs) b ws) (f a) (f' (g a))) :
    w.Reads h us R (p >>= f) (p' >>= f') := by
  intro c c' hc hc'
  have hr := hp c c' hc hc'
  -- Where nothing is left of the tokens, both sources are at their ends.
  have hend : (c.skip us.length).rest = w.first [] ∧ (c'.skip us.length).rest = w.second [] :=
    ⟨rest_skip_first us (by simpa using hc), rest_skip_second us (by simpa using hc')⟩
  generalize hpc : p c = r, hpc' : p' c' = r' at hr
  cases hr with
  | ended a _ ha hw =>
    rw [Parser.bind_of_ok hpc]
    have hnext := hf us a [] ha (.inr rfl) _ _ hend.1 hend.2
    simpa using (hnext.at_end fun h => Parser.bind_of_ok (hpc'.trans (hw h))).append us
  | stuck cause _ hcomplete hw =>
    obtain ⟨ks, hks, a, ha⟩ := hcomplete
    rw [Parser.bind_of_error hpc]
    refine .stuck cause _ ?_ fun h => Parser.bind_of_error (hpc'.trans (hw h))
    have hnext := hf _ a [] ha (.inr rfl) _ _ hend.1 hend.2
    generalize f a _ = s, f' (g a) _ = s' at hnext
    cases hnext with
    | ended b _ hb => exact ⟨ks, hks, b, by simpa using hb⟩
    | stuck _ _ hcomplete =>
      obtain ⟨ls, hls, b, hb⟩ := hcomplete
      exact ⟨ks ++ ls, by rw [List.all_append, hks, hls]; rfl, b, by simpa using hb⟩
    | goes b v heq => simp at heq
    | wrong cause ht => cases ht
  | @goes a as vs v heq ha =>
    subst heq
    rw [Parser.bind_of_ok hpc, Parser.bind_of_ok hpc']
    exact (hf as a (v :: vs) ha (.inl (by simp)) _ _ (rest_skip_first as hc)
      (rest_skip_second as hc')).append as
  | wrong cause ht =>
    rw [Parser.bind_of_error hpc, Parser.bind_of_error hpc']
    exact .wrong cause ht

/-! ### Steps -/

/-- The next token is looked at. -/
theorem peek {f f' : Token → Parser α}
    (hf : w.Reads g us Q (f (w.next us)) (f' (w.move (w.next us)))) :
    w.Reads g us Q (Parser.peek >>= f) (Parser.peek >>= f') := by
  intro c c' hc hc'
  cases us with
  | nil =>
    rw [Parser.bind_of_ok (Parser.peek_eq hc)]
    exact (hf c c' hc hc').at_end fun hw =>
      Parser.bind_of_ok (Parser.peek_eq (hc'.trans (w.rest_eq hw)))
  | cons u us =>
    rw [Parser.bind_of_ok (Parser.peek_eq hc), Parser.bind_of_ok (Parser.peek_eq hc')]
    exact hf c c' hc hc'

/-- The next token is taken. -/
theorem step {q : Parser Token} {f f' : Token → Parser α} (hq : q.Moves)
    (hk : (w.next us).kind ≠ .eof)
    (hf : ∀ vs, vs.length + 1 = us.length →
      w.Reads g vs (fun as a ws => Q (w.next us :: as) a ws) (f (w.next us))
        (f' (w.move (w.next us)))) :
    w.Reads g us Q (q >>= f) (q >>= f') := by
  intro c c' hc hc'
  cases us with
  | nil => exact absurd w.kind_last hk
  | cons u vs =>
    change u.kind ≠ .eof at hk
    rw [Parser.bind_of_ok (hq c u _ hc hk),
      Parser.bind_of_ok (hq c' (w.move u) _ hc' (by simpa using hk))]
    exact (hf vs rfl _ _ (rest_skip_first [u] hc) (rest_skip_second [u] hc')).append [u]

/-- An error at the next token. -/
theorem throw (cause : ParseCause) (h : Completable (fun ts => ∃ a, Q ts a []) []) :
    w.Reads g us Q (MonadExcept.throw (Halt.at cause (w.next us)))
      (MonadExcept.throw (Halt.at cause (w.move (w.next us)))) := by
  intro c c' _ _
  cases us with
  | nil => exact .stuck cause _ h fun _ => rfl
  | cons u us => exact .wrong cause (.head us)

/-- An error at a token that was taken. -/
theorem wrong (cause : ParseCause) (hk : (w.next us).kind ≠ .eof) :
    w.Reads g us Q (Parser.take >>= fun t => MonadExcept.throw (Halt.at cause t))
      (Parser.take >>= fun t => MonadExcept.throw (Halt.at cause t)) := by
  intro c c' hc hc'
  cases us with
  | nil => exact absurd w.kind_last hk
  | cons u vs =>
    change u.kind ≠ .eof at hk
    rw [Parser.bind_of_ok (Parser.moves_take c u _ hc hk),
      Parser.bind_of_ok (Parser.moves_take c' (w.move u) _ hc' (by simpa using hk))]
    exact .wrong cause (.head vs)

/-- A question about the next token. -/
theorem accept {κ : TokenKind} (hκ : fills κ = true) {p p' q q' : Parser α}
    (hyes : (w.next us).kind = κ → ∀ vs, vs.length + 1 = us.length →
      w.Reads g vs (fun as a ws => Q (w.next us :: as) a ws) p p')
    (hno : (w.next us).kind ≠ κ → w.Reads g us Q q q') :
    w.Reads g us Q (Parser.accept κ >>= fun b => if b = true then p else q)
      (Parser.accept κ >>= fun b => if b = true then p' else q') := by
  rw [Parser.accept_bind, Parser.accept_bind]
  refine .peek ?_
  rw [kind_move]
  split
  case isTrue hk => exact .step Parser.moves_advance (hk ▸ ne_eof_of_fills hκ) (hyes hk)
  case isFalse hk => exact hno hk

theorem accept? {φ : TokenKind → Option β} (hφ : φ .eof = none)
    {f f' : Option (Token × β) → Parser α}
    (hnone : φ (w.next us).kind = none → w.Reads g us Q (f none) (f' none))
    (hsome : ∀ b, φ (w.next us).kind = some b → (w.next us).kind ≠ .eof →
      w.Reads g us Q (Parser.take >>= fun t => f (some (t, b)))
        (Parser.take >>= fun t => f' (some (t, b)))) :
    w.Reads g us Q (Parser.accept? φ >>= f) (Parser.accept? φ >>= f') := by
  rw [Parser.accept?_bind, Parser.accept?_bind]
  refine .peek ?_
  rw [kind_move]
  cases hb : φ (w.next us).kind with
  | none => exact hnone hb
  | some b =>
    refine hsome b hb fun hk => ?_
    simp [hk, hφ] at hb

/-- A token that has to come next, and what comes after it. -/
theorem expect {κ : TokenKind} {what : String} (hκ : fills κ = true) {f f' : Token → Parser α}
    (hf : ∀ t vs, t.kind = κ → vs.length + 1 ≤ us.length ∨ vs.length = 0 →
      w.Reads g vs (fun as a ws => Q (t :: as) a ws) (f t) (f' (w.move t))) :
    w.Reads g us Q (Parser.expect κ what >>= f) (Parser.expect κ what >>= f') := by
  have hread : w.Reads w.move us (fun as t _ => as = [t] ∧ t.kind = κ)
      (Parser.expect κ what) (Parser.expect κ what) := by
    rw [← bind_pure (Parser.expect κ what), Parser.expect_bind]
    refine .peek ?_
    rw [kind_move]
    split
    case isTrue hk =>
      exact .step Parser.moves_advance (hk ▸ ne_eof_of_fills hκ) fun vs _ => .pure _ vs ⟨rfl, hk⟩
    case isFalse => exact .throw _ (.of_nil [κ] (by simpa using hκ) ⟨filler κ, rfl, rfl⟩)
  refine hread.bind ?_
  rintro _ t vs ⟨rfl, ht⟩ hlen
  exact hf t vs ht (by simpa [Nat.add_comm] using hlen)

/-- A routine that takes at least one token is stuck where none is left. -/
theorem bind_nil (hp : w.Reads g [] P p p') (hP : ∀ a, ¬P [] a [])
    (hR : Completable (fun ts => ∃ b, R ts b []) []) :
    w.Reads h [] R (p >>= f) (p' >>= f') := by
  intro c c' hc hc'
  have hr := hp c c' hc hc'
  generalize hpc : p c = r, hpc' : p' c' = r' at hr
  cases hr with
  | ended a _ ha => exact absurd ha (hP a)
  | stuck cause _ _ hw =>
    rw [Parser.bind_of_error hpc]
    exact .stuck cause _ hR fun h => Parser.bind_of_error (hpc'.trans (hw h))
  | goes a v heq => simp at heq
  | wrong _ ht => cases ht

/-- What is read starts with the next token. -/
theorem starts (hp : w.Reads g us P p p') (hus : us ≠ []) :
    w.Reads g us (fun as a vs => P as a vs ∧ ∀ t ts, as = t :: ts → t = w.next us) p p' := by
  obtain ⟨u, us, rfl⟩ := List.exists_cons_of_ne_nil hus
  intro c c' hc hc'
  have hr := hp c c' hc hc'
  generalize p c = r, p' c' = r' at hr
  cases hr with
  | ended a _ ha hw => exact .ended a _ ⟨ha, fun t ts heq => (List.cons.inj heq).1.symm⟩ hw
  | stuck cause _ hc hw =>
    obtain ⟨ks, hks, a, ha⟩ := hc
    exact .stuck cause _ ⟨ks, hks, a, ha, fun t ts heq => (List.cons.inj heq).1.symm⟩ hw
  | goes a v heq ha =>
    refine .goes a v heq ⟨ha, ?_⟩
    rintro t ts rfl
    exact (List.cons.inj heq).1.symm
  | wrong cause ht => exact .wrong cause ht

end Reads

end Sources

end Grammar

end Hantec
