import Hantec.Disk

/-!
# UTF-8 reads back

The bytes of a text are read back as the text. So is a file that was written from the text, if it
has no carriage returns.
-/

namespace Hantec

namespace Text

/-! ## Characters of so many bytes -/

section Step

variable {b c d e : UInt8} {k l m n : Nat} (rest : List UInt8)

theorem not_lt_of_toNat_eq {i : UInt8} (hb : b.toNat = k) (hi : i.toNat ≤ k) : ¬ b < i :=
  UInt8.not_lt.2 (UInt8.le_iff_toNat_le.2 (hb ▸ hi))

theorem lt_of_toNat_eq {i : UInt8} (hb : b.toNat = k) (hi : k < i.toNat) : b < i :=
  UInt8.lt_iff_toNat_lt.2 (hb ▸ hi)

theorem isTail_of_toNat_eq (hb : b.toNat = n + 128) (hn : n < 64) : isTail b = true := by
  have hle : 0x80 ≤ b := UInt8.le_iff_toNat_le.2 (hb ▸ Nat.le_add_left 128 n)
  have hlt : b < 0xc0 := lt_of_toNat_eq hb (Nat.add_lt_add_right hn 128)
  simp [isTail, hle, hlt]

theorem tailBits_of_toNat_eq (hb : b.toNat = n + 128) (hn : n < 64) : tailBits b = n := by
  rw [tailBits, hb]
  omega

theorem utf8Step_one (hb : b.toNat = n) (hn : n < 128) :
    utf8Step b rest = .char (Char.ofNat n) 1 := by
  have h₁ : b < 0x80 := lt_of_toNat_eq hb hn
  simp only [utf8Step, h₁, if_true, hb]

theorem utf8Step_two (hb : b.toNat = m + 192) (hm : 2 ≤ m) (hm' : m < 32) (hc : c.toNat = n + 128)
    (hn : n < 64) : utf8Step b (c :: rest) = .char (Char.ofNat (m * 64 + n)) 2 := by
  have h₁ : ¬ b < 0x80 := not_lt_of_toNat_eq hb (Nat.le_add_left_of_le (by decide))
  have h₂ : ¬ b < 0xc2 := not_lt_of_toNat_eq hb (Nat.add_le_add_right hm 192)
  have h₃ : b < 0xe0 := lt_of_toNat_eq hb (Nat.add_lt_add_right hm' 192)
  have hbits : b.toNat % 32 = m := by omega
  simp only [utf8Step, h₁, h₂, h₃, isTail_of_toNat_eq hc hn, if_true, if_false, hbits,
    tailBits_of_toNat_eq hc hn]

theorem utf8Step_three (hb : b.toNat = l + 224) (hl : l < 16) (hc : c.toNat = m + 128)
    (hm : m < 64) (hfirst : l = 0 → 32 ≤ m) (hlast : l = 13 → m < 32) (hd : d.toNat = n + 128)
    (hn : n < 64) :
    utf8Step b (c :: d :: rest) = .char (Char.ofNat (l * 4096 + m * 64 + n)) 3 := by
  have h₁ : ¬ b < 0x80 := not_lt_of_toNat_eq hb (Nat.le_add_left_of_le (by decide))
  have h₂ : ¬ b < 0xc2 := not_lt_of_toNat_eq hb (Nat.le_add_left_of_le (by decide))
  have h₃ : ¬ b < 0xe0 := not_lt_of_toNat_eq hb (Nat.le_add_left 224 l)
  have h₄ : b < 0xf0 := lt_of_toNat_eq hb (Nat.add_lt_add_right hl 224)
  have hbits : b.toNat % 16 = l := by omega
  have hok : ¬ (b = 0xe0 ∧ c < 0xa0 ∨ b = 0xed ∧ 0xa0 ≤ c) := by
    simp only [← UInt8.toNat_inj, UInt8.lt_iff_toNat_lt, UInt8.le_iff_toNat_le, hb, hc]
    show ¬ (l + 224 = 0xe0 ∧ m + 128 < 0xa0 ∨ l + 224 = 0xed ∧ 0xa0 ≤ m + 128)
    omega
  simp only [utf8Step, h₁, h₂, h₃, h₄, isTail_of_toNat_eq hc hm, isTail_of_toNat_eq hd hn, hok,
    if_true, if_false, Bool.not_true, Bool.false_or, Bool.or_eq_true, Bool.and_eq_true, beq_iff_eq,
    decide_eq_true_eq, hbits, tailBits_of_toNat_eq hc hm, tailBits_of_toNat_eq hd hn]

theorem utf8Step_four (hb : b.toNat = k + 240) (hk : k < 5) (hc : c.toNat = l + 128)
    (hl : l < 64) (hfirst : k = 0 → 16 ≤ l) (hlast : k = 4 → l < 16) (hd : d.toNat = m + 128)
    (hm : m < 64) (he : e.toNat = n + 128) (hn : n < 64) :
    utf8Step b (c :: d :: e :: rest) =
      .char (Char.ofNat (k * 262144 + l * 4096 + m * 64 + n)) 4 := by
  have h₁ : ¬ b < 0x80 := not_lt_of_toNat_eq hb (Nat.le_add_left_of_le (by decide))
  have h₂ : ¬ b < 0xc2 := not_lt_of_toNat_eq hb (Nat.le_add_left_of_le (by decide))
  have h₃ : ¬ b < 0xe0 := not_lt_of_toNat_eq hb (Nat.le_add_left_of_le (by decide))
  have h₄ : ¬ b < 0xf0 := not_lt_of_toNat_eq hb (Nat.le_add_left 240 k)
  have h₅ : b < 0xf5 := lt_of_toNat_eq hb (Nat.add_lt_add_right hk 240)
  have hbits : b.toNat % 8 = k := by omega
  have hok : ¬ (b = 0xf0 ∧ c < 0x90 ∨ b = 0xf4 ∧ 0x90 ≤ c) := by
    simp only [← UInt8.toNat_inj, UInt8.lt_iff_toNat_lt, UInt8.le_iff_toNat_le, hb, hc]
    show ¬ (k + 240 = 0xf0 ∧ l + 128 < 0x90 ∨ k + 240 = 0xf4 ∧ 0x90 ≤ l + 128)
    omega
  simp only [utf8Step, h₁, h₂, h₃, h₄, h₅, isTail_of_toNat_eq hc hl, isTail_of_toNat_eq hd hm,
    isTail_of_toNat_eq he hn, hok, if_true, if_false, Bool.not_true, Bool.false_eq_true,
    Bool.false_or, Bool.or_eq_true, Bool.and_eq_true, beq_iff_eq, decide_eq_true_eq, hbits,
    tailBits_of_toNat_eq hc hl, tailBits_of_toNat_eq hd hm, tailBits_of_toNat_eq he hn]

end Step

/-- The first byte of a character announces how many others belong to it. -/
theorem exists_utf8Step (c : Char) : ∃ b bs, String.utf8EncodeChar c = b :: bs ∧
    ∀ rest, utf8Step b (bs ++ rest) = .char c (bs.length + 1) := by
  have hvalid : c.toNat < 0xd800 ∨ 0xdfff < c.toNat ∧ c.toNat < 0x110000 := c.valid
  have hbyte {n : Nat} (h : n < 256) : (UInt8.ofNat n).toNat = n := UInt8.toNat_ofNat_of_lt' h
  have hchar {n : Nat} (size : Nat) (h : n = c.toNat) :
      Utf8Step.char (Char.ofNat n) size = .char c size := by
    rw [h, Char.ofNat_toNat]
  unfold String.utf8EncodeChar
  simp only [Char.toNat_val]
  split
  case isTrue h₁ =>
    refine ⟨_, _, rfl, fun rest => ?_⟩
    exact (utf8Step_one rest (hbyte (by omega)) (by omega)).trans (hchar 1 rfl)
  case isFalse h₁ =>
  split
  case isTrue h₂ =>
    refine ⟨_, _, rfl, fun rest => ?_⟩
    exact (utf8Step_two rest (hbyte (by omega)) (by omega) (by omega) (hbyte (by omega))
      (by omega)).trans (hchar 2 (by omega))
  case isFalse h₂ =>
  split
  case isTrue h₃ =>
    refine ⟨_, _, rfl, fun rest => ?_⟩
    exact (utf8Step_three rest (hbyte (by omega)) (by omega) (hbyte (by omega)) (by omega)
      (by omega) (by omega) (hbyte (by omega)) (by omega)).trans (hchar 3 (by omega))
  case isFalse h₃ =>
    refine ⟨_, _, rfl, fun rest => ?_⟩
    exact (utf8Step_four rest (hbyte (by omega)) (by omega) (hbyte (by omega)) (by omega)
      (by omega) (by omega) (hbyte (by omega)) (by omega) (hbyte (by omega)) (by omega)).trans
      (hchar 4 (by omega))

/-! ## Texts -/

theorem decodeFrom_skip (pos : Nat) (bs rest : List UInt8) :
    decodeFrom pos bs.length (bs ++ rest) = decodeFrom (pos + bs.length) 0 rest := by
  induction bs generalizing pos with
  | nil => rfl
  | cons b bs ih =>
    rw [List.cons_append, List.length_cons, decodeFrom, ih, Nat.add_right_comm, Nat.add_assoc]

theorem decodeFrom_encoded (cs : List Char) (pos : Nat) :
    decodeFrom pos 0 (cs.flatMap String.utf8EncodeChar) = .ok cs := by
  induction cs generalizing pos with
  | nil => rfl
  | cons c cs ih =>
    obtain ⟨b, bs, hc, hstep⟩ := exists_utf8Step c
    rw [List.flatMap_cons, hc, List.cons_append, decodeFrom, hstep]
    show (decodeFrom (pos + 1) bs.length _).map _ = _
    rw [decodeFrom_skip, ih]
    rfl

theorem decodeUtf8_encodeUtf8 (s : String) : decodeUtf8 (encodeUtf8 s) = .ok s := by
  rw [decodeUtf8, encodeUtf8, decodeFrom_encoded]
  exact congrArg Except.ok String.ofList_toList

theorem decodeLenientFrom_skip (bs rest : List UInt8) :
    decodeLenientFrom bs.length (bs ++ rest) = decodeLenientFrom 0 rest := by
  induction bs with
  | nil => rfl
  | cons b bs ih => rw [List.cons_append, List.length_cons, decodeLenientFrom, ih]

/-- Reading leniently finds no flaw in the bytes of a text. -/
theorem decodeLenient_encodeUtf8 (s : String) : decodeLenient (encodeUtf8 s) = s := by
  have hchars (cs : List Char) :
      decodeLenientFrom 0 (cs.flatMap String.utf8EncodeChar) = cs := by
    induction cs with
    | nil => rfl
    | cons c cs ih =>
      obtain ⟨b, bs, hc, hstep⟩ := exists_utf8Step c
      rw [List.flatMap_cons, hc, List.cons_append, decodeLenientFrom, hstep]
      show c :: decodeLenientFrom bs.length _ = _
      rw [decodeLenientFrom_skip, ih]
  rw [decodeLenient, encodeUtf8, hchars, String.ofList_toList]

end Text

theorem unifyLines_of_notMem {cs : List Char} (h : '\r' ∉ cs) : unifyLines cs = cs := by
  fun_induction unifyLines cs with
  | case1 => simp at h
  | case2 => simp at h
  | case3 c cs _ _ ih => rw [ih (fun hc => h (List.mem_cons_of_mem _ hc))]
  | case4 => rfl

/-- A text is read from the file that it is written to, with its line ends unified. -/
theorem fileText_unified (s : String) :
    fileText (Text.encodeUtf8 s) = .ok (String.ofList (unifyLines s.toList)) := by
  rw [fileText, Text.decodeUtf8_encodeUtf8]
  rfl

theorem fileText_encodeUtf8 {s : String} (h : '\r' ∉ s.toList) :
    fileText (Text.encodeUtf8 s) = .ok s := by
  rw [fileText_unified, unifyLines_of_notMem h, String.ofList_toList]

end Hantec
