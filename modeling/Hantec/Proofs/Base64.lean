import Hantec.Proofs.Text.Utf8
import Hantec.Proofs.Run.Proc
import Hantec.Run.Builtins

/-!
# Base64 reads back

What is written from bytes is signs with at most two paddings after them. It is read back as the
bytes, and so it is without some of the paddings, since reading adds what is missing.
-/

namespace Hantec

namespace Codec

/-! ## Reading one sign -/

theorem base64Value?_base64Sign (v : Fin 64) : base64Value? (base64Sign v) = some v.val := by
  revert v
  decide

theorem base64Sign_ne_padding (v : Fin 64) : base64Sign v ≠ '=' := by
  revert v
  decide

theorem toNat_base64Sign_lt (v : Fin 64) : (base64Sign v).toNat < 128 := by
  revert v
  decide

section Sign

variable {n bits : Nat} (h : n < 64) (pads count : Nat) (cs : List Char)

include h

theorem decodeFrom_zero_sign :
    decodeFrom .zero pads count (base64Sign n :: cs) = decodeFrom (.one n) 0 count cs := by
  simp only [decodeFrom, base64Sign_ne_padding ⟨n, h⟩, base64Value?_base64Sign ⟨n, h⟩, if_false]

theorem decodeFrom_one_sign : decodeFrom (.one bits) pads count (base64Sign n :: cs) =
    (decodeFrom (.two (n % 16)) 0 (count + 1) cs).map (UInt8.ofNat (bits * 4 + n / 16) :: ·) := by
  simp only [decodeFrom, base64Sign_ne_padding ⟨n, h⟩, base64Value?_base64Sign ⟨n, h⟩, if_false]
  rfl

theorem decodeFrom_two_sign : decodeFrom (.two bits) pads count (base64Sign n :: cs) =
    (decodeFrom (.three (n % 4)) 0 (count + 1) cs).map (UInt8.ofNat (bits * 16 + n / 4) :: ·) := by
  simp only [decodeFrom, base64Sign_ne_padding ⟨n, h⟩, base64Value?_base64Sign ⟨n, h⟩, if_false]
  rfl

theorem decodeFrom_three_sign : decodeFrom (.three bits) pads count (base64Sign n :: cs) =
    (decodeFrom .zero 0 (count + 1) cs).map (UInt8.ofNat (bits * 64 + n) :: ·) := by
  simp only [decodeFrom, base64Sign_ne_padding ⟨n, h⟩, base64Value?_base64Sign ⟨n, h⟩, if_false]
  rfl

end Sign

/-! ## Whole groups -/

theorem ofNat_eq_of_toNat_eq {n : Nat} {b : UInt8} (h : n = b.toNat) : UInt8.ofNat n = b := by
  rw [h, UInt8.ofNat_toNat]

/-- Each group of signs is read back as the bytes that it was written from. -/
theorem decodeFrom_encodeBase64 (bs : List UInt8) (count : Nat) :
    decodeFrom .zero 0 count (encodeBase64 bs) = .ok bs := by
  induction bs using encodeBase64.induct generalizing count with
  | case1 => rfl
  | case2 a =>
    have ha := a.toNat_lt
    rw [encodeBase64, decodeFrom_zero_sign (by omega), decodeFrom_one_sign (by omega)]
    rw [ofNat_eq_of_toNat_eq (b := a) (by omega)]
    rfl
  | case3 a b =>
    have ha := a.toNat_lt
    have hb := b.toNat_lt
    rw [encodeBase64, decodeFrom_zero_sign (by omega), decodeFrom_one_sign (by omega),
      decodeFrom_two_sign (by omega)]
    rw [ofNat_eq_of_toNat_eq (b := a) (by omega), ofNat_eq_of_toNat_eq (b := b) (by omega)]
    rfl
  | case4 a b c rest ih =>
    have ha := a.toNat_lt
    have hb := b.toNat_lt
    have hc := c.toNat_lt
    rw [encodeBase64, decodeFrom_zero_sign (by omega), decodeFrom_one_sign (by omega),
      decodeFrom_two_sign (by omega), decodeFrom_three_sign (by omega), ih]
    rw [ofNat_eq_of_toNat_eq (b := a) (by omega), ofNat_eq_of_toNat_eq (b := b) (by omega),
      ofNat_eq_of_toNat_eq (b := c) (by omega)]
    rfl

/-- Signs of six bits each, with the paddings that make their number a multiple of four. -/
def base64Code (vs : List (Fin 64)) (pads : Nat) : List Char :=
  vs.map (fun v : Fin 64 => base64Sign v) ++ List.replicate pads '='

theorem exists_base64Code (bs : List UInt8) : ∃ vs pads, encodeBase64 bs = base64Code vs pads ∧
    pads ≤ 2 ∧ (vs.length + pads) % 4 = 0 := by
  induction bs using encodeBase64.induct with
  | case1 => exact ⟨[], 0, rfl, by decide, rfl⟩
  | case2 a =>
    have ha := a.toNat_lt
    exact ⟨[⟨a.toNat / 4, by omega⟩, ⟨a.toNat % 4 * 16, by omega⟩], 2, rfl, by decide, by simp⟩
  | case3 a b =>
    have ha := a.toNat_lt
    have hb := b.toNat_lt
    exact ⟨[⟨a.toNat / 4, by omega⟩, ⟨a.toNat % 4 * 16 + b.toNat / 16, by omega⟩,
      ⟨b.toNat % 16 * 4, by omega⟩], 1, rfl, by decide, by simp⟩
  | case4 a b c rest ih =>
    have ha := a.toNat_lt
    have hb := b.toNat_lt
    have hc := c.toNat_lt
    obtain ⟨vs, pads, hvs, hpads, hlength⟩ := ih
    refine ⟨⟨a.toNat / 4, by omega⟩ :: ⟨a.toNat % 4 * 16 + b.toNat / 16, by omega⟩ ::
      ⟨b.toNat % 16 * 4 + c.toNat / 64, by omega⟩ :: ⟨c.toNat % 64, by omega⟩ :: vs, pads, ?_,
      hpads, ?_⟩
    · rw [encodeBase64, hvs]
      rfl
    · simp only [List.length_cons]
      omega

/-- Reading adds the paddings that a code lacks. -/
theorem decodeBase64_base64Code {vs : List (Fin 64)} {pads k : Nat} (hpads : pads ≤ 2)
    (hlength : (vs.length + pads) % 4 = 0) (hk : k ≤ pads) :
    decodeBase64 (String.ofList (base64Code vs k)) =
      decodeFrom .zero 0 0 (base64Code vs pads) := by
  have hascii : (base64Code vs k).all (·.toNat < 128) = true := by
    rw [base64Code, List.all_append, List.all_map, List.all_replicate, Bool.and_eq_true]
    refine ⟨List.all_eq_true.2 fun v _ => decide_eq_true (toNat_base64Sign_lt v), ?_⟩
    split <;> rfl
  have hmissing : (4 - (base64Code vs k).length % 4) % 4 = pads - k := by
    simp only [base64Code, List.length_append, List.length_map, List.length_replicate]
    omega
  rw [decodeBase64, String.toList_ofList, if_pos hascii, String.length_ofList, hmissing,
    base64Code, List.append_assoc, List.replicate_append_replicate, Nat.add_sub_cancel' hk,
    base64Code]

end Codec

open Codec in
/-- In every state, a text is written as signs of six bits with at most two paddings after them, and
these are read back as the text, whether all, some or none of the paddings are left. -/
theorem decodeBase64_inverts_encodeBase64 (s : String) :
    ∃ (vs : List (Fin 64)) (pads : Nat), pads ≤ 2 ∧
      (∀ σ, ((Builtin.crypto .encodeBase64).call [.str s]).run σ =
        .ret (.str (String.ofList (base64Code vs pads))) σ) ∧
      ∀ k ≤ pads, ∀ σ, ((Builtin.crypto .decodeBase64).call
        [.str (String.ofList (base64Code vs k))]).run σ = .ret (.str s) σ := by
  obtain ⟨vs, pads, hcode, hpads, hlength⟩ := exists_base64Code (Text.encodeUtf8 s)
  refine ⟨vs, pads, hpads, fun σ => ?_, fun k hk σ => ?_⟩
  · rw [← hcode]
    rfl
  · have hbytes : decodeBase64 (String.ofList (base64Code vs k)) = .ok (Text.encodeUtf8 s) := by
      rw [decodeBase64_base64Code hpads hlength hk, ← hcode, decodeFrom_encodeBase64]
    have htext : (textArgument [.str (String.ofList (base64Code vs k))] 0).run σ =
        .ret (String.ofList (base64Code vs k)) σ := rfl
    have hrun : (CryptoFn.run .decodeBase64 [.str (String.ofList (base64Code vs k))]).run σ =
        .ret (.str s) σ := by
      simp only [CryptoFn.run, Proc.run_bind, htext, Step.bind, hbytes,
        Text.decodeLenient_encodeUtf8, Proc.run_pure]
    rw [Builtin.call, Proc.run_attempt_bind, Builtin.run, hrun]
    rfl

end Hantec
