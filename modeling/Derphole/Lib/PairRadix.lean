import Mathlib.Data.List.GetD
import Mathlib.Data.List.Nodup
import Mathlib.Tactic.Ring

/-!
# Bytes in pairs, as digits of another base

Two bytes are a number below `65536` and become three digits, the least first; a last single byte
becomes two.  Only numbers that fit are decoded, so each text has one list of bytes and each list of
bytes one text.
-/

namespace Lib

namespace PairRadix

/-- The place of a character in the alphabet. -/
def value (alphabet : List UInt8) (c : UInt8) : Option Nat :=
  if c ∈ alphabet then some (alphabet.idxOf c) else none

section

variable (alphabet : List UInt8)

def digit (n : Nat) : UInt8 := alphabet.getD n 0

def encode : List UInt8 → List UInt8
  | hi :: lo :: rest =>
      let n := 256 * hi.toNat + lo.toNat
      digit alphabet (n % alphabet.length) ::
        digit alphabet (n / alphabet.length % alphabet.length) ::
          digit alphabet (n / alphabet.length / alphabet.length) :: encode rest
  | [b] => [digit alphabet (b.toNat % alphabet.length), digit alphabet (b.toNat / alphabet.length)]
  | [] => []

def decode : List UInt8 → Option (List UInt8)
  | c₀ :: c₁ :: c₂ :: rest => do
      let v₀ ← value alphabet c₀
      let v₁ ← value alphabet c₁
      let v₂ ← value alphabet c₂
      let n := v₀ + v₁ * alphabet.length + v₂ * alphabet.length * alphabet.length
      if n > 0xffff then none
      else do
        let bytes ← decode rest
        some (UInt8.ofNat (n / 256) :: UInt8.ofNat (n % 256) :: bytes)
  | [c₀, c₁] => do
      let v₀ ← value alphabet c₀
      let v₁ ← value alphabet c₁
      let n := v₀ + v₁ * alphabet.length
      if n > 0xff then none else some [UInt8.ofNat n]
  | [_] => none
  | [] => some []

end

/-- No character twice, and enough of them for two bytes in three digits and one in two. -/
structure Enough (alphabet : List UInt8) : Prop where
  nodup : alphabet.Nodup
  three : 65536 ≤ alphabet.length * alphabet.length * alphabet.length
  two : 256 ≤ alphabet.length * alphabet.length

variable {alphabet : List UInt8}

theorem value_digit (hnodup : alphabet.Nodup) {n : Nat} (hn : n < alphabet.length) :
    value alphabet (digit alphabet n) = some n := by
  rw [digit, List.getD_eq_getElem _ _ hn, value, if_pos (List.getElem_mem hn), hnodup.idxOf_getElem]

theorem digit_value {c : UInt8} {n : Nat} (h : value alphabet c = some n) :
    n < alphabet.length ∧ digit alphabet n = c := by
  unfold value at h
  split at h
  · next hc =>
      cases h
      have hlt : alphabet.idxOf c < alphabet.length := List.idxOf_lt_length_of_mem hc
      exact ⟨hlt, by rw [digit, List.getD_eq_getElem _ _ hlt, List.getElem_idxOf]⟩
  · cases h

theorem length_encode (bytes : List UInt8) :
    (encode alphabet bytes).length = bytes.length / 2 * 3 + bytes.length % 2 * 2 := by
  induction bytes using encode.induct with
  | case1 hi lo rest ih =>
      rw [encode]
      simp only [List.length_cons, ih]
      omega
  | case2 b => simp [encode]
  | case3 => rfl

theorem encode_decode {text bytes : List UInt8} (hdecode : decode alphabet text = some bytes) :
    encode alphabet bytes = text := by
  induction text using decode.induct generalizing bytes with
  | case1 c₀ c₁ c₂ rest ih =>
      rw [decode] at hdecode
      obtain ⟨v₀, h₀, hrest₀⟩ := Option.bind_eq_some_iff.mp hdecode
      obtain ⟨v₁, h₁, hrest₁⟩ := Option.bind_eq_some_iff.mp hrest₀
      obtain ⟨v₂, h₂, hrest₂⟩ := Option.bind_eq_some_iff.mp hrest₁
      dsimp only at hrest₂
      split at hrest₂
      · cases hrest₂
      next hfits =>
        obtain ⟨tail, htail, hrest⟩ := Option.bind_eq_some_iff.mp hrest₂
        cases hrest
        obtain ⟨hlt₀, hc₀⟩ := digit_value h₀
        obtain ⟨hlt₁, hc₁⟩ := digit_value h₁
        obtain ⟨hlt₂, hc₂⟩ := digit_value h₂
        generalize hn : v₀ + v₁ * alphabet.length + v₂ * alphabet.length * alphabet.length = n at hfits
        have hpos : 0 < alphabet.length := by omega
        have hbytes : 256 * (UInt8.ofNat (n / 256)).toNat + (UInt8.ofNat (n % 256)).toNat = n := by
          rw [UInt8.toNat_ofNat', UInt8.toNat_ofNat']
          omega
        have hmod : n % alphabet.length = v₀ := by
          rw [← hn, Nat.add_mul_mod_self_right, Nat.add_mul_mod_self_right, Nat.mod_eq_of_lt hlt₀]
        have hdiv : n / alphabet.length = v₁ + v₂ * alphabet.length := by
          rw [← hn, Nat.add_mul_div_right _ _ hpos, Nat.add_mul_div_right _ _ hpos,
            Nat.div_eq_of_lt hlt₀, Nat.zero_add]
        rw [encode, ih htail, hbytes, hmod, hdiv, Nat.add_mul_mod_self_right, Nat.mod_eq_of_lt hlt₁,
          Nat.add_mul_div_right _ _ hpos, Nat.div_eq_of_lt hlt₁, Nat.zero_add, hc₀, hc₁, hc₂]
  | case2 c₀ c₁ =>
      rw [decode] at hdecode
      obtain ⟨v₀, h₀, hrest₀⟩ := Option.bind_eq_some_iff.mp hdecode
      obtain ⟨v₁, h₁, hrest₁⟩ := Option.bind_eq_some_iff.mp hrest₀
      dsimp only at hrest₁
      split at hrest₁
      · cases hrest₁
      next hfits =>
        cases hrest₁
        obtain ⟨hlt₀, hc₀⟩ := digit_value h₀
        obtain ⟨hlt₁, hc₁⟩ := digit_value h₁
        have hpos : 0 < alphabet.length := by omega
        have hbyte : (UInt8.ofNat (v₀ + v₁ * alphabet.length)).toNat = v₀ + v₁ * alphabet.length := by
          rw [UInt8.toNat_ofNat']
          omega
        rw [encode, hbyte, Nat.add_mul_mod_self_right, Nat.mod_eq_of_lt hlt₀, Nat.add_mul_div_right _ _ hpos,
          Nat.div_eq_of_lt hlt₀, Nat.zero_add, hc₀, hc₁]
  | case3 c => cases hdecode
  | case4 =>
      cases hdecode
      rfl

theorem decode_encode (h : Enough alphabet) (bytes : List UInt8) :
    decode alphabet (encode alphabet bytes) = some bytes := by
  have hthree := h.three
  have htwo := h.two
  have hpos : 0 < alphabet.length := by
    rcases Nat.eq_zero_or_pos alphabet.length with hzero | hpos
    · rw [hzero] at htwo
      simp at htwo
    · exact hpos
  induction bytes using encode.induct with
  | case1 hi lo rest ih =>
      have hhi := hi.toNat_lt
      have hlo := lo.toNat_lt
      rw [encode]
      generalize hbytes : 256 * hi.toNat + lo.toNat = n
      have hn : n < 65536 := by omega
      have htop : n / alphabet.length / alphabet.length < alphabet.length := by
        rw [Nat.div_div_eq_div_mul]
        exact Nat.div_lt_of_lt_mul (by omega)
      have hsum : n % alphabet.length + n / alphabet.length % alphabet.length * alphabet.length +
          n / alphabet.length / alphabet.length * alphabet.length * alphabet.length = n := by
        have h₁ := Nat.mod_add_div n alphabet.length
        have h₂ := Nat.mod_add_div (n / alphabet.length) alphabet.length
        calc n % alphabet.length + n / alphabet.length % alphabet.length * alphabet.length +
              n / alphabet.length / alphabet.length * alphabet.length * alphabet.length
            = n % alphabet.length + alphabet.length * (n / alphabet.length % alphabet.length +
                alphabet.length * (n / alphabet.length / alphabet.length)) := by ring
          _ = n := by rw [h₂, h₁]
      rw [decode, value_digit h.nodup (Nat.mod_lt _ hpos), value_digit h.nodup (Nat.mod_lt _ hpos),
        value_digit h.nodup htop, ih]
      simp only [Option.bind_eq_bind, Option.bind_some]
      rw [hsum, if_neg (by omega)]
      have hdiv : n / 256 = hi.toNat := by omega
      have hmod : n % 256 = lo.toNat := by omega
      simp [hdiv, hmod]
  | case2 b =>
      have hb := b.toNat_lt
      have htop : b.toNat / alphabet.length < alphabet.length := Nat.div_lt_of_lt_mul (by omega)
      have hsum : b.toNat % alphabet.length + b.toNat / alphabet.length * alphabet.length = b.toNat := by
        rw [Nat.mul_comm]
        exact Nat.mod_add_div _ _
      rw [encode, decode, value_digit h.nodup (Nat.mod_lt _ hpos), value_digit h.nodup htop]
      simp only [Option.bind_eq_bind, Option.bind_some]
      rw [hsum, if_neg (by omega), UInt8.ofNat_toNat]
  | case3 => rfl

end PairRadix

end Lib
