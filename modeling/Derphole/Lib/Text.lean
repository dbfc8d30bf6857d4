import Mathlib.Data.List.TakeWhile
import Mathlib.Data.Nat.Digits.Lemmas

/-!
# Texts

The bytes of a text, those that `%d` prints, and hexadecimal digits.  A decimal number is read off the
end of a text as soon as the part before it has a byte that no decimal number has.
-/

namespace Lib

/-- The bytes of a text of the source. -/
def ascii (s : String) : List UInt8 := s.toList.map fun c => UInt8.ofNat c.toNat

/-! ## Decimal numbers -/

/-- The decimal digits of a number as ASCII bytes. -/
def natDecimal (n : Nat) : List UInt8 :=
  if n = 0 then [48] else (Nat.digits 10 n).reverse.map fun d => UInt8.ofNat (48 + d)

/-- What `%d` prints. -/
def decimal : Int → List UInt8
  | .ofNat n => natDecimal n
  | .negSucc n => 45 :: natDecimal (n + 1)

/-- The byte is an ASCII digit or `-`. -/
def isDecimalByte (b : UInt8) : Bool := (48 ≤ b && b ≤ 57) || b == 45

/-- The number that the digits spell. -/
def ofDecimal (bytes : List UInt8) : Nat := bytes.foldl (fun n b => 10 * n + (b.toNat - 48)) 0

theorem toNat_digit {d : Nat} (h : d < 10) : (UInt8.ofNat (48 + d)).toNat = 48 + d := by
  rw [UInt8.toNat_ofNat']
  omega

theorem digit_of_mem_natDecimal {n : Nat} {b : UInt8} (h : b ∈ natDecimal n) :
    ∃ d < 10, b = UInt8.ofNat (48 + d) := by
  unfold natDecimal at h
  split at h
  · exact ⟨0, by omega, by simpa using h⟩
  · simp only [List.mem_map, List.mem_reverse] at h
    obtain ⟨d, hd, rfl⟩ := h
    exact ⟨d, Nat.digits_lt_base (by omega) hd, rfl⟩

theorem ofDecimal_digits (ds : List Nat) (h : ∀ d ∈ ds, d < 10) :
    ofDecimal (ds.reverse.map fun d => UInt8.ofNat (48 + d)) = Nat.ofDigits 10 ds := by
  induction ds with
  | nil => rfl
  | cons d ds ih =>
      have hd := toNat_digit (h d List.mem_cons_self)
      have hds := ih fun e he => h e (List.mem_cons_of_mem d he)
      simp only [ofDecimal] at hds
      simp only [ofDecimal, List.reverse_cons, List.map_append, List.foldl_append, hds, List.map_cons,
        List.map_nil, List.foldl_cons, List.foldl_nil, Nat.ofDigits_cons, hd]
      omega

theorem ofDecimal_natDecimal (n : Nat) : ofDecimal (natDecimal n) = n := by
  unfold natDecimal
  split
  · next h => rw [h]; rfl
  · rw [ofDecimal_digits _ fun d hd => Nat.digits_lt_base (by omega) hd, Nat.ofDigits_digits]

theorem natDecimal_injective : Function.Injective natDecimal :=
  Function.LeftInverse.injective ofDecimal_natDecimal

theorem length_natDecimal_le {n k : Nat} (hk : 0 < k) (h : n < 10 ^ k) : (natDecimal n).length ≤ k := by
  unfold natDecimal
  split
  · exact hk
  · rw [List.length_map, List.length_reverse]
    exact (Nat.digits_length_le_iff (by omega) n).mpr h

/-- A digit is not a sign. -/
theorem minus_notMem_natDecimal (n : Nat) : (45 : UInt8) ∉ natDecimal n := by
  intro h
  obtain ⟨d, hd, h45⟩ := digit_of_mem_natDecimal h
  have := toNat_digit hd
  rw [← h45] at this
  simp at this
  omega

theorem decimal_injective : Function.Injective decimal := by
  intro a b h
  cases a with
  | ofNat n =>
      cases b with
      | ofNat m => rw [natDecimal_injective h]
      | negSucc m =>
          simp only [decimal] at h
          exact absurd (h ▸ List.mem_cons_self) (minus_notMem_natDecimal n)
  | negSucc n =>
      cases b with
      | ofNat m =>
          simp only [decimal] at h
          exact absurd (h ▸ List.mem_cons_self) (minus_notMem_natDecimal m)
      | negSucc m =>
          have := natDecimal_injective (List.cons.inj h).2
          rw [Nat.succ.inj this]

theorem isDecimalByte_of_mem_natDecimal {n : Nat} {b : UInt8} (h : b ∈ natDecimal n) :
    isDecimalByte b = true := by
  obtain ⟨d, hd, rfl⟩ := digit_of_mem_natDecimal h
  have := toNat_digit hd
  simp only [isDecimalByte, Bool.or_eq_true, Bool.and_eq_true, decide_eq_true_eq, UInt8.le_iff_toNat_le,
    this]
  left
  simp
  omega

theorem isDecimalByte_of_mem_decimal {n : Int} {b : UInt8} (h : b ∈ decimal n) :
    isDecimalByte b = true := by
  cases n with
  | ofNat n => exact isDecimalByte_of_mem_natDecimal h
  | negSucc n =>
      rcases List.mem_cons.mp h with rfl | h
      · rfl
      · exact isDecimalByte_of_mem_natDecimal h

/-! ## The end of a text -/

section

variable {α : Type*} {p : α → Bool} {pre₁ pre₂ key tail₁ tail₂ : List α}

/-- The bytes at the end of a text that satisfy `p`, where `key` has one that does not. -/
theorem takeWhile_reverse_append (hkey : ∃ a ∈ key, p a = false) (htail : ∀ a ∈ tail₁, p a = true) :
    (pre₁ ++ key ++ tail₁).reverse.takeWhile p = tail₁.reverse ++ key.reverse.takeWhile p := by
  have hne : (key.reverse.takeWhile p).length ≠ key.reverse.length := by
    obtain ⟨a, ha, hp⟩ := hkey
    intro hlen
    have hall := (List.takeWhile_prefix p).eq_of_length hlen
    have hpa := List.takeWhile_eq_self_iff.mp hall a (List.mem_reverse.mpr ha)
    rw [hpa] at hp
    cases hp
  rw [List.reverse_append, List.takeWhile_append_of_pos fun a ha => htail a (List.mem_reverse.mp ha),
    List.reverse_append, List.takeWhile_append, if_neg hne]

/-- Between a prefix and a tail that satisfies `p` stands the same key, which does not: then both
are the same. -/
theorem append_key_append_inj (hkey : ∃ a ∈ key, p a = false) (h₁ : ∀ a ∈ tail₁, p a = true)
    (h₂ : ∀ a ∈ tail₂, p a = true) (h : pre₁ ++ key ++ tail₁ = pre₂ ++ key ++ tail₂) :
    pre₁ = pre₂ ∧ tail₁ = tail₂ := by
  have htail : tail₁.reverse ++ key.reverse.takeWhile p = tail₂.reverse ++ key.reverse.takeWhile p := by
    rw [← takeWhile_reverse_append hkey h₁, h, takeWhile_reverse_append hkey h₂]
  have htails : tail₁ = tail₂ := List.reverse_inj.mp (List.append_cancel_right htail)
  subst htails
  exact ⟨List.append_cancel_right (List.append_cancel_right h), rfl⟩

end

/-! ## Hexadecimal digits -/

def hexDigit (n : Nat) : UInt8 := if n < 10 then UInt8.ofNat (48 + n) else UInt8.ofNat (87 + n)

/-- Upper and lower case. -/
def ofHexDigit (b : UInt8) : Option Nat :=
  if 48 ≤ b ∧ b ≤ 57 then some (b.toNat - 48)
  else if 97 ≤ b ∧ b ≤ 102 then some (b.toNat - 87)
  else if 65 ≤ b ∧ b ≤ 70 then some (b.toNat - 55)
  else none

/-- `hex.EncodeToString`. -/
def hexEncode (bytes : List UInt8) : List UInt8 :=
  bytes.flatMap fun b => [hexDigit (b.toNat / 16), hexDigit (b.toNat % 16)]

/-- `hex.DecodeString`. -/
def hexDecode : List UInt8 → Option (List UInt8)
  | [] => some []
  | [_] => none
  | hi :: lo :: rest =>
      match ofHexDigit hi, ofHexDigit lo, hexDecode rest with
      | some h, some l, some bytes => some (UInt8.ofNat (16 * h + l) :: bytes)
      | _, _, _ => none

theorem ofHexDigit_hexDigit : ∀ n < 16, ofHexDigit (hexDigit n) = some n := by
  decide

theorem hexDecode_hexEncode (bytes : List UInt8) : hexDecode (hexEncode bytes) = some bytes := by
  induction bytes with
  | nil => rfl
  | cons b bytes ih =>
      have hb : b.toNat < 256 := b.toNat_lt
      have hhi := ofHexDigit_hexDigit (b.toNat / 16) (by omega)
      have hlo := ofHexDigit_hexDigit (b.toNat % 16) (by omega)
      have hbyte : UInt8.ofNat (16 * (b.toNat / 16) + b.toNat % 16) = b := by
        rw [Nat.div_add_mod]
        simp
      simp only [hexEncode] at ih
      simp only [hexEncode, List.flatMap_cons, List.cons_append, List.nil_append, hexDecode, hhi, hlo,
        ih, hbyte]

end Lib
