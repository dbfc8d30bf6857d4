import Mathlib.Data.List.Basic

/-!
# Base64

`base64.RawURLEncoding` of Go's standard library, for URLs and without padding.  Three bytes are
four digits of six bits each; one or two bytes at the end are two or three digits, whose last bits
are zero.  Decoding skips line breaks and does not look at those last bits, so that several texts
decode to the same bytes.  `base64.StdEncoding` has two other digits and pads.
-/

namespace Lib

namespace Base64

/-- The digit of a value below 64: letters, numbers, `-` and `_`. -/
def digit (n : Nat) : UInt8 :=
  if n < 26 then UInt8.ofNat (65 + n)
  else if n < 52 then UInt8.ofNat (71 + n)
  else if n < 62 then UInt8.ofNat (n - 4)
  else if n = 62 then 45
  else 95

def ofDigit (b : UInt8) : Option Nat :=
  if 65 ≤ b ∧ b ≤ 90 then some (b.toNat - 65)
  else if 97 ≤ b ∧ b ≤ 122 then some (b.toNat - 71)
  else if 48 ≤ b ∧ b ≤ 57 then some (b.toNat + 4)
  else if b = 45 then some 62
  else if b = 95 then some 63
  else none

/-- The values of the digits. -/
def sextets : List UInt8 → List Nat
  | a :: b :: c :: rest =>
      a.toNat / 4 :: (a.toNat % 4 * 16 + b.toNat / 16) :: (b.toNat % 16 * 4 + c.toNat / 64) ::
        c.toNat % 64 :: sextets rest
  | [a, b] => [a.toNat / 4, a.toNat % 4 * 16 + b.toNat / 16, b.toNat % 16 * 4]
  | [a] => [a.toNat / 4, a.toNat % 4 * 16]
  | [] => []

/-- The bytes of the values, four at a time.  One digit alone is an error. -/
def ofSextets : List Nat → Option (List UInt8)
  | w :: x :: y :: z :: rest =>
      (ofSextets rest).map fun bytes =>
        UInt8.ofNat (w * 4 + x / 16) :: UInt8.ofNat (x % 16 * 16 + y / 4) ::
          UInt8.ofNat (y % 4 * 64 + z) :: bytes
  | [w, x, y] => some [UInt8.ofNat (w * 4 + x / 16), UInt8.ofNat (x % 16 * 16 + y / 4)]
  | [w, x] => some [UInt8.ofNat (w * 4 + x / 16)]
  | [_] => none
  | [] => some []

/-- `RawURLEncoding.EncodeToString`. -/
def encodeToString (bytes : List UInt8) : List UInt8 := (sextets bytes).map digit

/-- `StdEncoding.EncodeToString`: `+` and `/` for the last two digits, and `=`
up to a multiple of four. -/
def stdEncodeToString (bytes : List UInt8) : List UInt8 :=
  (sextets bytes).map (fun n => if n = 62 then 43 else if n = 63 then 47 else digit n) ++
    List.replicate ((4 - (sextets bytes).length % 4) % 4) 61

/-- The byte is `\n` or `\r`. -/
def isLineBreak (b : UInt8) : Bool := b == 10 || b == 13

/-- `RawURLEncoding.DecodeString`.  The position in the error is left out. -/
def decodeString (s : List UInt8) : Option (List UInt8) :=
  ((s.filter fun b => !isLineBreak b).mapM ofDigit).bind ofSextets

theorem ofDigit_digit : ∀ n < 64, ofDigit (digit n) = some n ∧ isLineBreak (digit n) = false := by
  decide

theorem sextets_lt (bytes : List UInt8) : ∀ n ∈ sextets bytes, n < 64 := by
  induction bytes using sextets.induct with
  | case1 a b c rest ih =>
      have ha := a.toNat_lt
      have hb := b.toNat_lt
      have hc := c.toNat_lt
      intro n hn
      simp only [sextets, List.mem_cons] at hn
      rcases hn with rfl | rfl | rfl | rfl | hn
      · omega
      · omega
      · omega
      · omega
      · exact ih n hn
  | case2 a b =>
      have ha := a.toNat_lt
      have hb := b.toNat_lt
      intro n hn
      simp only [sextets, List.mem_cons, List.not_mem_nil, or_false] at hn
      omega
  | case3 a =>
      have ha := a.toNat_lt
      intro n hn
      simp only [sextets, List.mem_cons, List.not_mem_nil, or_false] at hn
      omega
  | case4 =>
      intro n hn
      cases hn

theorem ofNat_eq_of {b : UInt8} {n : Nat} (h : n = b.toNat) : UInt8.ofNat n = b := by
  rw [h, UInt8.ofNat_toNat]

theorem ofSextets_sextets (bytes : List UInt8) : ofSextets (sextets bytes) = some bytes := by
  induction bytes using sextets.induct with
  | case1 a b c rest ih =>
      have hb := b.toNat_lt
      have hc := c.toNat_lt
      rw [sextets, ofSextets, ih, Option.map_some, ofNat_eq_of (b := a) (by omega),
        ofNat_eq_of (b := b) (by omega), ofNat_eq_of (b := c) (by omega)]
  | case2 a b =>
      have hb := b.toNat_lt
      rw [sextets, ofSextets, ofNat_eq_of (b := a) (by omega), ofNat_eq_of (b := b) (by omega)]
  | case3 a => rw [sextets, ofSextets, ofNat_eq_of (b := a) (by omega)]
  | case4 => rfl

/-- What was encoded is decoded. -/
theorem decodeString_encodeToString (bytes : List UInt8) :
    decodeString (encodeToString bytes) = some bytes := by
  have hlt := sextets_lt bytes
  have hfilter : (encodeToString bytes).filter (fun b => !isLineBreak b) = encodeToString bytes := by
    rw [List.filter_eq_self]
    intro b hb
    obtain ⟨n, hn, rfl⟩ := List.mem_map.mp hb
    rw [(ofDigit_digit n (hlt n hn)).2]
    rfl
  have hdigits : ∀ ns : List Nat, (∀ n ∈ ns, n < 64) → (ns.map digit).mapM ofDigit = some ns := by
    intro ns
    induction ns with
    | nil => exact fun _ => rfl
    | cons n ns ih =>
        intro hns
        have hhead := (ofDigit_digit n (hns n List.mem_cons_self)).1
        have htail := ih fun m hm => hns m (List.mem_cons_of_mem n hm)
        simp [List.mapM_cons, hhead, htail]
  rw [decodeString, hfilter, encodeToString, hdigits _ hlt, Option.bind_some, ofSextets_sextets]

end Base64

end Lib
