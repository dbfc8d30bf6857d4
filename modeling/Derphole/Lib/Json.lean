import Derphole.Lib.Base64
import Derphole.Lib.Text

/-!
# Writing JSON

What Go's `encoding/json` writes for strings, byte slices, numbers and objects.
A string is its bytes.  Bytes that are no UTF-8 are replaced, and the characters
that HTML or JavaScript could mistake are escaped, as `json.Marshal` does by
default.

`length_quote` says how long a string is in which nothing needs an escape.
-/

namespace Lib

namespace Json

/-- One byte below 128 inside a string. -/
def escape (b : UInt8) : List UInt8 :=
  if b = 34 ∨ b = 92 then [92, b]
  else if b = 8 then ascii "\\b"
  else if b = 12 then ascii "\\f"
  else if b = 10 then ascii "\\n"
  else if b = 13 then ascii "\\r"
  else if b = 9 then ascii "\\t"
  else if b < 32 ∨ b = 38 ∨ b = 60 ∨ b = 62 then
    ascii "\\u00" ++ [hexDigit (b.toNat / 16), hexDigit (b.toNat % 16)]
  else [b]

/-- The byte continues a character. -/
def isTail (b : UInt8) : Bool := 0x80 ≤ b && b ≤ 0xBF

/-- The length of the character at the front, whose first byte is not below
128. -/
def runeLen : List UInt8 → Option Nat
  | a :: b :: rest =>
      if 0xC2 ≤ a ∧ a ≤ 0xDF then (if isTail b then some 2 else none)
      else
        match rest with
        | [] => none
        | c :: rest =>
            if a = 0xE0 ∧ 0xA0 ≤ b ∧ b ≤ 0xBF ∨ 0xE1 ≤ a ∧ a ≤ 0xEC ∧ isTail b ∨
                a = 0xED ∧ 0x80 ≤ b ∧ b ≤ 0x9F ∨ 0xEE ≤ a ∧ a ≤ 0xEF ∧ isTail b then
              (if isTail c then some 3 else none)
            else
              match rest with
              | [] => none
              | d :: _ =>
                  if a = 0xF0 ∧ 0x90 ≤ b ∧ b ≤ 0xBF ∨ 0xF1 ≤ a ∧ a ≤ 0xF3 ∧ isTail b ∨
                      a = 0xF4 ∧ 0x80 ≤ b ∧ b ≤ 0x8F then
                    (if isTail c && isTail d then some 4 else none)
                  else none
  | _ => none

/-- The line separators U+2028 and U+2029, which are escaped. -/
def lineSeparator : List UInt8 → Option (List UInt8)
  | 0xE2 :: 0x80 :: 0xA8 :: _ => some (ascii "\\u2028")
  | 0xE2 :: 0x80 :: 0xA9 :: _ => some (ascii "\\u2029")
  | _ => none

/-- The inside of a string.  The next `skip` bytes belong to a character already
seen; they are copied, or dropped when that character was escaped. -/
def quoteFrom : (skip : Nat) → (copy : Bool) → List UInt8 → List UInt8
  | _, _, [] => []
  | k + 1, copy, b :: rest => (if copy then [b] else []) ++ quoteFrom k copy rest
  | 0, _, b :: rest =>
      if b < 128 then escape b ++ quoteFrom 0 true rest
      else
        match runeLen (b :: rest) with
        | none => ascii "\\ufffd" ++ quoteFrom 0 true rest
        | some n =>
            match lineSeparator (b :: rest) with
            | some text => text ++ quoteFrom (n - 1) false rest
            | none => b :: quoteFrom (n - 1) true rest

def quote (s : List UInt8) : List UInt8 := 34 :: quoteFrom 0 true s ++ [34]

/-- A byte slice is a string of base64. -/
def quoteBytes (bytes : List UInt8) : List UInt8 := 34 :: Base64.stdEncodeToString bytes ++ [34]

def number (n : Int64) : List UInt8 := decimal n.toInt

/-- The members of an object, keys first. -/
def members : List (String × List UInt8) → List UInt8
  | [] => []
  | [(key, value)] => quote (ascii key) ++ 58 :: value
  | (key, value) :: rest => quote (ascii key) ++ 58 :: value ++ 44 :: members rest

def object (fields : List (String × List UInt8)) : List UInt8 := 123 :: members fields ++ [125]

def array (values : List (List UInt8)) : List UInt8 := 91 :: ([44] : List UInt8).intercalate values ++ [93]

def bool (b : Bool) : List UInt8 := ascii (if b then "true" else "false")

/-- A member with `omitempty`. -/
def omitEmpty (empty : Bool) (key : String) (value : List UInt8) : List (String × List UInt8) :=
  if empty then [] else [(key, value)]

/-! ## Lengths -/

/-- The byte stands for itself inside a string. -/
def Plain (b : UInt8) : Prop := b < 128 ∧ escape b = [b]

instance (b : UInt8) : Decidable (Plain b) := inferInstanceAs (Decidable (_ ∧ _))

theorem quoteFrom_plain {s : List UInt8} (h : ∀ b ∈ s, Plain b) : quoteFrom 0 true s = s := by
  induction s with
  | nil => rfl
  | cons b s ih =>
      obtain ⟨hlt, hesc⟩ := h b (by simp)
      rw [quoteFrom, if_pos hlt, hesc, ih fun c hc => h c (by simp [hc])]
      rfl

theorem length_quote {s : List UInt8} (h : ∀ b ∈ s, Plain b) : (quote s).length = s.length + 2 := by
  rw [quote, quoteFrom_plain h]
  simp

/-- The length of the members does not depend on a value but for its length. -/
theorem length_members_congr {before after : List (String × List UInt8)} {key : String}
    {v v' : List UInt8} (h : v.length = v'.length) :
    (members (before ++ (key, v) :: after)).length = (members (before ++ (key, v') :: after)).length := by
  induction before with
  | nil =>
      cases after with
      | nil => simp [members, h]
      | cons a after => simp [members, h]
  | cons f before ih =>
      have hstep : ∀ fs, fs ≠ [] → members (f :: fs) = quote (ascii f.1) ++ 58 :: f.2 ++ 44 :: members fs := by
        intro fs hfs
        cases fs with
        | nil => exact absurd rfl hfs
        | cons g fs => rfl
      rw [List.cons_append, List.cons_append, hstep _ (by simp), hstep _ (by simp)]
      simp [ih]

theorem length_value_le (key : String) (value : List UInt8) (fields : List (String × List UInt8)) :
    value.length ≤ (members ((key, value) :: fields)).length := by
  cases fields with
  | nil =>
      simp only [members, List.length_append, List.length_cons]
      omega
  | cons g fields =>
      simp only [members, List.length_append, List.length_cons]
      omega

/-- A member is its key, a colon, its value and at most one comma. -/
theorem length_members_le (fields : List (String × List UInt8)) :
    (members fields).length ≤
      (fields.map fun f => (quote (ascii f.1)).length + f.2.length + 2).sum := by
  induction fields with
  | nil => rfl
  | cons f fields ih =>
      obtain ⟨key, value⟩ := f
      cases fields with
      | nil =>
          simp only [members, List.length_append, List.length_cons, List.map_cons, List.map_nil,
            List.sum_cons, List.sum_nil]
          omega
      | cons g fields =>
          rw [List.map_cons, List.sum_cons]
          simp only [members, List.length_append, List.length_cons]
          omega

end Json

end Lib
