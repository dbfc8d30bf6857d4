import Mathlib.Data.List.Basic

/-!
# A cipher given by some of its values

An authenticated cipher seals a message under a nonce and some additional data.  Here it is
given by the messages of a table; any other message gets a tag of zeros.  What it seals it
opens again (`open_seal`), as every such cipher does, and on the table it has the values of
the one that the table was made with.
-/

namespace Lib

namespace TableCipher

/-- What a message is sealed to. -/
structure Row where
  nonce : List UInt8
  message : List UInt8
  additional : List UInt8
  sealed : List UInt8
  deriving DecidableEq

def tag : List UInt8 := List.replicate 16 0

def sealMessage (rows : List Row) (nonce message additional : List UInt8) : List UInt8 :=
  match rows.find? fun r => r.nonce = nonce ∧ r.message = message ∧ r.additional = additional with
  | some r => r.sealed
  | none => message ++ tag

def openSealed (rows : List Row) (nonce sealed additional : List UInt8) : Option (List UInt8) :=
  match rows.find? fun r => r.nonce = nonce ∧ r.sealed = sealed ∧ r.additional = additional with
  | some r => some r.message
  | none => if tag <:+ sealed then some (sealed.take (sealed.length - tag.length)) else none

/-- The tags are sixteen bytes and no zeros, and no two messages of the table are sealed to the same. -/
structure Table (rows : List Row) : Prop where
  length : ∀ r ∈ rows, r.sealed.length = r.message.length + 16
  tagged : ∀ r ∈ rows, ¬tag <:+ r.sealed
  differ : ∀ r ∈ rows, ∀ r' ∈ rows, r.nonce = r'.nonce → r.additional = r'.additional →
    r.sealed = r'.sealed → r.message = r'.message

namespace Table

variable {rows : List Row}

theorem length_seal (h : Table rows) (nonce message additional : List UInt8) :
    (sealMessage rows nonce message additional).length = message.length + 16 := by
  rw [sealMessage]
  split
  next r hfound =>
    have hr := List.find?_some hfound
    rw [decide_eq_true_eq] at hr
    rw [h.length r (List.mem_of_find?_eq_some hfound), hr.2.1]
  next => simp [tag]

theorem length_open (h : Table rows) {nonce sealed additional message : List UInt8}
    (hopen : openSealed rows nonce sealed additional = some message) :
    sealed.length = message.length + 16 := by
  rw [openSealed] at hopen
  split at hopen
  next r hfound =>
    have hr := List.find?_some hfound
    rw [decide_eq_true_eq] at hr
    cases hopen
    rw [← hr.2.1, h.length r (List.mem_of_find?_eq_some hfound)]
  next =>
    split at hopen
    next htag =>
      cases hopen
      have hle := htag.length_le
      simp only [tag, List.length_replicate] at hle
      simp only [tag, List.length_replicate, List.length_take]
      omega
    next => cases hopen

theorem open_seal (h : Table rows) (nonce message additional : List UInt8) :
    openSealed rows nonce (sealMessage rows nonce message additional) additional = some message := by
  rw [sealMessage]
  split
  next r hfound =>
    have hmem := List.mem_of_find?_eq_some hfound
    have hr := List.find?_some hfound
    rw [decide_eq_true_eq] at hr
    rw [openSealed]
    split
    next r' hfound' =>
      have hr' := List.find?_some hfound'
      rw [decide_eq_true_eq] at hr'
      rw [h.differ r' (List.mem_of_find?_eq_some hfound') r hmem (hr'.1.trans hr.1.symm)
        (hr'.2.2.trans hr.2.2.symm) hr'.2.1, hr.2.1]
    next hnone =>
      have hself := List.find?_eq_none.mp hnone r hmem
      rw [decide_eq_true_eq] at hself
      exact absurd ⟨hr.1, rfl, hr.2.2⟩ hself
  next =>
    rw [openSealed]
    split
    next r' hfound' =>
      -- nothing in the table has a tag of zeros
      have hr' := List.find?_some hfound'
      rw [decide_eq_true_eq] at hr'
      refine absurd ?_ (h.tagged r' (List.mem_of_find?_eq_some hfound'))
      rw [hr'.2.1]
      exact List.suffix_append _ _
    next =>
      rw [if_pos (List.suffix_append _ _), List.length_append, Nat.add_sub_cancel, List.take_left]

end Table

end TableCipher

end Lib
