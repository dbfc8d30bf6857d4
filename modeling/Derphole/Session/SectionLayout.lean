import Derphole.Lib.Tiling
import Mathlib.Algebra.BigOperators.Group.List.Basic

/-!
# Sections of a stream

`externalDirectUDPReceiveSectionLayout` and `externalDirectUDPSectionSizes` of
`pkg/session/external_direct_udp.go`, by which a receiver lays out the lanes of a transfer in a file, and
`externalDirectUDPSpoolDiscardLanes`, by which a sender cuts a source into lanes.

The sizes may come from the peer.  They are added up as `int64`s, and only the last sum is compared with the
size of the transfer, so sizes that add up to more than `2 ^ 64` may pass (`section_layout_iff`).
-/

namespace Session

open Lib

inductive SectionError where
  | noPacketConns
  | tooManySections (count : Nat) (lanes : Int64)
  | negativeSize (lane : Nat)
  | totalMismatch (offset totalBytes : Int64)
  deriving DecidableEq

/-! ## The receiver -/

/-- The loop over equal lanes from lane `i` on: the sizes and the offsets. -/
def equalSections (base extra : Int64) : Nat → Nat → Int64 → List Int64 × List Int64
  | 0, _, _ => ([], [])
  | lanes + 1, i, offset =>
      let size := if Int64.ofNat i < extra then base + 1 else base
      let rest := equalSections base extra lanes (i + 1) (offset + size)
      (size :: rest.1, offset :: rest.2)

def externalDirectUDPSectionSizes (totalBytes lanes : Int64) : List Int64 × List Int64 :=
  if lanes ≤ 0 then ([], [])
  else equalSections (totalBytes / lanes) (totalBytes % lanes) lanes.toNatClampNeg 0 0

/-- The loop over the sizes from lane `i` on: the offsets, and where the last section ends. -/
def sectionOffsets : Nat → Int64 → List Int64 → Except SectionError (List Int64 × Int64)
  | _, offset, [] => .ok ([], offset)
  | i, offset, size :: sizes =>
      if size < 0 then .error (.negativeSize i)
      else
        match sectionOffsets (i + 1) (offset + size) sizes with
        | .error e => .error e
        | .ok (offsets, total) => .ok (offset :: offsets, total)

/-- The sizes and the offsets of the sections. -/
def externalDirectUDPReceiveSectionLayout (totalBytes connCount : Int64) (sectionSizes : List Int64) :
    Except SectionError (List Int64 × List Int64) :=
  if connCount ≤ 0 then .error .noPacketConns
  else if sectionSizes.length = 0 then .ok (externalDirectUDPSectionSizes totalBytes connCount)
  else if sectionSizes.length > connCount.toInt then .error (.tooManySections sectionSizes.length connCount)
  else
    match sectionOffsets 0 0 sectionSizes with
    | .error e => .error e
    | .ok (offsets, offset) =>
        if offset ≠ totalBytes then .error (.totalMismatch offset totalBytes)
        else .ok (sectionSizes, offsets)

/-! ## The sender -/

inductive SpoolDiscardError where
  | noLanes
  | cancelled
  | write
  | read
  deriving DecidableEq

/-- What comes with the bytes of a read. -/
inductive ReadEnd where
  | more
  | eof
  | failed
  deriving DecidableEq

structure DiscardSpool where
  file : List UInt8
  offsets : List Int64
  sizes : List Int64
  totalBytes : Int64
  deriving DecidableEq

/-- The loop that copies the source, given by its reads, into a file.  A file cannot grow beyond the offsets
that there are.  A source without another read is one that never answers, until the context is
cancelled. -/
def spoolSource : List (List UInt8 × ReadEnd) → List UInt8 → Int64 →
    Except SpoolDiscardError (List UInt8 × Int64)
  | [], _, _ => .error .cancelled
  | (bytes, result) :: reads, file, totalBytes =>
      if file.length + bytes.length ≥ 2 ^ 63 then .error .write
      else
        match result with
        | .eof => .ok (file ++ bytes, totalBytes + Int64.ofNat bytes.length)
        | .failed => .error .read
        | .more => spoolSource reads (file ++ bytes) (totalBytes + Int64.ofNat bytes.length)

def externalDirectUDPSpoolDiscardLanes (reads : List (List UInt8 × ReadEnd)) (lanes : Int64) :
    Except SpoolDiscardError DiscardSpool :=
  if lanes ≤ 0 then .error .noLanes
  else
    match spoolSource reads [] 0 with
    | .error e => .error e
    | .ok (file, totalBytes) =>
        let cut := equalSections (totalBytes / lanes) (totalBytes % lanes) lanes.toNatClampNeg 0 0
        .ok ⟨file, cut.2, cut.1, totalBytes⟩

/-! ## Layouts over the integers -/

/-- Sections as offsets and sizes over the integers. -/
def sections (offsets sizes : List Int64) : List (Int × Int) :=
  List.zipWith (fun offset size => (offset.toInt, size.toInt)) offsets sizes

def toInts (sizes : List Int64) : List Int := sizes.map Int64.toInt

theorem toInt_add_of_lt {a b : Int64} (ha : 0 ≤ a.toInt) (hb : 0 ≤ b.toInt)
    (h : a.toInt + b.toInt < 2 ^ 63) : (a + b).toInt = a.toInt + b.toInt := by
  rw [Int64.toInt_add, Int.bmod_def]
  omega

theorem nonneg_iff (a : Int64) : 0 ≤ a.toInt ↔ ¬ a < 0 := by
  rw [Int64.lt_iff_toInt_lt, Int64.toInt_zero]
  omega

variable {sizes offsets : List Int64} {offset total : Int64} {i : Nat}

/-- What the loop returns has an offset for each size, and no size is negative. -/
theorem sectionOffsets_sound (h : sectionOffsets i offset sizes = .ok (offsets, total)) :
    offsets.length = sizes.length ∧ ∀ s ∈ toInts sizes, 0 ≤ s := by
  induction sizes generalizing i offset offsets with
  | nil =>
      cases h
      exact ⟨rfl, by simp [toInts]⟩
  | cons size sizes ih =>
      rw [sectionOffsets] at h
      split at h
      · cases h
      next hsize =>
        cases hrest : sectionOffsets (i + 1) (offset + size) sizes with
        | error e => rw [hrest] at h; cases h
        | ok result =>
            rw [hrest] at h
            cases h
            obtain ⟨hlength, hnonneg⟩ := ih hrest
            refine ⟨congrArg (· + 1) hlength, ?_⟩
            exact List.forall_mem_cons.mpr ⟨(nonneg_iff size).mpr hsize, hnonneg⟩

/-- The offsets are exact as long as the sizes add up to an `int64`. -/
theorem sectionOffsets_exact (h : sectionOffsets i offset sizes = .ok (offsets, total))
    (hoffset : 0 ≤ offset.toInt) (hsum : offset.toInt + (toInts sizes).sum < 2 ^ 63) :
    sections offsets sizes = sectionsFrom offset.toInt (toInts sizes) ∧
      total.toInt = offset.toInt + (toInts sizes).sum := by
  induction sizes generalizing i offset offsets with
  | nil =>
      cases h
      exact ⟨rfl, by simp [toInts]⟩
  | cons size sizes ih =>
      obtain ⟨-, hnonneg⟩ := sectionOffsets_sound h
      obtain ⟨hsize, hrest⟩ := List.forall_mem_cons.mp hnonneg
      have hrestSum : 0 ≤ (toInts sizes).sum := List.sum_nonneg hrest
      rw [toInts, List.map_cons, List.sum_cons, ← toInts] at hsum
      have hnext : (offset + size).toInt = offset.toInt + size.toInt :=
        toInt_add_of_lt hoffset hsize (by omega)
      rw [sectionOffsets, if_neg ((nonneg_iff size).mp hsize)] at h
      cases hloop : sectionOffsets (i + 1) (offset + size) sizes with
      | error e => rw [hloop] at h; cases h
      | ok result =>
          rw [hloop] at h
          cases h
          obtain ⟨hsecs, htotal⟩ := ih hloop (by omega) (by omega)
          rw [hnext] at hsecs htotal
          refine ⟨?_, ?_⟩
          · rw [sections, List.zipWith_cons_cons, ← sections, hsecs]
            rfl
          · rw [htotal, toInts, toInts, List.map_cons, List.sum_cons, Int.add_assoc]

theorem map_snd_sections (h : offsets.length = sizes.length) :
    (sections offsets sizes).map Prod.snd = toInts sizes := by
  rw [sections, List.map_zipWith]
  induction sizes generalizing offsets with
  | nil => simp [toInts]
  | cons size sizes ih =>
      cases offsets with
      | nil => cases h
      | cons offset offsets =>
          rw [List.zipWith_cons_cons, ih (Nat.succ.inj h)]
          rfl

/-- Offsets that the loop found tile the transfer just when the sizes add up to an `int64`. -/
theorem sectionOffsets_tiles_iff (htotal : 0 ≤ total.toInt)
    (h : sectionOffsets 0 0 sizes = .ok (offsets, total)) :
    Tiles 0 total.toInt (sections offsets sizes) ↔ (toInts sizes).sum < 2 ^ 63 := by
  obtain ⟨hlength, hnonneg⟩ := sectionOffsets_sound h
  have hsizes := map_snd_sections hlength
  rw [tiles_iff htotal, hsizes]
  constructor
  · rintro ⟨-, -, hsum⟩
    have hlt := total.toInt_lt
    omega
  · intro hsum
    obtain ⟨hsecs, heq⟩ := sectionOffsets_exact h (by simp) (by simpa using hsum)
    rw [Int64.toInt_zero] at hsecs heq
    refine ⟨?_, hsecs, heq.symm⟩
    intro s hs
    refine hnonneg s.2 ?_
    rw [← hsizes]
    exact List.mem_map_of_mem hs

/-! ## Equal lanes -/

theorem equalSize_eq {base extra : Nat} (hextra : extra < 2 ^ 63) (hi : i < 2 ^ 63) :
    (if Int64.ofNat i < Int64.ofNat extra then Int64.ofNat base + 1 else Int64.ofNat base) =
      Int64.ofNat (if i < extra then base + 1 else base) := by
  simp only [Int64.ofNat_lt_iff_lt hi hextra]
  split
  · rw [Int64.ofNat_add]
    rfl
  · rfl

/-- Equal lanes pass the loop over the sizes with the offsets they were given, and add up to what the lanes
share and what is left over. -/
theorem equalSections_spec {base extra : Nat} (lanes : Nat) (hsize : base + min extra 1 < 2 ^ 63)
    (hextra : extra < 2 ^ 63) (i j offset : Nat) (hlanes : i + lanes < 2 ^ 63) :
    let cut := equalSections (Int64.ofNat base) (Int64.ofNat extra) lanes i (Int64.ofNat offset)
    let sum := lanes * base + (min (i + lanes) extra - min i extra)
    cut.1.length = lanes ∧ (toInts cut.1).sum = sum ∧
      sectionOffsets j (Int64.ofNat offset) cut.1 = .ok (cut.2, Int64.ofNat (offset + sum)) := by
  induction lanes generalizing i j offset with
  | zero => simp [equalSections, toInts, sectionOffsets]
  | succ lanes ih =>
      have hsmall : (if i < extra then base + 1 else base) < 2 ^ 63 := by split <;> omega
      have hsum : (lanes + 1) * base + (min (i + (lanes + 1)) extra - min i extra) =
          (if i < extra then base + 1 else base) +
            (lanes * base + (min (i + 1 + lanes) extra - min (i + 1) extra)) := by
        rw [Nat.succ_mul]
        split <;> omega
      dsimp only [equalSections]
      rw [equalSize_eq hextra (by omega), hsum, ← Int64.ofNat_add]
      obtain ⟨hlength, hsizes, hloop⟩ :=
        ih (i + 1) (j + 1) (offset + if i < extra then base + 1 else base) (by omega)
      refine ⟨by rw [List.length_cons, hlength], ?_, ?_⟩
      · rw [toInts, List.map_cons, List.sum_cons, ← toInts, hsizes, Int64.toInt_ofNat_of_lt hsmall]
        push_cast
        rfl
      · have hnonneg := Int64.zero_le_ofNat_of_lt hsmall
        rw [sectionOffsets, if_neg (Int64.not_lt.mpr hnonneg), ← Int64.ofNat_add, hloop]
        dsimp only
        rw [Nat.add_assoc]

/-- The lanes that a size is cut into pass the loop over the sizes, which ends at that size. -/
theorem externalDirectUDPSectionSizes_spec {totalBytes lanes : Int64} (htotal : 0 ≤ totalBytes)
    (hlanes : 0 < lanes) :
    let cut := externalDirectUDPSectionSizes totalBytes lanes
    (cut.1.length : Int) = lanes.toInt ∧ (toInts cut.1).sum = totalBytes.toInt ∧
      sectionOffsets 0 0 cut.1 = .ok (cut.2, totalBytes) := by
  have hnonneg := Int64.le_of_lt hlanes
  have hlt := totalBytes.toNatClampNeg_lt
  have hlanesLt := lanes.toNatClampNeg_lt
  have hpos : 0 < lanes.toNatClampNeg := (Int64.toNatClampNeg_pos_iff lanes).mpr hlanes
  have hsplit := Nat.div_add_mod totalBytes.toNatClampNeg lanes.toNatClampNeg
  have hmod := Nat.mod_lt totalBytes.toNatClampNeg hpos
  have hbase := Nat.le_mul_of_pos_left (totalBytes.toNatClampNeg / lanes.toNatClampNeg) hpos
  have hsmall : totalBytes.toNatClampNeg / lanes.toNatClampNeg +
      min (totalBytes.toNatClampNeg % lanes.toNatClampNeg) 1 < 2 ^ 63 := by omega
  have hdiv : totalBytes / lanes = Int64.ofNat (totalBytes.toNatClampNeg / lanes.toNatClampNeg) := by
    rw [Int64.ofNat_div hlt hlanesLt, Int64.ofNat_toNatClampNeg _ htotal,
      Int64.ofNat_toNatClampNeg _ hnonneg]
  have hrest : totalBytes % lanes = Int64.ofNat (totalBytes.toNatClampNeg % lanes.toNatClampNeg) := by
    rw [Int64.ofNat_mod hlt hlanesLt, Int64.ofNat_toNatClampNeg _ htotal,
      Int64.ofNat_toNatClampNeg _ hnonneg]
  obtain ⟨hlength, hsizes, hloop⟩ :=
    equalSections_spec lanes.toNatClampNeg hsmall (by omega) 0 0 0 (by omega)
  have hsum : lanes.toNatClampNeg * (totalBytes.toNatClampNeg / lanes.toNatClampNeg) +
      (min (0 + lanes.toNatClampNeg) (totalBytes.toNatClampNeg % lanes.toNatClampNeg) -
        min 0 (totalBytes.toNatClampNeg % lanes.toNatClampNeg)) = totalBytes.toNatClampNeg := by
    omega
  rw [externalDirectUDPSectionSizes, if_neg (Int64.not_le.mpr hlanes), hdiv, hrest]
  rw [hsum] at hsizes hloop
  rw [Nat.zero_add, Int64.ofNat_toNatClampNeg _ htotal] at hloop
  refine ⟨?_, ?_, hloop⟩
  · exact (congrArg Nat.cast hlength).trans (Int64.cast_toNatClampNeg _ hnonneg)
  · exact hsizes.trans (Int64.cast_toNatClampNeg _ htotal)

theorem tiles_externalDirectUDPSectionSizes {totalBytes lanes : Int64} (htotal : 0 ≤ totalBytes)
    (hlanes : 0 < lanes) :
    Tiles 0 totalBytes.toInt (sections (externalDirectUDPSectionSizes totalBytes lanes).2
      (externalDirectUDPSectionSizes totalBytes lanes).1) := by
  obtain ⟨-, hsizes, hloop⟩ := externalDirectUDPSectionSizes_spec htotal hlanes
  have hnonneg : 0 ≤ totalBytes.toInt := (nonneg_iff _).mpr (Int64.not_lt.mpr htotal)
  exact (sectionOffsets_tiles_iff hnonneg hloop).mpr (hsizes ▸ totalBytes.toInt_lt)

/-- The size of a spool is that of its file. -/
theorem spoolSource_spec {reads : List (List UInt8 × ReadEnd)} {file final : List UInt8}
    (hfile : file.length < 2 ^ 63)
    (h : spoolSource reads file (Int64.ofNat file.length) = .ok (final, total)) :
    total = Int64.ofNat final.length ∧ final.length < 2 ^ 63 := by
  induction reads generalizing file with
  | nil => cases h
  | cons read reads ih =>
      obtain ⟨bytes, result⟩ := read
      simp only [spoolSource, ← Int64.ofNat_add, ← List.length_append] at h
      split at h
      · cases h
      next hroom =>
        have hlt : (file ++ bytes).length < 2 ^ 63 := Nat.not_le.mp hroom
        cases result with
        | more => exact ih hlt h
        | eof =>
            cases h
            exact ⟨rfl, hlt⟩
        | failed => cases h

/-- What a receiver has accepted is either its own cut or the peer's sizes. -/
theorem externalDirectUDPReceiveSectionLayout_cases {totalBytes connCount : Int64}
    {sectionSizes : List Int64}
    (h : externalDirectUDPReceiveSectionLayout totalBytes connCount sectionSizes = .ok (sizes, offsets)) :
    (0 < connCount ∧ sectionSizes = [] ∧
        externalDirectUDPSectionSizes totalBytes connCount = (sizes, offsets)) ∨
      (sectionSizes = sizes ∧ sectionOffsets 0 0 sizes = .ok (offsets, totalBytes)) := by
  rw [externalDirectUDPReceiveSectionLayout] at h
  split at h
  · cases h
  next hconns =>
    split at h
    next hnone => exact .inl ⟨Int64.not_le.mp hconns, List.length_eq_zero_iff.mp hnone, by injection h⟩
    next =>
      split at h
      · cases h
      next =>
        split at h
        · cases h
        next hloop =>
          split at h
          · cases h
          next htotal =>
            cases h
            rw [ne_eq, not_not] at htotal
            exact .inr ⟨rfl, htotal ▸ hloop⟩

/-- Sections that a receiver accepts tile the transfer just when the sizes it was given add up to less than
`2 ^ 63`.  The sizes of a spool are accepted by every receiver with as many lanes or more, which lays the
sections out as the sender does, and so does a receiver with as many lanes that is given no sizes. -/
theorem section_layout_iff (connCount : Int64) :
    (∀ totalBytes sectionSizes sizes offsets, 0 ≤ totalBytes →
      externalDirectUDPReceiveSectionLayout totalBytes connCount sectionSizes = .ok (sizes, offsets) →
      offsets.length = sizes.length ∧
        (Tiles 0 totalBytes.toInt (sections offsets sizes) ↔ (toInts sectionSizes).sum < 2 ^ 63)) ∧
    (∀ reads lanes spool, lanes ≤ connCount →
      externalDirectUDPSpoolDiscardLanes reads lanes = .ok spool →
      externalDirectUDPReceiveSectionLayout spool.totalBytes connCount spool.sizes =
          .ok (spool.sizes, spool.offsets) ∧
        (lanes = connCount →
          externalDirectUDPReceiveSectionLayout spool.totalBytes connCount [] =
            .ok (spool.sizes, spool.offsets)) ∧
        spool.totalBytes.toInt = spool.file.length ∧
        Tiles 0 spool.totalBytes.toInt (sections spool.offsets spool.sizes)) := by
  constructor
  · intro totalBytes sectionSizes sizes offsets htotal haccepted
    have hnonneg : 0 ≤ totalBytes.toInt := (nonneg_iff _).mpr (Int64.not_lt.mpr htotal)
    obtain ⟨hconns, rfl, hcut⟩ | ⟨rfl, hloop⟩ := externalDirectUDPReceiveSectionLayout_cases haccepted
    · obtain ⟨-, -, hloop⟩ := externalDirectUDPSectionSizes_spec htotal hconns
      have htiles := tiles_externalDirectUDPSectionSizes htotal hconns
      rw [hcut] at hloop htiles
      exact ⟨(sectionOffsets_sound hloop).1, iff_of_true htiles (by simp [toInts])⟩
    · exact ⟨(sectionOffsets_sound hloop).1, sectionOffsets_tiles_iff hnonneg hloop⟩
  · intro reads lanes spool hle hspool
    rw [externalDirectUDPSpoolDiscardLanes] at hspool
    split at hspool
    · cases hspool
    next hlanes =>
      split at hspool
      · cases hspool
      next file totalBytes hsource =>
        cases hspool
        obtain ⟨hsize, hlt⟩ := spoolSource_spec (by simp) hsource
        have htotal : 0 ≤ totalBytes := hsize ▸ Int64.zero_le_ofNat_of_lt hlt
        have hpos : 0 < lanes := Int64.not_le.mp hlanes
        have hconns : ¬ connCount ≤ 0 := Int64.not_le.mpr (Int64.lt_of_lt_of_le hpos hle)
        have hcut : externalDirectUDPSectionSizes totalBytes lanes =
            equalSections (totalBytes / lanes) (totalBytes % lanes) lanes.toNatClampNeg 0 0 := by
          rw [externalDirectUDPSectionSizes, if_neg hlanes]
        obtain ⟨hlength, -, hloop⟩ := externalDirectUDPSectionSizes_spec htotal hpos
        have htiles := tiles_externalDirectUDPSectionSizes htotal hpos
        dsimp only
        rw [← hcut]
        refine ⟨?_, ?_, ?_, htiles⟩
        · have hlanesPos : 0 < lanes.toInt := Int64.lt_iff_toInt_lt.mp hpos
          have hlanesLe : lanes.toInt ≤ connCount.toInt := Int64.le_iff_toInt_le.mp hle
          rw [externalDirectUDPReceiveSectionLayout, if_neg hconns, if_neg (by omega), if_neg (by omega),
            hloop]
          dsimp only
          rw [if_neg (not_not.mpr rfl)]
        · rintro rfl
          rw [externalDirectUDPReceiveSectionLayout, if_neg hconns, List.length_nil, if_pos rfl]
        · rw [hsize, Int64.toInt_ofNat_of_lt hlt]

/-- Seven bytes over three lanes, at a receiver with four. -/
theorem section_layout_iff_seven :
    externalDirectUDPReceiveSectionLayout 7 4 [3, 2, 2] = .ok ([3, 2, 2], [0, 3, 5]) ∧
      Tiles 0 7 [(0, 3), (3, 2), (5, 2)] ∧
      externalDirectUDPSpoolDiscardLanes [([1, 2, 3, 4], .more), ([5, 6, 7], .eof)] 3 =
        .ok ⟨[1, 2, 3, 4, 5, 6, 7], [0, 3, 5], [3, 2, 2], 7⟩ := by
  have hspool : externalDirectUDPSpoolDiscardLanes [([1, 2, 3, 4], .more), ([5, 6, 7], .eof)] 3 =
      .ok ⟨[1, 2, 3, 4, 5, 6, 7], [0, 3, 5], [3, 2, 2], 7⟩ := by
    decide
  obtain ⟨hlayout, hsender⟩ := section_layout_iff 4
  obtain ⟨haccepted, -, -, -⟩ := hsender _ _ _ (by decide) hspool
  obtain ⟨-, htiles⟩ := hlayout 7 [3, 2, 2] [3, 2, 2] [0, 3, 5] (by decide) haccepted
  exact ⟨haccepted, htiles.mpr (by decide), hspool⟩

/-- Four sections of `2 ^ 62` bytes and one of five are accepted as a transfer of five bytes, though the
second starts where the transfer has no byte, and the fifth lies over the first. -/
theorem section_layout_wraps :
    ¬ ∀ totalBytes connCount sectionSizes sizes offsets, 0 ≤ totalBytes →
      externalDirectUDPReceiveSectionLayout totalBytes connCount sectionSizes = .ok (sizes, offsets) →
      Tiles 0 totalBytes.toInt (sections offsets sizes) := by
  intro h
  have haccepted : externalDirectUDPReceiveSectionLayout 5 5
      [4611686018427387904, 4611686018427387904, 4611686018427387904, 4611686018427387904, 5] =
      .ok ([4611686018427387904, 4611686018427387904, 4611686018427387904, 4611686018427387904, 5],
        [0, 4611686018427387904, -9223372036854775808, -4611686018427387904, 0]) := by
    decide
  have htiles := h _ _ _ _ _ (by decide) haccepted
  have hinside := (htiles.covers 5).mp ⟨(0, 4611686018427387904), by decide, by decide, by decide⟩
  exact absurd hinside (by decide)

end Session
