import NginxZstd.Lib.Bytes
/-!
# The frame header probe

The arithmetic that decides, from the bytes at hand, whether a `.zst` may be
served, and the RFC 8878 rule it stands for. The probe reads no byte it does not
have, and eighteen bytes are always enough for it.
-/

namespace NginxZstd

open Lib

/-! ## The probe -/

/-- `NGX_HTTP_ZSTD_STATIC_MAX_WINDOW`. -/
def static_max_window : Nat := 8 * 1024 * 1024

/-- `ZSTD_MAGICNUMBER`. -/
def zstd_magicnumber : Nat := 0xFD2FB528

/-- `ZSTD_MAGIC_SKIPPABLE_START`. -/
def zstd_magic_skippable_start : Nat := 0x184D2A50

/-- `ZSTD_MAGIC_SKIPPABLE_MASK`. -/
def zstd_magic_skippable_mask : Nat := 0xFFFFFFF0

/-- The verdicts of `ngx_http_zstd_static_probe_frame`, with what it stores through
`window`. -/
inductive Frame where
  | ok
  | not_zstd
  | truncated
  | window_big (window : Nat)
  | skip (size : Nat)
  | reserved
deriving DecidableEq

/-- The little-endian word of `size` bytes at `off`; `none` is a read past the end. -/
def word (hdr : Bytes) (off size : Nat) : Option Nat :=
  if off + size ≤ hdr.length then some (le ((hdr.drop off).take size)) else none

def did_len (flag : Nat) : Nat := [0, 1, 2, 4].getD flag 0

/-- The declared window, `some none` where the header is truncated. -/
def declared_window (hdr : Bytes) (fhd : Nat) : Option (Option Nat) :=
  if fhd &&& 0x20 = 0 then
    if hdr.length < 6 then some none
    else do
      let b ← word hdr 5 1
      let w := 1 <<< (10 + (b >>> 3))
      return some (w + (w >>> 3) * (b &&& 7))
  else
    let fcs_size := if fhd >>> 6 ≠ 0 then 1 <<< (fhd >>> 6) else 1
    let off := 5 + did_len (fhd &&& 3)
    if hdr.length < off + fcs_size then some none
    else do
      let w ← word hdr off fcs_size
      return some (if fcs_size = 2 then w + 256 else w)

/-- `ngx_http_zstd_static_probe_frame` on the bytes available. -/
def probe_frame (hdr : Bytes) : Option Frame := do
  let mw ← word hdr 0 4
  if mw ≠ zstd_magicnumber ∧ mw &&& zstd_magic_skippable_mask ≠ zstd_magic_skippable_start then return .not_zstd
  if mw ≠ zstd_magicnumber then
    if hdr.length < 8 then return .truncated
    else return .skip (← word hdr 4 4)
  else if hdr.length < 5 then return .truncated
  else
    let fhd ← word hdr 4 1
    if fhd &&& 0x08 ≠ 0 then return .reserved
    match ← declared_window hdr fhd with
    | none => return .truncated
    | some w => if w > static_max_window then return .window_big w else return .ok

/-- `ngx_http_zstd_static_probe_reuse`: the offset of `pos` in a block of `n` bytes
read at `have_base`, when the block holds what the next header needs. -/
def probe_reuse (pos have_base n need : Nat) : Option Nat :=
  if n = 0 ∨ pos < have_base then none
  else
    let offset := pos - have_base
    if offset > n ∨ n - offset < need then none else some offset

/-! ## RFC 8878 -/

/-- Bytes of the Dictionary_ID field. -/
def dictionaryIdSize (descriptor : Nat) : Nat := if descriptor % 4 = 3 then 4 else descriptor % 4

/-- Bytes of the Frame_Content_Size field of a single-segment frame. -/
def contentSizeSize (descriptor : Nat) : Nat := 2 ^ (descriptor / 64)

/-- The window of a frame that starts with these bytes, if the bytes that determine
it are there. -/
def windowSize (frame : Bytes) : Option Nat :=
  match frame[4]? with
  | none => none
  | some descriptor =>
    let d := descriptor.toNat
    if d / 32 % 2 = 0 then
      frame[5]?.map fun b =>
        let base := 2 ^ (10 + b.toNat / 8)
        base + base / 8 * (b.toNat % 8)
    else
      let start := 5 + dictionaryIdSize d
      let size := contentSizeSize d
      if start + size ≤ frame.length then
        some (le ((frame.drop start).take size) + if size = 2 then 256 else 0)
      else none

/-- A zstd frame header a browser accepts: the reserved bit is clear and the window,
which the bytes at hand determine, is at most 8 MB. -/
def Regular (frame : Bytes) : Prop :=
  4 ≤ frame.length ∧ le (frame.take 4) = 0xFD2FB528 ∧
    (∃ descriptor, frame[4]? = some descriptor ∧ descriptor.toNat / 8 % 2 = 0) ∧
    ∃ w, windowSize frame = some w ∧ w ≤ 8 * 1024 * 1024

/-- A skippable frame header that declares `size` bytes to skip. -/
def Skippable (frame : Bytes) (size : Nat) : Prop :=
  8 ≤ frame.length ∧ 0x184D2A50 ≤ le (frame.take 4) ∧ le (frame.take 4) ≤ 0x184D2A5F ∧
    size = le ((frame.drop 4).take 4)

/-! ## The probe follows the rule -/

theorem word_eq {hdr : Bytes} {off size : Nat} (h : off + size ≤ hdr.length) :
    word hdr off size = some (le ((hdr.drop off).take size)) := if_pos h

theorem word_byte {hdr : Bytes} {off : Nat} {b : UInt8} (h : hdr[off]? = some b) : word hdr off 1 = some b.toNat := by
  obtain ⟨hlt, hb⟩ := List.getElem?_eq_some_iff.1 h
  rw [word_eq (by omega), List.drop_eq_getElem_cons hlt, hb]
  simp [le]

/-- The mask tells the sixteen skippable magics. -/
theorem skippable_iff {m : Nat} (h : m < 2 ^ 32) :
    m &&& zstd_magic_skippable_mask = zstd_magic_skippable_start ↔ 0x184D2A50 ≤ m ∧ m ≤ 0x184D2A5F := by
  have hdiv : (m &&& 0xFFFFFFF0) / 2 ^ 4 = m / 16 := by
    rw [Nat.and_div_two_pow]
    show (m / 16) &&& (2 ^ 28 - 1) = m / 16
    rw [Nat.and_two_pow_sub_one_eq_mod]
    omega
  have hmod : (m &&& 0xFFFFFFF0) % 2 ^ 4 = 0 := by
    rw [Nat.and_mod_two_pow]
    simp
  unfold zstd_magic_skippable_mask zstd_magic_skippable_start
  omega

/-- The descriptor's fields, by masks and shifts and by division. -/
theorem descriptor_fields {d : Nat} (h : d < 256) :
    (d &&& 0x08 = 0 ↔ d / 8 % 2 = 0) ∧ (d &&& 0x20 = 0 ↔ d / 32 % 2 = 0) ∧
      did_len (d &&& 3) = dictionaryIdSize d ∧
      (if d >>> 6 ≠ 0 then 1 <<< (d >>> 6) else 1) = contentSizeSize d := by
  have all : ∀ n : Fin 256, (n.1 &&& 0x08 = 0 ↔ n.1 / 8 % 2 = 0) ∧ (n.1 &&& 0x20 = 0 ↔ n.1 / 32 % 2 = 0) ∧
      did_len (n.1 &&& 3) = dictionaryIdSize n.1 ∧
      (if n.1 >>> 6 ≠ 0 then 1 <<< (n.1 >>> 6) else 1) = contentSizeSize n.1 := by decide +kernel
  exact all ⟨d, h⟩

theorem window_descriptor {b : Nat} (h : b < 256) :
    1 <<< (10 + (b >>> 3)) + (1 <<< (10 + (b >>> 3)) >>> 3) * (b &&& 7) =
      2 ^ (10 + b / 8) + 2 ^ (10 + b / 8) / 8 * (b % 8) := by
  have all : ∀ n : Fin 256, 1 <<< (10 + (n.1 >>> 3)) + (1 <<< (10 + (n.1 >>> 3)) >>> 3) * (n.1 &&& 7) =
      2 ^ (10 + n.1 / 8) + 2 ^ (10 + n.1 / 8) / 8 * (n.1 % 8) := by decide +kernel
  exact all ⟨b, h⟩

theorem declared_window_eq {f : Bytes} {d : UInt8} (hd : f[4]? = some d) :
    declared_window f d.toNat = some (windowSize f) := by
  obtain ⟨-, hss, hdid, hfcs⟩ := descriptor_fields (UInt8.toNat_lt d)
  unfold declared_window windowSize
  simp only [hd, hss, hdid, hfcs]
  split
  · next hseg =>
    split
    · next hlen =>
      have : f[5]? = none := List.getElem?_eq_none (by omega)
      simp [this]
    · next hlen =>
      have h5 : f[5]? = some f[5] := List.getElem?_eq_getElem (by omega)
      rw [word_byte h5, h5]
      simp only [Option.map_some]
      rw [← window_descriptor (UInt8.toNat_lt f[5])]
      rfl
  · next hseg =>
    split
    · next hlen => rw [if_neg (by omega)]
    · next hlen =>
      rw [if_pos (by omega), word_eq (by omega)]
      show some (some _) = _
      split <;> simp_all

/-- A header that is neither regular nor skippable. -/
def Unusable (frame : Bytes) : Prop := ¬Regular frame ∧ ∀ size, ¬Skippable frame size

theorem Regular.not_skippable {f : Bytes} (h : Regular f) (size : Nat) : ¬Skippable f size := by
  rintro ⟨-, -, hle, -⟩
  rw [h.2.1] at hle
  omega

/-- The verdict on the bytes at hand. -/
def frameVerdict (frame : Bytes) : Frame :=
  if le (frame.take 4) = 0xFD2FB528 then
    match frame[4]? with
    | none => .truncated
    | some descriptor =>
      if descriptor.toNat / 8 % 2 = 1 then .reserved
      else
        match windowSize frame with
        | none => .truncated
        | some w => if w > 8 * 1024 * 1024 then .window_big w else .ok
  else if 0x184D2A50 ≤ le (frame.take 4) ∧ le (frame.take 4) ≤ 0x184D2A5F then
    if 8 ≤ frame.length then .skip (le ((frame.drop 4).take 4)) else .truncated
  else .not_zstd

/-- The bytes start with the magic of a zstd frame. -/
def ZstdMagic (frame : Bytes) : Prop := le (frame.take 4) = 0xFD2FB528

/-- The bytes start with one of the sixteen magics of a skippable frame. -/
def SkippableMagic (frame : Bytes) : Prop := 0x184D2A50 ≤ le (frame.take 4) ∧ le (frame.take 4) ≤ 0x184D2A5F

instance (frame : Bytes) : Decidable (ZstdMagic frame) := inferInstanceAs (Decidable (_ = _))

instance (frame : Bytes) : Decidable (SkippableMagic frame) := inferInstanceAs (Decidable (_ ∧ _))

/-- The reserved bit of the descriptor is there and has this value. -/
def ReservedBit (frame : Bytes) (bit : Nat) : Prop := ∃ d, frame[4]? = some d ∧ d.toNat / 8 % 2 = bit

/-- Why a verdict is given. -/
inductive Judged (f : Bytes) : Frame → Prop where
  | not_zstd (hz : ¬ZstdMagic f) (hs : ¬SkippableMagic f) : Judged f .not_zstd
  | skip (hz : ¬ZstdMagic f) (hs : SkippableMagic f) (h8 : 8 ≤ f.length) : Judged f (.skip (le ((f.drop 4).take 4)))
  | skip_cut (hz : ¬ZstdMagic f) (hs : SkippableMagic f) (h8 : ¬8 ≤ f.length) : Judged f .truncated
  | descriptor_cut (hz : ZstdMagic f) (hd : f[4]? = none) : Judged f .truncated
  | reserved (hz : ZstdMagic f) (d : UInt8) (hd : f[4]? = some d) (hres : d.toNat / 8 % 2 = 1) : Judged f .reserved
  | window_cut (hz : ZstdMagic f) (d : UInt8) (hd : f[4]? = some d) (hres : d.toNat / 8 % 2 = 0)
      (hw : windowSize f = none) : Judged f .truncated
  | window_big (hz : ZstdMagic f) (d : UInt8) (hd : f[4]? = some d) (hres : d.toNat / 8 % 2 = 0) (w : Nat)
      (hw : windowSize f = some w) (hbig : w > 8 * 1024 * 1024) : Judged f (.window_big w)
  | ok (hz : ZstdMagic f) (d : UInt8) (hd : f[4]? = some d) (hres : d.toNat / 8 % 2 = 0) (w : Nat)
      (hw : windowSize f = some w) (hle : w ≤ 8 * 1024 * 1024) : Judged f .ok

theorem frameVerdict_judged (f : Bytes) : Judged f (frameVerdict f) := by
  unfold frameVerdict
  split
  · next hz =>
    cases hd : f[4]? with
    | none => exact .descriptor_cut hz hd
    | some d =>
      dsimp only
      split
      · next hres => exact .reserved hz d hd hres
      · next hres =>
        have hres : d.toNat / 8 % 2 = 0 := by omega
        cases hw : windowSize f with
        | none => exact .window_cut hz d hd hres hw
        | some w =>
          dsimp only
          split
          · next hbig => exact .window_big hz d hd hres w hw hbig
          · next hbig => exact .ok hz d hd hres w hw (by omega)
  · next hz =>
    split
    · next hs =>
      split
      · next h8 => exact .skip hz hs h8
      · next h8 => exact .skip_cut hz hs h8
    · next hs => exact .not_zstd hz hs

theorem ZstdMagic.not_skippable {f : Bytes} (h : ZstdMagic f) : ¬SkippableMagic f := by
  rintro ⟨hlo, hhi⟩
  unfold ZstdMagic at h
  omega

/-- The five verdicts on a header that is all there. -/
theorem Judged.iffs {f : Bytes} {v : Frame} (h : Judged f v) :
    (v = .not_zstd ↔ ¬ZstdMagic f ∧ ¬SkippableMagic f) ∧
      (∀ size, v = .skip size ↔ SkippableMagic f ∧ 8 ≤ f.length ∧ size = le ((f.drop 4).take 4)) ∧
      (v = .reserved ↔ ZstdMagic f ∧ ReservedBit f 1) ∧
      (∀ w, v = .window_big w ↔
        ZstdMagic f ∧ ReservedBit f 0 ∧ windowSize f = some w ∧ w > 8 * 1024 * 1024) ∧
      (v = .ok ↔ ZstdMagic f ∧ ReservedBit f 0 ∧ ∃ w, windowSize f = some w ∧ w ≤ 8 * 1024 * 1024) := by
  cases h with
  | not_zstd hz hs => simp [hz, hs]
  | skip hz hs h8 => simp [hz, hs, h8, eq_comm]
  | skip_cut hz hs h8 => simp [hz, hs, h8]
  | descriptor_cut hz hd => simp [hz, hz.not_skippable, ReservedBit, hd]
  | reserved hz d hd hres => simp [hz, hz.not_skippable, ReservedBit, hd, hres]
  | window_cut hz d hd hres hw => simp [hz, hz.not_skippable, ReservedBit, hd, hres, hw]
  | window_big hz d hd hres w hw hbig => simp [hz, hz.not_skippable, ReservedBit, hd, hres, hw, hbig]
  | ok hz d hd hres w hw hle => simp [hz, hz.not_skippable, ReservedBit, hd, hres, hw, hle]

theorem probe_frame_eq {f : Bytes} (h4 : 4 ≤ f.length) : probe_frame f = some (frameVerdict f) := by
  have hm : le (f.take 4) < 2 ^ 32 := by
    have := le_lt (f.take 4)
    rwa [List.length_take, Nat.min_eq_left h4] at this
  have hw : word f 0 4 = some (le (f.take 4)) := word_eq (by omega)
  unfold probe_frame frameVerdict
  rw [hw]
  by_cases hz : le (f.take 4) = zstd_magicnumber
  · rw [if_pos (show le (f.take 4) = 0xFD2FB528 from hz)]
    simp only [Option.bind_eq_bind, Option.bind_some, ne_eq, hz, not_true_eq_false, false_and, if_false]
    by_cases h5 : f.length < 5
    · rw [if_pos h5, List.getElem?_eq_none (by omega)]
      rfl
    · have hd : f[4]? = some f[4] := List.getElem?_eq_getElem (by omega)
      have hfields := descriptor_fields (UInt8.toNat_lt f[4])
      rw [if_neg h5, word_byte hd, hd]
      simp only [Option.bind_some]
      by_cases hres : f[4].toNat &&& 0x08 = 0
      · have hclear := hfields.1.1 hres
        rw [if_neg (by simpa using hres), declared_window_eq hd, if_neg (by omega)]
        cases windowSize f with
        | none => rfl
        | some w =>
          simp only [Option.bind_some, static_max_window]
          by_cases hbig : w > 8 * 1024 * 1024
          · simp [hbig]
          · simp [hbig]
      · have hset : f[4].toNat / 8 % 2 = 1 := by
          have := mt hfields.1.2 hres
          omega
        rw [if_pos (by simpa using hres), if_pos hset]
        rfl
  · rw [if_neg (show ¬le (f.take 4) = 0xFD2FB528 from hz)]
    have hskip := skippable_iff hm
    by_cases hs : le (f.take 4) &&& zstd_magic_skippable_mask = zstd_magic_skippable_start
    · rw [if_pos (hskip.1 hs)]
      simp only [Option.bind_eq_bind, Option.bind_some, ne_eq, hz, hs, not_false_eq_true, not_true_eq_false, and_false,
        if_true, if_false]
      by_cases h8 : f.length < 8
      · rw [if_pos h8, if_neg (by omega)]
        rfl
      · rw [if_neg h8, if_pos (by omega), word_eq (by omega)]
        rfl
    · rw [if_neg (fun h => hs (hskip.2 h))]
      simp [hz, hs]

/-- What the probe says of four bytes or more, and what the rule says. -/
theorem probe_frame_cases {f : Bytes} (h4 : 4 ≤ f.length) :
    (∃ size, probe_frame f = some (.skip size) ∧ Skippable f size) ∨
      (probe_frame f = some .ok ∧ Regular f) ∨
      (∃ v, probe_frame f = some v ∧ v ≠ .ok ∧ (∀ size, v ≠ .skip size) ∧ Unusable f) := by
  obtain ⟨-, hskip, -, -, hok⟩ := (frameVerdict_judged f).iffs
  have hskippable : ∀ size, frameVerdict f = .skip size ↔ Skippable f size := by
    intro size
    rw [hskip, Skippable, SkippableMagic]
    tauto
  have hregular : frameVerdict f = .ok ↔ Regular f := hok.trans ⟨fun h => ⟨h4, h⟩, fun h => h.2⟩
  rw [probe_frame_eq h4]
  by_cases hs : ∃ size, frameVerdict f = .skip size
  · obtain ⟨size, hs⟩ := hs
    exact .inl ⟨size, by rw [hs], (hskippable size).1 hs⟩
  by_cases hr : frameVerdict f = .ok
  · exact .inr (.inl ⟨by rw [hr], hregular.1 hr⟩)
  · exact .inr (.inr ⟨_, rfl, hr, fun size h => hs ⟨size, h⟩, fun h => hr (hregular.2 h),
      fun size h => hs ⟨size, (hskippable size).2 h⟩⟩)

/-! ## Enough bytes -/

/-- How many bytes the verdict on a frame depends on. -/
def headerBytes (frame : Bytes) : Nat :=
  if ZstdMagic frame then
    match frame[4]? with
    | none => 5
    | some descriptor =>
      if descriptor.toNat / 8 % 2 = 1 then 5
      else if descriptor.toNat / 32 % 2 = 0 then 6
      else 5 + dictionaryIdSize descriptor.toNat + contentSizeSize descriptor.toNat
  else if SkippableMagic frame then 8
  else 4

theorem windowSize_none {f : Bytes} {d : UInt8} (hd : f[4]? = some d) :
    windowSize f = none ↔ f.length <
      if d.toNat / 32 % 2 = 0 then 6 else 5 + dictionaryIdSize d.toNat + contentSizeSize d.toNat := by
  unfold windowSize
  rw [hd]
  dsimp only
  split
  · rw [Option.map_eq_none_iff, List.getElem?_eq_none_iff]
    omega
  · split
    · next h => simp only [reduceCtorEq, false_iff]; omega
    · next h => simp only [true_iff]; omega

/-- The header is cut off exactly when fewer bytes are there than decide it. -/
theorem Judged.truncated_iff {f : Bytes} {v : Frame} (h : Judged f v) (h4 : 4 ≤ f.length) :
    v = .truncated ↔ f.length < headerBytes f := by
  have hfull : ∀ {d : UInt8} {w : Nat}, f[4]? = some d → windowSize f = some w → ¬f.length <
      if d.toNat / 32 % 2 = 0 then 6 else 5 + dictionaryIdSize d.toNat + contentSizeSize d.toNat := by
    intro d w hd hw hlt
    rw [(windowSize_none hd).2 hlt] at hw
    cases hw
  unfold headerBytes
  cases h with
  | not_zstd hz hs => rw [if_neg hz, if_neg hs]; simp only [reduceCtorEq, false_iff]; omega
  | skip hz hs h8 => rw [if_neg hz, if_pos hs]; simp only [reduceCtorEq, false_iff]; omega
  | skip_cut hz hs h8 => rw [if_neg hz, if_pos hs]; simp only [true_iff]; omega
  | descriptor_cut hz hd =>
    have := List.getElem?_eq_none_iff.1 hd
    rw [if_pos hz, hd]
    simp only [true_iff]
    omega
  | reserved hz d hd hres =>
    have := (List.getElem?_eq_some_iff.1 hd).1
    rw [if_pos hz, hd]
    simp only [hres, if_true, reduceCtorEq, false_iff]
    omega
  | window_cut hz d hd hres hw =>
    rw [if_pos hz, hd]
    simpa [hres] using (windowSize_none hd).1 hw
  | window_big hz d hd hres w hw hbig =>
    rw [if_pos hz, hd]
    simpa [hres] using hfull hd hw
  | ok hz d hd hres w hw hle =>
    rw [if_pos hz, hd]
    simpa [hres] using hfull hd hw

theorem headerBytes_le (f : Bytes) : headerBytes f ≤ 17 := by
  have all : ∀ n : Fin 256, dictionaryIdSize n.1 ≤ 4 ∧ contentSizeSize n.1 ≤ 8 := by decide +kernel
  unfold headerBytes
  split
  · cases f[4]? with
    | none => decide
    | some d =>
      have := all ⟨d.toNat, UInt8.toNat_lt d⟩
      dsimp only at this ⊢
      split
      · omega
      · split <;> omega
  · split <;> omega

theorem headerBytes_ge (f : Bytes) : 4 ≤ headerBytes f := by
  unfold headerBytes
  split
  · split
    · decide
    · split
      · decide
      · split <;> omega
  · split <;> decide

/-- Bytes behind those that decided a window do not change it. -/
theorem windowSize_append {f g : Bytes} {w : Nat} (h : windowSize f = some w) : windowSize (f ++ g) = some w := by
  unfold windowSize at h ⊢
  cases hd : f[4]? with
  | none => rw [hd] at h; cases h
  | some d =>
    have hlen := (List.getElem?_eq_some_iff.1 hd).1
    rw [List.getElem?_append_left hlen, hd]
    rw [hd] at h
    dsimp only at h ⊢
    split at h
    · next hseg =>
      rw [if_pos hseg]
      obtain ⟨b, hb, -⟩ := Option.map_eq_some_iff.1 h
      have hlen5 := (List.getElem?_eq_some_iff.1 hb).1
      rw [List.getElem?_append_left hlen5]
      exact h
    · next hseg =>
      rw [if_neg hseg]
      split at h
      · next hfit =>
        rw [if_pos (by rw [List.length_append]; omega), List.drop_append_of_le_length (by omega),
          List.take_append_of_le_length (by rw [List.length_drop]; omega)]
        exact h
      · cases h

/-- Any other verdict than a cut-off header stands when more bytes come. -/
theorem frameVerdict_append {f : Bytes} (h4 : 4 ≤ f.length) (g : Bytes) (h : frameVerdict f ≠ .truncated) :
    frameVerdict (f ++ g) = frameVerdict f := by
  unfold frameVerdict at h ⊢
  rw [List.take_append_of_le_length h4]
  split
  · next hz =>
    rw [if_pos hz] at h
    cases hd : f[4]? with
    | none => rw [hd] at h; exact absurd rfl h
    | some d =>
      rw [hd] at h
      rw [List.getElem?_append_left (List.getElem?_eq_some_iff.1 hd).1, hd]
      dsimp only at h ⊢
      split
      · rfl
      · next hres =>
        rw [if_neg hres] at h
        cases hwin : windowSize f with
        | none => rw [hwin] at h; exact absurd rfl h
        | some w => rw [windowSize_append hwin]
  · next hz =>
    rw [if_neg hz] at h
    split
    · next hs =>
      rw [if_pos hs] at h
      split at h
      · next h8 =>
        rw [if_pos (by rw [List.length_append]; omega), if_pos h8, List.drop_append_of_le_length (by omega),
          List.take_append_of_le_length (by rw [List.length_drop]; omega)]
      · exact absurd rfl h
    · rfl

/-- Where a header is cut off shows in the bytes before the cut. -/
theorem headerBytes_take {f : Bytes} {m : Nat} (h4 : 4 ≤ m) : headerBytes (f.take m) ≤ m ↔ headerBytes f ≤ m := by
  have hmagic : (f.take m).take 4 = f.take 4 := by rw [List.take_take, Nat.min_eq_left h4]
  have hz : ZstdMagic (f.take m) ↔ ZstdMagic f := by rw [ZstdMagic, ZstdMagic, hmagic]
  have hs : SkippableMagic (f.take m) ↔ SkippableMagic f := by rw [SkippableMagic, SkippableMagic, hmagic]
  simp only [headerBytes, hz, hs]
  split
  · by_cases h5 : 4 < m
    · rw [List.getElem?_take_of_lt h5]
    · -- four bytes are never enough
      rw [List.getElem?_eq_none (by rw [List.length_take]; omega)]
      have hlow : ∀ d : UInt8, 5 ≤ (if d.toNat / 8 % 2 = 1 then 5 else if d.toNat / 32 % 2 = 0 then 6
          else 5 + dictionaryIdSize d.toNat + contentSizeSize d.toNat) := by
        intro d
        split
        · omega
        · split <;> omega
      cases f[4]? with
      | none => rfl
      | some d =>
        have := hlow d
        dsimp only
        constructor <;> intro h <;> omega
  · rfl

/-- Bytes up to where the header is decided give the verdict of the whole. -/
theorem probe_frame_take {f : Bytes} {m : Nat} (h4 : 4 ≤ (f.take m).length) (h : min (headerBytes f) f.length ≤ m) :
    probe_frame (f.take m) = probe_frame f := by
  by_cases hm : f.length ≤ m
  · rw [List.take_of_length_le hm]
  · have hlen : (f.take m).length = m := by rw [List.length_take]; omega
    have hcut := (frameVerdict_judged (f.take m)).truncated_iff h4
    have hfit := (headerBytes_take (f := f) (hlen ▸ h4)).2 (by omega)
    have hv : frameVerdict (f.take m) ≠ .truncated := fun h => by have := hcut.1 h; omega
    have happ := frameVerdict_append h4 (f.drop m) hv
    rw [List.take_append_drop] at happ
    rw [probe_frame_eq h4, probe_frame_eq (by omega), happ]

/-- Fewer bytes than that are a cut-off header. -/
theorem probe_frame_starved {f : Bytes} {m : Nat} (h4 : 4 ≤ m) (hm : m < f.length) (h : m < headerBytes f) :
    probe_frame (f.take m) = some .truncated := by
  have hlen : (f.take m).length = m := by rw [List.length_take]; omega
  rw [probe_frame_eq (by omega)]
  congr 1
  refine ((frameVerdict_judged (f.take m)).truncated_iff (by omega)).2 ?_
  have := mt (headerBytes_take (f := f) h4).1 (by omega)
  omega

end NginxZstd
