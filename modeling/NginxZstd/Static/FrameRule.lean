import NginxZstd.Static.FrameProbe
/-!
# The two builds of the frame probe

`ngx_http_zstd_static_probe_frame` with its fixed-width words. A little-endian build
copies them out of the buffer; any other build puts them together from bytes with
shifts. `probe_frame_build_eq` takes both to `probe_frame`, and `probe_frame_rule`
says which bytes lead to which verdict.
-/

namespace NginxZstd

open Lib

/-! ## The builds -/

/-- The magic as a `uint32_t`. -/
def magic_word (little : Bool) (hdr : Bytes) : Option UInt32 :=
  if little then (word hdr 0 4).map UInt32.ofNat
  else do
    let b0 ← hdr[0]?
    let b1 ← hdr[1]?
    let b2 ← hdr[2]?
    let b3 ← hdr[3]?
    return b0.toUInt32 ||| b1.toUInt32 <<< 8 ||| b2.toUInt32 <<< 16 ||| b3.toUInt32 <<< 24

/-- What is stored through `window` for a skippable frame. -/
def skip_size (little : Bool) (hdr : Bytes) : Option UInt64 :=
  if little then (word hdr 4 4).map fun v => (UInt32.ofNat v).toUInt64
  else do
    let b0 ← hdr[4]?
    let b1 ← hdr[5]?
    let b2 ← hdr[6]?
    let b3 ← hdr[7]?
    return b0.toUInt64 ||| b1.toUInt64 <<< 8 ||| b2.toUInt64 <<< 16 ||| b3.toUInt64 <<< 24

/-- One turn of `for (i = 0; i < fcs_size; i++)`. -/
def or_byte (hdr : Bytes) (off : Nat) (w : UInt64) (i : Nat) : Option UInt64 := do
  let b ← hdr[off + i]?
  return w ||| b.toUInt64 <<< UInt64.ofNat (8 * i)

/-- Frame_Content_Size. The `switch` of the little-endian build has a temporary of each
width. -/
def content_size (little : Bool) (hdr : Bytes) (off fcs_size : Nat) : Option UInt64 :=
  if little then
    match fcs_size with
    | 1 => hdr[off]?.map UInt8.toUInt64
    | 2 => (word hdr off 2).map fun value => (UInt16.ofNat value).toUInt64
    | 4 => (word hdr off 4).map fun value => (UInt32.ofNat value).toUInt64
    | _ => (word hdr off 8).map UInt64.ofNat
  else (List.range fcs_size).foldlM (or_byte hdr off) 0

/-- The declared window in 64 bits, `some none` where the header is truncated. -/
def window_word (little : Bool) (hdr : Bytes) (fhd : Nat) : Option (Option UInt64) :=
  if fhd &&& 0x20 = 0 then
    if hdr.length < 6 then some none
    else do
      let b : UInt8 ← hdr[5]?
      let w := (1 : UInt64) <<< ((10 : UInt64) + (b >>> 3).toUInt64)
      return some (w + (w >>> 3) * (b &&& 7).toUInt64)
  else
    let fcs_size := if fhd >>> 6 ≠ 0 then 1 <<< (fhd >>> 6) else 1
    let off := 5 + did_len (fhd &&& 3)
    if hdr.length < off + fcs_size then some none
    else do
      let w ← content_size little hdr off fcs_size
      return some (if fcs_size = 2 then w + 256 else w)

/-- `ngx_http_zstd_static_probe_frame` on the `hdr.length` bytes available. `none` is a
read behind them. -/
def probe_frame_build (little : Bool) (hdr : Bytes) : Option Frame := do
  let mw ← magic_word little hdr
  if mw ≠ 0xFD2FB528 ∧ mw &&& 0xFFFFFFF0 ≠ 0x184D2A50 then return .not_zstd
  if mw ≠ 0xFD2FB528 then
    if hdr.length < 8 then return .truncated
    else return .skip (← skip_size little hdr).toNat
  else if hdr.length < 5 then return .truncated
  else
    let fhd ← hdr[4]?
    if fhd.toNat &&& 0x08 ≠ 0 then return .reserved
    match ← window_word little hdr fhd.toNat with
    | none => return .truncated
    | some w => if w > 8 * 1024 * 1024 then return .window_big w.toNat else return .ok

/-! ## Words from bytes -/

theorem or_shift {a b k : Nat} (h : a < 2 ^ k) : a ||| b <<< k = a + b * 2 ^ k := by
  rw [Nat.or_comm, ← Nat.shiftLeft_add_eq_or_of_lt h, Nat.shiftLeft_eq, Nat.add_comm]

/-- Four bytes shifted into place. -/
theorem or_four {a b c d : Nat} (ha : a < 256) (hb : b < 256) (hc : c < 256) :
    a ||| b <<< 8 ||| c <<< 16 ||| d <<< 24 = a + 256 * b + 65536 * c + 16777216 * d := by
  have h1 : a ||| b <<< 8 = a + b * 256 := or_shift (by omega)
  have h2 : (a + b * 256) ||| c <<< 16 = a + b * 256 + c * 65536 := or_shift (by omega)
  have h3 : (a + b * 256 + c * 65536) ||| d <<< 24 = a + b * 256 + c * 65536 + d * 16777216 := or_shift (by omega)
  rw [h1, h2, h3]
  omega

theorem byte_lt (b : UInt8) : b.toNat < 256 := UInt8.toNat_lt b

theorem take_four (f : Bytes) (off : Nat) (h : off + 4 ≤ f.length) :
    ∃ a b c d, f[off]? = some a ∧ f[off + 1]? = some b ∧ f[off + 2]? = some c ∧ f[off + 3]? = some d ∧
      (f.drop off).take 4 = [a, b, c, d] := by
  have e : ∀ i < 4, f[off + i]? = some ((f.drop off)[i]?.getD 0) := by
    intro i hi
    rw [List.getElem?_drop, List.getElem?_eq_getElem (by omega)]
    rfl
  refine ⟨_, _, _, _, e 0 (by omega), e 1 (by omega), e 2 (by omega), e 3 (by omega), ?_⟩
  have hlen : 4 ≤ (f.drop off).length := by rw [List.length_drop]; omega
  match f.drop off, hlen with
  | a :: b :: c :: d :: rest, _ => rfl

/-- A byte shifted within the width stays whole. -/
theorem shift_mod (b : UInt8) {k width : Nat} (h : k + 8 ≤ width) : b.toNat <<< k % 2 ^ width = b.toNat <<< k := by
  apply Nat.mod_eq_of_lt
  rw [Nat.shiftLeft_eq]
  calc b.toNat * 2 ^ k < 2 ^ 8 * 2 ^ k := Nat.mul_lt_mul_of_pos_right (byte_lt b) (Nat.two_pow_pos k)
    _ = 2 ^ (8 + k) := (Nat.pow_add 2 8 k).symm
    _ ≤ 2 ^ width := Nat.pow_le_pow_right (by decide) (by omega)

theorem le_take_lt {f : Bytes} (n : Nat) (h : n ≤ f.length) : le (f.take n) < 256 ^ n := by
  have := le_lt (f.take n)
  rwa [List.length_take, Nat.min_eq_left h] at this

theorem magic_word_eq (little : Bool) {f : Bytes} (h4 : 4 ≤ f.length) :
    ∃ mw, magic_word little f = some mw ∧ mw.toNat = le (f.take 4) := by
  cases little with
  | true =>
    refine ⟨UInt32.ofNat (le (f.take 4)), ?_, UInt32.toNat_ofNat_of_lt (le_take_lt 4 h4)⟩
    simp only [magic_word, if_true, word_eq (show 0 + 4 ≤ f.length by omega), List.drop_zero, Option.map_some]
  | false =>
    obtain ⟨a, b, c, d, ha, hb, hc, hd, htake⟩ := take_four f 0 (by omega)
    simp only [Nat.zero_add, List.drop_zero] at ha hb hc hd htake
    refine ⟨_, by simp only [magic_word, ha, hb, hc, hd]; rfl, ?_⟩
    have h8 := shift_mod b (show 8 + 8 ≤ 32 by decide)
    have h16 := shift_mod c (show 16 + 8 ≤ 32 by decide)
    have h24 := shift_mod d (show 24 + 8 ≤ 32 by decide)
    have hor := or_four (d := d.toNat) (byte_lt a) (byte_lt b) (byte_lt c)
    simp only [Nat.reducePow] at h8 h16 h24
    simp only [htake, le, UInt32.toNat_or, UInt32.toNat_shiftLeft, UInt8.toNat_toUInt32, UInt32.reduceToNat,
      Nat.reducePow, Nat.reduceMod, h8, h16, h24, hor]
    omega

theorem skip_size_eq (little : Bool) {f : Bytes} (h8 : 8 ≤ f.length) :
    ∃ size, skip_size little f = some size ∧ size.toNat = le ((f.drop 4).take 4) := by
  cases little with
  | true =>
    have hlt := le_take_lt (f := f.drop 4) 4 (by rw [List.length_drop]; omega)
    refine ⟨(UInt32.ofNat (le ((f.drop 4).take 4))).toUInt64, ?_, ?_⟩
    · simp only [skip_size, if_true, word_eq (show 4 + 4 ≤ f.length by omega), Option.map_some]
    · rw [UInt32.toNat_toUInt64]
      exact UInt32.toNat_ofNat_of_lt hlt
  | false =>
    obtain ⟨a, b, c, d, ha, hb, hc, hd, htake⟩ := take_four f 4 (by omega)
    refine ⟨_, by simp only [skip_size, ha, hb, hc, hd]; rfl, ?_⟩
    have h8 := shift_mod b (show 8 + 8 ≤ 64 by decide)
    have h16 := shift_mod c (show 16 + 8 ≤ 64 by decide)
    have h24 := shift_mod d (show 24 + 8 ≤ 64 by decide)
    have hor := or_four (d := d.toNat) (byte_lt a) (byte_lt b) (byte_lt c)
    simp only [Nat.reducePow] at h8 h16 h24
    simp only [htake, le, UInt64.toNat_or, UInt64.toNat_shiftLeft, UInt8.toNat_toUInt64, UInt64.reduceToNat,
      Nat.reducePow, Nat.reduceMod, h8, h16, h24, hor]
    omega

/-- The loop puts together the first `k` bytes of the field. -/
theorem or_bytes_eq (f : Bytes) (off : Nat) : ∀ k, k ≤ 8 → off + k ≤ f.length →
    ∃ w, (List.range k).foldlM (or_byte f off) 0 = some w ∧ w.toNat = le ((f.drop off).take k)
  | 0, _, _ => ⟨0, rfl, by simp [le]⟩
  | k + 1, hk, hlen => by
    obtain ⟨w, hw, hval⟩ := or_bytes_eq f off k (by omega) (by omega)
    have hb : f[off + k]? = some f[off + k] := List.getElem?_eq_getElem (by omega)
    refine ⟨w ||| f[off + k].toUInt64 <<< UInt64.ofNat (8 * k), ?_, ?_⟩
    · rw [List.range_succ, List.foldlM_append, hw]
      simp [or_byte, hb]
    · have hwlt : w.toNat < 2 ^ (8 * k) := by
        rw [hval, Nat.pow_mul]
        exact le_take_lt k (by rw [List.length_drop]; omega)
      have htake : (f.drop off).take (k + 1) = (f.drop off).take k ++ [f[off + k]] := by
        rw [List.take_add_one, List.getElem?_drop, hb]
        rfl
      -- the shift stays below 64, so no byte is lost
      have hshift : (UInt64.ofNat (8 * k)).toNat = 8 * k := UInt64.toNat_ofNat_of_lt (by
        have : UInt64.size = 2 ^ 64 := rfl
        omega)
      rw [htake, le_append, ← hval, UInt64.toNat_or, UInt64.toNat_shiftLeft, UInt8.toNat_toUInt64, hshift,
        Nat.mod_eq_of_lt (show 8 * k < 64 by omega), shift_mod _ (by omega), or_shift hwlt]
      have hl : ((f.drop off).take k).length = k := by rw [List.length_take, List.length_drop]; omega
      rw [hl, show (256 : Nat) = 2 ^ 8 by rfl, ← Nat.pow_mul]
      simp only [le]
      ring

/-- Either build reads a content size of one of the four widths. -/
theorem content_size_eq (little : Bool) (f : Bytes) (off : Nat) {size : Nat} (hs : size = 1 ∨ size = 2 ∨ size = 4 ∨ size = 8)
    (h : off + size ≤ f.length) :
    ∃ w, content_size little f off size = some w ∧ w.toNat = le ((f.drop off).take size) := by
  have hlt := le_take_lt (f := f.drop off) size (by rw [List.length_drop]; omega)
  cases little with
  | false =>
    simp only [content_size, Bool.false_eq_true, if_false]
    exact or_bytes_eq f off size (by omega) h
  | true =>
    simp only [content_size, if_true]
    rcases hs with rfl | rfl | rfl | rfl
    · have hb : f[off]? = some f[off] := List.getElem?_eq_getElem (by omega)
      refine ⟨f[off].toUInt64, by simp only [hb, Option.map_some], ?_⟩
      rw [UInt8.toNat_toUInt64]
      exact Option.some.inj ((word_byte hb).symm.trans (word_eq h))
    · refine ⟨_, by simp only [word_eq h, Option.map_some]; rfl, ?_⟩
      rw [UInt16.toNat_toUInt64]
      exact UInt16.toNat_ofNat_of_lt hlt
    · refine ⟨_, by simp only [word_eq h, Option.map_some]; rfl, ?_⟩
      rw [UInt32.toNat_toUInt64]
      exact UInt32.toNat_ofNat_of_lt hlt
    · exact ⟨_, by simp only [word_eq h, Option.map_some]; rfl, UInt64.toNat_ofNat_of_lt hlt⟩

/-- The window of a Window_Descriptor fits 64 bits. -/
theorem window_descriptor_word (b : UInt8) :
    (((1 : UInt64) <<< ((10 : UInt64) + (b >>> 3).toUInt64)) +
      (((1 : UInt64) <<< ((10 : UInt64) + (b >>> 3).toUInt64)) >>> 3) * (b &&& 7).toUInt64).toNat =
      1 <<< (10 + (b.toNat >>> 3)) + (1 <<< (10 + (b.toNat >>> 3)) >>> 3) * (b.toNat &&& 7) := by
  have all : ∀ n : Fin 256, let b := UInt8.ofNat n
      (((1 : UInt64) <<< ((10 : UInt64) + (b >>> 3).toUInt64)) +
        (((1 : UInt64) <<< ((10 : UInt64) + (b >>> 3).toUInt64)) >>> 3) * (b &&& 7).toUInt64).toNat =
        1 <<< (10 + (b.toNat >>> 3)) + (1 <<< (10 + (b.toNat >>> 3)) >>> 3) * (b.toNat &&& 7) := by
    decide +kernel
  simpa using all ⟨b.toNat, UInt8.toNat_lt b⟩

/-! ## Both builds are the probe -/

theorem window_word_eq (little : Bool) (f : Bytes) (d : UInt8) :
    (window_word little f d.toNat).map (Option.map UInt64.toNat) = declared_window f d.toNat := by
  have hsizes : ∀ n : Fin 256, (if n.1 >>> 6 ≠ 0 then 1 <<< (n.1 >>> 6) else 1) ∈ [1, 2, 4, 8] := by decide +kernel
  have hsize := hsizes ⟨d.toNat, UInt8.toNat_lt d⟩
  unfold window_word declared_window
  dsimp only at hsize ⊢
  generalize (if d.toNat >>> 6 ≠ 0 then 1 <<< (d.toNat >>> 6) else 1) = fcs_size at hsize ⊢
  split
  · split
    · rfl
    · have hb : f[5]? = some f[5] := List.getElem?_eq_getElem (by omega)
      rw [hb, word_byte hb]
      simp only [Option.bind_eq_bind, Option.bind_some, Option.pure_def, Option.map_some, window_descriptor_word]
  · split
    · rfl
    · next hlen =>
      obtain ⟨w, hw, hval⟩ := content_size_eq little f (5 + did_len (d.toNat &&& 3))
        (show fcs_size = 1 ∨ fcs_size = 2 ∨ fcs_size = 4 ∨ fcs_size = 8 by simpa using hsize) (by omega)
      rw [hw, word_eq (by omega), ← hval]
      simp only [Option.bind_eq_bind, Option.bind_some, Option.pure_def, Option.map_some]
      split
      · next h2 =>
        -- the offset of the two-byte field cannot wrap
        subst h2
        have := le_take_lt (f := f.drop (5 + did_len (d.toNat &&& 3))) 2 (by rw [List.length_drop]; omega)
        rw [UInt64.toNat_add, hval, Nat.mod_eq_of_lt]
        · rfl
        · have h256 : (256 : UInt64).toNat = 256 := rfl
          rw [h256]
          omega
      · rfl

theorem probe_frame_build_eq (little : Bool) {f : Bytes} (h4 : 4 ≤ f.length) :
    probe_frame_build little f = probe_frame f := by
  obtain ⟨mw, hmw, hval⟩ := magic_word_eq little h4
  have hz : mw = 0xFD2FB528 ↔ le (f.take 4) = zstd_magicnumber := by
    rw [← hval, ← UInt32.toNat_inj]
    rfl
  have hs : mw &&& 0xFFFFFFF0 = 0x184D2A50 ↔
      le (f.take 4) &&& zstd_magic_skippable_mask = zstd_magic_skippable_start := by
    rw [← hval, ← UInt32.toNat_inj, UInt32.toNat_and]
    rfl
  unfold probe_frame_build probe_frame
  rw [hmw, word_eq (show 0 + 4 ≤ f.length by omega), List.drop_zero]
  simp only [Option.bind_eq_bind, Option.bind_some, ne_eq, hz, hs]
  split
  · rfl
  split
  · split
    · rfl
    · obtain ⟨size, hsize, hsv⟩ := skip_size_eq little (f := f) (by omega)
      rw [hsize, word_eq (by omega)]
      simp only [Option.bind_some, hsv]
  · split
    · rfl
    · have hd : f[4]? = some f[4] := List.getElem?_eq_getElem (by omega)
      rw [hd, word_byte hd]
      simp only [Option.bind_some, ← window_word_eq little]
      split
      · rfl
      · cases window_word little f f[4].toNat with
        | none => rfl
        | some w =>
          cases w with
          | none => rfl
          | some w => rfl

/-! ## The rule -/

/-- Both builds read only the bytes they have and give one verdict, the one RFC 8878
says. More bytes change it only where the header was cut off, and eighteen bytes are
always enough. -/
theorem probe_frame_rule (little : Bool) {f : Bytes} (h4 : 4 ≤ f.length) :
    ∃ v, probe_frame_build little f = some v ∧ probe_frame_build (!little) f = some v ∧
      (v = .not_zstd ↔ ¬ZstdMagic f ∧ ¬SkippableMagic f) ∧
      (∀ size, v = .skip size ↔ SkippableMagic f ∧ 8 ≤ f.length ∧ size = le ((f.drop 4).take 4)) ∧
      (v = .reserved ↔ ZstdMagic f ∧ ReservedBit f 1) ∧
      (∀ w, v = .window_big w ↔
        ZstdMagic f ∧ ReservedBit f 0 ∧ windowSize f = some w ∧ w > 8 * 1024 * 1024) ∧
      (v = .ok ↔ ZstdMagic f ∧ ReservedBit f 0 ∧ ∃ w, windowSize f = some w ∧ w ≤ 8 * 1024 * 1024) ∧
      (v = .truncated ↔ f.length < headerBytes f) ∧
      (v ≠ .truncated → ∀ g, probe_frame_build little (f ++ g) = some v) ∧
      (18 ≤ f.length → v ≠ .truncated) := by
  have hcut := (frameVerdict_judged f).truncated_iff h4
  obtain ⟨hnot, hskip, hres, hbig, hok⟩ := (frameVerdict_judged f).iffs
  refine ⟨frameVerdict f, ?_, ?_, hnot, hskip, hres, hbig, hok, hcut, ?_, ?_⟩
  · rw [probe_frame_build_eq little h4, probe_frame_eq h4]
  · rw [probe_frame_build_eq _ h4, probe_frame_eq h4]
  · intro hv g
    have h4' : 4 ≤ (f ++ g).length := by rw [List.length_append]; omega
    rw [probe_frame_build_eq little h4', probe_frame_eq h4', frameVerdict_append h4 g hv]
  · intro h18 hv
    have := hcut.1 hv
    have := headerBytes_le f
    omega

/-- A single-segment frame with a two-byte content size of 65535, which stands for
65791 bytes. -/
theorem probe_frame_rule_two_bytes :
    probe_frame_build false [0x28, 0xB5, 0x2F, 0xFD, 0x60, 0xFF, 0xFF] = some .ok := by
  obtain ⟨v, hv, -, -, -, -, -, hok, -⟩ :=
    probe_frame_rule false (f := [0x28, 0xB5, 0x2F, 0xFD, 0x60, 0xFF, 0xFF]) (by decide)
  rw [hv, hok.2 ⟨rfl, ⟨0x60, rfl, by decide⟩, 65791, by decide, by decide⟩]

end NginxZstd
