import NginxZstd.BodyFilter.Buffers
/-!
# The first output buffer

A pledged length may make the first buffer smaller than configured, never smaller
than what `ZSTD_compressBound` asks for. On either word size the lengths around
2^32 and around the ceiling of libzstd are where a size could wrap; none does. One
size would, were the bound computed where it is not needed.
-/

namespace NginxZstd

open Lib

/-! ## Allocation -/

/-- `NGX_MAX_SIZE_T_VALUE`, which is signed. -/
def max_size_t_value (A : Abi) : Nat := 2 ^ (A.size_bits - 1) - 1

/-- What of `ngx_http_zstd_create_temp_buf` may refuse: the test of the size, and the
pool. `data_offset` is the aligned size of `ngx_buf_t`. -/
def temp_buf_granted (A : Abi) (data_offset : Nat) (pool : Nat → Bool) (size : Nat) : Bool :=
  if size > max_size_t_value A - data_offset then false else pool ((data_offset + size) % 2 ^ A.size_bits)

/-- The test of `create_temp_buf` leaves the sum a signed size. -/
theorem temp_buf_fits {A : Abi} {data_offset size : Nat} {pool : Nat → Bool} (hoffset : data_offset ≤ max_size_t_value A)
    (h : temp_buf_granted A data_offset pool size = true) : data_offset + size < 2 ^ A.size_bits := by
  have hle : size ≤ max_size_t_value A - data_offset := by
    unfold temp_buf_granted at h
    split at h
    · cases h
    · omega
  have hmax : max_size_t_value A < 2 ^ A.size_bits := by
    unfold max_size_t_value
    rcases A.size_ok with hw | hw <;> rw [hw] <;> decide
  omega

section
variable {Z : Compressor} (E : BodyEnv)

/-- The size `get_buf` asks a new buffer with. -/
def alloc_size (ctx : BodyCtx Z) : Nat :=
  match want_header E ctx with
  | some _ => (payload_size E (ctx.bufs = 0) + dcz_header_len) % 2 ^ E.abi.size_bits
  | none => payload_size E (ctx.bufs = 0)

/-- `get_buf` with the allocation as the source has it. -/
def get_buf_sized (data_offset : Nat) (pool : Nat → Bool) (ctx : BodyCtx Z) : Rc × BodyCtx Z :=
  get_buf E (temp_buf_granted E.abi data_offset pool (alloc_size E ctx)) ctx

/-- `payload_size` without the test that spares the call of `ZSTD_compressBound`. -/
def payload_size_unskipped (first_buf : Bool) : Nat :=
  let buf_size := E.zlcf.bufs.size
  if first_buf ∧ E.filter.pledged_size ≥ 0 then
    match pledge_to_bound_input E.abi E.filter.pledged_size with
    | none => buf_size
    | some pledged =>
      let bound := (E.compressBound pledged + bound_frame_slack) % 2 ^ E.abi.size_bits
      let bound := if bound < bound_min then bound_min else bound
      if bound < buf_size then bound else buf_size
  else buf_size

end

/-! ## The bound -/

/-- What zstd.h says of `ZSTD_compressBound` below the ceiling: `n + (n >> 8)` and a
margin, of at most 64. -/
structure CompressBound (E : BodyEnv) : Prop where
  ge : ∀ n < zstd_max_input_size E.abi, n ≤ E.compressBound n
  le : ∀ n < zstd_max_input_size E.abi, E.compressBound n ≤ n + n / 256 + 64

/-- The bound of the first buffer's size, over the integers. -/
def firstBound (E : BodyEnv) (n : Nat) : Nat := max bound_min (E.compressBound n + bound_frame_slack)

/-- A length that may bound the buffer: known, and below the ceiling. -/
def Bounding (E : BodyEnv) : Prop :=
  0 ≤ E.filter.pledged_size ∧ E.filter.pledged_size.toNat < zstd_max_input_size E.abi

instance (E : BodyEnv) : Decidable (Bounding E) := inferInstanceAs (Decidable (_ ∧ _))

section
variable {E : BodyEnv}

theorem zstd_max_input_size_lt (A : Abi) : zstd_max_input_size A < 2 ^ A.size_bits := by
  unfold zstd_max_input_size
  rcases A.size_ok with h | h <;> rw [h] <;> decide

/-- Where the test of the width does not decline, the length is a `size_t`. -/
theorem pledged_representable {A : Abi} {p : Int} (hp : A.IsOff p) (hwide : ¬(A.off_bits > A.size_bits ∧ p.toNat > A.size_max)) :
    p.toNat < 2 ^ A.size_bits := by
  have hpos := Nat.two_pow_pos A.size_bits
  by_cases hbits : A.off_bits > A.size_bits
  · have hle : p.toNat ≤ A.size_max := Nat.le_of_not_lt fun h => hwide ⟨hbits, h⟩
    unfold Abi.size_max at hle
    omega
  · have hoff : (p.toNat : Int) < 2 ^ A.size_bits := by
      have hmono : (2 : Int) ^ (A.off_bits - 1) ≤ 2 ^ A.size_bits := pow_le_pow_right₀ (by decide) (by omega)
      have hzero : (0 : Int) < 2 ^ A.size_bits := by positivity
      have := hp.2
      omega
    exact_mod_cast hoff

/-- The narrowing is lossless. -/
theorem pledge_to_bound_input_eq (hp : E.abi.IsOff E.filter.pledged_size) :
    pledge_to_bound_input E.abi E.filter.pledged_size =
      if Bounding E then some E.filter.pledged_size.toNat else none := by
  have hmax := zstd_max_input_size_lt E.abi
  unfold pledge_to_bound_input
  by_cases hneg : E.filter.pledged_size < 0
  · rw [if_pos hneg, if_neg fun hb : Bounding E => Int.not_le.2 hneg hb.1]
  by_cases hwide : E.abi.off_bits > E.abi.size_bits ∧ E.filter.pledged_size.toNat > E.abi.size_max
  · have hlarge := hwide.2
    unfold Abi.size_max at hlarge
    have hno : ¬Bounding E := fun hb => by
      have := hb.2
      omega
    rw [if_neg hneg, if_pos hwide, if_neg hno]
  · rw [if_neg hneg, if_neg hwide, Nat.mod_eq_of_lt (pledged_representable hp hwide)]
    by_cases hceil : E.filter.pledged_size.toNat ≥ zstd_max_input_size E.abi
    · rw [if_pos hceil, if_neg fun hb : Bounding E => Nat.not_lt.2 hceil hb.2]
    · rw [if_neg hceil, if_pos (show Bounding E from ⟨Int.not_lt.1 hneg, Nat.not_le.1 hceil⟩)]

/-- The bound is computed only for lengths whose bound fits. -/
theorem bound_fits (h : BufsOk E) (hc : CompressBound E) {n : Nat} (hn : n < E.zlcf.bufs.size)
    (hmax : n < zstd_max_input_size E.abi) : E.compressBound n + bound_frame_slack < 2 ^ E.abi.size_bits := by
  have hle := hc.le n hmax
  have hfits := h.fits
  unfold bound_frame_slack
  rcases E.abi.size_ok with hw | hw <;> rw [hw] at hfits ⊢ <;> omega

/-- The compressor's share of a new buffer. -/
theorem payload_size_eq (h : BufsOk E) (hc : CompressBound E) (hp : E.abi.IsOff E.filter.pledged_size) (first_buf : Bool) :
    payload_size E first_buf =
      if first_buf ∧ Bounding E then min E.zlcf.bufs.size (firstBound E E.filter.pledged_size.toNat)
      else E.zlcf.bufs.size := by
  unfold payload_size
  dsimp only
  rw [pledge_to_bound_input_eq hp]
  by_cases hb : first_buf ∧ Bounding E
  · obtain ⟨hfirst, hpos, hmax⟩ := hb
    rw [if_pos ⟨hfirst, hpos⟩, if_pos ⟨hpos, hmax⟩, if_pos ⟨hfirst, hpos, hmax⟩]
    dsimp only
    have hge := hc.ge _ hmax
    by_cases hn : E.filter.pledged_size.toNat < E.zlcf.bufs.size
    · rw [if_pos hn, Nat.mod_eq_of_lt (bound_fits h hc hn hmax)]
      unfold firstBound
      split <;> split <;> omega
    · rw [if_neg hn]
      unfold firstBound
      omega
  · rw [if_neg hb]
    split
    · next hfirst =>
      rw [if_neg fun hbound => hb ⟨hfirst.1, hbound⟩]
    · rfl

theorem payload_size_unskipped_eq (hp : E.abi.IsOff E.filter.pledged_size) (first_buf : Bool) :
    payload_size_unskipped E first_buf =
      if first_buf ∧ Bounding E then
        min E.zlcf.bufs.size
          (max bound_min ((E.compressBound E.filter.pledged_size.toNat + bound_frame_slack) % 2 ^ E.abi.size_bits))
      else E.zlcf.bufs.size := by
  unfold payload_size_unskipped
  dsimp only
  rw [pledge_to_bound_input_eq hp]
  by_cases hb : first_buf ∧ Bounding E
  · rw [if_pos ⟨hb.1, hb.2.1⟩, if_pos hb.2, if_pos hb]
    dsimp only
    split <;> split <;> omega
  · rw [if_neg hb]
    split
    · next hfirst =>
      rw [if_neg fun hbound => hb ⟨hfirst.1, hbound⟩]
    · rfl

/-- Without the test the size is the same, unless the bound wraps. -/
theorem payload_size_skip (h : BufsOk E) (hc : CompressBound E) (hp : E.abi.IsOff E.filter.pledged_size)
    (first_buf : Bool) (hfits : E.compressBound E.filter.pledged_size.toNat + bound_frame_slack < 2 ^ E.abi.size_bits) :
    payload_size_unskipped E first_buf = payload_size E first_buf := by
  rw [payload_size_unskipped_eq hp, payload_size_eq h hc hp, Nat.mod_eq_of_lt hfits]
  rfl

/-! ## The space the compressor gets -/

variable {Z : Compressor} {ctx ctx' : BodyCtx Z}

/-- An allocation is granted, and `buffer_out` describes the room behind the frame
header. -/
theorem get_buf_allocated {palloc : Bool} (h : get_buf E palloc ctx = (.ok, ctx')) (hnew : ctx'.bufs = ctx.bufs + 1) :
    palloc = true ∧ ctx' = { alloc_buf E ctx with
      buffer_out := ⟨0, ((alloc_buf E ctx).heap ctx.bufs).cap - ((alloc_buf E ctx).heap ctx.bufs).data.length⟩ } := by
  rcases get_buf_cases h nofun with ⟨-, -, -, rfl⟩ | ⟨hbusy, ⟨i, free, -, -, rfl⟩ | ⟨hf, hn, -, hctx⟩ | ⟨-, -, hrc, -⟩⟩
  · exact absurd hnew (by simp)
  · exact absurd hnew (by simp [reuse_buf])
  · refine ⟨?_, hctx⟩
    cases palloc with
    | true => rfl
    | false =>
      unfold get_buf at h
      rw [if_neg hbusy, hf] at h
      dsimp only at h
      rw [if_pos hn] at h
      cases h
  · cases hrc

theorem alloc_buf_cap (ctx : BodyCtx Z) : ((alloc_buf E ctx).heap ctx.bufs).cap = alloc_size E ctx := by
  unfold alloc_buf alloc_size
  dsimp only
  rw [Function.update_self]
  cases want_header E ctx with
  | none => rfl
  | some header => rfl

/-- The frame header takes what the allocation was grown by. -/
theorem alloc_buf_room (h : BufsOk E)
    (hheader : ∀ dict, E.filter.dcz_dict = some dict → dict.frame_header.length = dcz_header_len) (ctx : BodyCtx Z) :
    alloc_size E ctx - ((alloc_buf E ctx).heap ctx.bufs).data.length = payload_size E (ctx.bufs = 0) ∧
      alloc_size E ctx ≤ payload_size E (ctx.bufs = 0) + dcz_header_len := by
  have hfits : payload_size E (ctx.bufs = 0) + dcz_header_len < 2 ^ E.abi.size_bits :=
    Nat.lt_of_le_of_lt (Nat.add_le_add_right (payload_size_bounds h _).2 _) h.header_fits
  unfold alloc_buf alloc_size
  dsimp only
  rw [Function.update_self]
  cases hw : want_header E ctx with
  | none => exact ⟨Nat.sub_zero _, Nat.le_add_right _ _⟩
  | some header =>
    have hlen : header.length = dcz_header_len := by
      unfold want_header at hw
      split at hw
      · next dict hdict =>
        split at hw
        · cases hw
          rw [List.length_take, hheader dict hdict, Nat.min_self]
        · cases hw
      · cases hw
    dsimp only
    rw [Nat.mod_eq_of_lt hfits, hlen, Nat.add_sub_cancel]
    exact ⟨rfl, Nat.le_refl _⟩

end

/-- What `get_buf` gives the compressor in a buffer it allocates. In the first one it is
at most the configured size and at least what the bound asks for or the
configured size; without a usable length, and in every later one, it is the
configured size; the frame header takes nothing of it. No sum and no narrowing
wraps, and the test that spares the bound changes the size only where computing it
would. -/
theorem first_buffer_size {Z : Compressor} (E : BodyEnv) (data_offset : Nat) (pool : Nat → Bool) (ctx ctx' : BodyCtx Z)
    (h : BufsOk E) (hc : CompressBound E) (hp : E.abi.IsOff E.filter.pledged_size)
    (hheader : ∀ dict, E.filter.dcz_dict = some dict → dict.frame_header.length = dcz_header_len)
    (hoffset : data_offset ≤ max_size_t_value E.abi) (hget : get_buf_sized E data_offset pool ctx = (.ok, ctx'))
    (hnew : ctx'.bufs = ctx.bufs + 1) :
    let size := E.zlcf.bufs.size
    let pledged := E.filter.pledged_size
    let bound := E.compressBound pledged.toNat + bound_frame_slack
    let space := ctx'.buffer_out.size - ctx'.buffer_out.pos
    space ≤ size ∧ min size (max bound_min bound) ≤ space ∧
    (pledged < 0 ∨ 2 ^ E.abi.size_bits ≤ pledged.toNat ∨ zstd_max_input_size E.abi ≤ pledged.toNat → space = size) ∧
    (ctx.bufs ≠ 0 → space = size) ∧
    space = payload_size { E with filter := { E.filter with dcz_dict := none } } (ctx.bufs = 0) ∧
    (size ≤ pledged.toNat → pledged.toNat < zstd_max_input_size E.abi → min size (max bound_min bound) = size) ∧
    (bound < 2 ^ E.abi.size_bits → payload_size_unskipped E (ctx.bufs = 0) = payload_size E (ctx.bufs = 0)) ∧
    (pledged.toNat < size → pledged.toNat < zstd_max_input_size E.abi → bound < 2 ^ E.abi.size_bits) ∧
    payload_size E (ctx.bufs = 0) + dcz_header_len < 2 ^ E.abi.size_bits ∧
    data_offset + alloc_size E ctx < 2 ^ E.abi.size_bits ∧
    ∀ n, pledge_to_bound_input E.abi pledged = some n → (n : Int) = pledged := by
  intro size pledged bound space
  obtain ⟨hgranted, hctx⟩ := get_buf_allocated hget hnew
  have hsize := payload_size_eq h hc hp (ctx.bufs = 0)
  have hspace : space = payload_size E (ctx.bufs = 0) := by
    show ctx'.buffer_out.size - ctx'.buffer_out.pos = _
    rw [hctx]
    show ((alloc_buf E ctx).heap ctx.bufs).cap - ((alloc_buf E ctx).heap ctx.bufs).data.length - 0 = _
    rw [alloc_buf_cap, Nat.sub_zero]
    exact (alloc_buf_room h hheader ctx).1
  have hwhole : ¬(decide (ctx.bufs = 0) = true ∧ Bounding E) → space = size := fun hno => by
    rw [hspace, hsize, if_neg hno]
  refine ⟨?_, ?_, fun hnone => ?_, fun hlater => ?_, ?_, fun hlong hmax => ?_, ?_, fun hshort hmax => ?_, ?_, ?_, ?_⟩
  · rw [hspace]
    exact (payload_size_bounds h _).2
  · rw [hspace, hsize]
    split
    · exact Nat.le_refl _
    · exact Nat.min_le_left _ _
  · refine hwhole fun hb => ?_
    have hpos := hb.2.1
    have hmax := hb.2.2
    have hlt := zstd_max_input_size_lt E.abi
    show False
    rcases hnone with hneg | hwide | hceil
    · exact Int.not_lt.2 hpos hneg
    · exact Nat.not_lt.2 hwide (Nat.lt_trans hmax hlt)
    · exact Nat.not_lt.2 hceil hmax
  · exact hwhole fun hb => hlater (of_decide_eq_true hb.1)
  · exact hspace
  · have hge := hc.ge _ hmax
    omega
  · exact payload_size_skip h hc hp _
  · exact bound_fits h hc hshort hmax
  · exact Nat.lt_of_le_of_lt (Nat.add_le_add_right (payload_size_bounds h _).2 _) h.header_fits
  · exact temp_buf_fits hoffset hgranted
  · intro n hn
    rw [pledge_to_bound_input_eq hp] at hn
    split at hn
    · next hb =>
      cases hn
      exact Int.toNat_of_nonneg hb.1
    · cases hn

/-! ## On a 32-bit host -/

/-- `ZSTD_COMPRESSBOUND` of zstd.h. -/
def zstd_compress_bound (A : Abi) (n : Nat) : Nat :=
  if n ≥ zstd_max_input_size A then 0 else n + n / 256 + if n < 131072 then (131072 - n) / 2048 else 0

theorem zstd_compress_bound_ok {E : BodyEnv} (h : E.compressBound = zstd_compress_bound E.abi) : CompressBound E where
  ge n hn := by
    rw [h, zstd_compress_bound, if_neg (Nat.not_le.2 hn)]
    omega
  le n hn := by
    rw [h, zstd_compress_bound, if_neg (Nat.not_le.2 hn)]
    split <;> omega

theorem off_bits_64 : 64 = 32 ∨ 64 = 64 := .inr rfl

/-- A 32-bit host with large files. -/
def ilp32 : Abi := ⟨32, 64, .inl rfl, off_bits_64⟩

/-- A response of a known length on that host. -/
def ilp32Env (pledged_size : Int) : BodyEnv :=
  { sampleEnv 32 131072 none (some sampleDict) with
    abi := ilp32
    filter := ⟨some sampleDict, pledged_size⟩
    compressBound := zstd_compress_bound ilp32 }

theorem ilp32Env_bufsOk (pledged_size : Int) : BufsOk (ilp32Env pledged_size) where
  num := show 0 < 32 by decide
  size := show 0 < 131072 by decide
  fits := show 131072 < 2 ^ 31 by decide

/-- A response of 389 bytes with a dictionary gets what the bound asks for. -/
theorem first_buffer_size_short : ∃ ctx' : BodyCtx (.blocks 2),
    get_buf_sized (ilp32Env 389) 80 (fun _ => true) (BodyCtx.start _) = (.ok, ctx') ∧
      517 ≤ ctx'.buffer_out.size - ctx'.buffer_out.pos := by
  obtain ⟨ctx', hget, hbufs⟩ : ∃ ctx' : BodyCtx (.blocks 2),
      get_buf_sized (ilp32Env 389) 80 (fun _ => true) (BodyCtx.start _) = (.ok, ctx') ∧ ctx'.bufs = 1 := ⟨_, rfl, rfl⟩
  have hheader : ∀ dict, (ilp32Env 389).filter.dcz_dict = some dict → dict.frame_header.length = dcz_header_len := by
    intro dict hd
    cases hd
    rfl
  obtain ⟨-, hleast, -⟩ := first_buffer_size (ilp32Env 389) 80 (fun _ => true) (BodyCtx.start _) ctx'
    (ilp32Env_bufsOk 389) (zstd_compress_bound_ok rfl) ⟨by decide, by decide⟩ hheader (by decide) hget hbufs
  exact ⟨ctx', hget, hleast⟩

/-- Just below the ceiling the bound itself still fits, and the pad makes it wrap:
without the test this length would give a buffer of 256 bytes. -/
theorem first_buffer_skip_matters : ¬∀ E : BodyEnv, BufsOk E → CompressBound E → E.abi.IsOff E.filter.pledged_size →
    E.zlcf.bufs.size ≤ E.filter.pledged_size.toNat → payload_size_unskipped E true = payload_size E true := by
  intro hall
  have h := hall (ilp32Env 0xFF00FEFF) (ilp32Env_bufsOk _) (zstd_compress_bound_ok rfl) ⟨by decide, by decide⟩ (by decide)
  have hskip : payload_size (ilp32Env 0xFF00FEFF) true = 131072 := by decide
  have hcall : payload_size_unskipped (ilp32Env 0xFF00FEFF) true = 256 := by decide
  rw [hskip, hcall] at h
  cases h

end NginxZstd
