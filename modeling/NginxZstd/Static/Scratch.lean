import NginxZstd.Lib.Bytes
/-!
# The buffer of a directio probe

A read of a file opened for directio needs a buffer that is aligned as the device
asks. One is kept for all probes with the configuration; a probe that finds it in use,
or cannot have it made anew, takes one from its request. The allocator may refuse
either.
-/

namespace NginxZstd

/-- Where a buffer comes from: the pool of the configuration, or a request's. -/
inductive BufPool where
  | cycle
  | request (r : Nat)
deriving DecidableEq

/-- A block of memory given by `ngx_pmemalign`. -/
structure PoolBlock where
  pool : BufPool
  addr : Nat
  size : Nat
  align : Nat

/-- The fields of `ngx_http_zstd_static_main_conf_t` about the buffer. -/
structure DioScratch where
  dio_scratch : Option Nat
  dio_scratch_cap : Nat
  dio_scratch_align : Nat
  dio_scratch_busy : Bool

/-- `ngx_pmemalign`, where the pool answers with an address or not at all. -/
def pmemalign (pool : BufPool) (want align : Nat) (answer : BufPool → Option Nat) : Option Nat × List PoolBlock :=
  (answer pool, (answer pool).toList.map fun addr => ⟨pool, addr, want, align⟩)

/-- `ngx_http_zstd_static_dio_buf`, with the blocks it was given. -/
def dio_buf (zsmcf : DioScratch) (r want align : Nat) (answer : BufPool → Option Nat) :
    Option Nat × DioScratch × List PoolBlock :=
  if zsmcf.dio_scratch_busy then
    let (p, made) := pmemalign (.request r) want align answer
    (p, zsmcf, made)
  else if zsmcf.dio_scratch_cap < want ∨ zsmcf.dio_scratch_align < align then
    match pmemalign .cycle want align answer with
    | (none, _) =>
      let (p, made) := pmemalign (.request r) want align answer
      (p, zsmcf, made)
    | (some p, made) => (some p, ⟨some p, want, align, true⟩, made)
  else (zsmcf.dio_scratch, { zsmcf with dio_scratch_busy := true }, [])

/-- `ngx_http_zstd_static_dio_buf_release`. -/
def dio_buf_release (zsmcf : DioScratch) : DioScratch := { zsmcf with dio_scratch_busy := false }

/-- A probe falls back on its request, gets the buffer anew, or finds it as it is. -/
theorem dio_buf_cases (zsmcf : DioScratch) (r want align : Nat) (answer : BufPool → Option Nat) :
    dio_buf zsmcf r want align answer =
        ((pmemalign (.request r) want align answer).1, zsmcf, (pmemalign (.request r) want align answer).2) ∨
    (zsmcf.dio_scratch_busy = false ∧ (zsmcf.dio_scratch_cap < want ∨ zsmcf.dio_scratch_align < align) ∧
      ∃ addr, answer .cycle = some addr ∧
        dio_buf zsmcf r want align answer =
          (some addr, ⟨some addr, want, align, true⟩, [⟨.cycle, addr, want, align⟩])) ∨
    (zsmcf.dio_scratch_busy = false ∧ want ≤ zsmcf.dio_scratch_cap ∧ align ≤ zsmcf.dio_scratch_align ∧
      dio_buf zsmcf r want align answer = (zsmcf.dio_scratch, { zsmcf with dio_scratch_busy := true }, [])) := by
  unfold dio_buf
  split
  · exact .inl rfl
  next hbusy =>
  have hbusy : zsmcf.dio_scratch_busy = false := by simpa using hbusy
  split
  · next hsmall =>
    split
    · exact .inl rfl
    · next p made hp =>
      obtain ⟨hp, hmade⟩ := Prod.mk.inj hp
      refine .inr (.inl ⟨hbusy, hsmall, p, hp, ?_⟩)
      rw [← hmade, hp]
      rfl
  · next hlarge =>
    exact .inr (.inr ⟨hbusy, by omega, by omega, rfl⟩)

/-- The configuration as it is created. -/
def fresh_scratch : DioScratch := ⟨none, 0, 0, false⟩

/-- `posix_memalign` with room at `addr`: it aligns to powers of two only. -/
def posix_memalign (align addr : Nat) (_ : BufPool) : Option Nat := if align.isPowerOfTwo then some addr else none

end NginxZstd
