import Mathlib.Algebra.Order.Group.Nat
import Mathlib.Data.List.Perm.Subperm
import Mathlib.Logic.Function.Basic
import Mathlib.Tactic.IntervalCases
import NginxZstd.Static.ReadLoop
/-!
# Probes of directio files

A probe of a file opened for directio reads into a buffer of its own alignment. One
buffer is kept for all of them with the configuration; a probe that finds it in use
takes one from its request. The probes of a worker may begin and end in any order:
their buffers are apart, large enough and aligned, and the guard on the kept buffer is
up exactly while a probe reads into it.
-/

namespace NginxZstd

open Lib

/-! ## The source -/

/-- The variables of `ngx_http_zstd_static_probe_file` between the buffer and
`probe_done`. -/
structure DioProbe where
  file : OpenFile
  hdr : Nat
  scratch : Bool

/-- A worker: the probes under way, by request, and the blocks of the pools there are. -/
structure DioWorker where
  zsmcf : DioScratch
  probes : Nat → Option DioProbe
  blocks : List PoolBlock

inductive DioOp where
  | probe_file (r : Nat) (file : OpenFile) (answer : BufPool → Option Nat)
  | probe_done (r : Nat)
  | destroy_pool (r : Nat)

def DioWorker.step (w : DioWorker) : DioOp → Option DioWorker
  | .probe_file r file answer =>
    if (w.probes r).isSome ∨ file.size < 4 ∨ ¬file.directio.isSome then none
    else
      match dio_buf w.zsmcf r (probe_want file) (probe_align file) answer with
      | (none, zsmcf, made) => some { w with zsmcf, blocks := made ++ w.blocks }
      | (some hdr, zsmcf, made) =>
        let scratch := some hdr == zsmcf.dio_scratch
        some ⟨zsmcf, Function.update w.probes r (some ⟨file, hdr, scratch⟩), made ++ w.blocks⟩
  | .probe_done r =>
    (w.probes r).map fun p =>
      { w with
        zsmcf := if p.scratch then dio_buf_release w.zsmcf else w.zsmcf
        probes := Function.update w.probes r none }
  | .destroy_pool r =>
    if (w.probes r).isSome then none else some { w with blocks := w.blocks.filter fun b => b.pool ≠ .request r }

def DioWorker.start : DioWorker := ⟨fresh_scratch, fun _ => none, []⟩

/-- What an allocator keeps to: it aligns to powers of two only, and gives out no
memory a second time. -/
def DioWorker.Proper (w : DioWorker) : DioOp → Prop
  | .probe_file _ file answer => ∀ pool addr, answer pool = some addr →
      (probe_align file).isPowerOfTwo ∧ probe_align file ∣ addr ∧
        ∀ b ∈ w.blocks, b.addr + b.size ≤ addr ∨ addr + probe_want file ≤ b.addr
  | .probe_done _ => True
  | .destroy_pool _ => True

/-! ## The blocks -/

/-- Two blocks share no byte. -/
def PoolBlock.Apart (b c : PoolBlock) : Prop := b.addr + b.size ≤ c.addr ∨ c.addr + c.size ≤ b.addr

/-- A block such as the probes ask for. -/
structure PoolBlock.Sound (b : PoolBlock) : Prop where
  pow : b.align.isPowerOfTwo
  aligned : b.align ∣ b.addr
  size : b.size = b.align * 2
  ge : dio_probe ≤ b.align
  le : b.align ≤ dio_probe_max

theorem probe_align_le (f : OpenFile) : probe_align f ≤ dio_probe_max := by
  unfold probe_align
  split
  · exact Nat.zero_le _
  · next directio_alignment _ =>
    show (if _ then _ else _) ≤ dio_probe_max
    generalize (if directio_alignment > dio_probe then directio_alignment else dio_probe) = align
    split <;> omega

theorem probe_want_directio {f : OpenFile} (h : f.directio.isSome) : probe_want f = probe_align f * 2 := if_pos h

/-- A power of two divides every larger one. -/
theorem pow_dvd_of_isPowerOfTwo {k n : Nat} (hn : n.isPowerOfTwo) (hk : 2 ^ k ≤ n) : 2 ^ k ∣ n := by
  obtain ⟨m, rfl⟩ := hn
  exact Nat.pow_dvd_pow 2 ((Nat.pow_le_pow_iff_right (by decide)).1 hk)

/-- The alignments there are. -/
theorem PoolBlock.Sound.align_mem {b : PoolBlock} (h : b.Sound) : b.align ∈ [4096, 8192, 16384, 32768, 65536] := by
  obtain ⟨k, hk⟩ := h.pow
  have hge : 2 ^ 12 ≤ 2 ^ k := hk ▸ h.ge
  have hle : 2 ^ k ≤ 2 ^ 16 := hk ▸ h.le
  have hge := (Nat.pow_le_pow_iff_right (by decide)).1 hge
  have hle := (Nat.pow_le_pow_iff_right (by decide)).1 hle
  rw [hk]
  interval_cases k <;> decide

/-- The blocks and the one kept with the configuration. -/
structure DioMemory (zsmcf : DioScratch) (blocks : List PoolBlock) : Prop where
  apart : blocks.Pairwise PoolBlock.Apart
  sound : ∀ b ∈ blocks, b.Sound
  /-- The blocks of the configuration, the last one first, are ever more aligned. -/
  growing : (blocks.filter fun b => b.pool = .cycle).Pairwise fun b c => c.align < b.align
  below : ∀ b ∈ blocks, b.pool = .cycle → b.align ≤ zsmcf.dio_scratch_align
  kept : ∀ addr, zsmcf.dio_scratch = some addr →
    (⟨.cycle, addr, zsmcf.dio_scratch_cap, zsmcf.dio_scratch_align⟩ : PoolBlock) ∈ blocks
  unset : zsmcf.dio_scratch = none → zsmcf.dio_scratch_cap = 0 ∧ zsmcf.dio_scratch_align = 0

/-- `b` is the block that the probe of `r` reads into. -/
structure DioProbe.Reads (r : Nat) (p : DioProbe) (b : PoolBlock) : Prop where
  addr : b.addr = p.hdr
  align : probe_align p.file ≤ b.align
  pool : b.pool = if p.scratch then .cycle else .request r

/-- The probes under way, and the guard on the kept buffer. -/
structure DioProbing (zsmcf : DioScratch) (probes : Nat → Option DioProbe) (blocks : List PoolBlock) : Prop where
  directio : ∀ r p, probes r = some p → p.file.directio.isSome
  reads : ∀ r p, probes r = some p → ∃ b ∈ blocks, p.Reads r b
  scratch : ∀ r p, probes r = some p → p.scratch = true → zsmcf.dio_scratch = some p.hdr
  busy : zsmcf.dio_scratch_busy = true ↔ ∃ r p, probes r = some p ∧ p.scratch = true
  one : ∀ r p r' p', probes r = some p → p.scratch = true → probes r' = some p' → p'.scratch = true → r = r'

structure DioWorker.Inv (w : DioWorker) : Prop where
  memory : DioMemory w.zsmcf w.blocks
  probing : DioProbing w.zsmcf w.probes w.blocks

/-! ## A step -/

variable {w w' : DioWorker} {r : Nat} {file : OpenFile} {answer : BufPool → Option Nat}

/-- What a probe that begins does to the worker. -/
theorem DioWorker.probe_cases (hi : DioMemory w.zsmcf w.blocks) (h : w.step (.probe_file r file answer) = some w') :
    w.probes r = none ∧ file.directio.isSome ∧
    (w' = w ∨
      (∃ addr, answer (.request r) = some addr ∧
        let b : PoolBlock := ⟨.request r, addr, probe_want file, probe_align file⟩
        w' = ⟨w.zsmcf, Function.update w.probes r (some ⟨file, addr, some addr == w.zsmcf.dio_scratch⟩),
          b :: w.blocks⟩) ∨
      (∃ addr, answer .cycle = some addr ∧ w.zsmcf.dio_scratch_busy = false ∧
        w.zsmcf.dio_scratch_align < probe_align file ∧
        let b : PoolBlock := ⟨.cycle, addr, probe_want file, probe_align file⟩
        w' = ⟨⟨some addr, probe_want file, probe_align file, true⟩,
          Function.update w.probes r (some ⟨file, addr, true⟩), b :: w.blocks⟩) ∨
      ∃ addr, w.zsmcf.dio_scratch = some addr ∧ w.zsmcf.dio_scratch_busy = false ∧
        probe_align file ≤ w.zsmcf.dio_scratch_align ∧
        w' = ⟨⟨some addr, w.zsmcf.dio_scratch_cap, w.zsmcf.dio_scratch_align, true⟩,
          Function.update w.probes r (some ⟨file, addr, true⟩), w.blocks⟩) := by
  simp only [DioWorker.step] at h
  split at h
  · cases h
  next hpre =>
  have hdio : file.directio.isSome := by
    by_contra hn
    exact hpre (.inr (.inr hn))
  have hnone : w.probes r = none := by
    by_contra hn
    exact hpre (.inl (Option.isSome_iff_ne_none.2 hn))
  refine ⟨hnone, hdio, ?_⟩
  have hpos := probe_align_pos hdio
  have hwant := probe_want_directio hdio
  rcases dio_buf_cases w.zsmcf r (probe_want file) (probe_align file) answer with heq |
    ⟨hbusy, hsmall, addr, haddr, heq⟩ | ⟨hbusy, hcap, halign, heq⟩
  · rw [heq] at h
    cases ha : answer (.request r) with
    | none =>
      refine .inl ?_
      simp only [pmemalign, ha] at h
      exact (Option.some.inj h).symm
    | some addr =>
      refine .inr (.inl ⟨addr, rfl, ?_⟩)
      simp only [pmemalign, ha] at h
      exact (Option.some.inj h).symm
  · rw [heq] at h
    have hgrows : w.zsmcf.dio_scratch_align < probe_align file := by
      rcases hsmall with hcap | halign
      · cases hs : w.zsmcf.dio_scratch with
        | none =>
          have := (hi.unset hs).2
          unfold dio_probe at hpos
          omega
        | some old =>
          have := (hi.sound _ (hi.kept old hs)).size
          simp only at this
          omega
      · exact halign
    refine .inr (.inr (.inl ⟨addr, haddr, hbusy, hgrows, ?_⟩))
    simp only [beq_self_eq_true] at h
    exact (Option.some.inj h).symm
  · rw [heq] at h
    cases hs : w.zsmcf.dio_scratch with
    | none =>
      have := (hi.unset hs).1
      unfold dio_probe at hpos
      omega
    | some addr =>
      refine .inr (.inr (.inr ⟨addr, rfl, hbusy, halign, ?_⟩))
      rw [hs] at h
      simp only [beq_self_eq_true] at h
      exact (Option.some.inj h).symm

/-- A probe of a directio file is the two steps: where the first gives it no buffer the
request fails, and what is left of the kept buffer is what they leave. -/
theorem DioWorker.probe_file_steps (hr : w.probes r = none) (hdio : file.directio.isSome) (h4 : 4 ≤ file.size)
    (keep : Bool) (answers : List Pread) :
    ∃ w', w.step (.probe_file r file answer) = some w' ∧
      (w'.probes r = none → (probe_file w.zsmcf r file keep answer answers).1 = .error) ∧
      (probe_file w.zsmcf r file keep answer answers).2 = ((w'.step (.probe_done r)).getD w').zsmcf := by
  have hpre : ¬((w.probes r).isSome ∨ file.size < 4 ∨ ¬file.directio.isSome) := by
    rw [hr]
    rintro (h | h | h)
    · cases h
    · omega
    · exact h hdio
  simp only [DioWorker.step, if_neg hpre, probe_file, if_neg (Nat.not_lt.2 h4), if_pos hdio]
  rcases dio_buf w.zsmcf r (probe_want file) (probe_align file) answer with ⟨_ | hdr, zsmcf, made⟩
  · refine ⟨_, rfl, fun _ => rfl, ?_⟩
    simp only [hr, Option.map_none, Option.getD_none]
  · refine ⟨_, rfl, fun h => ?_, ?_⟩
    · simp only [Function.update_self] at h
      cases h
    · simp only [Function.update_self, Option.map_some, Option.getD_some]

/-- A block that a pool gives out for a probe. -/
theorem DioMemory.granted {zsmcf : DioScratch} {blocks : List PoolBlock} (hi : DioMemory zsmcf blocks) (pool : BufPool)
    {addr : Nat} (hdio : file.directio.isSome) (hpow : (probe_align file).isPowerOfTwo) (hdvd : probe_align file ∣ addr)
    (hfresh : ∀ b ∈ blocks, b.addr + b.size ≤ addr ∨ addr + probe_want file ≤ b.addr) :
    let b : PoolBlock := ⟨pool, addr, probe_want file, probe_align file⟩
    (b :: blocks).Pairwise PoolBlock.Apart ∧ ∀ c ∈ b :: blocks, c.Sound := by
  refine ⟨List.pairwise_cons.2 ⟨fun c hc => (hfresh c hc).symm, hi.apart⟩, fun c hc => ?_⟩
  rcases List.mem_cons.1 hc with rfl | hc
  · exact ⟨hpow, hdvd, probe_want_directio hdio, probe_align_pos hdio, probe_align_le file⟩
  · exact hi.sound c hc

/-- The memory of a request is not the kept buffer. -/
theorem DioMemory.not_kept {zsmcf : DioScratch} {blocks : List PoolBlock} (hi : DioMemory zsmcf blocks) {addr : Nat}
    (hdio : file.directio.isSome) (hfresh : ∀ b ∈ blocks, b.addr + b.size ≤ addr ∨ addr + probe_want file ≤ b.addr) :
    (some addr == zsmcf.dio_scratch) = false := by
  refine beq_eq_false_iff_ne.2 fun heq => ?_
  have hmem := hi.kept addr heq.symm
  have hs := hi.sound _ hmem
  have hsize := hs.size
  have hge := hs.ge
  have hpos := probe_align_pos hdio
  have hwant := probe_want_directio hdio
  have := hfresh _ hmem
  simp only [dio_probe] at *
  omega

/-- A probe begins, with a buffer of its request or with the kept one. -/
theorem DioProbing.begins {zsmcf zsmcf' : DioScratch} {probes : Nat → Option DioProbe} {blocks blocks' : List PoolBlock}
    (hi : DioProbing zsmcf probes blocks) (hr : probes r = none) {p : DioProbe} (hdio : p.file.directio.isSome)
    (hsub : blocks ⊆ blocks') (hreads : ∃ b ∈ blocks', p.Reads r b)
    (hkept : p.scratch = false ∧ zsmcf' = zsmcf ∨
      p.scratch = true ∧ zsmcf.dio_scratch_busy = false ∧ zsmcf'.dio_scratch = some p.hdr ∧
        zsmcf'.dio_scratch_busy = true) :
    DioProbing zsmcf' (Function.update probes r (some p)) blocks' := by
  have hother : ∀ r' p', Function.update probes r (some p) r' = some p' →
      r' = r ∧ p' = p ∨ r' ≠ r ∧ probes r' = some p' := by
    intro r' p' h
    by_cases hr' : r' = r
    · subst hr'
      rw [Function.update_self] at h
      exact .inl ⟨rfl, (Option.some.inj h).symm⟩
    · exact .inr ⟨hr', by rwa [Function.update_of_ne hr'] at h⟩
  have hfree : zsmcf.dio_scratch_busy = false → ∀ r' p', probes r' = some p' → p'.scratch = true → False := by
    intro hbusy r' p' h hs
    have := hi.busy.2 ⟨r', p', h, hs⟩
    rw [hbusy] at this
    cases this
  constructor
  · intro r' p' h
    rcases hother r' p' h with ⟨-, rfl⟩ | ⟨-, h⟩
    · exact hdio
    · exact hi.directio r' p' h
  · intro r' p' h
    rcases hother r' p' h with ⟨rfl, rfl⟩ | ⟨-, h⟩
    · exact hreads
    · obtain ⟨b, hb, hread⟩ := hi.reads r' p' h
      exact ⟨b, hsub hb, hread⟩
  · intro r' p' h hs
    rcases hkept with ⟨hp, rfl⟩ | ⟨-, hbusy, hset, -⟩
    · rcases hother r' p' h with ⟨-, rfl⟩ | ⟨-, h⟩
      · rw [hp] at hs
        cases hs
      · exact hi.scratch r' p' h hs
    · rcases hother r' p' h with ⟨-, rfl⟩ | ⟨-, h⟩
      · exact hset
      · exact (hfree hbusy r' p' h hs).elim
  · rcases hkept with ⟨hp, rfl⟩ | ⟨hp, hbusy, -, hup⟩
    · apply hi.busy.trans
      constructor
      · rintro ⟨r', p', h, hs⟩
        refine ⟨r', p', ?_, hs⟩
        rw [Function.update_of_ne, h]
        rintro rfl
        rw [hr] at h
        cases h
      · rintro ⟨r', p', h, hs⟩
        rcases hother r' p' h with ⟨-, rfl⟩ | ⟨-, h⟩
        · rw [hp] at hs
          cases hs
        · exact ⟨r', p', h, hs⟩
    · exact ⟨fun _ => ⟨r, p, Function.update_self .., hp⟩, fun _ => hup⟩
  · intro r₁ p₁ r₂ p₂ h₁ hs₁ h₂ hs₂
    rcases hkept with ⟨hp, rfl⟩ | ⟨-, hbusy, -, -⟩
    · rcases hother r₁ p₁ h₁ with ⟨-, rfl⟩ | ⟨-, h₁⟩
      · rw [hp] at hs₁
        cases hs₁
      · rcases hother r₂ p₂ h₂ with ⟨-, rfl⟩ | ⟨-, h₂⟩
        · rw [hp] at hs₂
          cases hs₂
        · exact hi.one r₁ p₁ r₂ p₂ h₁ hs₁ h₂ hs₂
    · rcases hother r₁ p₁ h₁ with ⟨rfl, -⟩ | ⟨-, h₁⟩
      · rcases hother r₂ p₂ h₂ with ⟨rfl, -⟩ | ⟨-, h₂⟩
        · rfl
        · exact (hfree hbusy r₂ p₂ h₂ hs₂).elim
      · exact (hfree hbusy r₁ p₁ h₁ hs₁).elim

/-- A probe comes to its end, and takes the guard down if it was the one to set it. -/
theorem DioProbing.ends {zsmcf : DioScratch} {probes : Nat → Option DioProbe} {blocks : List PoolBlock}
    (hi : DioProbing zsmcf probes blocks) {p : DioProbe} (hp : probes r = some p) :
    DioProbing (if p.scratch then dio_buf_release zsmcf else zsmcf) (Function.update probes r none) blocks := by
  have hother : ∀ r' p', Function.update probes r none r' = some p' → r' ≠ r ∧ probes r' = some p' := by
    intro r' p' h
    by_cases hr' : r' = r
    · subst hr'
      rw [Function.update_self] at h
      cases h
    · exact ⟨hr', by rwa [Function.update_of_ne hr'] at h⟩
  have hset : (if p.scratch then dio_buf_release zsmcf else zsmcf).dio_scratch = zsmcf.dio_scratch := by
    split <;> rfl
  constructor
  · exact fun r' p' h => hi.directio r' p' (hother r' p' h).2
  · exact fun r' p' h => hi.reads r' p' (hother r' p' h).2
  · intro r' p' h hs
    rw [hset]
    exact hi.scratch r' p' (hother r' p' h).2 hs
  · by_cases hs : p.scratch = true
    · rw [if_pos hs]
      refine ⟨fun h => (by cases h), ?_⟩
      rintro ⟨r', p', h, hs'⟩
      obtain ⟨hne, h⟩ := hother r' p' h
      exact absurd (hi.one r' p' r p h hs' hp hs) hne
    · rw [if_neg hs]
      apply hi.busy.trans
      constructor
      · rintro ⟨r', p', h, hs'⟩
        refine ⟨r', p', ?_, hs'⟩
        rw [Function.update_of_ne, h]
        rintro rfl
        rw [hp] at h
        exact hs (Option.some.inj h ▸ hs')
      · rintro ⟨r', p', h, hs'⟩
        exact ⟨r', p', (hother r' p' h).2, hs'⟩
  · exact fun r₁ p₁ r₂ p₂ h₁ hs₁ h₂ hs₂ => hi.one r₁ p₁ r₂ p₂ (hother r₁ p₁ h₁).2 hs₁ (hother r₂ p₂ h₂).2 hs₂

/-- The pool of a request goes, with no block that another reads into. -/
theorem DioWorker.Inv.destroyed (hi : w.Inv) (hr : w.probes r = none) :
    ({ w with blocks := w.blocks.filter fun b => b.pool ≠ .request r } : DioWorker).Inv := by
  have hin : ∀ {b}, b ∈ w.blocks → b.pool ≠ .request r → b ∈ w.blocks.filter fun b => b.pool ≠ .request r :=
    fun hb hne => List.mem_filter.2 ⟨hb, by simpa using hne⟩
  have hfilter : (w.blocks.filter fun b => b.pool ≠ .request r).filter (fun b => b.pool = .cycle) =
      w.blocks.filter fun b => b.pool = .cycle := by
    rw [List.filter_filter]
    refine List.filter_congr fun b _ => ?_
    by_cases hc : b.pool = .cycle <;> simp [hc]
  refine ⟨⟨hi.memory.apart.filter _, fun b hb => hi.memory.sound b (List.mem_of_mem_filter hb), ?_,
      fun b hb => hi.memory.below b (List.mem_of_mem_filter hb), fun addr h => hin (hi.memory.kept addr h) (by simp),
      hi.memory.unset⟩,
    ⟨hi.probing.directio, fun r' p h => ?_, hi.probing.scratch, hi.probing.busy, hi.probing.one⟩⟩
  · exact hfilter ▸ hi.memory.growing
  · obtain ⟨b, hb, hread⟩ := hi.probing.reads r' p h
    refine ⟨b, hin hb ?_, hread⟩
    rw [hread.pool]
    split
    · simp
    · rintro heq
      cases heq
      rw [hr] at h
      cases h

theorem DioWorker.start_inv : DioWorker.start.Inv := by
  have hnone : ∀ {r p}, DioWorker.start.probes r = some p → False := fun h => (by cases h)
  refine ⟨⟨.nil, fun _ h => (by cases h), .nil, fun _ h => (by cases h), fun _ h => (by cases h), fun _ => ⟨rfl, rfl⟩⟩,
    ⟨fun _ _ h => (hnone h).elim, fun _ _ h => (hnone h).elim, fun _ _ h => (hnone h).elim, ?_,
      fun _ _ _ _ h => (hnone h).elim⟩⟩
  refine ⟨fun h => (by cases h), ?_⟩
  rintro ⟨r, p, h, -⟩
  exact (hnone h).elim

theorem DioWorker.step_inv {op : DioOp} (hi : w.Inv) (hok : w.Proper op) (h : w.step op = some w') : w'.Inv := by
  cases op with
  | probe_file r file answer =>
    obtain ⟨hr, hdio, hcases⟩ := DioWorker.probe_cases hi.memory h
    have hm := hi.memory
    rcases hcases with rfl | ⟨addr, haddr, rfl⟩ | ⟨addr, haddr, hbusy, hgrows, rfl⟩ | ⟨addr, hset, hbusy, halign, rfl⟩
    · exact hi
    · obtain ⟨hpow, hdvd, hfresh⟩ := hok _ addr haddr
      obtain ⟨hapart, hsound⟩ := hm.granted (.request r) hdio hpow hdvd hfresh
      have hnot := hm.not_kept hdio hfresh
      refine ⟨⟨hapart, hsound, ?_, ?_, fun a ha => List.mem_cons_of_mem _ (hm.kept a ha), hm.unset⟩,
        hi.probing.begins hr hdio (List.subset_cons_self _ _) ⟨_, List.mem_cons_self, rfl, Nat.le_refl _, ?_⟩
          (.inl ⟨hnot, rfl⟩)⟩
      · rw [List.filter_cons_of_neg (by simp)]
        exact hm.growing
      · intro b hb hc
        rcases List.mem_cons.1 hb with rfl | hb
        · cases hc
        · exact hm.below b hb hc
      · rw [hnot]
        rfl
    · obtain ⟨hpow, hdvd, hfresh⟩ := hok _ addr haddr
      obtain ⟨hapart, hsound⟩ := hm.granted .cycle hdio hpow hdvd hfresh
      refine ⟨⟨hapart, hsound, ?_, ?_, ?_, fun h => (by cases h)⟩,
        hi.probing.begins hr hdio (List.subset_cons_self _ _) ⟨_, List.mem_cons_self, rfl, Nat.le_refl _, rfl⟩
          (.inr ⟨rfl, hbusy, rfl, rfl⟩)⟩
      · rw [List.filter_cons_of_pos (by simp)]
        refine List.pairwise_cons.2 ⟨fun c hc => ?_, hm.growing⟩
        obtain ⟨hc, hcycle⟩ := List.mem_filter.1 hc
        exact Nat.lt_of_le_of_lt (hm.below c hc (by simpa using hcycle)) hgrows
      · intro b hb hc
        rcases List.mem_cons.1 hb with rfl | hb
        · exact Nat.le_refl _
        · exact Nat.le_trans (hm.below b hb hc) (Nat.le_of_lt hgrows)
      · intro a ha
        cases ha
        exact List.mem_cons_self
    · refine ⟨⟨hm.apart, hm.sound, hm.growing, hm.below, fun a ha => ?_, fun h => (by cases h)⟩,
        hi.probing.begins hr hdio (List.Subset.refl _) ⟨_, hm.kept addr hset, rfl, halign, rfl⟩
          (.inr ⟨rfl, hbusy, rfl, rfl⟩)⟩
      cases ha
      exact hm.kept addr hset
  | probe_done r =>
    obtain ⟨p, hp, rfl⟩ := Option.map_eq_some_iff.1 h
    refine ⟨?_, hi.probing.ends hp⟩
    have hm := hi.memory
    by_cases hs : p.scratch = true
    · simp only [if_pos hs]
      exact ⟨hm.apart, hm.sound, hm.growing, hm.below, hm.kept, hm.unset⟩
    · simp only [if_neg hs]
      exact hm
  | destroy_pool r =>
    simp only [DioWorker.step] at h
    split at h
    · cases h
    next hr =>
    cases h
    exact hi.destroyed (by simpa using hr)

/-! ## The results -/

theorem DioWorker.reaches_inv (h : Reaches DioWorker.step DioWorker.Proper .start w) : w.Inv :=
  h.invariant DioWorker.Inv DioWorker.start_inv fun _ _ _ hi hok hs => DioWorker.step_inv hi hok hs

/-- Different blocks are apart. -/
theorem DioMemory.apart_of_ne {zsmcf : DioScratch} {blocks : List PoolBlock} (hi : DioMemory zsmcf blocks)
    {b c : PoolBlock} (hb : b ∈ blocks) (hc : c ∈ blocks) (hne : b ≠ c) : b.Apart c := by
  have : Std.Symm PoolBlock.Apart := ⟨fun _ _ h => h.symm⟩
  exact hi.apart.forall hb hc hne

/-- What a probe reads into is a block with room for it, and as aligned. -/
theorem DioWorker.Inv.block (hi : w.Inv) {p : DioProbe} (hp : w.probes r = some p) :
    ∃ b ∈ w.blocks, p.Reads r b ∧ probe_want p.file ≤ b.size ∧ 0 < b.size ∧
      ∀ k, 2 ^ k ≤ probe_align p.file → 2 ^ k ∣ b.addr := by
  obtain ⟨b, hb, hread⟩ := hi.probing.reads r p hp
  have hsound := hi.memory.sound b hb
  have hwant := probe_want_directio (hi.probing.directio r p hp)
  have halign := hread.align
  have hsize := hsound.size
  have hge := hsound.ge
  unfold dio_probe at hge
  refine ⟨b, hb, hread, by omega, by omega, fun k hk => ?_⟩
  exact (pow_dvd_of_isPowerOfTwo hsound.pow (Nat.le_trans hk halign)).trans hsound.aligned

/-- A probe that has a buffer of its request does not have the kept one. -/
theorem DioWorker.Inv.scratch_iff (hi : w.Inv) {p : DioProbe} (hp : w.probes r = some p) :
    p.scratch = true ↔ w.zsmcf.dio_scratch = some p.hdr := by
  refine ⟨hi.probing.scratch r p hp, fun hset => ?_⟩
  by_contra hs
  obtain ⟨b, hb, hread, -, hpos, -⟩ := hi.block hp
  have hpool := hread.pool
  rw [if_neg hs] at hpool
  have hmem := hi.memory.kept p.hdr hset
  have hne : b ≠ ⟨.cycle, p.hdr, w.zsmcf.dio_scratch_cap, w.zsmcf.dio_scratch_align⟩ := by
    rintro rfl
    cases hpool
  have hsize := (hi.memory.sound _ hmem).size
  have hge := (hi.memory.sound _ hmem).ge
  have haddr := hread.addr
  rcases hi.memory.apart_of_ne hb hmem hne with h | h
  all_goals
    simp only [dio_probe] at *
    omega

/-- Two probes have two blocks. -/
theorem DioWorker.Inv.apart (hi : w.Inv) {r' : Nat} {p p' : DioProbe} (hne : r ≠ r') (hp : w.probes r = some p)
    (hp' : w.probes r' = some p') : p.hdr + probe_want p.file ≤ p'.hdr ∨ p'.hdr + probe_want p'.file ≤ p.hdr := by
  obtain ⟨b, hb, hread, hroom, -, -⟩ := hi.block hp
  obtain ⟨b', hb', hread', hroom', -, -⟩ := hi.block hp'
  have hblocks : b ≠ b' := by
    rintro rfl
    have hpool := hread.pool.symm.trans hread'.pool
    by_cases hs : p.scratch = true <;> by_cases hs' : p'.scratch = true
    · exact hne (hi.probing.one r p r' p' hp hs hp' hs')
    · rw [if_pos hs, if_neg hs'] at hpool
      cases hpool
    · rw [if_neg hs, if_pos hs'] at hpool
      cases hpool
    · rw [if_neg hs, if_neg hs'] at hpool
      exact hne (BufPool.request.inj hpool)
  have haddr := hread.addr
  have haddr' := hread'.addr
  rcases hi.memory.apart_of_ne hb hb' hblocks with h | h
  · exact .inl (by omega)
  · exact .inr (by omega)

/-- There are five alignments, and the configuration has one block of each at most. -/
theorem DioMemory.cycle_blocks {zsmcf : DioScratch} {blocks : List PoolBlock} (hi : DioMemory zsmcf blocks) :
    (blocks.filter fun b => b.pool = .cycle).length ≤ 5 := by
  have hnodup : ((blocks.filter fun b => b.pool = .cycle).map PoolBlock.align).Nodup :=
    List.pairwise_map.2 (hi.growing.imp fun h => (Nat.ne_of_lt h).symm)
  have hsub : (blocks.filter fun b => b.pool = .cycle).map PoolBlock.align ⊆ [4096, 8192, 16384, 32768, 65536] := by
    intro a ha
    obtain ⟨b, hb, rfl⟩ := List.mem_map.1 ha
    exact (hi.sound b (List.mem_of_mem_filter hb)).align_mem
  have := (List.subperm_of_subset hnodup hsub).length_le
  rwa [List.length_map] at this

/-- However the probes of a worker begin and end: the memory a probe reads into is
there for it alone, with the room it asks for and aligned to every power of two up to
its alignment; the guard is up exactly while a probe reads into the kept buffer; and
the buffer is made anew four times at most. -/
theorem dio_scratch_exclusive (h : Reaches DioWorker.step DioWorker.Proper .start w) :
    (∀ r p, w.probes r = some p →
      (∃ b ∈ w.blocks, b.addr = p.hdr ∧ probe_want p.file ≤ b.size) ∧
      (∀ k, 2 ^ k ≤ probe_align p.file → 2 ^ k ∣ p.hdr) ∧
      ((probe_align p.file).isPowerOfTwo → ∀ pos, (probe_args p.file pos p.hdr).Legal) ∧
      (p.scratch = true ↔ w.zsmcf.dio_scratch = some p.hdr)) ∧
    (∀ r p r' p', r ≠ r' → w.probes r = some p → w.probes r' = some p' →
      p.hdr + probe_want p.file ≤ p'.hdr ∨ p'.hdr + probe_want p'.file ≤ p.hdr) ∧
    (w.zsmcf.dio_scratch_busy = true ↔ ∃ r p, w.probes r = some p ∧ w.zsmcf.dio_scratch = some p.hdr) ∧
    (w.blocks.filter fun b => b.pool = .cycle).length ≤ 5 := by
  have hi := DioWorker.reaches_inv h
  refine ⟨fun r p hp => ?_, fun r p r' p' hne hp hp' => hi.apart hne hp hp', ?_, hi.memory.cycle_blocks⟩
  · obtain ⟨b, hb, hread, hroom, -, hpow⟩ := hi.block hp
    have haligned : ∀ k, 2 ^ k ≤ probe_align p.file → 2 ^ k ∣ p.hdr := fun k hk => hread.addr ▸ hpow k hk
    refine ⟨⟨b, hb, hread.addr, hroom⟩, haligned, ?_, hi.scratch_iff hp⟩
    rintro ⟨k, hk⟩ pos
    exact probe_args_legal p.file pos (hk ▸ haligned k (Nat.le_of_eq hk.symm))
  · apply hi.probing.busy.trans
    constructor
    · rintro ⟨r, p, hp, hs⟩
      exact ⟨r, p, hp, (hi.scratch_iff hp).1 hs⟩
    · rintro ⟨r, p, hp, hs⟩
      exact ⟨r, p, hp, (hi.scratch_iff hp).2 hs⟩

/-- The second probe begins while the first reads into the kept buffer, and ends after
it; the third finds that buffer too small. -/
def overlappingProbes : List DioOp :=
  let file (align : Nat) : OpenFile := ⟨100, [], some align⟩
  let at_ (addr : Nat) (_ : BufPool) : Option Nat := some addr
  [.probe_file 0 (file 512) (at_ 4096), .probe_file 1 (file 8192) (at_ 16384), .probe_done 0,
    .probe_file 2 (file 16384) (at_ 65536)]

theorem dio_scratch_exclusive_overlapping : ∃ w, run DioWorker.step .start overlappingProbes = some w ∧
    w.zsmcf.dio_scratch_busy = true ∧ w.blocks.length = 3 ∧ ∃ p₁ p₂, w.probes 1 = some p₁ ∧ w.probes 2 = some p₂ ∧
      (p₁.hdr + probe_want p₁.file ≤ p₂.hdr ∨ p₂.hdr + probe_want p₂.file ≤ p₁.hdr) := by
  have hsees : (run DioWorker.step .start overlappingProbes).map (fun w =>
      (w.zsmcf.dio_scratch_busy, w.blocks.length, (w.probes 1).isSome, (w.probes 2).isSome)) =
      some (true, 3, true, true) := by decide
  have hmeets : Meets DioWorker.step DioWorker.Proper .start overlappingProbes := by
    refine ⟨?_, ?_, trivial, ?_, trivial⟩
    · rintro pool addr ⟨⟩
      exact ⟨⟨12, by decide⟩, by decide, by decide⟩
    · rintro pool addr ⟨⟩
      exact ⟨⟨13, by decide⟩, by decide, by decide⟩
    · rintro pool addr ⟨⟩
      exact ⟨⟨14, by decide⟩, by decide, by decide⟩
  obtain ⟨w, hw, hsees⟩ := Option.map_eq_some_iff.1 hsees
  simp only [Prod.mk.injEq, Option.isSome_iff_exists] at hsees
  obtain ⟨hbusy, hlength, ⟨p₁, hp₁⟩, p₂, hp₂⟩ := hsees
  obtain ⟨-, hapart, -, -⟩ := dio_scratch_exclusive (reaches_of_run hw hmeets)
  exact ⟨w, hw, hbusy, hlength, p₁, p₂, hp₁, hp₂, hapart 1 p₁ 2 p₂ (by decide) hp₁ hp₂⟩

end NginxZstd
