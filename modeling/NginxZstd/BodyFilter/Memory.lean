import Mathlib.Algebra.BigOperators.Group.Finset.Piecewise
import Mathlib.Algebra.Order.BigOperators.Group.Finset
import NginxZstd.BodyFilter.Buffers
/-!
# The memory of the output buffers

A buffer keeps the capacity it was allocated with. That is `bufs.size` at most, and the
frame header more on the first buffer of a dcz response, so the buffers of a response
never take more than `bufs.num * bufs.size` bytes and one header.
-/

namespace NginxZstd

open Lib

variable {Z : Compressor} {E : BodyEnv}

/-- No buffer is larger than configured, but for the header in front of the first one. -/
structure Sized (E : BodyEnv) (ctx : BodyCtx Z) : Prop where
  cap : ∀ i < ctx.bufs, (ctx.heap i).cap ≤ E.zlcf.bufs.size + if i = 0 then dcz_header_len else 0
  count : ctx.bufs ≤ E.zlcf.bufs.num

theorem Sized.congr {ctx ctx' : BodyCtx Z} (h : Sized E ctx) (hheap : ∀ i, (ctx'.heap i).cap = (ctx.heap i).cap)
    (hbufs : ctx'.bufs = ctx.bufs) : Sized E ctx' where
  cap i hi := by
    rw [hheap]
    exact h.cap i (hbufs ▸ hi)
  count := hbufs ▸ h.count

theorem alloc_cap (hconf : BufsOk E) (ctx : BodyCtx Z) :
    ((alloc_buf E ctx).heap ctx.bufs).cap ≤ E.zlcf.bufs.size + if ctx.bufs = 0 then dcz_header_len else 0 := by
  obtain ⟨-, hle⟩ := payload_size_bounds hconf (ctx.bufs = 0)
  have hfits := hconf.header_fits
  unfold alloc_buf
  dsimp only
  rw [Function.update_self]
  generalize payload_size E (ctx.bufs = 0) = size at *
  cases hw : want_header E ctx with
  | none => exact Nat.le_add_right_of_le hle
  | some header =>
    -- the header is wanted in the first buffer only
    have h0 : ctx.bufs = 0 := by
      unfold want_header at hw
      split at hw
      · split at hw
        · next hc => exact hc.1
        · cases hw
      · cases hw
    rw [if_pos h0]
    show (size + dcz_header_len) % 2 ^ E.abi.size_bits ≤ _
    rw [Nat.mod_eq_of_lt (by omega)]
    omega

theorem Sized.get_buf {ctx ctx' : BodyCtx Z} {palloc : Bool} {rc : Rc} (hconf : BufsOk E) (h : Sized E ctx)
    (hg : get_buf E palloc ctx = (rc, ctx')) (hrc : rc ≠ .error) : Sized E ctx' := by
  rcases get_buf_cases hg hrc with ⟨-, -, -, rfl⟩ |
    ⟨-, ⟨i, free, -, -, rfl⟩ | ⟨-, hn, -, rfl⟩ | ⟨-, -, -, rfl⟩⟩
  · exact h
  · exact h.congr (update_cap rfl) rfl
  · refine ⟨fun j (hj : j < ctx.bufs + 1) => ?_, hn⟩
    by_cases hjn : j = ctx.bufs
    · rw [hjn]
      exact alloc_cap hconf ctx
    · have hlt : j < ctx.bufs := Nat.lt_of_le_of_ne (Nat.le_of_lt_succ hj) hjn
      simp only [alloc_buf, Function.update_of_ne hjn]
      exact h.cap j hlt
  · exact h.congr (fun _ => rfl) rfl

theorem Sized.compress {ctx ctx' : BodyCtx Z} {no_more_input link : Bool} {rc : Rc} (h : Sized E ctx)
    (hc : filter_compress ctx no_more_input link = (rc, ctx')) (hrc : rc ≠ .error) : Sized E ctx' := by
  obtain ⟨i, r, a, d, -, -, -, hcases⟩ := filter_compress_cases hc hrc
  have hwcap : ∀ j, ((apply_reply ctx i r).heap j).cap = (ctx.heap j).cap := update_cap rfl
  rcases hcases with ⟨-, -, -, rfl⟩ | ⟨-, -, rfl⟩
  · obtain ⟨b, f, he⟩ := suppress_empty_spec { apply_reply ctx i r with action := a, redo := d } r.rc
    rw [he]
    exact h.congr hwcap rfl
  · have hcap : ∀ j, ((link_out { apply_reply ctx i r with action := a, redo := d } i r.rc
        (isLast ctx no_more_input r.rc)).heap j).cap = (ctx.heap j).cap := by
      intro j
      rw [link_out_heap]
      exact (update_cap (linkedBuf_keeps ..).2.2 j).trans (hwcap j)
    obtain ⟨-, heap, n, b, f, dn, he⟩ :=
      link_out_spec { apply_reply ctx i r with action := a, redo := d } i r.rc (isLast ctx no_more_input r.rc)
    rw [he] at hcap ⊢
    exact h.congr hcap rfl

/-- A step allocates at most one buffer and changes the capacity of none. -/
theorem Sized.move {s s' : BodyState Z} {op : BodyOp} (hconf : BufsOk E) (h : Sized E s.ctx)
    (hm : BodyMove E s op s') : Sized E s'.ctx := by
  have hadd : ∀ {c : BodyCtx Z} {cursor : List InBuf} {rc : Rc}, add_data s.ctx s.cursor = (rc, c, cursor) →
      Sized E c := by
    intro c cursor rc ha
    obtain ⟨q, ib, l, f, n, bi, rfl⟩ := add_data_frame ha
    exact h.congr (fun _ => rfl) rfl
  cases hm with
  | pass hpc hd => exact h.congr (drain_cap _ _ _) rfl
  | noop hpc hd hh hr hi hb => exact h
  | begin_loop b hpc hd hh hn => exact h.congr (fun _ => rfl) rfl
  | resume b hpc hd hh hn =>
    exact h.congr (fun i => (update_chains_cap _ _ _ i).trans (drain_cap _ _ _ i)) rfl
  | read hpc => exact h.congr (drain_cap _ _ _) rfl
  | skip hpc ha | dry hpc ha => exact hadd ha
  | starve hpc ha hm hg => exact (hadd ha).get_buf hconf hg (by simp)
  | work hpc ha hm hg hc hrc => exact ((hadd ha).get_buf hconf hg (by simp)).compress hc hrc
  | keep hpc ho hf => exact h.congr (fun _ => rfl) rfl
  | give hpc ho hr =>
    exact h.congr (fun i => (update_chains_cap _ _ _ i).trans (drain_cap _ _ _ i)) rfl

theorem reaches_sized (hconf : BufsOk E) {ok : BodyState Z → BodyOp → Prop} {s : BodyState Z}
    (h : Reaches (body_step E) ok (BodyState.start Z) s) (hf : s.ctx.aborted = false) : Sized E s.ctx := by
  have hstart : Sized E (BodyState.start Z).ctx := ⟨fun i hi => absurd hi (Nat.not_lt_zero i), Nat.zero_le _⟩
  exact body_invariant (fun s => Sized E s.ctx) h hf hstart fun _ _ _ hi _ hm => hi.move hconf hm

/-! ## The sum -/

/-- The bytes of all output buffers of a response. -/
def BodyCtx.output_memory (ctx : BodyCtx Z) : Nat := ∑ i ∈ Finset.range ctx.bufs, (ctx.heap i).cap

theorem Sized.output_memory {ctx : BodyCtx Z} (h : Sized E ctx) :
    ctx.output_memory ≤ E.zlcf.bufs.num * E.zlcf.bufs.size + dcz_header_len := by
  have hheader : (∑ i ∈ Finset.range ctx.bufs, if i = 0 then dcz_header_len else 0) ≤ dcz_header_len := by
    rw [Finset.sum_ite_eq']
    split
    · exact Nat.le_refl _
    · exact Nat.zero_le _
  calc ctx.output_memory
      ≤ ∑ i ∈ Finset.range ctx.bufs, (E.zlcf.bufs.size + if i = 0 then dcz_header_len else 0) :=
        Finset.sum_le_sum fun i hi => h.cap i (Finset.mem_range.1 hi)
    _ = ctx.bufs * E.zlcf.bufs.size + ∑ i ∈ Finset.range ctx.bufs, (if i = 0 then dcz_header_len else 0) := by
        rw [Finset.sum_add_distrib, Finset.sum_const_nat fun _ _ => rfl, Finset.card_range]
    _ ≤ E.zlcf.bufs.num * E.zlcf.bufs.size + dcz_header_len :=
        Nat.add_le_add (Nat.mul_le_mul_right _ h.count) hheader

end NginxZstd
