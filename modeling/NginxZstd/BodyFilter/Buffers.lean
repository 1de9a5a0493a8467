import NginxZstd.BodyFilter.Integrity
/-!
# The output buffers

At most `bufs.num` buffers are allocated, and each that is still reachable is in
one place. A buffer gets out of reach when the filter hands over while it holds an
output buffer it has not written to; but the hand-over itself puts another one
downstream, so the last buffer is never lost and the filter runs out of buffers
only while the downstream holds one.
-/

namespace NginxZstd

open Lib

variable {Z : Compressor} {E : BodyEnv}

/-- What `ngx_conf_set_bufs_slot` and the default leave in `bufs`: a number and a
size that are not zero, the size an `ssize_t`. -/
structure BufsOk (E : BodyEnv) : Prop where
  num : 0 < E.zlcf.bufs.num
  size : 0 < E.zlcf.bufs.size
  fits : E.zlcf.bufs.size < 2 ^ (E.abi.size_bits - 1)

theorem BufsOk.header_fits (h : BufsOk E) : E.zlcf.bufs.size + dcz_header_len < 2 ^ E.abi.size_bits := by
  have hf := h.fits
  rcases E.abi.size_ok with hw | hw <;> rw [hw] at hf ⊢ <;> unfold dcz_header_len <;> omega

/-- The compressor's share is not empty, and no larger than configured. -/
theorem payload_size_bounds (h : BufsOk E) (first_buf : Bool) :
    0 < payload_size E first_buf ∧ payload_size E first_buf ≤ E.zlcf.bufs.size := by
  have hs := h.size
  unfold payload_size
  dsimp only
  split
  · split
    · exact ⟨hs, Nat.le_refl _⟩
    split
    · split
      · split
        · exact ⟨by decide, by omega⟩
        · exact ⟨hs, Nat.le_refl _⟩
      · next hb =>
        split
        · unfold bound_min at hb
          exact ⟨by omega, by omega⟩
        · exact ⟨hs, Nat.le_refl _⟩
    · exact ⟨hs, Nat.le_refl _⟩
  · exact ⟨hs, Nat.le_refl _⟩

/-- A new buffer has room behind the frame header. -/
theorem alloc_room (h : BufsOk E) (ctx : BodyCtx Z) :
    ((alloc_buf E ctx).heap ctx.bufs).data.length < ((alloc_buf E ctx).heap ctx.bufs).cap := by
  obtain ⟨hpos, hle⟩ := payload_size_bounds h (ctx.bufs = 0)
  have hfits := h.header_fits
  unfold alloc_buf
  dsimp only
  rw [Function.update_self]
  generalize payload_size E (ctx.bufs = 0) = n at *
  cases hw : want_header E ctx with
  | none => exact hpos
  | some header =>
    have hlen : header.length ≤ dcz_header_len := by
      unfold want_header at hw
      split at hw
      · split at hw
        · cases hw
          exact List.length_take_le ..
        · cases hw
      · cases hw
    show header.length < (n + dcz_header_len) % 2 ^ E.abi.size_bits
    rw [Nat.mod_eq_of_lt (by omega)]
    omega

/-! ## The stock of buffers -/

/-- What is known of the buffers at any time: none is without capacity, the one held
has room, there are at most `bufs.num`, one of them is still in its place, and a
request that waits for one holds none. -/
structure Stock (E : BodyEnv) (ctx : BodyCtx Z) : Prop where
  caps : ∀ i < ctx.bufs, 0 < (ctx.heap i).cap
  room : ctx.out_buf ≠ none → ctx.buffer_out.pos < ctx.buffer_out.size
  count : ctx.bufs ≤ E.zlcf.bufs.num
  left : ctx.bufs ≠ 0 → ctx.places ≠ []
  starved : ctx.nomem = true → ctx.out_buf = none ∧ ctx.free = [] ∧ E.zlcf.bufs.num ≤ ctx.bufs

theorem Stock.congr {ctx ctx' : BodyCtx Z} (h : Stock E ctx) (hheap : ∀ i, (ctx'.heap i).cap = (ctx.heap i).cap)
    (hplaces : ctx'.out_buf = ctx.out_buf ∧ ctx'.out = ctx.out ∧ ctx'.busy = ctx.busy ∧ ctx'.free = ctx.free)
    (hrest : ctx'.buffer_out = ctx.buffer_out ∧ ctx'.bufs = ctx.bufs ∧ ctx'.nomem = ctx.nomem) : Stock E ctx' := by
  obtain ⟨h1, h2, h3, h4⟩ := hplaces
  obtain ⟨h5, h6, h7⟩ := hrest
  refine ⟨?_, ?_, ?_, ?_, ?_⟩
  · intro i hi
    rw [hheap]
    exact h.caps i (h6 ▸ hi)
  · rw [h1, h5]
    exact h.room
  · rw [h6]
    exact h.count
  · unfold BodyCtx.places
    rw [h1, h2, h3, h4, h6]
    exact h.left
  · rw [h1, h4, h6, h7]
    exact h.starved

theorem Stock.add_data {ctx ctx' : BodyCtx Z} {cursor cursor' : List InBuf} {rc : Rc} (h : Stock E ctx)
    (ha : add_data ctx cursor = (rc, ctx', cursor')) : Stock E ctx' ∧ ctx'.nomem = ctx.nomem ∧ ctx'.busy = ctx.busy := by
  obtain ⟨q, ib, l, f, n, bi, rfl⟩ := add_data_frame ha
  exact ⟨h.congr (fun _ => rfl) ⟨rfl, rfl, rfl, rfl⟩ ⟨rfl, rfl, rfl⟩, rfl, rfl⟩

theorem places_ne_nil {ctx : BodyCtx Z} {i : BufId}
    (h : ctx.out_buf = some i ∨ i ∈ ctx.out ∨ i ∈ ctx.busy ∨ i ∈ ctx.free) : ctx.places ≠ [] :=
  List.ne_nil_of_mem (mem_places.2 h)

/-- `get_buf` finds a buffer with room, or the request waits without one. -/
theorem Stock.get_buf {ctx ctx' : BodyCtx Z} {handed : List OutBuf} {palloc : Bool} {rc : Rc} (hconf : BufsOk E)
    (h : Stock E ctx) (ho : Output E ctx handed) (hg : get_buf E palloc ctx = (rc, ctx')) (hrc : rc ≠ .error) :
    Stock E ctx' := by
  rcases get_buf_cases hg hrc with ⟨-, -, -, rfl⟩ |
    ⟨hb, ⟨i, free, hf, -, rfl⟩ | ⟨hf, hn, -, rfl⟩ | ⟨hf, hn, -, rfl⟩⟩
  · exact h
  · have hi : i ∈ ctx.free := by rw [hf]; exact List.mem_cons_self
    have hcaps : ∀ j < ctx.bufs, 0 < ((reuse_buf ctx i free).heap j).cap := by
      intro j hj
      by_cases hji : j = i
      · subst hji
        simp only [reuse_buf, Function.update_self]
        exact h.caps j hj
      · simp only [reuse_buf, Function.update_of_ne hji]
        exact h.caps j hj
    refine ⟨hcaps, fun _ => ?_, h.count, fun _ => places_ne_nil (.inl rfl), fun hnm => ?_⟩
    · show 0 < (ctx.heap i).cap - (ctx.heap i).data.length
      rw [(ho.clean i hi).1]
      exact h.caps i (ho.known i (mem_places.2 (.inr (.inr (.inr hi)))))
    · rw [(h.starved hnm).2.1] at hi
      simp at hi
  · have hroom := alloc_room hconf ctx
    refine ⟨?_, fun _ => ?_, hn, fun _ => places_ne_nil (.inl rfl), fun hnm => ?_⟩
    · intro j (hj : j < ctx.bufs + 1)
      by_cases hjn : j = ctx.bufs
      · subst hjn
        exact Nat.lt_of_le_of_lt (Nat.zero_le _) hroom
      · have hlt : j < ctx.bufs := Nat.lt_of_le_of_ne (Nat.le_of_lt_succ hj) hjn
        simp only [alloc_buf, Function.update_of_ne hjn]
        exact h.caps j hlt
    · exact Nat.sub_pos_of_lt hroom
    · exact absurd (h.starved hnm).2.2 (Nat.not_le_of_lt hn)
  · have hnone : ctx.out_buf = none := by
      by_contra hne
      exact hb ⟨hne, h.room hne⟩
    exact ⟨h.caps, h.room, h.count, h.left, fun _ => ⟨hnone, hf, hn⟩⟩

theorem update_cap {heap : BufId → OutBuf} {i : BufId} {b : OutBuf} (h : b.cap = (heap i).cap) (j : BufId) :
    (Function.update heap i b j).cap = (heap j).cap := by
  by_cases hj : j = i
  · subst hj
    rw [Function.update_self, h]
  · rw [Function.update_of_ne hj]

/-- A call keeps the buffer only if it wrote nothing, so the room stays. -/
theorem Stock.compress {ctx ctx' : BodyCtx Z} {handed : List OutBuf} {no_more_input link : Bool} {rc : Rc}
    (h : Stock E ctx) (ho : Output E ctx handed) (hc : filter_compress ctx no_more_input link = (rc, ctx'))
    (hrc : rc ≠ .error) : Stock E ctx' := by
  obtain ⟨i, r, a, d, hb, -, -, hcases⟩ := filter_compress_cases hc hrc
  have hnm : ctx.nomem = false := by
    by_contra hn
    rw [Bool.not_eq_false] at hn
    rw [(h.starved hn).1] at hb
    simp at hb
  have hwcap : ∀ j, ((apply_reply ctx i r).heap j).cap = (ctx.heap j).cap := update_cap rfl
  rcases hcases with ⟨hs, -, -, rfl⟩ | ⟨-, -, rfl⟩
  · obtain ⟨b, f, he⟩ := suppress_empty_spec { apply_reply ctx i r with action := a, redo := d } r.rc
    rw [he]
    have hw : r.written = [] := by
      have hpos := ho.unread i hb
      simp only [OutBuf.size, apply_reply, Function.update_self, hpos, List.length_append] at hs
      exact List.eq_nil_of_length_eq_zero (by omega)
    refine ⟨fun j hj => by rw [hwcap]; exact h.caps j hj, fun hne => ?_, h.count, h.left, h.starved⟩
    show ctx.buffer_out.pos + r.written.length < ctx.buffer_out.size
    rw [hw]
    exact h.room (by rw [hb]; simp)
  · have hcap : ∀ j, ((link_out { apply_reply ctx i r with action := a, redo := d } i r.rc
        (isLast ctx no_more_input r.rc)).heap j).cap = (ctx.heap j).cap := by
      intro j
      rw [link_out_heap]
      exact (update_cap (linkedBuf_keeps ..).2.2 j).trans (hwcap j)
    obtain ⟨-, heap, n, b, f, dn, he⟩ :=
      link_out_spec { apply_reply ctx i r with action := a, redo := d } i r.rc (isLast ctx no_more_input r.rc)
    rw [he] at hcap ⊢
    refine ⟨fun j hj => by rw [hcap]; exact h.caps j hj, by simp, h.count, fun _ => ?_, ?_⟩
    · exact places_ne_nil (i := i) (.inr (.inl (List.mem_append_right _ (List.mem_singleton_self i))))
    · intro (hn : ctx.nomem = true)
      rw [hnm] at hn
      simp at hn

theorem update_chains_cap (heap : BufId → OutBuf) (free ids : List BufId) (i : BufId) :
    ((update_chains heap free ids).1 i).cap = (heap i).cap := by
  obtain ⟨d, p, he⟩ := update_chains_keeps heap free ids i
  rw [he]

theorem drain_cap (drained : BufId → Nat) (ids : List BufId) (heap : BufId → OutBuf) (i : BufId) :
    (drain drained ids heap i).cap = (heap i).cap := by
  obtain ⟨p, hp⟩ := drain_spec drained ids heap i
  rw [hp]

/-- Recycling loses no buffer in flight. -/
theorem Stock.recycle {ctx : BodyCtx Z} {out out' : List BufId} {heap : BufId → OutBuf} (h : Stock E ctx)
    (hheap : ∀ i, (heap i).cap = (ctx.heap i).cap) (hsome : ctx.busy ++ out ≠ []) :
    Stock E { NginxZstd.recycle { ctx with heap := heap } out with out := out' } := by
  refine ⟨?_, by simp [NginxZstd.recycle], h.count, fun _ => ?_, by simp [NginxZstd.recycle]⟩
  · intro i hi
    show 0 < ((update_chains heap ctx.free (ctx.busy ++ out)).1 i).cap
    rw [update_chains_cap, hheap]
    exact h.caps i hi
  · obtain ⟨i, hi⟩ := List.exists_mem_of_ne_nil _ hsome
    have hp := update_chains_perm heap ctx.free (ctx.busy ++ out)
    rcases List.mem_append.1 (hp.mem_iff.2 (List.mem_append_left _ hi)) with hm | hm
    · exact places_ne_nil (.inr (.inr (.inl hm)))
    · exact places_ne_nil (.inr (.inr (.inr hm)))

/-- The stock over a run: a callback that came in with buffers downstream still has
one there when it flushes them, and only a request at the tail waits. -/
structure Stocked (E : BodyEnv) (s : BodyState Z) : Prop extends OutputSide E s where
  stock : Stock E s.ctx
  flush : s.pc ≠ .idle → s.flush = true → s.ctx.busy ≠ []
  nomem : s.pc = .inner → s.ctx.nomem = false

theorem Stocked.start : Stocked E (BodyState.start Z) where
  toOutputSide := .start
  stock := ⟨by simp [BodyState.start, BodyCtx.start], by simp [BodyState.start, BodyCtx.start], Nat.zero_le _,
    by simp [BodyState.start, BodyCtx.start], by simp [BodyState.start, BodyCtx.start]⟩
  flush h := by simp [BodyState.start] at h
  nomem h := by simp [BodyState.start] at h

/-- A request that waits for a buffer has one downstream or on the way there. -/
theorem Stocked.waits {s : BodyState Z} (h : Stocked E s) (hconf : BufsOk E) (hn : s.ctx.nomem = true) :
    s.ctx.busy ++ s.ctx.out ≠ [] := by
  obtain ⟨hnone, hfree, hnum⟩ := h.stock.starved hn
  have hleft := h.stock.left (Nat.ne_of_gt (Nat.lt_of_lt_of_le hconf.num hnum))
  intro hnil
  obtain ⟨hb, ho⟩ := List.append_eq_nil_iff.1 hnil
  exact hleft (by simp [BodyCtx.places, hnone, hfree, hb, ho])

theorem Stocked.move {s s' : BodyState Z} {op : BodyOp} (hconf : BufsOk E) (h : Stocked E s)
    (hm : BodyMove E s op s') : Stocked E s' := by
  have hside := h.toOutputSide.move hm
  cases hm with
  | pass hpc hd =>
    exact ⟨hside, h.stock.congr (drain_cap _ _ _) ⟨rfl, rfl, rfl, rfl⟩ ⟨rfl, rfl, rfl⟩, h.flush, h.nomem⟩
  | noop hpc hd hh hr hi hb => exact ⟨hside, h.stock, h.flush, h.nomem⟩
  | begin_loop b hpc hd hh hn =>
    refine ⟨hside, h.stock.congr (fun _ => rfl) ⟨rfl, rfl, rfl, rfl⟩ ⟨rfl, rfl, rfl⟩, fun _ hf => ?_, fun _ => hn⟩
    simpa using hf
  | @resume chain init down b hpc hd hh hn =>
    have hw := h.waits hconf hn
    rw [h.idle hpc] at hw
    have hr : Stock E { recycle { s.ctx with heap := drain down.drained s.ctx.busy s.ctx.heap } [] with out := s.ctx.out } :=
      h.stock.recycle (drain_cap _ _ _) hw
    exact ⟨hside, hr.congr (fun _ => rfl) ⟨rfl, rfl, rfl, rfl⟩ ⟨rfl, rfl, rfl⟩, fun _ hf => by simp at hf, fun _ => rfl⟩
  | read hpc =>
    exact ⟨hside, h.stock.congr (drain_cap _ _ _) ⟨rfl, rfl, rfl, rfl⟩ ⟨rfl, rfl, rfl⟩, h.flush, h.nomem⟩
  | skip hpc ha | dry hpc ha =>
    obtain ⟨hs, hn, hb⟩ := h.stock.add_data ha
    refine ⟨hside, hs, fun _ hf => ?_, fun _ => hn.trans (h.nomem hpc)⟩
    show _ ≠ []
    rw [hb]
    exact h.flush (by rw [hpc]; simp) hf
  | starve hpc ha hm hg =>
    obtain ⟨hs, -, hb⟩ := h.stock.add_data ha
    obtain ⟨hout, -⟩ := h.output.add_data h.empty ha
    have hs' := hs.get_buf hconf hout hg (by simp)
    obtain ⟨fr, ob, n, bo, heap, hsent, nm, rfl⟩ := get_buf_frame hg
    refine ⟨hside, hs', fun _ hf => ?_, fun hp => by simp at hp⟩
    show _ ≠ []
    rw [hb]
    exact h.flush (by rw [hpc]; simp) hf
  | work hpc ha hm hg hc hrc =>
    obtain ⟨hs, hn, hb⟩ := h.stock.add_data ha
    obtain ⟨hout, hempty⟩ := h.output.add_data h.empty ha
    have hs' := hs.get_buf hconf hout hg (by simp)
    obtain ⟨hout', hsome, -⟩ := get_buf_output hout hempty hg (by simp)
    have hs'' := hs'.compress hout' hc hrc
    obtain ⟨fr, ob, n, bo, heap, hsent, nm, rfl⟩ := get_buf_frame hg
    obtain ⟨r, -, -, -, -, ib, bo, heap, a, d, b, f, dn, n, o, ob, rfl⟩ := compress_frame hc hrc
    refine ⟨hside, hs'', fun _ hf => ?_, fun _ => ?_⟩
    · show _ ≠ []
      rw [hb]
      exact h.flush (by rw [hpc]; simp) hf
    · show nm = false
      by_contra hnm
      rw [Bool.not_eq_false] at hnm
      exact hsome rfl (hs'.starved hnm).1
  | keep hpc ho hf =>
    exact ⟨hside, h.stock.congr (fun _ => rfl) ⟨rfl, rfl, rfl, rfl⟩ ⟨rfl, rfl, rfl⟩, fun hp => by simp at hp,
      fun hp => by simp at hp⟩
  | give hpc ho hr =>
    have hsome : s.ctx.busy ++ s.ctx.out ≠ [] := by
      rcases ho with ho | hf
      · exact List.append_ne_nil_of_right_ne_nil _ ho
      · exact List.append_ne_nil_of_left_ne_nil (h.flush (by rw [hpc]; simp) hf) _
    exact ⟨hside, h.stock.recycle (drain_cap _ _ _) hsome, fun _ hf => by simp at hf, fun _ => rfl⟩

/-! ## Conservation -/

/-- Every allocated buffer is somewhere. -/
def AllPlaced (ctx : BodyCtx Z) : Prop := ∀ i < ctx.bufs, i ∈ ctx.places

/-- No hand-over while the filter holds an output buffer. -/
def HandsOverFree (s : BodyState Z) : BodyOp → Prop
  | .tail _ _ => s.ctx.out ≠ [] ∨ s.flush = true → s.ctx.out_buf = none
  | _ => True

theorem AllPlaced.congr {ctx ctx' : BodyCtx Z} (h : AllPlaced ctx) (hb : ctx'.bufs = ctx.bufs)
    (hp : ∀ i ∈ ctx.places, i ∈ ctx'.places) : AllPlaced ctx' := fun i hi => hp i (h i (hb ▸ hi))

theorem AllPlaced.add_data {ctx ctx' : BodyCtx Z} {cursor cursor' : List InBuf} {rc : Rc} (h : AllPlaced ctx)
    (ha : add_data ctx cursor = (rc, ctx', cursor')) : AllPlaced ctx' := by
  obtain ⟨q, ib, l, f, n, bi, rfl⟩ := add_data_frame ha
  exact h

theorem AllPlaced.get_buf {ctx ctx' : BodyCtx Z} {palloc : Bool} {rc : Rc} (h : AllPlaced ctx) (hs : Stock E ctx)
    (hg : get_buf E palloc ctx = (rc, ctx')) (hrc : rc ≠ .error) : AllPlaced ctx' := by
  rcases get_buf_cases hg hrc with ⟨-, -, -, rfl⟩ |
    ⟨hb, ⟨i, free, hf, -, rfl⟩ | ⟨hf, hn, -, rfl⟩ | ⟨hf, hn, -, rfl⟩⟩
  · exact h
  all_goals
    have hnone : ctx.out_buf = none := by
      by_contra hne
      exact hb ⟨hne, hs.room hne⟩
  · refine h.congr rfl fun j hj => mem_places.2 ?_
    rw [mem_places, hnone, hf, List.mem_cons] at hj
    rcases hj with hj | hj | hj | rfl | hj
    · simp at hj
    · exact .inr (.inl hj)
    · exact .inr (.inr (.inl hj))
    · exact .inl rfl
    · exact .inr (.inr (.inr hj))
  · intro j (hj : j < ctx.bufs + 1)
    by_cases hjn : j = ctx.bufs
    · exact mem_places.2 (.inl (by rw [hjn]; rfl))
    · have hm := mem_places.1 (h j (Nat.lt_of_le_of_ne (Nat.le_of_lt_succ hj) hjn))
      rw [hnone] at hm
      rcases hm with hm | hm
      · simp at hm
      · exact mem_places.2 (.inr hm)
  · exact h

theorem AllPlaced.compress {ctx ctx' : BodyCtx Z} {no_more_input link : Bool} {rc : Rc} (h : AllPlaced ctx)
    (hc : filter_compress ctx no_more_input link = (rc, ctx')) (hrc : rc ≠ .error) : AllPlaced ctx' := by
  obtain ⟨i, r, a, d, hb, -, -, hcases⟩ := filter_compress_cases hc hrc
  rcases hcases with ⟨-, -, -, rfl⟩ | ⟨-, -, rfl⟩
  · obtain ⟨b, f, he⟩ := suppress_empty_spec { apply_reply ctx i r with action := a, redo := d } r.rc
    rw [he]
    exact h
  · obtain ⟨-, heap, n, b, f, dn, he⟩ :=
      link_out_spec { apply_reply ctx i r with action := a, redo := d } i r.rc (isLast ctx no_more_input r.rc)
    rw [he]
    refine h.congr rfl fun j hj => mem_places.2 ?_
    rcases mem_places.1 hj with hj | hj | hj
    · rw [hb, Option.some.injEq] at hj
      subst hj
      exact .inr (.inl (List.mem_append_right _ (List.mem_singleton_self i)))
    · exact .inr (.inl (List.mem_append_left _ hj))
    · exact .inr (.inr hj)

theorem AllPlaced.recycle {ctx : BodyCtx Z} {heap : BufId → OutBuf} (h : AllPlaced ctx) (hnone : ctx.out_buf = none) :
    AllPlaced { NginxZstd.recycle { ctx with heap := heap } ctx.out with out := [] } := by
  refine h.congr rfl fun j hj => mem_places.2 ?_
  have hm : j ∈ (ctx.busy ++ ctx.out) ++ ctx.free := by
    rw [mem_places, hnone] at hj
    rcases hj with hj | hj | hj | hj
    · simp at hj
    · exact List.mem_append_left _ (List.mem_append_right _ hj)
    · exact List.mem_append_left _ (List.mem_append_left _ hj)
    · exact List.mem_append_right _ hj
  rcases List.mem_append.1 ((update_chains_perm heap ctx.free (ctx.busy ++ ctx.out)).mem_iff.2 hm) with hm | hm
  · exact .inr (.inr (.inl hm))
  · exact .inr (.inr (.inr hm))

theorem AllPlaced.move {s s' : BodyState Z} {op : BodyOp} (h : AllPlaced s.ctx) (hst : Stocked E s)
    (hok : HandsOverFree s op) (hm : BodyMove E s op s') : AllPlaced s'.ctx := by
  cases hm with
  | pass hpc hd => exact h
  | noop hpc hd hh hr hi hb => exact h
  | begin_loop b hpc hd hh hn => exact h
  | @resume chain init down b hpc hd hh hn =>
    have hnil := hst.idle hpc
    have hr := @AllPlaced.recycle _ _ (drain down.drained s.ctx.busy s.ctx.heap) h (hst.stock.starved hn).1
    rw [hnil] at hr
    exact hr.congr rfl fun j hj => by simpa [BodyCtx.places, NginxZstd.recycle, hnil] using hj
  | read hpc => exact h
  | skip hpc ha | dry hpc ha => exact h.add_data ha
  | starve hpc ha hm hg => exact (h.add_data ha).get_buf (hst.stock.add_data ha).1 hg (by simp)
  | work hpc ha hm hg hc hrc =>
    exact ((h.add_data ha).get_buf (hst.stock.add_data ha).1 hg (by simp)).compress hc hrc
  | keep hpc ho hf => exact h
  | give hpc ho hr => exact h.recycle (hok ho)

/-- In every run that hands over only when no output buffer is held, each allocated
buffer is in exactly one place, between callbacks and within them, there are at most
`bufs.num`, and the one held is not downstream. -/
theorem output_buffers_conserved (hconf : BufsOk E) {s : BodyState Z}
    (h : Reaches (body_step E) HandsOverFree (BodyState.start Z) s) (hf : s.ctx.aborted = false) :
    (∀ i, s.ctx.places.count i = if i < s.ctx.bufs then 1 else 0) ∧ s.ctx.bufs ≤ E.zlcf.bufs.num ∧
      ∀ i, s.ctx.out_buf = some i → i ∉ s.ctx.out ∧ i ∉ s.ctx.busy := by
  have hi : Stocked E s ∧ AllPlaced s.ctx :=
    body_invariant (fun s => Stocked E s ∧ AllPlaced s.ctx) h hf
      ⟨.start, fun i hi => by simp [BodyState.start, BodyCtx.start] at hi⟩
      fun _ _ _ hi hok hm => ⟨hi.1.move hconf hm, hi.2.move hi.1 hok hm⟩
  obtain ⟨hst, hall⟩ := hi
  refine ⟨fun i => ?_, hst.stock.count, fun i hb => ?_⟩
  · split
    · next hlt => rw [hst.output.places.count, if_pos (hall i hlt)]
    · next hge => rw [hst.output.places.count, if_neg fun hm => hge (hst.output.known i hm)]
  · obtain ⟨h1, h2, -⟩ := hst.output.notMem_of_out_buf hb
    exact ⟨h1, h2⟩

instance (s : BodyState Z) : ∀ op, Decidable (HandsOverFree s op)
  | .callback _ _ _ => .isTrue trivial
  | .iterate _ _ => .isTrue trivial
  | .tail _ _ => instDecidableForall
  | .drain _ => .isTrue trivial

/-- A downstream that takes what it is given and has read nothing of it. -/
def slow : Downstream := ⟨.ok, fun _ => 0⟩

/-- One flushed link, whose output the downstream keeps. -/
def flushOps : List BodyOp :=
  [.callback [⟨[1, 2], true, false⟩] true slow, .iterate true true, .iterate true true, .tail 0 slow,
    .iterate true true, .tail 0 slow]

theorem output_buffers_conserved_flush : ∃ s : BodyState (.blocks 2),
    run (body_step (sampleEnv 2 8 none none)) (BodyState.start _) flushOps = some s ∧ s.pc = .idle ∧
      s.ctx.bufs = 1 ∧ s.ctx.places.count 0 = 1 := by
  have hsees : (run (body_step (Z := .blocks 2) (sampleEnv 2 8 none none)) (BodyState.start _) flushOps).map
      (fun s => (s.ctx.aborted, s.pc, s.ctx.bufs)) = some (false, .idle, 1) := by rfl
  have hmeets : Meets (body_step (sampleEnv 2 8 none none)) HandsOverFree (BodyState.start (.blocks 2)) flushOps := by
    decide
  obtain ⟨s, hs, hsees⟩ := Option.map_eq_some_iff.1 hsees
  simp only [Prod.mk.injEq] at hsees
  obtain ⟨hf, hpc, hbufs⟩ := hsees
  have hone := (output_buffers_conserved ⟨by decide, by decide, by decide⟩ (reaches_of_run hs hmeets) hf).1 0
  rw [hbufs] at hone
  exact ⟨s, hs, hpc, hbufs, hone⟩

/-- Two links: the first fills a block, the second is held back by the compressor. -/
def strandOps : List BodyOp :=
  [.callback [⟨[1, 2], false, false⟩, ⟨[3], false, false⟩] true slow, .iterate true true, .iterate true true,
    .iterate true true, .tail 0 slow, .iterate true true, .tail 0 slow]

/-- The buffer acquired for the second link is in no place after the hand-over of
the first one's output. -/
theorem output_buffer_stranded : ∃ s : BodyState (.blocks 2), BufsOk (sampleEnv 2 8 none none) ∧
    Reaches (body_step (sampleEnv 2 8 none none)) Any (BodyState.start _) s ∧ s.ctx.aborted = false ∧
      s.ctx.done = false ∧ s.pc = .idle ∧ s.ctx.bufs = 2 ∧ 1 ∉ s.ctx.places := by
  have hsees : (run (body_step (Z := .blocks 2) (sampleEnv 2 8 none none)) (BodyState.start _) strandOps).map
      (fun s => (s.ctx.aborted, s.ctx.done, s.pc, s.ctx.bufs, s.ctx.places)) = some (false, false, .idle, 2, [0]) := by rfl
  obtain ⟨s, hs, hsees⟩ := Option.map_eq_some_iff.1 hsees
  simp only [Prod.mk.injEq] at hsees
  obtain ⟨hf, hd, hpc, hbufs, hplaces⟩ := hsees
  exact ⟨s, ⟨by decide, by decide, by decide⟩, reaches_of_run hs (meets_any _ _), hf, hd, hpc, hbufs, by simp [hplaces]⟩

end NginxZstd
