import NginxZstd.BodyFilter.Buffers
import Mathlib.Data.List.DropRight
/-!
# What goes downstream

The buffers linked into `ctx->out`, in the order in which they are linked, with the
flags they carry. Each holds bytes or ends the response; `last_buf` and `flush`
stand only on the buffer of the call that completed the frame or a flush; and a
buffer that comes back starts out without them. The writer may postpone none of the
buffers, so a flush that is completed has everything before it on its way.
-/

namespace NginxZstd

open Lib

variable {Z : Compressor} {E : BodyEnv}

/-- Every buffer linked so far, the ones still in `ctx->out` included. -/
def BodyState.sent (s : BodyState Z) : List OutBuf := s.handed ++ s.ctx.out.map s.ctx.heap

/-- The iteration `op` calls the compressor, with this context and `no_more_input`. -/
inductive CallsAt (E : BodyEnv) (s : BodyState Z) : BodyOp → BodyCtx Z → Bool → Prop
  | intro {palloc link c cursor c'} (hpc : s.pc = .inner) (ha : add_data s.ctx s.cursor = (.ok, c, cursor))
      (hm : max_length_exceeded c.bytes_in E.zlcf.max_length = false) (hg : get_buf E palloc c = (.ok, c')) :
      CallsAt E s (.iterate palloc link) c' (c'.in_chain = [] ∧ cursor = [])

/-- `CallsAt`, computed. -/
def callContext (E : BodyEnv) (s : BodyState Z) : BodyOp → Option (BodyCtx Z × Bool)
  | .iterate palloc _ =>
    match s.pc, add_data s.ctx s.cursor with
    | .inner, (.ok, c, cursor) =>
      if max_length_exceeded c.bytes_in E.zlcf.max_length then none
      else match get_buf E palloc c with
        | (.ok, c') => some (c', c'.in_chain = [] ∧ cursor = [])
        | _ => none
    | _, _ => none
  | _ => none

theorem callsAt_of_eq {s : BodyState Z} {op : BodyOp} {c : BodyCtx Z} {no_more_input : Bool}
    (h : callContext E s op = some (c, no_more_input)) : CallsAt E s op c no_more_input := by
  unfold callContext at h
  split at h
  · split at h
    · next hpc ha =>
      split at h
      · simp at h
      · next hm =>
        split at h
        · next hg =>
          simp only [Option.some.injEq, Prod.mk.injEq] at h
          obtain ⟨rfl, rfl⟩ := h
          exact .intro hpc ha (Bool.eq_false_iff.2 hm) hg
        · simp at h
    · simp at h
  · simp at h

/-- The reply of libzstd to a call with this context. -/
def replyOf (c : BodyCtx Z) (no_more_input : Bool) : Option (Reply Z.State) :=
  Z.call c.cctx (directive c no_more_input) c.buffer_in.unread (c.buffer_out.size - c.buffer_out.pos)

theorem map_heap_congr {heap heap' : BufId → OutBuf} {ids : List BufId} (h : ∀ i ∈ ids, heap' i = heap i) :
    ids.map heap' = ids.map heap := List.map_congr_left h

/-- `add_data` and `get_buf` do not touch what is linked. -/
theorem get_buf_out {ctx ctx' : BodyCtx Z} {handed : List OutBuf} {palloc : Bool} {rc : Rc} (h : Output E ctx handed)
    (he : Empty ctx) (hg : get_buf E palloc ctx = (rc, ctx')) (hrc : rc ≠ .error) :
    ctx'.out.map ctx'.heap = ctx.out.map ctx.heap := by
  rcases get_buf_cases hg hrc with ⟨-, -, -, rfl⟩ |
    ⟨-, ⟨i, free, hf, -, rfl⟩ | ⟨hf, hn, -, rfl⟩ | ⟨hf, hn, -, rfl⟩⟩
  · rfl
  · refine map_heap_congr fun j hj => ?_
    have hd := h.drop_out_buf he
    have hne : j ≠ i := by
      rintro rfl
      have hp := hd.places
      simp only [BodyCtx.places, Option.toList_none, List.nil_append, hf] at hp
      exact (List.nodup_append.1 hp).2.2 j (List.mem_append_left _ hj) j List.mem_cons_self rfl
    exact Function.update_of_ne hne _ _
  · refine map_heap_congr fun j hj => ?_
    have hne : j ≠ ctx.bufs := Nat.ne_of_lt (h.known j (mem_places.2 (.inr (.inl hj))))
    exact Function.update_of_ne hne _ _
  · rfl

/-- What a call does to the chain and to a pending flush. -/
theorem compress_out {c ctx : BodyCtx Z} {handed : List OutBuf} {no_more_input link : Bool} {rc : Rc}
    (h : Output E c handed) (hc : filter_compress c no_more_input link = (rc, ctx)) (hrc : rc ≠ .error) :
    ∃ i r, c.out_buf = some i ∧ replyOf c no_more_input = some r ∧
      ((((apply_reply c i r).heap i).size = 0 ∧ isLast c no_more_input r.rc = false ∧ ctx.out = c.out ∧
          ctx.out.map ctx.heap = c.out.map c.heap ∧ (ctx.flush = true ↔ c.flush = true ∧ r.rc ≠ 0)) ∨
        (¬ (((apply_reply c i r).heap i).size = 0 ∧ isLast c no_more_input r.rc = false) ∧ ctx.out = c.out ++ [i] ∧
          ctx.heap i = linkedBuf c ((apply_reply c i r).heap i) r.rc (isLast c no_more_input r.rc) ∧
          ctx.out.map ctx.heap = c.out.map c.heap ++ [ctx.heap i] ∧
          (ctx.flush = true ↔ c.flush = true ∧ r.rc ≠ 0))) := by
  obtain ⟨i, r, a, d, hb, hcall, -, hcases⟩ := filter_compress_cases hc hrc
  have hne : ∀ j ∈ c.out, j ≠ i := fun j hj e => (h.notMem_of_out_buf hb).1 (e ▸ hj)
  have hkeep : ∀ j ∈ c.out, (apply_reply c i r).heap j = c.heap j := fun j hj => Function.update_of_ne (hne j hj) _ _
  refine ⟨i, r, hb, hcall, ?_⟩
  rcases hcases with ⟨hs, hl, -, rfl⟩ | ⟨hs, -, rfl⟩
  · refine .inl ⟨hs, hl, ?_, ?_, ?_⟩
    · obtain ⟨b, f, he⟩ := suppress_empty_spec { apply_reply c i r with action := a, redo := d } r.rc
      rw [he]
      rfl
    · obtain ⟨b, f, he⟩ := suppress_empty_spec { apply_reply c i r with action := a, redo := d } r.rc
      rw [he]
      exact map_heap_congr hkeep
    · unfold suppress_empty
      split
      · next hz => simp [hz.1]
      · next hz =>
        constructor
        · intro hf
          exact ⟨hf, fun h0 => hz ⟨h0, hf⟩⟩
        · exact fun hf => hf.1
  · have hheap := link_out_heap { apply_reply c i r with action := a, redo := d } i r.rc (isLast c no_more_input r.rc)
    have hflush := link_out_flush { apply_reply c i r with action := a, redo := d } i r.rc (isLast c no_more_input r.rc)
    obtain ⟨-, heap, n, b, f, dn, he⟩ :=
      link_out_spec { apply_reply c i r with action := a, redo := d } i r.rc (isLast c no_more_input r.rc)
    rw [he] at hheap hflush ⊢
    have hi : heap i = linkedBuf c ((apply_reply c i r).heap i) r.rc (isLast c no_more_input r.rc) :=
      (congrFun hheap i).trans (Function.update_self ..)
    refine .inr ⟨hs, rfl, hi, ?_, hflush⟩
    show (c.out ++ [i]).map heap = _
    rw [List.map_append]
    congr 1
    refine map_heap_congr fun j hj => ?_
    exact (congrFun hheap j).trans ((Function.update_of_ne (hne j hj) _ _).trans (hkeep j hj))

/-- What a call finds. -/
theorem CallsAt.output {s : BodyState Z} {op : BodyOp} {c : BodyCtx Z} {no_more_input : Bool} (h : OutputSide E s)
    (hc : CallsAt E s op c no_more_input) :
    Output E c s.handed ∧ c.out.map c.heap = s.ctx.out.map s.ctx.heap ∧ c.done = false := by
  cases hc with
  | intro hpc ha hm hg =>
    obtain ⟨hout, hempty⟩ := h.output.add_data h.empty ha
    refine ⟨(get_buf_output hout hempty hg (by simp)).1, ?_, (acquired_done ha hg).trans (h.inner hpc)⟩
    rw [get_buf_out hout hempty hg (by simp)]
    obtain ⟨q, ib, l, f, n, bi, rfl⟩ := add_data_frame ha
    rfl

theorem CallsAt.sent_same {s s' : BodyState Z} {op : BodyOp} {c : BodyCtx Z} {no_more_input : Bool} (h : OutputSide E s)
    (hat : CallsAt E s op c no_more_input) (hh : s'.handed = s.handed)
    (hsame : s'.ctx.out.map s'.ctx.heap = c.out.map c.heap) : s'.sent = s.sent := by
  unfold BodyState.sent
  rw [hh, hsame, (hat.output h).2.1]

theorem CallsAt.sent_concat {s s' : BodyState Z} {op : BodyOp} {c : BodyCtx Z} {no_more_input : Bool} {b : OutBuf}
    (h : OutputSide E s) (hat : CallsAt E s op c no_more_input) (hh : s'.handed = s.handed)
    (hlink : s'.ctx.out.map s'.ctx.heap = c.out.map c.heap ++ [b]) : s'.sent = s.sent ++ [b] := by
  unfold BodyState.sent
  rw [hh, hlink, (hat.output h).2.1, List.append_assoc]

/-- Only a call of the compressor adds to what is sent, or ends the request. -/
theorem BodyMove.sent {s s' : BodyState Z} {op : BodyOp} (h : OutputSide E s) (hm : BodyMove E s op s') :
    (s'.sent = s.sent ∧ s'.ctx.done = s.ctx.done) ∨
    ∃ c no_more_input link rc, CallsAt E s op c no_more_input ∧
      filter_compress c no_more_input link = (rc, s'.ctx) ∧ rc ≠ .error ∧ s'.handed = s.handed := by
  cases hm with
  | pass hpc hd | noop hpc hd hh hr hi hb | begin_loop b hpc hd hh hn | resume b hpc hd hh hn | read hpc =>
    have hnil := h.idle hpc
    exact .inl ⟨by simp [BodyState.sent, deliver, recycle, hnil], rfl⟩
  | skip hpc ha | dry hpc ha =>
    obtain ⟨q, ib, l, f, n, bi, rfl⟩ := add_data_frame ha
    exact .inl ⟨rfl, rfl⟩
  | starve hpc ha hm hg =>
    obtain ⟨hout, hempty⟩ := h.output.add_data h.empty ha
    have hmap := get_buf_out hout hempty hg (by simp)
    obtain ⟨fr, ob, n, bo, heap, hs, nm, rfl⟩ := get_buf_frame hg
    obtain ⟨q, ib, l, f, n, bi, rfl⟩ := add_data_frame ha
    exact .inl ⟨congrArg (s.handed ++ ·) hmap, rfl⟩
  | work hpc ha hm hg hc hrc => exact .inr ⟨_, _, _, _, .intro hpc ha hm hg, hc, hrc, rfl⟩
  | keep hpc ho hf => exact .inl ⟨rfl, rfl⟩
  | give hpc ho hr => exact .inl ⟨by simp [BodyState.sent, pass_out], rfl⟩

/-- The step in which the compressor is called. -/
theorem CallsAt.move {s s' : BodyState Z} {op : BodyOp} {c : BodyCtx Z} {no_more_input : Bool}
    (hat : CallsAt E s op c no_more_input) (hm : BodyMove E s op s') :
    ∃ link rc, filter_compress c no_more_input link = (rc, s'.ctx) ∧ rc ≠ .error ∧ s'.handed = s.handed := by
  cases hat with
  | intro hpc ha hmax hg =>
    cases hm with
    | skip hpc' ha' | dry hpc' ha' =>
      rw [ha] at ha'
      simp at ha'
    | starve hpc' ha' hmax' hg' =>
      rw [ha, Prod.mk.injEq, Prod.mk.injEq] at ha'
      obtain ⟨-, rfl, rfl⟩ := ha'
      rw [hg] at hg'
      simp at hg'
    | work hpc' ha' hmax' hg' hc hrc =>
      rw [ha, Prod.mk.injEq, Prod.mk.injEq] at ha'
      obtain ⟨-, rfl, rfl⟩ := ha'
      rw [hg, Prod.mk.injEq] at hg'
      obtain ⟨-, rfl⟩ := hg'
      exact ⟨_, _, hc, hrc, rfl⟩

/-! ## The flags of a linked buffer -/

/-- The flags of a buffer as it was created. -/
def Fresh (b : OutBuf) : Prop :=
  b.flush = false ∧ b.sync = false ∧ b.last_buf = false ∧ b.last_in_chain = false ∧ b.temporary = true ∧
    b.recycled = true

/-- nginx's writer does not postpone such a buffer, nor what stands before it. -/
def OutBuf.pushes (b : OutBuf) : Bool := b.flush || b.recycled || b.last_buf

/-- A buffer the writer accepts: it has bytes, or is special and ends the response. -/
def Legal (b : OutBuf) : Prop := b.size ≠ 0 ∨ (b.last_buf = true ∧ b.temporary = false)

theorem completedBuf_spec {c : BodyCtx Z} {b : OutBuf} {zrc : Nat} {last : Bool} (hb : Fresh b)
    (hz : last = true → zrc = 0) :
    (completedBuf c b zrc last).size = b.size ∧ (completedBuf c b zrc last).last_buf = last ∧
      ((completedBuf c b zrc last).flush = true ↔ zrc = 0 ∧ c.flush = true ∧ c.last = false) ∧
      (completedBuf c b zrc last).sync = false ∧ (completedBuf c b zrc last).last_in_chain = false ∧
      (completedBuf c b zrc last).temporary = true ∧ (completedBuf c b zrc last).recycled = true := by
  obtain ⟨h1, h2, h3, h4, h5, h6⟩ := hb
  unfold completedBuf
  split
  · next hc => exact ⟨rfl, rfl, by simp [hc.1], h2, h4, h5, h6⟩
  · next hc =>
    have hl : last = false := Bool.eq_false_iff.2 fun hl => hc ⟨hz hl, .inr hl⟩
    refine ⟨rfl, by rw [h3, hl], ?_, h2, h4, h5, h6⟩
    rw [h1]
    constructor
    · intro h
      simp at h
    · rintro ⟨hz, hf, -⟩
      exact absurd ⟨hz, .inl hf⟩ hc

/-- A buffer linked out of a fresh one. -/
theorem linkedBuf_spec {c : BodyCtx Z} {b : OutBuf} {zrc : Nat} {last : Bool} (hb : Fresh b)
    (hz : last = true → zrc = 0) (hs : ¬ (b.size = 0 ∧ last = false)) :
    Legal (linkedBuf c b zrc last) ∧ (linkedBuf c b zrc last).last_buf = last ∧
      ((linkedBuf c b zrc last).flush = true ↔ zrc = 0 ∧ c.flush = true ∧ c.last = false) ∧
      (linkedBuf c b zrc last).sync = false ∧ (linkedBuf c b zrc last).last_in_chain = false ∧
      (last = false → (linkedBuf c b zrc last).temporary = true ∧ (linkedBuf c b zrc last).recycled = true) := by
  obtain ⟨h1, h2, h3, h4, h5, h6, h7⟩ := completedBuf_spec (c := c) hb hz
  unfold linkedBuf
  dsimp only
  split
  · next h0 =>
    have hl : last = true := by
      by_contra hl
      exact hs ⟨h1 ▸ h0, Bool.eq_false_iff.2 hl⟩
    exact ⟨.inr ⟨h2.trans hl, rfl⟩, h2, h3, h4, h5, fun hl' => by simp [hl] at hl'⟩
  · next h0 => exact ⟨.inl h0, h2, h3, h4, h5, fun _ => ⟨h6, h7⟩⟩

/-- It is an ordinary buffer, which is recycled, or it ends the response. -/
theorem linkedBuf_pushes {c : BodyCtx Z} {b : OutBuf} {zrc : Nat} {last : Bool} (hb : Fresh b)
    (hz : last = true → zrc = 0) (hs : ¬ (b.size = 0 ∧ last = false)) :
    (linkedBuf c b zrc last).pushes = true := by
  obtain ⟨-, hlast, -, -, -, hown⟩ := linkedBuf_spec (c := c) hb hz hs
  unfold OutBuf.pushes
  cases last with
  | true => rw [hlast, Bool.or_true]
  | false => rw [(hown rfl).2, Bool.or_true, Bool.true_or]

/-- The buffer being written carries no flags of an earlier use, and until the end
every buffer is an ordinary one. -/
structure HeapFlags (ctx : BodyCtx Z) : Prop where
  held : ∀ i, ctx.out_buf = some i → Fresh (ctx.heap i)
  own : ctx.done = false → ∀ i < ctx.bufs, (ctx.heap i).temporary = true ∧ (ctx.heap i).recycled = true

/-- Reading, writing and recycling leave the flags alone. -/
theorem HeapFlags.congr {ctx ctx' : BodyCtx Z} (h : HeapFlags ctx)
    (hheap : ∀ i, ∃ d p, ctx'.heap i = { ctx.heap i with data := d, pos := p })
    (ho : ctx'.out_buf = ctx.out_buf ∨ ctx'.out_buf = none) (hb : ctx'.bufs = ctx.bufs) (hd : ctx'.done = ctx.done) :
    HeapFlags ctx' := by
  refine ⟨fun i hi => ?_, fun hdone i hi => ?_⟩
  · obtain ⟨d, p, he⟩ := hheap i
    rcases ho with ho | ho
    · rw [he]
      exact h.held i (ho ▸ hi)
    · rw [ho] at hi
      simp at hi
  · obtain ⟨d, p, he⟩ := hheap i
    rw [he]
    exact h.own (hd ▸ hdone) i (hb ▸ hi)

theorem HeapFlags.recycle {ctx : BodyCtx Z} {heap : BufId → OutBuf} {out out' : List BufId} (h : HeapFlags ctx)
    (hheap : ∀ i, ∃ p, heap i = { ctx.heap i with pos := p }) :
    HeapFlags { NginxZstd.recycle { ctx with heap := heap } out with out := out' } := by
  refine h.congr (fun i => ?_) (.inr rfl) rfl rfl
  obtain ⟨p, hp⟩ := hheap i
  obtain ⟨d, q, he⟩ := update_chains_keeps heap ctx.free (ctx.busy ++ out) i
  refine ⟨d, q, ?_⟩
  show (update_chains heap ctx.free (ctx.busy ++ out)).1 i = _
  rw [he, hp]

theorem HeapFlags.add_data {ctx ctx' : BodyCtx Z} {cursor cursor' : List InBuf} {rc : Rc} (h : HeapFlags ctx)
    (ha : add_data ctx cursor = (rc, ctx', cursor')) : HeapFlags ctx' := by
  obtain ⟨q, ib, l, f, n, bi, rfl⟩ := add_data_frame ha
  exact ⟨h.held, h.own⟩

/-- `get_buf` clears the flags of a buffer that comes back. -/
theorem HeapFlags.get_buf {ctx ctx' : BodyCtx Z} {handed : List OutBuf} {palloc : Bool} {rc : Rc} (h : HeapFlags ctx)
    (ho : Output E ctx handed) (hd : ctx.done = false) (hg : get_buf E palloc ctx = (rc, ctx')) (hrc : rc ≠ .error) :
    HeapFlags ctx' := by
  rcases get_buf_cases hg hrc with ⟨-, -, -, rfl⟩ |
    ⟨-, ⟨i, free, hf, -, rfl⟩ | ⟨hf, hn, -, rfl⟩ | ⟨hf, hn, -, rfl⟩⟩
  · exact h
  · have hi : i < ctx.bufs := ho.known i (mem_places.2 (.inr (.inr (.inr (by rw [hf]; exact List.mem_cons_self)))))
    obtain ⟨ht, hr⟩ := h.own hd i hi
    refine ⟨fun j hj => ?_, fun _ j hj => ?_⟩
    · obtain rfl : i = j := by simpa [reuse_buf] using hj
      simp only [reuse_buf, Function.update_self]
      exact ⟨rfl, rfl, rfl, rfl, ht, hr⟩
    · by_cases hji : j = i
      · subst hji
        simp only [reuse_buf, Function.update_self]
        exact ⟨ht, hr⟩
      · simp only [reuse_buf, Function.update_of_ne hji]
        exact h.own hd j hj
  · have hnew : Fresh ((alloc_buf E ctx).heap ctx.bufs) := by
      unfold alloc_buf
      dsimp only
      rw [Function.update_self]
      split <;> exact ⟨rfl, rfl, rfl, rfl, rfl, rfl⟩
    refine ⟨fun j hj => ?_, fun _ j (hj : j < ctx.bufs + 1) => ?_⟩
    · obtain rfl : ctx.bufs = j := by simpa [alloc_buf] using hj
      exact hnew
    · by_cases hjn : j = ctx.bufs
      · subst hjn
        exact ⟨hnew.2.2.2.2.1, hnew.2.2.2.2.2⟩
      · simp only [alloc_buf, Function.update_of_ne hjn]
        exact h.own hd j (Nat.lt_of_le_of_ne (Nat.le_of_lt_succ hj) hjn)
  · exact ⟨h.held, h.own⟩

/-- What a call makes of fresh flags. -/
theorem HeapFlags.compress {c ctx : BodyCtx Z} {no_more_input link : Bool} {rc : Rc}
    (h : HeapFlags c) (hd : c.done = false)
    (hc : filter_compress c no_more_input link = (rc, ctx)) (hrc : rc ≠ .error) : HeapFlags ctx := by
  obtain ⟨i, r, a, d, hb, -, -, hcases⟩ := filter_compress_cases hc hrc
  have hwrite : ∀ j, ∃ d p, (apply_reply c i r).heap j = { c.heap j with data := d, pos := p } := by
    intro j
    by_cases hj : j = i
    · subst hj
      exact ⟨_, _, Function.update_self ..⟩
    · exact ⟨(c.heap j).data, (c.heap j).pos, Function.update_of_ne hj ..⟩
  have hw : HeapFlags { apply_reply c i r with action := a, redo := d } := h.congr hwrite (.inl rfl) rfl rfl
  rcases hcases with ⟨hs, hl, -, rfl⟩ | ⟨hs, -, rfl⟩
  · obtain ⟨b, f, he⟩ := suppress_empty_spec { apply_reply c i r with action := a, redo := d } r.rc
    rw [he]
    exact ⟨hw.held, hw.own⟩
  · have hdone := link_out_done { apply_reply c i r with action := a, redo := d } i r.rc (isLast c no_more_input r.rc)
      hd fun hl => (isLast_rc hl).1
    have hheap := link_out_heap { apply_reply c i r with action := a, redo := d } i r.rc (isLast c no_more_input r.rc)
    obtain ⟨-, heap, n, b, f, dn, he⟩ :=
      link_out_spec { apply_reply c i r with action := a, redo := d } i r.rc (isLast c no_more_input r.rc)
    rw [he] at hdone hheap ⊢
    refine ⟨by simp, fun (hdn : dn = false) j hj => ?_⟩
    have hl : isLast c no_more_input r.rc = false := (show dn = _ from hdone).symm.trans hdn
    show (heap j).temporary = true ∧ (heap j).recycled = true
    rw [show heap = _ from hheap]
    by_cases hji : j = i
    · subst hji
      rw [Function.update_self]
      have hfresh : Fresh ((apply_reply c j r).heap j) := hw.held j hb
      exact (linkedBuf_spec hfresh (fun hl => (isLast_rc hl).1) hs).2.2.2.2.2 hl
    · rw [Function.update_of_ne hji]
      exact hw.own hd j hj

theorem CallsAt.out_buf {s : BodyState Z} {op : BodyOp} {c : BodyCtx Z} {no_more_input : Bool} (h : OutputSide E s)
    (hc : CallsAt E s op c no_more_input) : ∃ i, c.out_buf = some i := by
  cases hc with
  | intro hpc ha hm hg =>
    obtain ⟨hout, hempty⟩ := h.output.add_data h.empty ha
    exact Option.ne_none_iff_exists'.1 ((get_buf_output hout hempty hg (by simp)).2.1 rfl)

/-- A call finds a buffer without flags. -/
theorem CallsAt.flags {s : BodyState Z} {op : BodyOp} {c : BodyCtx Z} {no_more_input : Bool} (h : OutputSide E s)
    (hf : HeapFlags s.ctx) (hc : CallsAt E s op c no_more_input) : HeapFlags c := by
  cases hc with
  | intro hpc ha hm hg =>
    obtain ⟨hout, -⟩ := h.output.add_data h.empty ha
    have hd := h.inner hpc
    refine (hf.add_data ha).get_buf hout ?_ hg (by simp)
    obtain ⟨q, ib, l, f, n, bi, rfl⟩ := add_data_frame ha
    exact hd

theorem drain_keeps (drained : BufId → Nat) (ids : List BufId) (heap : BufId → OutBuf) (i : BufId) :
    ∃ d p, drain drained ids heap i = { heap i with data := d, pos := p } := by
  obtain ⟨p, hp⟩ := drain_spec drained ids heap i
  exact ⟨(heap i).data, p, hp⟩

theorem HeapFlags.move {s s' : BodyState Z} {op : BodyOp} (h : HeapFlags s.ctx) (hside : OutputSide E s)
    (hm : BodyMove E s op s') : HeapFlags s'.ctx := by
  cases hm with
  | pass hpc hd | read hpc => exact h.congr (drain_keeps _ _ _) (.inl rfl) rfl rfl
  | noop hpc hd hh hr hi hb => exact h
  | begin_loop b hpc hd hh hn => exact ⟨h.held, h.own⟩
  | @resume chain init down b hpc hd hh hn =>
    have hr : HeapFlags { NginxZstd.recycle { s.ctx with heap := drain down.drained s.ctx.busy s.ctx.heap } [] with
        out := s.ctx.out } := h.recycle (drain_spec _ _ _)
    exact ⟨hr.held, hr.own⟩
  | skip hpc ha | dry hpc ha => exact h.add_data ha
  | starve hpc ha hm hg =>
    obtain ⟨hout, -⟩ := hside.output.add_data hside.empty ha
    have hd := hside.inner hpc
    refine (h.add_data ha).get_buf hout ?_ hg (by simp)
    obtain ⟨q, ib, l, f, n, bi, rfl⟩ := add_data_frame ha
    exact hd
  | work hpc ha hm hg hc hrc =>
    have hat : CallsAt E s (.iterate _ true) _ _ := .intro hpc ha hm hg
    exact (hat.flags hside h).compress (hat.output hside).2.2 hc hrc
  | keep hpc ho hf => exact ⟨h.held, h.own⟩
  | give hpc ho hr => exact h.recycle (drain_spec _ _ _)

/-- What has been sent is legal, and nothing is behind the end. -/
structure Flagged (s : BodyState Z) : Prop where
  heap : HeapFlags s.ctx
  legal : ∀ b ∈ s.sent, Legal b
  final : ∀ b ∈ s.sent.dropLast, b.last_buf = false
  going : s.ctx.done = false → ∀ b ∈ s.sent, b.last_buf = false
  pushes : ∀ b ∈ s.sent, b.pushes = true

theorem Flagged.start : Flagged (BodyState.start Z) where
  heap := ⟨by simp [BodyState.start, BodyCtx.start], by simp [BodyState.start, BodyCtx.start]⟩
  legal := by simp [BodyState.sent, BodyState.start, BodyCtx.start]
  final := by simp [BodyState.sent, BodyState.start, BodyCtx.start]
  going := by simp [BodyState.sent, BodyState.start, BodyCtx.start]
  pushes := by simp [BodyState.sent, BodyState.start, BodyCtx.start]

/-- What a call links. -/
theorem compress_links {c ctx : BodyCtx Z} {handed : List OutBuf} {no_more_input link : Bool} {rc : Rc}
    (ho : Output E c handed) (hf : HeapFlags c) (hc : filter_compress c no_more_input link = (rc, ctx))
    (hrc : rc ≠ .error) :
    ∃ i r, c.out_buf = some i ∧ replyOf c no_more_input = some r ∧
      ((ctx.out = c.out ∧ ctx.out.map ctx.heap = c.out.map c.heap) ∨
        (ctx.out = c.out ++ [i] ∧ ctx.out.map ctx.heap = c.out.map c.heap ++ [ctx.heap i] ∧ Legal (ctx.heap i) ∧
          (ctx.heap i).last_buf = isLast c no_more_input r.rc ∧
          ((ctx.heap i).flush = true ↔ r.rc = 0 ∧ c.flush = true ∧ c.last = false) ∧
          (ctx.heap i).sync = false ∧ (ctx.heap i).last_in_chain = false ∧ (ctx.heap i).pushes = true)) := by
  obtain ⟨i, r, hb, hr, hcases⟩ := compress_out ho hc hrc
  refine ⟨i, r, hb, hr, ?_⟩
  rcases hcases with ⟨-, -, hout, hsame, -⟩ | ⟨hs, hout, hbuf, hmap, -⟩
  · exact .inl ⟨hout, hsame⟩
  · have hfresh : Fresh ((apply_reply c i r).heap i) := by
      simp only [apply_reply, Function.update_self]
      exact hf.held i hb
    obtain ⟨h1, h2, h3, h4, h5, -⟩ := linkedBuf_spec (c := c) hfresh (fun hl => (isLast_rc hl).1) hs
    have h6 := linkedBuf_pushes (c := c) hfresh (fun hl => (isLast_rc hl).1) hs
    rw [← hbuf] at h1 h2 h3 h4 h5 h6
    exact .inr ⟨hout, hmap, h1, h2, h3, h4, h5, h6⟩

theorem Flagged.move {s s' : BodyState Z} {op : BodyOp} (h : Flagged s) (hside : OutputSide E s)
    (hm : BodyMove E s op s') : Flagged s' := by
  have hheap := h.heap.move hside hm
  rcases hm.sent hside with ⟨hsent, hd⟩ | ⟨c, nmi, link, rc, hat, hc, hrc, hhanded⟩
  · refine ⟨hheap, ?_, ?_, ?_, ?_⟩
    · rw [hsent]
      exact h.legal
    · rw [hsent]
      exact h.final
    · rw [hsent, hd]
      exact h.going
    · rw [hsent]
      exact h.pushes
  · obtain ⟨hout, -, hdone⟩ := hat.output hside
    have hgoing := h.going (by cases hat with | intro hpc ha hm hg => exact hside.inner hpc)
    obtain ⟨i, r, -, hr, hcases⟩ := compress_links hout (hat.flags hside h.heap) hc hrc
    obtain ⟨r', hr', -, hdone', -⟩ := compress_frame hc hrc
    rcases hcases with ⟨-, hsame⟩ | ⟨-, hlink, hlegal, hlast, -, -, -, hpushes⟩
    · have hsent := hat.sent_same hside hhanded hsame
      refine ⟨hheap, ?_, ?_, ?_, ?_⟩
      · rw [hsent]
        exact h.legal
      · rw [hsent]
        exact h.final
      · rw [hsent]
        exact fun _ => hgoing
      · rw [hsent]
        exact h.pushes
    · have hsent := hat.sent_concat hside hhanded hlink
      have hlast' : s'.ctx.done = false → (s'.ctx.heap i).last_buf = false := by
        intro hd
        rw [hlast, show r = r' from Option.some.inj (hr.symm.trans hr'), ← hdone' hdone]
        exact hd
      refine ⟨hheap, ?_, ?_, ?_, ?_⟩
      · rw [hsent]
        intro b hb
        rcases List.mem_append.1 hb with hb | hb
        · exact h.legal b hb
        · rw [List.mem_singleton.1 hb]
          exact hlegal
      · rw [hsent, List.dropLast_concat]
        exact hgoing
      · rw [hsent]
        intro hd b hb
        rcases List.mem_append.1 hb with hb | hb
        · exact hgoing b hb
        · rw [List.mem_singleton.1 hb]
          exact hlast' hd
      · rw [hsent]
        intro b hb
        rcases List.mem_append.1 hb with hb | hb
        · exact h.pushes b hb
        · rw [List.mem_singleton.1 hb]
          exact hpushes

/-- A call that fails links nothing. -/
theorem compress_error_out {c ctx : BodyCtx Z} {no_more_input link : Bool}
    (hc : filter_compress c no_more_input link = (.error, ctx)) : ctx.out = c.out := by
  unfold filter_compress at hc
  dsimp only at hc
  split at hc
  · next i r hb hr =>
    obtain ⟨a, d, ha⟩ := next_action_spec (apply_reply c i r) (directive c no_more_input) no_more_input r.rc
      r.written.length
    rw [ha] at hc
    split at hc
    · simp at hc
    unfold emit at hc
    split at hc
    · simp at hc
    split at hc
    · split at hc <;> simp at hc
    · simp only [Prod.mk.injEq, true_and] at hc
      rw [← hc]
      rfl
  · simp only [Prod.mk.injEq, true_and] at hc
    rw [← hc]

/-- Whatever is delivered, drained and compressed: every buffer linked is legal, and
only the last can carry `last_buf`; a call finds a buffer with the flags of a new
one, and if it links it, `last_buf` says that the call was an end libzstd completed,
and `flush` that it completed a pending flush. -/
theorem only_legal_buffers_linked {s : BodyState Z} (h : Reaches (body_step E) Any (BodyState.start Z) s)
    (hf : s.ctx.aborted = false) :
    (∀ b ∈ s.sent, b.size ≠ 0 ∨ (b.last_buf = true ∧ b.temporary = false)) ∧
    (∀ b ∈ s.sent.dropLast, b.last_buf = false) ∧
    ∀ op c no_more_input, CallsAt E s op c no_more_input → ∃ i, c.out_buf = some i ∧ Fresh (c.heap i) ∧
      ∀ link rc ctx, filter_compress c no_more_input link = (rc, ctx) →
        ctx.out = c.out ∨ ∃ r, replyOf c no_more_input = some r ∧ ctx.out = c.out ++ [i] ∧
          ((ctx.heap i).last_buf = true → directive c no_more_input = .e_end ∧ r.rc = 0) ∧
          ((ctx.heap i).flush = true → c.flush = true ∧ r.rc = 0) ∧
          (ctx.heap i).sync = false ∧ (ctx.heap i).last_in_chain = false := by
  have hi : OutputSide E s ∧ Flagged s :=
    body_invariant (fun s => OutputSide E s ∧ Flagged s) h hf ⟨.start, .start⟩
      fun _ _ _ hi _ hm => ⟨hi.1.move hm, hi.2.move hi.1 hm⟩
  obtain ⟨hside, hflags⟩ := hi
  refine ⟨hflags.legal, hflags.final, fun op c nmi hat => ?_⟩
  have hheap := hat.flags hside hflags.heap
  obtain ⟨i, hb⟩ := hat.out_buf hside
  refine ⟨i, hb, hheap.held i hb, fun link rc ctx hc => ?_⟩
  by_cases hrc : rc = .error
  · subst hrc
    exact .inl (compress_error_out hc)
  obtain ⟨j, r, hj, hr, hcases⟩ := compress_links (hat.output hside).1 hheap hc hrc
  obtain rfl : i = j := Option.some.inj (hb.symm.trans hj)
  rcases hcases with ⟨hout, -⟩ | ⟨hout, -, -, hlast, hflush, hsync, hlic, -⟩
  · exact .inl hout
  · refine .inr ⟨r, hr, hout, fun hl => ?_, fun hfl => ?_, hsync, hlic⟩
    · obtain ⟨hz, -, hdir⟩ := isLast_rc (hlast.symm.trans hl)
      exact ⟨hdir, hz⟩
    · obtain ⟨hz, hcf, -⟩ := hflush.1 hfl
      exact ⟨hcf, hz⟩

/-- The last call of the run completes the frame, and links the buffer that says so. -/
theorem only_legal_buffers_linked_two_links : ∃ (s : BodyState (.blocks 2)) (c ctx : BodyCtx (.blocks 2)) (r : Reply _),
    run (body_step (sampleEnv 2 2 none (some sampleDict))) (BodyState.start _) (sampleOps.take 5) = some s ∧
      s.sent.length = 2 ∧ (∀ b ∈ s.sent.dropLast, b.last_buf = false) ∧
      CallsAt (sampleEnv 2 2 none (some sampleDict)) s (.iterate true true) c true ∧
      filter_compress c true true = (.ok, ctx) ∧ ctx.out = [1] ∧ (ctx.heap 1).last_buf = true ∧
      directive c true = .e_end ∧ replyOf c true = some r ∧ r.rc = 0 := by
  let E := sampleEnv 2 2 none (some sampleDict)
  have hsees : ((run (body_step E) (BodyState.start (.blocks 2)) (sampleOps.take 5)).bind fun s =>
      (callContext E s (.iterate true true)).map fun call =>
        decide (s.ctx.aborted = false ∧ s.sent.length = 2 ∧ call.2 = true ∧ call.1.out = [] ∧
          (filter_compress call.1 true true).1 = .ok ∧ (filter_compress call.1 true true).2.out = [1] ∧
          ((filter_compress call.1 true true).2.heap 1).last_buf = true)) = some true := by decide +kernel
  obtain ⟨s, hs, hsees⟩ := Option.bind_eq_some_iff.1 hsees
  obtain ⟨⟨c, no_more_input⟩, hcall, hsees⟩ := Option.map_eq_some_iff.1 hsees
  rw [decide_eq_true_eq] at hsees
  obtain ⟨hf, hlength, rfl, hnone, hrc, hout, hlast⟩ := hsees
  have hat := callsAt_of_eq hcall
  obtain ⟨-, hfinal, hcalls⟩ := only_legal_buffers_linked (reaches_of_run hs (meets_any _ _)) hf
  obtain ⟨i, -, -, hlinks⟩ := hcalls _ _ _ hat
  have hcomp : filter_compress c true true = (.ok, (filter_compress c true true).2) := Prod.ext hrc rfl
  rcases hlinks true .ok _ hcomp with hsame | ⟨r, hr, hlink, hend, -⟩
  · rw [hout, hnone] at hsame
    cases hsame
  · rw [hout, hnone] at hlink
    obtain rfl : 1 = i := by simpa using hlink
    exact ⟨s, c, _, r, hs, hlength, hfinal, hat, hcomp, hout, hlast, (hend hlast).1, hr, (hend hlast).2⟩

/-! ## Delivery of a flush -/

/-- The bytes in, or before, the last buffer that pushes. -/
def covered (bs : List OutBuf) : Bytes := forwarded (bs.rdropWhile fun b => !b.pushes)

theorem covered_concat (bs : List OutBuf) (b : OutBuf) :
    covered (bs ++ [b]) = if b.pushes then forwarded (bs ++ [b]) else covered bs := by
  unfold covered
  rw [List.rdropWhile_concat]
  cases b.pushes <;> rfl

theorem covered_le_forwarded (bs : List OutBuf) : covered bs <+: forwarded bs := by
  obtain ⟨rest, hr⟩ := List.rdropWhile_prefix (fun b : OutBuf => !b.pushes) (l := bs)
  conv_rhs => rw [← hr]
  rw [forwarded_append]
  exact List.prefix_append ..

/-- More buffers cover no less. -/
theorem covered_mono (bs : List OutBuf) (b : OutBuf) : covered bs <+: covered (bs ++ [b]) := by
  rw [covered_concat]
  split
  · rw [forwarded_append]
    exact (covered_le_forwarded bs).trans (List.prefix_append ..)
  · exact List.prefix_rfl

/-- What is covered stays covered. -/
theorem BodyMove.covered {s s' : BodyState Z} {op : BodyOp} (h : OutputSide E s) (hm : BodyMove E s op s') :
    covered s.sent <+: NginxZstd.covered s'.sent := by
  rcases hm.sent h with ⟨hsent, -⟩ | ⟨c, nmi, link, rc, hat, hc, hrc, hhanded⟩
  · exact hsent ▸ List.prefix_rfl
  · obtain ⟨i, r, -, -, hcases⟩ := compress_out (hat.output h).1 hc hrc
    rcases hcases with ⟨-, -, -, hsame, -⟩ | ⟨-, -, -, hlink, -⟩
    · exact hat.sent_same h hhanded hsame ▸ List.prefix_rfl
    · rw [hat.sent_concat h hhanded hlink]
      exact covered_mono ..

theorem covered_eq_forwarded {bs : List OutBuf} (h : ∀ b ∈ bs, b.pushes = true) : covered bs = forwarded bs := by
  induction bs using List.reverseRecOn with
  | nil => rfl
  | append_singleton bs b _ => rw [covered_concat, if_pos (h b (List.mem_append_right _ List.mem_cons_self))]

/-- At most one of the two signals is pending. -/
def OneSignal (ctx : BodyCtx Z) : Prop := ¬ (ctx.flush = true ∧ ctx.last = true)

theorem OneSignal.add_data {ctx ctx' : BodyCtx Z} {cursor cursor' : List InBuf} {rc : Rc} (h : OneSignal ctx)
    (ha : add_data ctx cursor = (rc, ctx', cursor')) : OneSignal ctx' := by
  have hload : ∀ {c : BodyCtx Z} b, c.flush = false → c.last = false → OneSignal (load_buf c b).2 := by
    intro c b hf hl
    unfold load_buf OneSignal
    rw [note_signals_eq]
    dsimp only
    split <;> cases b.last_buf <;> simp [hf, hl]
  rcases add_data_cases ha with ⟨-, -, rfl, -⟩ | ⟨hc, ⟨-, -, -, rfl, -⟩ | ⟨b, q, -, hl⟩⟩
  · exact h
  · exact h
  · have hone := hload (c := { ctx with in_chain := q }) b (Bool.eq_false_iff.2 fun hf => hc (.inr (.inl hf)))
      (Bool.eq_false_iff.2 fun hl => hc (.inr (.inr (.inl hl))))
    rwa [hl] at hone

theorem OneSignal.call {s : BodyState Z} {op : BodyOp} {c : BodyCtx Z} {no_more_input : Bool} (h : OneSignal s.ctx)
    (hat : CallsAt E s op c no_more_input) : OneSignal c := by
  cases hat with
  | intro hpc ha hm hg =>
    have h1 := h.add_data ha
    obtain ⟨fr, ob, n, bo, heap, hs, nm, rfl⟩ := get_buf_frame hg
    exact h1

theorem OneSignal.move {s s' : BodyState Z} {op : BodyOp} (h : OneSignal s.ctx) (hside : OutputSide E s)
    (hm : BodyMove E s op s') : OneSignal s'.ctx := by
  cases hm with
  | pass hpc hd | noop hpc hd hh hr hi hb | begin_loop b hpc hd hh hn | resume b hpc hd hh hn | read hpc
  | keep hpc ho hf | give hpc ho hr => exact h
  | skip hpc ha | dry hpc ha => exact h.add_data ha
  | starve hpc ha hm hg =>
    have h1 := h.add_data ha
    obtain ⟨fr, ob, n, bo, heap, hs, nm, rfl⟩ := get_buf_frame hg
    exact h1
  | @work palloc link c cursor c' rc ctx hpc ha hm hg hc hrc =>
    have hat : CallsAt E s (.iterate palloc link) c' _ := .intro hpc ha hm hg
    have h1 := h.call hat
    obtain ⟨i, r, -, -, hcases⟩ := compress_out (hat.output hside).1 hc hrc
    have hflush : ctx.flush = true → c'.flush = true := by
      rcases hcases with ⟨-, -, -, -, hf⟩ | ⟨-, -, -, -, hf⟩
      · exact fun hfl => (hf.1 hfl).1
      · exact fun hfl => (hf.1 hfl).1
    obtain ⟨r, -, -, -, -, ib, bo, heap, a, d, b, f, dn, n, o, ob, rfl⟩ := compress_frame hc hrc
    exact fun hboth => h1 ⟨hflush hboth.1, hboth.2⟩

/-- Everything linked so far is the frame header and what libzstd wrote. -/
theorem OutputSide.forwarded_sent {s : BodyState Z} (h : OutputSide E s) :
    forwarded s.sent = headerOf E s.ctx.bufs ++ s.ctx.produced := by
  have hbytes := h.output.bytes
  rw [chainBytes_append, h.empty.held_bytes, List.append_nil] at hbytes
  unfold BodyState.sent
  rw [forwarded_append, forwarded_map, hbytes]

/-- A call that completes a flush consumes its input, and puts the flag on what it
links. -/
theorem flush_completed {c : BodyCtx Z} {s t : BodyState Z} {op : BodyOp} {no_more_input : Bool}
    (hside : OutputSide E s) (hflags : HeapFlags s.ctx) (hone : OneSignal s.ctx)
    (hat : CallsAt E s op c no_more_input) (hm : BodyMove E s op t) (hc : c.flush = true) (ht : t.ctx.flush = false) :
    t.ctx.buffer_in.unread = [] ∧ (t.sent = s.sent ∨ ∃ b, t.sent = s.sent ++ [b] ∧ b.flush = true) := by
  obtain ⟨link, rc, hcomp, hrc, hhanded⟩ := hat.move hm
  obtain ⟨i, r, hb, hr, hcases⟩ := compress_out (hat.output hside).1 hcomp hrc
  have hz : r.rc = 0 := by
    by_contra hne
    have hfl : t.ctx.flush = true := by
      rcases hcases with ⟨-, -, -, -, hf⟩ | ⟨-, -, -, -, hf⟩
      · exact hf.2 ⟨hc, hne⟩
      · exact hf.2 ⟨hc, hne⟩
    rw [ht] at hfl
    simp at hfl
  constructor
  · obtain ⟨r', hr', -, -, -, ib, bo, heap, a, d, b, f, dn, n, o, ob, he⟩ := compress_frame hcomp hrc
    obtain rfl : r = r' := Option.some.inj (hr.symm.trans hr')
    have hdir : directive c no_more_input ≠ .e_continue := by
      unfold directive
      split
      · simp
      · rw [if_pos (.inr hc)]
        simp
    rw [he, InBuffer.unread_advance, Z.complete hr hdir hz, List.drop_length]
  · rcases hcases with ⟨-, -, -, hsame, -⟩ | ⟨hs, -, hbuf, hlink, -⟩
    · exact .inl (hat.sent_same hside hhanded hsame)
    · have hlast : c.last = false := Bool.eq_false_iff.2 fun hl => hone.call hat ⟨hc, hl⟩
      have hfresh : Fresh ((apply_reply c i r).heap i) := by
        simp only [apply_reply, Function.update_self]
        exact (hat.flags hside hflags).held i hb
      have hfl := (linkedBuf_spec (c := c) hfresh (fun hl => (isLast_rc hl).1) hs).2.2.1.2 ⟨hz, hc, hlast⟩
      rw [← hbuf] at hfl
      exact .inr ⟨_, hat.sent_concat hside hhanded hlink, hfl⟩

/-- In every run: when a step completes a flush, libzstd has consumed its input, and if
it had output left, that is linked with `flush`; from then on, at every return, whatever
it had written until then was passed on in, or before, a buffer that pushes. -/
theorem flush_delivered {s t u : BodyState Z} {op : BodyOp} {c : BodyCtx Z} {no_more_input : Bool}
    (hs : Reaches (body_step E) Any (BodyState.start Z) s) (hst : body_step E s op = some t)
    (hat : CallsAt E s op c no_more_input) (hc : c.flush = true) (ht : t.ctx.flush = false)
    (hu : Reaches (body_step E) Any t u) (hf : u.ctx.aborted = false) (hpc : u.pc = .idle) :
    t.ctx.buffer_in.unread = [] ∧ (t.sent = s.sent ∨ ∃ b, t.sent = s.sent ++ [b] ∧ b.flush = true) ∧
      headerOf E t.ctx.bufs ++ t.ctx.produced <+: covered u.handed := by
  have htf := not_aborted_before hu hf
  have hm := body_step_move hst htf
  have hi : OutputSide E s ∧ Flagged s ∧ OneSignal s.ctx :=
    body_invariant (fun s => OutputSide E s ∧ Flagged s ∧ OneSignal s.ctx) hs (hm.aborted ▸ htf)
      ⟨.start, .start, by simp [OneSignal, BodyState.start, BodyCtx.start]⟩
      fun _ _ _ hi _ hm => ⟨hi.1.move hm, hi.2.1.move hi.1 hm, hi.2.2.move hi.1 hm⟩
  obtain ⟨hside, hflags, hone⟩ := hi
  obtain ⟨hunread, hlinked⟩ := flush_completed hside hflags.heap hone hat hm hc ht
  have hlater : OutputSide E u ∧ covered t.sent <+: covered u.sent :=
    body_invariant (fun u => OutputSide E u ∧ covered t.sent <+: covered u.sent) hu hf
      ⟨hside.move hm, List.prefix_rfl⟩ fun _ _ _ hi _ hm => ⟨hi.1.move hm, hi.2.trans (hm.covered hi.1)⟩
  obtain ⟨hside', hpre⟩ := hlater
  rw [covered_eq_forwarded (hflags.move hside hm).pushes, (hside.move hm).forwarded_sent] at hpre
  refine ⟨hunread, hlinked, ?_⟩
  simpa [BodyState.sent, hside'.idle hpc] using hpre

theorem flush_delivered_one_link : ∃ t u : BodyState (.blocks 2), t.ctx.produced = [1, 2] ∧ u.pc = .idle ∧
    headerOf (sampleEnv 2 8 none none) t.ctx.bufs ++ t.ctx.produced <+: covered u.handed := by
  let E := sampleEnv 2 8 none none
  have hsees : ((run (body_step E) (BodyState.start (.blocks 2)) (flushOps.take 1)).bind fun s =>
      (body_step E s (.iterate true true)).bind fun t => (run (body_step E) t (flushOps.drop 2)).bind fun u =>
        (callContext E s (.iterate true true)).map fun call =>
          decide (call.1.flush = true ∧ t.ctx.flush = false ∧ u.ctx.aborted = false ∧ u.pc = .idle ∧
            t.ctx.produced = [1, 2])) = some true := by decide +kernel
  obtain ⟨s, hs, hsees⟩ := Option.bind_eq_some_iff.1 hsees
  obtain ⟨t, ht, hsees⟩ := Option.bind_eq_some_iff.1 hsees
  obtain ⟨u, hu, hsees⟩ := Option.bind_eq_some_iff.1 hsees
  obtain ⟨call, hcall, hsees⟩ := Option.map_eq_some_iff.1 hsees
  rw [decide_eq_true_eq] at hsees
  obtain ⟨hc, htf, hf, hpc, hprod⟩ := hsees
  exact ⟨t, u, hprod, hpc, (flush_delivered (reaches_of_run hs (meets_any _ _)) ht (callsAt_of_eq hcall) hc htf
    (reaches_of_run hu (meets_any _ _)) hf hpc).2.2⟩

/-- A link that fills a block, and a flush behind it that carries no data. -/
def swallowOps : List BodyOp :=
  [.callback [⟨[1, 2], false, false⟩, ⟨[], true, false⟩] true slow, .iterate true true, .iterate true true,
    .iterate true true, .tail 0 slow, .iterate true true, .tail 0 slow]

/-- The flush is completed without output, and the bytes before it were linked before
it came: no buffer carries `flush` or `last_buf`. -/
theorem flush_swallowed : ∃ s t u : BodyState (.blocks 2), ∃ c no_more_input,
    Reaches (body_step (sampleEnv 2 8 none none)) LastIsFinal (BodyState.start _) s ∧
      body_step (sampleEnv 2 8 none none) s (.iterate true true) = some t ∧
      CallsAt (sampleEnv 2 8 none none) s (.iterate true true) c no_more_input ∧ c.flush = true ∧
      t.ctx.flush = false ∧ Reaches (body_step (sampleEnv 2 8 none none)) LastIsFinal t u ∧ u.ctx.aborted = false ∧
      u.pc = .idle ∧ t.ctx.produced = [1, 2] ∧ forwarded u.handed = [1, 2] ∧
      ∀ b ∈ u.handed, b.flush = false ∧ b.last_buf = false := by
  let E := sampleEnv 2 8 none none
  have hsees : ((run (body_step E) (BodyState.start (.blocks 2)) (swallowOps.take 2)).bind fun s =>
      (body_step E s (.iterate true true)).bind fun t => (run (body_step E) t (swallowOps.drop 3)).bind fun u =>
        (callContext E s (.iterate true true)).map fun call =>
          decide (Meets (body_step E) LastIsFinal (BodyState.start (.blocks 2)) (swallowOps.take 2) ∧
            call.1.flush = true ∧ t.ctx.flush = false ∧ Meets (body_step E) LastIsFinal t (swallowOps.drop 3) ∧
            u.ctx.aborted = false ∧ u.pc = .idle ∧ t.ctx.produced = [1, 2] ∧ forwarded u.handed = [1, 2] ∧
            ∀ b ∈ u.handed, b.flush = false ∧ b.last_buf = false)) = some true := by decide +kernel
  obtain ⟨s, hs, hsees⟩ := Option.bind_eq_some_iff.1 hsees
  obtain ⟨t, ht, hsees⟩ := Option.bind_eq_some_iff.1 hsees
  obtain ⟨u, hu, hsees⟩ := Option.bind_eq_some_iff.1 hsees
  obtain ⟨call, hcall, hsees⟩ := Option.map_eq_some_iff.1 hsees
  rw [decide_eq_true_eq] at hsees
  obtain ⟨hm1, hc, htf, hm2, hf, hpc, hprod, hfwd, hflags⟩ := hsees
  exact ⟨s, t, u, call.1, call.2, reaches_of_run hs hm1, ht, callsAt_of_eq hcall, hc, htf, reaches_of_run hu hm2, hf, hpc,
    hprod, hfwd, hflags⟩

end NginxZstd
