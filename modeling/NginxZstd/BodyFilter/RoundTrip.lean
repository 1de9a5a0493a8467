import NginxZstd.BodyFilter.Integrity
import NginxZstd.Lib.Session
/-!
# The round trip of a body

The calls a request makes to the compressor are one stream: the state, the input
consumed and the output written are those of a session, and the request is done
exactly when the session is complete. With a compressor that loses nothing, what was
forwarded decodes to what was delivered.
-/

namespace NginxZstd

open Lib

variable {Z : Compressor} {E : BodyEnv} {z₀ : Z.State}

/-- A call of `ZSTD_compressStream2`, as an encoder's: an end that left nothing over
completes the frame. -/
def Compressor.Call (Z : Compressor) : Encoder Z.State UInt8 UInt8 := fun z x w fin z' =>
  ∃ d unread space r, Z.call z d unread space = some r ∧ x = unread.take r.consumed ∧ w = r.written ∧
    (fin = true ↔ d = .e_end ∧ r.rc = 0) ∧ z' = r.state

/-- The stream so far, from a context in state `z₀` on; the action is `END` only behind
the last link. -/
structure Streaming (z₀ : Z.State) (ctx : BodyCtx Z) : Prop where
  session : Session Z.Call z₀ ctx.consumed ctx.produced ctx.done ctx.cctx
  ends : ctx.action = .end_frame → ctx.last = true

/-- Nothing but the input side, the output buffers and the flags of the request. -/
theorem Streaming.congr {ctx ctx' : BodyCtx Z} (h : Streaming z₀ ctx) (hx : ctx'.consumed = ctx.consumed)
    (hw : ctx'.produced = ctx.produced) (hd : ctx'.done = ctx.done) (hz : ctx'.cctx = ctx.cctx)
    (ha : ctx'.action = ctx.action) (hl : ctx.last = true → ctx'.last = true) : Streaming z₀ ctx' where
  session := by
    rw [hx, hw, hd, hz]
    exact h.session
  ends he := hl (h.ends (ha ▸ he))

/-- `last` is never taken back. -/
theorem add_data_last {ctx ctx' : BodyCtx Z} {cursor cursor' : List InBuf} {rc : Rc}
    (h : add_data ctx cursor = (rc, ctx', cursor')) (hl : ctx.last = true) : ctx'.last = true := by
  rcases add_data_cases h with ⟨-, -, rfl, -⟩ | ⟨hc, -⟩
  · exact hl
  · exact absurd (.inr (.inr (.inl hl))) hc

theorem Streaming.add_data {ctx ctx' : BodyCtx Z} {cursor cursor' : List InBuf} {rc : Rc} (h : Streaming z₀ ctx)
    (ha : NginxZstd.add_data ctx cursor = (rc, ctx', cursor')) : Streaming z₀ ctx' := by
  have hl := add_data_last ha
  obtain ⟨q, ib, l, f, n, bi, rfl⟩ := add_data_frame ha
  exact h.congr rfl rfl rfl rfl rfl hl

theorem Streaming.get_buf {ctx ctx' : BodyCtx Z} {palloc : Bool} {rc : Rc} (h : Streaming z₀ ctx)
    (hg : NginxZstd.get_buf E palloc ctx = (rc, ctx')) : Streaming z₀ ctx' := by
  obtain ⟨fr, ob, n, bo, heap, hs, nm, rfl⟩ := get_buf_frame hg
  exact h.congr rfl rfl rfl rfl rfl id

/-- An end is asked for only behind the last link. -/
theorem Streaming.directive_end {ctx : BodyCtx Z} (h : Streaming z₀ ctx) {no_more_input : Bool}
    (hd : directive ctx no_more_input = .e_end) : ctx.last = true := by
  unfold directive at hd
  split at hd
  · next hc =>
    rcases hc with ha | hl
    · exact h.ends ha
    · exact hl.1
  · split at hd <;> cases hd

/-- The action machine moves to `END` only behind the last link. -/
theorem Streaming.next_action {ctx : BodyCtx Z} (h : Streaming z₀ ctx) (i : BufId) (r : Reply Z.State)
    {no_more_input : Bool} {zrc written : Nat}
    (ha : (NginxZstd.next_action (apply_reply ctx i r) (directive ctx no_more_input) no_more_input zrc
      written).1.action = .end_frame) : ctx.last = true := by
  unfold NginxZstd.next_action at ha
  split at ha
  · dsimp only at ha
    split at ha
    · next hd => exact h.directive_end hd
    · split at ha
      · cases ha
      · exact h.ends ha
  split at ha
  · next hl => exact hl.1
  split at ha
  · cases ha
  · exact h.ends ha

/-- One call more; with the terminal one the stream is complete. -/
theorem Streaming.compress {ctx ctx' : BodyCtx Z} (h : Streaming z₀ ctx) (hd : ctx.done = false)
    {no_more_input link : Bool} {rc : Rc} (hc : filter_compress ctx no_more_input link = (rc, ctx')) (hrc : rc ≠ .error) :
    Streaming z₀ ctx' := by
  obtain ⟨i, r, a, d, -, hcall, hnext, hcases⟩ := filter_compress_cases hc hrc
  have hends : a = .end_frame → ctx.last = true := fun ha =>
    @Streaming.next_action Z z₀ ctx h i r no_more_input r.rc r.written.length (by rw [hnext]; exact ha)
  have haction : ctx'.action = a := by
    rcases hcases with ⟨-, -, -, rfl⟩ | ⟨-, -, rfl⟩
    · obtain ⟨b, f, he⟩ := suppress_empty_spec { apply_reply ctx i r with action := a, redo := d } r.rc
      rw [he]
    · obtain ⟨-, heap, n, b, f, dn, he⟩ :=
        link_out_spec { apply_reply ctx i r with action := a, redo := d } i r.rc (isLast ctx no_more_input r.rc)
      rw [he]
  -- an end that left nothing over is the terminal call
  have hlast : isLast ctx no_more_input r.rc = true ↔ directive ctx no_more_input = .e_end ∧ r.rc = 0 := by
    constructor
    · intro hl
      exact ⟨(isLast_rc hl).2.2, (isLast_rc hl).1⟩
    · rintro ⟨hend, hz⟩
      simp [isLast, hz, hend, h.directive_end hend]
  have hsession := h.session
  rw [hd] at hsession
  obtain ⟨r', hcall', -, hdone, -, ib, bo, heap, a', d', b, f, dn, n, o, ob, rfl⟩ := compress_frame hc hrc
  obtain rfl : r = r' := Option.some.inj (hcall.symm.trans hcall')
  exact ⟨hsession.call ⟨_, _, _, r, hcall, rfl, rfl, by rw [hdone hd, hlast], rfl⟩, fun he => hends (haction ▸ he)⟩

theorem Streaming.move {s s' : BodyState Z} {op : BodyOp} (hi : Integrity E s) (h : Streaming z₀ s.ctx)
    (hm : BodyMove E s op s') : Streaming z₀ s'.ctx := by
  cases hm with
  | pass hpc hd => exact h.congr rfl rfl rfl rfl rfl id
  | noop hpc hd hh hr hi hb => exact h
  | begin_loop b hpc hd hh hn => exact h.congr rfl rfl rfl rfl rfl id
  | resume b hpc hd hh hn => exact h.congr rfl rfl rfl rfl rfl id
  | read hpc => exact h.congr rfl rfl rfl rfl rfl id
  | skip hpc ha => exact h.add_data ha
  | dry hpc ha => exact h.add_data ha
  | starve hpc ha hm hg => exact (h.add_data ha).get_buf hg
  | work hpc ha hm hg hc hrc =>
    exact ((h.add_data ha).get_buf hg).compress ((acquired_done ha hg).trans (hi.inner hpc)) hc hrc
  | keep hpc ho hf => exact h.congr rfl rfl rfl rfl rfl id
  | give hpc ho hr => exact h.congr rfl rfl rfl rfl rfl id

/-- What a complete body is sent as: the frame header of the dictionary, on a dcz
response, and a frame that decodes to the body. -/
theorem complete_body {decode : Bytes → Option Bytes} (hZ : Lossless Z.Call z₀ decode) {s : BodyState Z} {z : Z.State}
    (hi : Integrity E s) (hs : Session Z.Call z₀ s.ctx.consumed s.ctx.produced true z) (hd : s.ctx.done = true)
    (hpc : s.pc = .idle) :
    ∃ frame, forwarded s.handed = (E.filter.dcz_dict.elim [] fun d => d.frame_header.take dcz_header_len) ++ frame ∧
      decode frame = some s.delivered := by
  obtain ⟨hlast, hunread, hbufs⟩ := hi.done hd
  have hin := hi.input (hi.active (.inr hd))
  have hconsumed := hin.bytes
  rw [hunread, (hin.last hlast).2] at hconsumed
  have hout := hi.output.bytes
  rw [hi.ended hd, hi.idle hpc] at hout
  refine ⟨s.ctx.produced, ?_, ?_⟩
  · have hheader : headerOf E s.ctx.bufs = E.filter.dcz_dict.elim [] fun d => d.frame_header.take dcz_header_len := by
      unfold headerOf
      cases E.filter.dcz_dict with
      | none => rfl
      | some dict => exact if_neg hbufs
    rw [← hheader]
    simpa [chainBytes] using hout
  · rw [hZ hs]
    simpa [bytesOf] using hconsumed

end NginxZstd
