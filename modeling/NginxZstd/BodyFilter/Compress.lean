import NginxZstd.BodyFilter.Ctx
/-!
# One call of the compressor

`ngx_http_zstd_filter_compress`: the choice of the directive, the call, the action
state machine, and the decision what becomes of the output buffer.
-/

namespace NginxZstd

open Lib

variable {Z : Compressor}

/-- The directive: an end as soon as this is provably the final input. -/
def directive (ctx : BodyCtx Z) (no_more_input : Bool) : EndDirective :=
  if ctx.action = .end_frame ∨ (ctx.last ∧ no_more_input) then .e_end
  else if ctx.action = .flush ∨ ctx.flush then .e_flush
  else .e_continue

/-- What `ZSTD_compressStream2` and the two guarded additions behind it change:
`buffer_in`, `in_buf`, `buffer_out` and the `last` of `out_buf`. -/
def apply_reply (ctx : BodyCtx Z) (i : BufId) (r : Reply Z.State) : BodyCtx Z :=
  { ctx with
    buffer_in := { ctx.buffer_in with pos := ctx.buffer_in.pos + r.consumed }
    in_buf := ctx.in_buf.map fun b => { b with data := b.data.drop r.consumed }
    buffer_out := { ctx.buffer_out with pos := ctx.buffer_out.pos + r.written.length }
    heap := Function.update ctx.heap i { ctx.heap i with data := (ctx.heap i).data ++ r.written }
    cctx := r.state
    redo := false
    consumed := ctx.consumed ++ ctx.buffer_in.unread.take r.consumed
    produced := ctx.produced ++ r.written }

/-- The action state machine behind the call. The flag says that the call has to be
followed by one that ends the frame before anything is sent. -/
def next_action (ctx : BodyCtx Z) (dir : EndDirective) (no_more_input : Bool) (zrc written : Nat) :
    BodyCtx Z × Bool :=
  if zrc > 0 then
    ({ ctx with
        action := if dir = .e_end then .end_frame else if ctx.action = .compress then .flush else ctx.action
        redo := true }, false)
  else if ctx.last ∧ ctx.action ≠ .end_frame ∧ dir ≠ .e_end ∧ ctx.buffer_in.pos ≥ ctx.buffer_in.src.length ∧
      no_more_input then
    ({ ctx with action := .end_frame, redo := true }, written = 0)
  else if ctx.action ≠ .end_frame then ({ ctx with action := .compress }, false)
  else (ctx, false)

/-- An empty buffer is held back; a flush that had nothing to send is complete. -/
def suppress_empty (ctx : BodyCtx Z) (zrc : Nat) : BodyCtx Z :=
  if zrc = 0 ∧ ctx.flush then { ctx with buffered := false, flush := false } else ctx

/-- The flags of a buffer that completes a flush or the frame. -/
def complete_buf (ctx : BodyCtx Z) (i : BufId) (zrc : Nat) (last : Bool) : BodyCtx Z :=
  if zrc = 0 ∧ (ctx.flush ∨ last) then
    { ctx with
      buffered := false
      heap := Function.update ctx.heap i { ctx.heap i with flush := ctx.flush ∧ ¬ ctx.last, last_buf := last }
      done := last
      flush := false }
  else ctx

/-- An empty buffer may only go downstream as a special one. -/
def unmark_empty (ctx : BodyCtx Z) (i : BufId) : BodyCtx Z :=
  if (ctx.heap i).size = 0 then
    { ctx with heap := Function.update ctx.heap i { ctx.heap i with temporary := false, recycled := false } }
  else ctx

/-- The output buffer goes to `ctx->out`. -/
def link_out (ctx : BodyCtx Z) (i : BufId) (zrc : Nat) (last : Bool) : BodyCtx Z :=
  let ctx := unmark_empty (complete_buf ctx i zrc last) i
  { ctx with
    bytes_out := (ctx.bytes_out + (ctx.heap i).size) % 2 ^ 64
    out := ctx.out ++ [i]
    out_buf := none }

/-- What becomes of the buffer after the call; `link` says whether the pool grants
the chain link. -/
def emit (ctx : BodyCtx Z) (i : BufId) (zrc : Nat) (last link : Bool) : Rc × BodyCtx Z :=
  if (ctx.heap i).size = 0 ∧ ¬ last then (.again, suppress_empty ctx zrc)
  else if link then (if last then .ok else .again, link_out ctx i zrc last)
  else (.error, ctx)

/-- `ngx_http_zstd_filter_compress`. -/
def filter_compress (ctx : BodyCtx Z) (no_more_input link : Bool) : Rc × BodyCtx Z :=
  let dir := directive ctx no_more_input
  match ctx.out_buf, Z.call ctx.cctx dir ctx.buffer_in.unread (ctx.buffer_out.size - ctx.buffer_out.pos) with
  | some i, some r =>
    let stepped := next_action (apply_reply ctx i r) dir no_more_input r.rc r.written.length
    if stepped.2 then (.again, stepped.1)
    else emit stepped.1 i r.rc (r.rc = 0 ∧ ctx.last ∧ dir = .e_end) link
  | _, _ => (.error, ctx)

/-! ## What a call does -/

/-- The action state machine changes `action` and `redo`. -/
theorem next_action_spec (ctx : BodyCtx Z) (dir : EndDirective) (no_more_input : Bool) (zrc written : Nat) :
    ∃ a d, (next_action ctx dir no_more_input zrc written).1 = { ctx with action := a, redo := d } := by
  unfold next_action
  split
  · exact ⟨_, _, rfl⟩
  split
  · exact ⟨_, _, rfl⟩
  split
  · exact ⟨_, _, rfl⟩
  · exact ⟨ctx.action, ctx.redo, rfl⟩

/-- Its transition to END out of another directive is never taken: with `last` set
and no input left the directive was an end already. -/
theorem next_action_goes_on (ctx c : BodyCtx Z) (no_more_input : Bool) (zrc written : Nat) (hl : c.last = ctx.last) :
    (next_action c (directive ctx no_more_input) no_more_input zrc written).2 = false := by
  unfold next_action
  split
  · rfl
  split
  · next h =>
    obtain ⟨hlast, -, hdir, -, hn⟩ := h
    refine absurd ?_ hdir
    unfold directive
    rw [if_pos (.inr ⟨hl ▸ hlast, hn⟩)]
  split
  · rfl
  · rfl

/-- The terminal call: it ended the frame and libzstd has nothing left. -/
def isLast (ctx : BodyCtx Z) (no_more_input : Bool) (zrc : Nat) : Bool :=
  zrc = 0 ∧ ctx.last ∧ directive ctx no_more_input = .e_end

/-- A call that does not fail: the reply, the action machine, and the buffer held
back because it is empty or linked to `ctx->out`. -/
theorem filter_compress_cases {ctx ctx' : BodyCtx Z} {no_more_input link : Bool} {rc : Rc}
    (h : filter_compress ctx no_more_input link = (rc, ctx')) (hrc : rc ≠ .error) :
    ∃ i r a d, ctx.out_buf = some i ∧
      Z.call ctx.cctx (directive ctx no_more_input) ctx.buffer_in.unread (ctx.buffer_out.size - ctx.buffer_out.pos) =
        some r ∧
      (next_action (apply_reply ctx i r) (directive ctx no_more_input) no_more_input r.rc r.written.length).1 =
        { apply_reply ctx i r with action := a, redo := d } ∧
      ((((apply_reply ctx i r).heap i).size = 0 ∧ isLast ctx no_more_input r.rc = false ∧ rc = .again ∧
          ctx' = suppress_empty { apply_reply ctx i r with action := a, redo := d } r.rc) ∨
        (¬ (((apply_reply ctx i r).heap i).size = 0 ∧ isLast ctx no_more_input r.rc = false) ∧
          rc = (if isLast ctx no_more_input r.rc then .ok else .again) ∧
          ctx' = link_out { apply_reply ctx i r with action := a, redo := d } i r.rc (isLast ctx no_more_input r.rc))) := by
  unfold filter_compress at h
  dsimp only at h
  split at h
  · next i r hb hc =>
    obtain ⟨a, d, ha⟩ := next_action_spec (apply_reply ctx i r) (directive ctx no_more_input) no_more_input r.rc
      r.written.length
    refine ⟨i, r, a, d, hb, hc, ha, ?_⟩
    rw [next_action_goes_on ctx (apply_reply ctx i r) no_more_input r.rc r.written.length rfl, ha] at h
    simp only [Bool.false_eq_true, ↓reduceIte, emit] at h
    split at h
    · next hs =>
      simp only [Prod.mk.injEq] at h
      refine .inl ⟨hs.1, ?_, h.1.symm, h.2.symm⟩
      simpa [isLast] using hs.2
    · next hs =>
      split at h
      · simp only [Prod.mk.injEq] at h
        refine .inr ⟨fun hn => hs ⟨hn.1, ?_⟩, ?_, h.2.symm⟩
        · simpa [isLast] using hn.2
        · rw [← h.1]
          rfl
      · simp only [Prod.mk.injEq] at h
        exact absurd h.1.symm hrc
  · simp only [Prod.mk.injEq] at h
    exact absurd h.1.symm hrc

theorem suppress_empty_spec (ctx : BodyCtx Z) (zrc : Nat) :
    ∃ b f, suppress_empty ctx zrc = { ctx with buffered := b, flush := f } := by
  unfold suppress_empty
  split
  · exact ⟨_, _, rfl⟩
  · exact ⟨ctx.buffered, ctx.flush, rfl⟩

/-- An update of a buffer's flags leaves the bytes of every buffer alone. -/
theorem update_flags {heap : BufId → OutBuf} {i : BufId} {b : OutBuf} (h1 : b.data = (heap i).data)
    (h2 : b.pos = (heap i).pos) (j : BufId) :
    (Function.update heap i b j).data = (heap j).data ∧ (Function.update heap i b j).pos = (heap j).pos := by
  by_cases hj : j = i
  · subst hj
    rw [Function.update_self]
    exact ⟨h1, h2⟩
  · rw [Function.update_of_ne hj]
    exact ⟨rfl, rfl⟩

/-- What linking changes: flags of buffers, `ctx->out`, and the request's flags. -/
theorem link_out_spec (ctx : BodyCtx Z) (i : BufId) (zrc : Nat) (last : Bool) :
    (∀ j, ((link_out ctx i zrc last).heap j).data = (ctx.heap j).data ∧
      ((link_out ctx i zrc last).heap j).pos = (ctx.heap j).pos) ∧
      ∃ heap n b f d, link_out ctx i zrc last =
        { ctx with
          heap := heap, bytes_out := n, buffered := b, flush := f, done := d, out := ctx.out ++ [i], out_buf := none } := by
  have hc : (∀ j, ((complete_buf ctx i zrc last).heap j).data = (ctx.heap j).data ∧
      ((complete_buf ctx i zrc last).heap j).pos = (ctx.heap j).pos) ∧
      ∃ heap b f d, complete_buf ctx i zrc last = { ctx with heap := heap, buffered := b, flush := f, done := d } := by
    unfold complete_buf
    split
    · exact ⟨update_flags rfl rfl, _, _, _, _, rfl⟩
    · exact ⟨fun j => ⟨rfl, rfl⟩, ctx.heap, ctx.buffered, ctx.flush, ctx.done, rfl⟩
  have hu : ∀ c : BodyCtx Z, (∀ j, ((unmark_empty c i).heap j).data = (c.heap j).data ∧
      ((unmark_empty c i).heap j).pos = (c.heap j).pos) ∧ ∃ heap, unmark_empty c i = { c with heap := heap } := by
    intro c
    unfold unmark_empty
    split
    · exact ⟨update_flags rfl rfl, _, rfl⟩
    · exact ⟨fun j => ⟨rfl, rfl⟩, c.heap, rfl⟩
  obtain ⟨hc1, heap, b, f, d, hc2⟩ := hc
  obtain ⟨hu1, heap', hu2⟩ := hu (complete_buf ctx i zrc last)
  refine ⟨fun j => ⟨(hu1 j).1.trans (hc1 j).1, (hu1 j).2.trans (hc1 j).2⟩, ?_⟩
  unfold link_out
  rw [hu2, hc2]
  exact ⟨_, _, _, _, _, rfl⟩

theorem isLast_rc {ctx : BodyCtx Z} {no_more_input : Bool} {zrc : Nat} (h : isLast ctx no_more_input zrc = true) :
    zrc = 0 ∧ ctx.last = true ∧ directive ctx no_more_input = .e_end := by
  simpa [isLast] using h

/-- Linking finishes the request exactly with the terminal buffer. -/
theorem link_out_done (ctx : BodyCtx Z) (i : BufId) (zrc : Nat) (last : Bool) (hd : ctx.done = false)
    (hz : last = true → zrc = 0) : (link_out ctx i zrc last).done = last := by
  have hu : ∀ c : BodyCtx Z, (unmark_empty c i).done = c.done := by
    intro c
    unfold unmark_empty
    split <;> rfl
  show (unmark_empty (complete_buf ctx i zrc last) i).done = last
  rw [hu]
  unfold complete_buf
  split
  · rfl
  · next hn =>
    rw [hd]
    cases last with
    | false => rfl
    | true => exact absurd ⟨hz rfl, .inr rfl⟩ hn

/-- What a call changes. -/
theorem compress_frame {ctx ctx' : BodyCtx Z} {no_more_input link : Bool} {rc : Rc}
    (hc : filter_compress ctx no_more_input link = (rc, ctx')) (hrc : rc ≠ .error) :
    ∃ r, Z.call ctx.cctx (directive ctx no_more_input) ctx.buffer_in.unread
          (ctx.buffer_out.size - ctx.buffer_out.pos) = some r ∧
      rc = (if isLast ctx no_more_input r.rc then .ok else .again) ∧
      (ctx.done = false → ctx'.done = isLast ctx no_more_input r.rc) ∧
      (isLast ctx no_more_input r.rc = true → ctx'.out_buf = none) ∧
      ∃ ib bo heap a d b f dn n o ob, ctx' = { ctx with
        buffer_in := { ctx.buffer_in with pos := ctx.buffer_in.pos + r.consumed }
        in_buf := ib, buffer_out := bo, heap := heap
        cctx := r.state
        redo := d, action := a, buffered := b, flush := f, done := dn, bytes_out := n, out := o, out_buf := ob
        consumed := ctx.consumed ++ ctx.buffer_in.unread.take r.consumed
        produced := ctx.produced ++ r.written } := by
  obtain ⟨i, r, a, d, hb, hcall, -, hcases⟩ := filter_compress_cases hc hrc
  refine ⟨r, hcall, ?_⟩
  rcases hcases with ⟨-, hlast, hrc', rfl⟩ | ⟨-, hrc', rfl⟩
  · obtain ⟨b, f, he⟩ := suppress_empty_spec { apply_reply ctx i r with action := a, redo := d } r.rc
    rw [he, hlast, hrc']
    exact ⟨rfl, fun h => h, by simp, _, _, _, _, _, _, _, _, _, _, _, rfl⟩
  · have hdone := link_out_done { apply_reply ctx i r with action := a, redo := d } i r.rc
      (isLast ctx no_more_input r.rc)
    obtain ⟨-, heap, n, b, f, dn, he⟩ :=
      link_out_spec { apply_reply ctx i r with action := a, redo := d } i r.rc (isLast ctx no_more_input r.rc)
    rw [he] at hdone ⊢
    exact ⟨hrc', fun h => hdone h fun hl => (isLast_rc hl).1, fun _ => rfl, _, _, _, _, _, _, _, _, _, _, _, rfl⟩

/-- The flags of a buffer that completes something. -/
def completedBuf (ctx : BodyCtx Z) (b : OutBuf) (zrc : Nat) (last : Bool) : OutBuf :=
  if zrc = 0 ∧ (ctx.flush ∨ last) then { b with flush := ctx.flush ∧ ¬ ctx.last, last_buf := last } else b

/-- The buffer as it goes to `ctx->out`. -/
def linkedBuf (ctx : BodyCtx Z) (b : OutBuf) (zrc : Nat) (last : Bool) : OutBuf :=
  let b := completedBuf ctx b zrc last
  if b.size = 0 then { b with temporary := false, recycled := false } else b

theorem link_out_heap (ctx : BodyCtx Z) (i : BufId) (zrc : Nat) (last : Bool) :
    (link_out ctx i zrc last).heap = Function.update ctx.heap i (linkedBuf ctx (ctx.heap i) zrc last) := by
  unfold link_out unmark_empty complete_buf linkedBuf completedBuf
  dsimp only
  by_cases hc : zrc = 0 ∧ (ctx.flush = true ∨ last = true)
  · simp only [hc, and_self, ↓reduceIte, Function.update_self]
    split <;> simp
  · simp only [hc, ↓reduceIte]
    split <;> simp

/-- Linking ends a flush exactly when libzstd has nothing left. -/
theorem link_out_flush (ctx : BodyCtx Z) (i : BufId) (zrc : Nat) (last : Bool) :
    (link_out ctx i zrc last).flush = true ↔ ctx.flush = true ∧ zrc ≠ 0 := by
  have hu : ∀ c : BodyCtx Z, (unmark_empty c i).flush = c.flush := by
    intro c
    unfold unmark_empty
    split <;> rfl
  show (unmark_empty (complete_buf ctx i zrc last) i).flush = true ↔ _
  rw [hu]
  unfold complete_buf
  split
  · next hc => simp [hc.1]
  · next hc =>
    constructor
    · intro hf
      exact ⟨hf, fun h0 => hc ⟨h0, .inl hf⟩⟩
    · exact fun hf => hf.1

theorem linkedBuf_keeps (ctx : BodyCtx Z) (b : OutBuf) (zrc : Nat) (last : Bool) :
    (linkedBuf ctx b zrc last).data = b.data ∧ (linkedBuf ctx b zrc last).pos = b.pos ∧
      (linkedBuf ctx b zrc last).cap = b.cap := by
  unfold linkedBuf completedBuf
  dsimp only
  split <;> split <;> exact ⟨rfl, rfl, rfl⟩

end NginxZstd
