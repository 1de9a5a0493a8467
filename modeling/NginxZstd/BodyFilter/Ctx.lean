import NginxZstd.HeaderFilter
import NginxZstd.Window
/-!
# The body filter's context

The part of `ngx_http_zstd_ctx_t` the body filter works on, and the functions it
calls on it. Output buffers are referred to by number, in the order of their
allocation, and live in `heap`; a chain is a list of numbers. Input buffers stay
as they were delivered, so a chain of them is a list of values. The answers of
the pool, of libzstd and of the next filter are arguments.
-/

namespace NginxZstd

open Lib

inductive Rc where
  | ok
  | again
  | declined
  | error
deriving DecidableEq

/-- `ngx_http_zstd_action_t`. -/
inductive Action where
  | compress
  | flush
  | end_frame
deriving DecidableEq

/-- `ZSTD_EndDirective`. -/
inductive EndDirective where
  | e_continue
  | e_flush
  | e_end
deriving DecidableEq

/-- An input buffer; `data` is what lies between its `pos` and its `last`. -/
structure InBuf where
  data : Bytes
  flush : Bool
  last_buf : Bool
deriving DecidableEq

/-- An output buffer; `data` is what lies between its `start` and its `last`, `pos`
counts from its `start`, and `cap` is `end - start`. -/
structure OutBuf where
  data : Bytes
  pos : Nat
  cap : Nat
  flush : Bool
  sync : Bool
  last_buf : Bool
  last_in_chain : Bool
  temporary : Bool
  recycled : Bool
deriving DecidableEq

/-- What a reader of the buffer still sees. -/
def OutBuf.unread (b : OutBuf) : Bytes := b.data.drop b.pos

/-- `ngx_buf_size`. -/
def OutBuf.size (b : OutBuf) : Nat := b.data.length - b.pos

abbrev BufId := Nat

/-- `ZSTD_inBuffer`, its `size` being the length of `src`. -/
structure InBuffer where
  src : Bytes
  pos : Nat

/-- What libzstd has not consumed. -/
def InBuffer.unread (b : InBuffer) : Bytes := b.src.drop b.pos

/-- `ZSTD_outBuffer`; its `dst` is the `last` of `out_buf` when the buffer was
acquired. -/
structure OutBuffer where
  pos : Nat
  size : Nat

/-! ## The compressor -/

/-- What one call of `ZSTD_compressStream2` did. -/
structure Reply (S : Type) where
  consumed : Nat
  written : Bytes
  rc : Nat
  state : S

/-- Any implementation of `ZSTD_compressStream2` that keeps its contract: it
consumes from the front of the input, writes no more than the free space, and
says of a flush or an end that nothing is left only when the input is gone. An
error is `none`. -/
structure Compressor where
  State : Type
  start : State
  call : State → EndDirective → (unread : Bytes) → (space : Nat) → Option (Reply State)
  consumed_le : ∀ {z d u n r}, call z d u n = some r → r.consumed ≤ u.length
  written_le : ∀ {z d u n r}, call z d u n = some r → r.written.length ≤ n
  complete : ∀ {z d u n r}, call z d u n = some r → d ≠ .e_continue → r.rc = 0 → r.consumed = u.length

/-- A compressor that takes in whole blocks and writes them out as they are. -/
def Compressor.blocks (size : Nat) : Compressor where
  State := Bytes
  start := []
  call z d u n :=
    if d = .e_continue ∧ (z ++ u).length < size then some ⟨u.length, [], 0, z ++ u⟩
    else some ⟨u.length, (z ++ u).take n, (z ++ u).length - n, (z ++ u).drop n⟩
  consumed_le := by
    intro z d u n r h
    split at h <;> cases h <;> exact Nat.le_refl _
  written_le := by
    intro z d u n r h
    split at h <;> cases h
    · exact Nat.zero_le n
    · exact List.length_take_le n _
  complete := by
    intro z d u n r h hd hz
    split at h <;> cases h <;> rfl

/-! ## The context -/

/-- What does not change during a request: the location, the context as the header
filter left it, the integer widths and `ZSTD_compressBound`. -/
structure BodyEnv where
  abi : Abi
  zlcf : LocConf
  filter : FilterCtx
  header_only : Bool
  compressBound : Nat → Nat

/-- `ngx_http_zstd_ctx_t`, with the output buffers, the state of the compressor and
`NGX_HTTP_GZIP_BUFFERED`. `in_chain` is `ctx->in`. The last two fields are history:
what libzstd consumed and wrote so far. -/
structure BodyCtx (Z : Compressor) where
  in_chain : List InBuf
  free : List BufId
  busy : List BufId
  out : List BufId
  in_buf : Option InBuf
  out_buf : Option BufId
  bufs : Nat
  buffer_in : InBuffer
  buffer_out : OutBuffer
  bytes_in : Nat
  bytes_out : Nat
  last : Bool
  redo : Bool
  flush : Bool
  done : Bool
  aborted : Bool
  nomem : Bool
  dcz_header_sent : Bool
  cctx_ready : Bool
  action : Action
  buffered : Bool
  heap : BufId → OutBuf
  cctx : Z.State
  consumed : Bytes
  produced : Bytes

variable {Z : Compressor}

/-! ## Input -/

/-- The signals of a dequeued buffer; `last_buf` goes first. -/
def note_signals (ctx : BodyCtx Z) (b : InBuf) : BodyCtx Z :=
  if b.last_buf then { ctx with in_buf := some b, last := true }
  else if b.flush then { ctx with in_buf := some b, flush := true }
  else { ctx with in_buf := some b }

/-- The part of `add_data` behind the dequeued link. -/
def load_buf (ctx : BodyCtx Z) (b : InBuf) : Rc × BodyCtx Z :=
  let ctx := note_signals ctx b
  if b.data.length = 0 then (if ctx.last ∨ ctx.flush then .ok else .again, ctx)
  else (.ok, { ctx with
    buffer_in := ⟨b.data, 0⟩
    bytes_in := (ctx.bytes_in + b.data.length) % 2 ^ 64 })

/-- `ngx_http_zstd_filter_add_data`: `cursor` is the caller's chain. -/
def add_data (ctx : BodyCtx Z) (cursor : List InBuf) : Rc × BodyCtx Z × List InBuf :=
  if ctx.buffer_in.pos < ctx.buffer_in.src.length ∨ ctx.flush ∨ ctx.last ∨ ctx.redo then (.ok, ctx, cursor)
  else
    match ctx.in_chain, cursor with
    | [], [] => (.declined, ctx, [])
    | b :: rest, _ =>
      let res := load_buf { ctx with in_chain := rest } b
      (res.1, res.2, cursor)
    | [], b :: rest =>
      let res := load_buf ctx b
      (res.1, res.2, rest)

/-- `ngx_http_zstd_filter_copy_input`, the pool granting `links` chain links. -/
def copy_input (links : Nat) (ctx : BodyCtx Z) (cursor : List InBuf) : Rc × BodyCtx Z :=
  if cursor.length ≤ links then (.ok, { ctx with in_chain := ctx.in_chain ++ cursor })
  else (.error, { ctx with in_chain := ctx.in_chain ++ cursor.take links })

/-- `ngx_http_zstd_max_length_exceeded`; `none` is `NGX_CONF_UNSET`. -/
def max_length_exceeded (bytes_in : Nat) : Option Int → Bool
  | none => false
  | some max_length => max_length ≥ 0 ∧ bytes_in > max_length.toNat

/-! ## Output buffers -/

/-- `ZSTD_MAX_INPUT_SIZE`. -/
def zstd_max_input_size (A : Abi) : Nat := if A.size_bits = 64 then 0xFF00FF00FF00FF00 else 0xFF00FF00

/-- `ngx_http_zstd_pledge_to_bound_input`. -/
def pledge_to_bound_input (A : Abi) (pledged_size : Int) : Option Nat :=
  if pledged_size < 0 then none
  else if A.off_bits > A.size_bits ∧ pledged_size.toNat > A.size_max then none
  else if pledged_size.toNat % 2 ^ A.size_bits ≥ zstd_max_input_size A then none
  else some (pledged_size.toNat % 2 ^ A.size_bits)

def bound_frame_slack : Nat := 64

def bound_min : Nat := 256

/-- `NGX_HTTP_ZSTD_DCZ_HEADER_LEN`. -/
def dcz_header_len : Nat := 40

/-- The compressor's share of a new buffer: `bufs.size`, or less on the first one
when the body is known to be short. -/
def payload_size (E : BodyEnv) (first_buf : Bool) : Nat :=
  let buf_size := E.zlcf.bufs.size
  if first_buf ∧ E.filter.pledged_size ≥ 0 then
    match pledge_to_bound_input E.abi E.filter.pledged_size with
    | none => buf_size
    | some pledged =>
      if pledged < buf_size then
        let bound := (E.compressBound pledged + bound_frame_slack) % 2 ^ E.abi.size_bits
        let bound := if bound < bound_min then bound_min else bound
        if bound < buf_size then bound else buf_size
      else buf_size
  else buf_size

/-- `ngx_http_zstd_create_temp_buf`, with the tag and `recycled` set. -/
def create_temp_buf (size : Nat) : OutBuf where
  data := []
  pos := 0
  cap := size
  flush := false
  sync := false
  last_buf := false
  last_in_chain := false
  temporary := true
  recycled := true

/-- The end of `get_buf`: `buffer_out` describes the free space of `out_buf`. -/
def set_buffer_out (ctx : BodyCtx Z) (i : BufId) : Rc × BodyCtx Z :=
  let b := ctx.heap i
  if b.cap < b.data.length then (.error, { ctx with buffer_out := ⟨0, ctx.buffer_out.size⟩ })
  else (.ok, { ctx with buffer_out := ⟨0, b.cap - b.data.length⟩ })

/-- A buffer from the free chain, its control flags cleared. -/
def reuse_buf (ctx : BodyCtx Z) (i : BufId) (free : List BufId) : BodyCtx Z :=
  { ctx with
    free := free
    out_buf := some i
    heap := Function.update ctx.heap i
      { ctx.heap i with flush := false, sync := false, last_buf := false, last_in_chain := false } }

/-- `want_prefix`: the dcz frame header, for the first buffer of the response. -/
def want_header (E : BodyEnv) (ctx : BodyCtx Z) : Option Bytes :=
  match E.filter.dcz_dict with
  | some dict => if ctx.bufs = 0 ∧ ¬ ctx.dcz_header_sent then some (dict.frame_header.take dcz_header_len) else none
  | none => none

/-- A new buffer, with the frame header in front where it is wanted. -/
def alloc_buf (E : BodyEnv) (ctx : BodyCtx Z) : BodyCtx Z :=
  let buf_size := payload_size E (ctx.bufs = 0)
  let b := match want_header E ctx with
    | some header => { create_temp_buf ((buf_size + dcz_header_len) % 2 ^ E.abi.size_bits) with data := header }
    | none => create_temp_buf buf_size
  { ctx with
    out_buf := some ctx.bufs
    bufs := ctx.bufs + 1
    heap := Function.update ctx.heap ctx.bufs b
    dcz_header_sent := ctx.dcz_header_sent ∨ (want_header E ctx).isSome }

/-- `ngx_http_zstd_filter_get_buf`; `palloc` says whether the pool grants the
allocation. -/
def get_buf (E : BodyEnv) (palloc : Bool) (ctx : BodyCtx Z) : Rc × BodyCtx Z :=
  if ctx.out_buf ≠ none ∧ ctx.buffer_out.pos < ctx.buffer_out.size then (.ok, ctx)
  else
    match ctx.free with
    | i :: free => set_buffer_out (reuse_buf ctx i free) i
    | [] =>
      if ctx.bufs < E.zlcf.bufs.num then
        if palloc then set_buffer_out (alloc_buf E ctx) ctx.bufs
        else (.error, { ctx with out_buf := none })
      else (.declined, { ctx with nomem := true })

/-- `ngx_chain_update_chains` over the buffers in flight: those read out at the head
go to the free chain. -/
def update_chains (heap : BufId → OutBuf) (free : List BufId) :
    List BufId → (BufId → OutBuf) × List BufId × List BufId
  | [] => (heap, free, [])
  | i :: busy =>
    if (heap i).size ≠ 0 then (heap, free, i :: busy)
    else update_chains (Function.update heap i { heap i with data := [], pos := 0 }) (i :: free) busy

/-- The downstream reads: `drained i` bytes more of every buffer `i` it has. -/
def drain (drained : BufId → Nat) (ids : List BufId) (heap : BufId → OutBuf) : BufId → OutBuf := fun i =>
  if i ∈ ids then { heap i with pos := min ((heap i).pos + drained i) (heap i).data.length } else heap i

/-! ## What the calls change -/

theorem note_signals_eq (ctx : BodyCtx Z) (b : InBuf) :
    note_signals ctx b = { ctx with
      in_buf := some b, last := ctx.last || b.last_buf, flush := ctx.flush || (!b.last_buf && b.flush) } := by
  unfold note_signals
  cases b.last_buf <;> cases b.flush <;> simp

/-- What `load_buf` changes. -/
theorem load_buf_spec (ctx : BodyCtx Z) (b : InBuf) :
    ∃ f n, (load_buf ctx b).2 = { ctx with
      in_buf := some b, last := ctx.last || b.last_buf, flush := f, bytes_in := n
      buffer_in := if b.data.length = 0 then ctx.buffer_in else ⟨b.data, 0⟩ } := by
  unfold load_buf
  rw [note_signals_eq]
  by_cases h0 : b.data.length = 0
  · simp only [h0, ↓reduceIte]
    exact ⟨_, _, rfl⟩
  · simp only [h0, ↓reduceIte]
    exact ⟨_, _, rfl⟩

/-- `add_data` takes no link while there is something to work on; else the next one,
first of those kept and then of the caller's. -/
theorem add_data_cases {ctx ctx' : BodyCtx Z} {cursor cursor' : List InBuf} {rc : Rc}
    (h : add_data ctx cursor = (rc, ctx', cursor')) :
    ((ctx.buffer_in.pos < ctx.buffer_in.src.length ∨ ctx.flush ∨ ctx.last ∨ ctx.redo) ∧
      rc = .ok ∧ ctx' = ctx ∧ cursor' = cursor) ∨
    (¬ (ctx.buffer_in.pos < ctx.buffer_in.src.length ∨ ctx.flush ∨ ctx.last ∨ ctx.redo) ∧
      ((ctx.in_chain = [] ∧ cursor = [] ∧ rc = .declined ∧ ctx' = ctx ∧ cursor' = []) ∨
        ∃ b q, ctx.in_chain ++ cursor = b :: (q ++ cursor') ∧ load_buf { ctx with in_chain := q } b = (rc, ctx'))) := by
  unfold add_data at h
  split at h
  · next hc =>
    simp only [Prod.mk.injEq] at h
    exact .inl ⟨hc, h.1.symm, h.2.1.symm, h.2.2.symm⟩
  next hc =>
  refine .inr ⟨hc, ?_⟩
  split at h
  · next hin =>
    simp only [Prod.mk.injEq] at h
    exact .inl ⟨hin, rfl, h.1.symm, h.2.1.symm, h.2.2.symm⟩
  · next b rest hin =>
    simp only [Prod.mk.injEq] at h
    obtain ⟨h1, h2, rfl⟩ := h
    exact .inr ⟨b, rest, by rw [hin]; rfl, Prod.ext h1 h2⟩
  · next b rest hin =>
    simp only [Prod.mk.injEq] at h
    obtain ⟨h1, h2, rfl⟩ := h
    refine .inr ⟨b, [], by rw [hin]; rfl, ?_⟩
    rw [← hin]
    exact Prod.ext h1 h2

/-- `add_data` leaves the output side alone. -/
theorem add_data_frame {ctx ctx' : BodyCtx Z} {cursor cursor' : List InBuf} {rc : Rc}
    (h : add_data ctx cursor = (rc, ctx', cursor')) :
    ∃ q ib l f n bi, ctx' = { ctx with
      in_chain := q, in_buf := ib, last := l, flush := f, bytes_in := n, buffer_in := bi } := by
  rcases add_data_cases h with ⟨-, -, rfl, -⟩ | ⟨-, ⟨-, -, -, rfl, -⟩ | ⟨b, q, -, hl⟩⟩
  · exact ⟨_, _, _, _, _, _, rfl⟩
  · exact ⟨_, _, _, _, _, _, rfl⟩
  · obtain ⟨f, n, he⟩ := load_buf_spec { ctx with in_chain := q } b
    rw [hl] at he
    exact ⟨_, _, _, _, _, _, he⟩

/-- Only `buffer_out` is set, and without an error to the room of the buffer. -/
theorem set_buffer_out_spec {ctx ctx' : BodyCtx Z} {i : BufId} {rc : Rc} (h : set_buffer_out ctx i = (rc, ctx')) :
    ∃ bo, ctx' = { ctx with buffer_out := bo } ∧
      (rc ≠ .error → rc = .ok ∧ bo = ⟨0, (ctx.heap i).cap - (ctx.heap i).data.length⟩) := by
  unfold set_buffer_out at h
  dsimp only at h
  split at h
  · simp only [Prod.mk.injEq] at h
    exact ⟨_, h.2.symm, fun hrc => absurd h.1.symm hrc⟩
  · simp only [Prod.mk.injEq] at h
    exact ⟨_, h.2.symm, fun _ => ⟨h.1.symm, rfl⟩⟩

/-- `get_buf` leaves everything but the output buffers alone. -/
theorem get_buf_frame {E : BodyEnv} {palloc : Bool} {ctx ctx' : BodyCtx Z} {rc : Rc}
    (h : get_buf E palloc ctx = (rc, ctx')) :
    ∃ fr ob n bo heap hs nm, ctx' = { ctx with
      free := fr, out_buf := ob, bufs := n, buffer_out := bo, heap := heap, dcz_header_sent := hs, nomem := nm } := by
  unfold get_buf at h
  split at h
  · simp only [Prod.mk.injEq] at h
    obtain ⟨-, rfl⟩ := h
    exact ⟨_, _, _, _, _, _, _, rfl⟩
  split at h
  · obtain ⟨bo, rfl, -⟩ := set_buffer_out_spec h
    exact ⟨_, _, _, _, _, _, _, rfl⟩
  split at h
  · split at h
    · obtain ⟨bo, rfl, -⟩ := set_buffer_out_spec h
      exact ⟨_, _, _, _, _, _, _, rfl⟩
    · simp only [Prod.mk.injEq] at h
      obtain ⟨-, rfl⟩ := h
      exact ⟨_, _, _, _, _, _, _, rfl⟩
  · simp only [Prod.mk.injEq] at h
    obtain ⟨-, rfl⟩ := h
    exact ⟨_, _, _, _, _, _, _, rfl⟩

/-- An iteration does not end the stream before its call. -/
theorem acquired_done {E : BodyEnv} {palloc : Bool} {ctx c c' : BodyCtx Z} {cursor cursor' : List InBuf} {rc rc' : Rc}
    (ha : add_data ctx cursor = (rc, c, cursor')) (hg : get_buf E palloc c = (rc', c')) : c'.done = ctx.done := by
  obtain ⟨q, ib, l, f, n, bi, rfl⟩ := add_data_frame ha
  obtain ⟨fr, ob, n, bo, heap, hs, nm, rfl⟩ := get_buf_frame hg
  rfl

/-- The ways to an output buffer, and the lack of one. -/
theorem get_buf_cases {E : BodyEnv} {palloc : Bool} {ctx ctx' : BodyCtx Z} {rc : Rc}
    (h : get_buf E palloc ctx = (rc, ctx')) (hrc : rc ≠ .error) :
    (ctx.out_buf ≠ none ∧ ctx.buffer_out.pos < ctx.buffer_out.size ∧ rc = .ok ∧ ctx' = ctx) ∨
    (¬ (ctx.out_buf ≠ none ∧ ctx.buffer_out.pos < ctx.buffer_out.size) ∧
      ((∃ i free, ctx.free = i :: free ∧ rc = .ok ∧ ctx' = { reuse_buf ctx i free with
          buffer_out := ⟨0, (ctx.heap i).cap - (ctx.heap i).data.length⟩ }) ∨
        (ctx.free = [] ∧ ctx.bufs < E.zlcf.bufs.num ∧ rc = .ok ∧ ctx' = { alloc_buf E ctx with
          buffer_out := ⟨0, ((alloc_buf E ctx).heap ctx.bufs).cap - ((alloc_buf E ctx).heap ctx.bufs).data.length⟩ }) ∨
        (ctx.free = [] ∧ E.zlcf.bufs.num ≤ ctx.bufs ∧ rc = .declined ∧ ctx' = { ctx with nomem := true }))) := by
  unfold get_buf at h
  split at h
  · next hb =>
    simp only [Prod.mk.injEq] at h
    exact .inl ⟨hb.1, hb.2, h.1.symm, h.2.symm⟩
  next hb =>
  refine .inr ⟨hb, ?_⟩
  split at h
  · next i free hf =>
    obtain ⟨bo, rfl, hbo⟩ := set_buffer_out_spec h
    obtain ⟨h1, rfl⟩ := hbo hrc
    refine .inl ⟨i, free, hf, h1, ?_⟩
    simp only [reuse_buf, Function.update_self]
  next hf =>
  split at h
  · next hn =>
    split at h
    · obtain ⟨bo, rfl, hbo⟩ := set_buffer_out_spec h
      obtain ⟨h1, rfl⟩ := hbo hrc
      exact .inr (.inl ⟨hf, hn, h1, rfl⟩)
    · simp only [Prod.mk.injEq] at h
      exact absurd h.1.symm hrc
  · next hn =>
    simp only [Prod.mk.injEq] at h
    exact .inr (.inr ⟨hf, Nat.le_of_not_lt hn, h.1.symm, h.2.symm⟩)

end NginxZstd
