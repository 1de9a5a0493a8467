import NginxZstd.BodyFilter.Compress
import NginxZstd.Lib.Runs
/-!
# The body filter as a machine

`ngx_http_zstd_body_filter` is two nested loops around calls that other parties
answer. A step of the machine is the entry of a callback, one iteration of the
inner loop, or the tail of the outer loop; the program counter says which comes
next. Between callbacks the downstream may read on.
-/

namespace NginxZstd

open Lib

variable {Z : Compressor}

/-- Where the filter stands: between callbacks, at the head of the inner loop, or
behind it. -/
inductive Pc where
  | idle
  | inner
  | tail
deriving DecidableEq

/-- The answer of the next body filter, and what it has read meanwhile. -/
structure Downstream where
  rc : Rc
  drained : BufId → Nat

/-- A request's context with the locals of a callback: the caller's chain and
`flush`. The rest is history: the last return value, the bytes delivered, whether
`last_buf` was among them, the output buffers as they were when passed on, and
the input buffers passed on as they came. -/
structure BodyState (Z : Compressor) where
  ctx : BodyCtx Z
  pc : Pc
  cursor : List InBuf
  flush : Bool
  ret : Rc
  delivered : Bytes
  ended : Bool
  handed : List OutBuf
  passed : List InBuf

/-- The context as the header filter allocates it. -/
def BodyCtx.start (Z : Compressor) : BodyCtx Z where
  in_chain := []
  free := []
  busy := []
  out := []
  in_buf := none
  out_buf := none
  bufs := 0
  buffer_in := ⟨[], 0⟩
  buffer_out := ⟨0, 0⟩
  bytes_in := 0
  bytes_out := 0
  last := false
  redo := false
  flush := false
  done := false
  aborted := false
  nomem := false
  dcz_header_sent := false
  cctx_ready := false
  action := .compress
  buffered := false
  heap := fun _ => create_temp_buf 0
  cctx := Z.start
  consumed := []
  produced := []

def BodyState.start (Z : Compressor) : BodyState Z where
  ctx := BodyCtx.start Z
  pc := .idle
  cursor := []
  flush := false
  ret := .ok
  delivered := []
  ended := false
  handed := []
  passed := []

/-- The bytes of a chain of input buffers. -/
def bytesOf (chain : List InBuf) : Bytes := chain.flatMap (·.data)

/-! ## The steps -/

/-- The `failed` label. -/
def fail_request (s : BodyState Z) : BodyState Z :=
  { s with ctx := { s.ctx with aborted := true, done := true }, pc := .idle, cursor := [], ret := .error }

/-- The call of the next filter with `ctx->out`. -/
def pass_out (s : BodyState Z) (down : Downstream) : BodyState Z :=
  let heap := drain down.drained (s.ctx.busy ++ s.ctx.out) s.ctx.heap
  { s with ctx := { s.ctx with heap := heap }, handed := s.handed ++ s.ctx.out.map s.ctx.heap }

/-- `ngx_chain_update_chains`, and the invalidation of `out_buf` that follows it. -/
def recycle (ctx : BodyCtx Z) (out : List BufId) : BodyCtx Z :=
  let chains := update_chains ctx.heap ctx.free (ctx.busy ++ out)
  { ctx with heap := chains.1, free := chains.2.1, busy := chains.2.2, out_buf := none, nomem := false }

/-- The callback behind its early returns and the set-up of the context. -/
def enter_loop (s : BodyState Z) (chain : List InBuf) (down : Downstream) : BodyState Z :=
  let ctx := { s.ctx with cctx_ready := true, buffered := s.ctx.buffered ∨ chain ≠ [] }
  if ctx.nomem then
    let ctx := { ctx with heap := drain down.drained ctx.busy ctx.heap }
    if down.rc = .error then fail_request { s with ctx := ctx }
    else { s with ctx := recycle ctx [], pc := .inner, cursor := chain, flush := false }
  else { s with ctx := ctx, pc := .inner, cursor := chain, flush := ctx.busy ≠ [] }

/-- History: what the caller delivers. -/
def deliver (s : BodyState Z) (chain : List InBuf) : BodyState Z :=
  { s with delivered := s.delivered ++ bytesOf chain, ended := s.ended || chain.any (·.last_buf) }

/-- The entry of a callback with `chain`; `init` says whether `init_cctx`
succeeds. -/
def enter (E : BodyEnv) (s : BodyState Z) (chain : List InBuf) (init : Bool) (down : Downstream) : BodyState Z :=
  let s := deliver s chain
  if s.ctx.done ∨ E.header_only then
    { s with
      ctx := { s.ctx with heap := drain down.drained s.ctx.busy s.ctx.heap }
      ret := down.rc
      passed := s.passed ++ chain }
  else if ¬ s.ctx.cctx_ready ∧ chain = [] ∧ s.ctx.in_chain = [] ∧ s.ctx.busy = [] then { s with ret := .ok }
  else if ¬ s.ctx.cctx_ready ∧ ¬ init then fail_request s
  else enter_loop s chain down

/-- The part of an iteration behind `add_data`. -/
def feed (E : BodyEnv) (s : BodyState Z) (palloc link : Bool) : BodyState Z :=
  if max_length_exceeded s.ctx.bytes_in E.zlcf.max_length then fail_request s
  else
    match get_buf E palloc s.ctx with
    | (.ok, ctx) =>
      match filter_compress ctx (ctx.in_chain = [] ∧ s.cursor = []) link with
      | (.again, ctx) => { s with ctx := ctx, pc := .inner }
      | (.ok, ctx) => { s with ctx := ctx, pc := .tail }
      | (_, ctx) => fail_request { s with ctx := ctx }
    | (.declined, ctx) => { s with ctx := ctx, pc := .tail }
    | (_, ctx) => fail_request { s with ctx := ctx }

/-- One iteration of the inner loop. -/
def iterate (E : BodyEnv) (s : BodyState Z) (palloc link : Bool) : BodyState Z :=
  match add_data s.ctx s.cursor with
  | (.declined, ctx, cursor) => { s with ctx := ctx, cursor := cursor, pc := .tail }
  | (.again, ctx, cursor) => { s with ctx := ctx, cursor := cursor, pc := .inner }
  | (_, ctx, cursor) => feed E { s with ctx := ctx, cursor := cursor } palloc link

/-- The return with nothing to send: the rest of the caller's chain is kept. -/
def keep_input (s : BodyState Z) (links : Nat) : BodyState Z :=
  match copy_input links s.ctx s.cursor with
  | (.ok, ctx) =>
    { s with ctx := ctx, pc := .idle, cursor := [], ret := if ctx.busy ≠ [] then .again else .ok }
  | (_, ctx) => fail_request { s with ctx := ctx }

/-- The hand-over of `ctx->out`. -/
def hand_over (s : BodyState Z) (down : Downstream) : BodyState Z :=
  let s := pass_out s down
  if down.rc = .error then fail_request s
  else
    let ctx := { recycle s.ctx s.ctx.out with out := [] }
    if ctx.done then { s with ctx := ctx, flush := false, pc := .idle, cursor := [], ret := down.rc }
    else { s with ctx := ctx, flush := false, pc := .inner }

/-- The tail of the outer loop. -/
def tail (s : BodyState Z) (links : Nat) (down : Downstream) : BodyState Z :=
  if s.ctx.out = [] ∧ ¬ s.flush then keep_input s links else hand_over s down

/-- What may happen next, with the answers of the other parties. -/
inductive BodyOp where
  | callback (chain : List InBuf) (init : Bool) (down : Downstream)
  | iterate (palloc link : Bool)
  | tail (links : Nat) (down : Downstream)
  | drain (drained : BufId → Nat)

def body_step (E : BodyEnv) (s : BodyState Z) (op : BodyOp) : Option (BodyState Z) :=
  match s.pc, op with
  | .idle, .callback chain init down => some (enter E s chain init down)
  | .idle, .drain drained =>
    some { s with ctx := { s.ctx with heap := drain drained s.ctx.busy s.ctx.heap } }
  | .inner, .iterate palloc link => some (iterate E s palloc link)
  | .tail, .tail links down => some (tail s links down)
  | _, _ => none

/-- `last_buf` is only on the final link ever delivered. -/
def LastIsFinal (s : BodyState Z) : BodyOp → Prop
  | .callback chain _ _ => (∀ b ∈ chain.dropLast, b.last_buf = false) ∧ (s.ended = true → chain = [])
  | _ => True

instance (s : BodyState Z) : ∀ op, Decidable (LastIsFinal s op)
  | .callback _ _ _ => instDecidableAnd
  | .iterate _ _ => .isTrue trivial
  | .tail _ _ => .isTrue trivial
  | .drain _ => .isTrue trivial

/-! ## What a step does -/

/-- What a step can do without failing the request. -/
inductive BodyMove (E : BodyEnv) (s : BodyState Z) : BodyOp → BodyState Z → Prop
  /-- The request is done, or has no body: the chain is passed on as it is. -/
  | pass {chain init down} (hpc : s.pc = .idle) (hd : s.ctx.done = true ∨ E.header_only = true) :
      BodyMove E s (.callback chain init down) { deliver s chain with
        ctx := { s.ctx with heap := drain down.drained s.ctx.busy s.ctx.heap }
        ret := down.rc
        passed := s.passed ++ chain }
  /-- Nothing to do yet. -/
  | noop {init down} (hpc : s.pc = .idle) (hd : s.ctx.done = false) (hh : E.header_only = false)
      (hr : s.ctx.cctx_ready = false) (hi : s.ctx.in_chain = []) (hb : s.ctx.busy = []) :
      BodyMove E s (.callback [] init down) { deliver s [] with ret := .ok }
  | begin_loop {chain init down} (b : Bool) (hpc : s.pc = .idle) (hd : s.ctx.done = false)
      (hh : E.header_only = false) (hn : s.ctx.nomem = false) :
      BodyMove E s (.callback chain init down) { deliver s chain with
        ctx := { s.ctx with cctx_ready := true, buffered := b }
        pc := .inner
        cursor := chain
        flush := s.ctx.busy ≠ [] }
  /-- After a return without an output buffer the buffers downstream are looked at first. -/
  | resume {chain init down} (b : Bool) (hpc : s.pc = .idle) (hd : s.ctx.done = false)
      (hh : E.header_only = false) (hn : s.ctx.nomem = true) :
      BodyMove E s (.callback chain init down) { deliver s chain with
        ctx := recycle { s.ctx with
          cctx_ready := true
          buffered := b
          heap := drain down.drained s.ctx.busy s.ctx.heap } []
        pc := .inner
        cursor := chain
        flush := false }
  | read {drained} (hpc : s.pc = .idle) :
      BodyMove E s (.drain drained) { s with ctx := { s.ctx with heap := drain drained s.ctx.busy s.ctx.heap } }
  /-- A link without data or signal. -/
  | skip {palloc link ctx cursor} (hpc : s.pc = .inner) (ha : add_data s.ctx s.cursor = (.again, ctx, cursor)) :
      BodyMove E s (.iterate palloc link) { s with ctx := ctx, cursor := cursor, pc := .inner }
  /-- No input is left. -/
  | dry {palloc link ctx cursor} (hpc : s.pc = .inner) (ha : add_data s.ctx s.cursor = (.declined, ctx, cursor)) :
      BodyMove E s (.iterate palloc link) { s with ctx := ctx, cursor := cursor, pc := .tail }
  /-- No output buffer is left. -/
  | starve {palloc link c cursor ctx} (hpc : s.pc = .inner) (ha : add_data s.ctx s.cursor = (.ok, c, cursor))
      (hm : max_length_exceeded c.bytes_in E.zlcf.max_length = false) (hg : get_buf E palloc c = (.declined, ctx)) :
      BodyMove E s (.iterate palloc link) { s with ctx := ctx, cursor := cursor, pc := .tail }
  /-- The compressor is called. -/
  | work {palloc link c cursor c' rc ctx} (hpc : s.pc = .inner) (ha : add_data s.ctx s.cursor = (.ok, c, cursor))
      (hm : max_length_exceeded c.bytes_in E.zlcf.max_length = false) (hg : get_buf E palloc c = (.ok, c'))
      (hc : filter_compress c' (c'.in_chain = [] ∧ cursor = []) link = (rc, ctx)) (hrc : rc ≠ .error) :
      BodyMove E s (.iterate palloc link) { s with
        ctx := ctx
        cursor := cursor
        pc := if rc = .ok then .tail else .inner }
  /-- The return with nothing to send. -/
  | keep {links down} (hpc : s.pc = .tail) (ho : s.ctx.out = []) (hf : s.flush = false) :
      BodyMove E s (.tail links down) { s with
        ctx := { s.ctx with in_chain := s.ctx.in_chain ++ s.cursor }
        pc := .idle
        cursor := []
        ret := if s.ctx.busy ≠ [] then .again else .ok }
  /-- The hand-over; after the last one the callback returns. -/
  | give {links down} (hpc : s.pc = .tail) (ho : s.ctx.out ≠ [] ∨ s.flush = true) (hr : down.rc ≠ .error) :
      BodyMove E s (.tail links down) { pass_out s down with
        ctx := { recycle (pass_out s down).ctx s.ctx.out with out := [] }
        flush := false
        pc := if s.ctx.done then .idle else .inner
        cursor := if s.ctx.done then [] else s.cursor
        ret := if s.ctx.done then down.rc else s.ret }

theorem add_data_ne_error (ctx : BodyCtx Z) (cursor : List InBuf) : (add_data ctx cursor).1 ≠ .error := by
  have hl : ∀ (c : BodyCtx Z) b, (load_buf c b).1 ≠ .error := by
    intro c b
    unfold load_buf
    dsimp only
    split
    · split <;> simp
    · simp
  generalize hadd : add_data ctx cursor = res
  obtain ⟨rc, ctx', cursor'⟩ := res
  rcases add_data_cases hadd with ⟨-, rfl, -⟩ | ⟨-, ⟨-, -, rfl, -⟩ | ⟨b, q, -, h⟩⟩
  · simp
  · simp
  · have := hl { ctx with in_chain := q } b
    rwa [h] at this

/-- A step moves on or fails the request. -/
def MovesOrFails (E : BodyEnv) (s : BodyState Z) (op : BodyOp) (s' : BodyState Z) : Prop :=
  BodyMove E s op s' ∨ ∃ t, s' = fail_request t

theorem enter_cases (E : BodyEnv) {s : BodyState Z} (chain : List InBuf) (init : Bool) (down : Downstream)
    (hpc : s.pc = .idle) : MovesOrFails E s (.callback chain init down) (enter E s chain init down) := by
  unfold enter
  dsimp only
  split
  · next hd => exact .inl (.pass hpc hd)
  next hd =>
  obtain ⟨hd1, hd2⟩ : s.ctx.done = false ∧ E.header_only = false :=
    ⟨Bool.eq_false_iff.2 fun h => hd (.inl h), Bool.eq_false_iff.2 fun h => hd (.inr h)⟩
  split
  · next hn =>
    obtain ⟨hr, rfl, hi, hb⟩ := hn
    exact .inl (.noop hpc hd1 hd2 (Bool.eq_false_iff.2 hr) hi hb)
  split
  · exact .inr ⟨_, rfl⟩
  unfold enter_loop
  dsimp only
  split
  · next hm =>
    split
    · exact .inr ⟨_, rfl⟩
    · exact .inl (.resume _ hpc hd1 hd2 hm)
  · next hm => exact .inl (.begin_loop _ hpc hd1 hd2 (Bool.eq_false_iff.2 hm))

theorem iterate_cases (E : BodyEnv) {s : BodyState Z} (palloc link : Bool) (hpc : s.pc = .inner) :
    MovesOrFails E s (.iterate palloc link) (iterate E s palloc link) := by
  have hne := add_data_ne_error s.ctx s.cursor
  unfold iterate
  split
  · next ctx cursor ha => exact .inl (.dry hpc ha)
  · next ctx cursor ha => exact .inl (.skip hpc ha)
  next rc c cursor hn1 hn2 ha =>
  obtain rfl : rc = .ok := by
    cases rc with
    | ok => rfl
    | again => exact (hn2 rfl).elim
    | declined => exact (hn1 rfl).elim
    | error => rw [ha] at hne; exact absurd rfl hne
  unfold feed
  split
  · exact .inr ⟨_, rfl⟩
  next hm =>
  have hm' : max_length_exceeded c.bytes_in E.zlcf.max_length = false := Bool.eq_false_iff.2 hm
  dsimp only
  split
  · next c' hg =>
    split
    · next ctx hc => exact .inl (.work hpc ha hm' hg hc (by simp))
    · next ctx hc => exact .inl (.work hpc ha hm' hg hc (by simp))
    · exact .inr ⟨_, rfl⟩
  · next ctx hg => exact .inl (.starve hpc ha hm' hg)
  · exact .inr ⟨_, rfl⟩

theorem tail_cases (E : BodyEnv) {s : BodyState Z} (links : Nat) (down : Downstream) (hpc : s.pc = .tail) :
    MovesOrFails E s (.tail links down) (tail s links down) := by
  unfold tail
  split
  · next hk =>
    unfold keep_input copy_input
    split
    · next ctx hc =>
      split at hc
      · simp only [Prod.mk.injEq, true_and] at hc
        subst hc
        exact .inl (.keep hpc hk.1 (Bool.eq_false_iff.2 hk.2))
      · simp at hc
    · exact .inr ⟨_, rfl⟩
  · next hk =>
    unfold hand_over
    dsimp only
    split
    · exact .inr ⟨_, rfl⟩
    next hr =>
    have ho : s.ctx.out ≠ [] ∨ s.flush = true := by
      by_cases h : s.ctx.out = []
      · right
        simpa [h] using hk
      · exact .inl h
    have hg := @BodyMove.give _ E s links down hpc ho hr
    by_cases hd : s.ctx.done = true
    · rw [if_pos hd, if_pos hd, if_pos hd] at hg
      rw [if_pos (show (recycle (pass_out s down).ctx (pass_out s down).ctx.out).done = true from hd)]
      exact .inl hg
    · rw [if_neg hd, if_neg hd, if_neg hd] at hg
      rw [if_neg (show ¬ (recycle (pass_out s down).ctx (pass_out s down).ctx.out).done = true from hd)]
      exact .inl hg

/-- Every step is a `BodyMove` or fails the request. -/
theorem body_step_cases {E : BodyEnv} {s s' : BodyState Z} {op : BodyOp} (h : body_step E s op = some s') :
    MovesOrFails E s op s' := by
  unfold body_step at h
  split at h
  · next hpc =>
    simp only [Option.some.injEq] at h
    subst h
    exact enter_cases E _ _ _ hpc
  · next hpc =>
    simp only [Option.some.injEq] at h
    subst h
    exact .inl (.read hpc)
  · next hpc =>
    simp only [Option.some.injEq] at h
    subst h
    exact iterate_cases E _ _ hpc
  · next hpc =>
    simp only [Option.some.injEq] at h
    subst h
    exact tail_cases E _ _ hpc
  · simp at h

theorem body_step_move {E : BodyEnv} {s s' : BodyState Z} {op : BodyOp} (h : body_step E s op = some s')
    (hf : s'.ctx.aborted = false) : BodyMove E s op s' := by
  rcases body_step_cases h with hm | ⟨t, rfl⟩
  · exact hm
  · simp [fail_request] at hf

theorem BodyMove.aborted {E : BodyEnv} {s s' : BodyState Z} {op : BodyOp} (h : BodyMove E s op s') :
    s'.ctx.aborted = s.ctx.aborted := by
  cases h with
  | pass hpc hd => rfl
  | noop hpc hd hh hr hi hb => rfl
  | begin_loop b hpc hd hh hn => rfl
  | resume b hpc hd hh hn => rfl
  | read hpc => rfl
  | skip hpc ha | dry hpc ha =>
    obtain ⟨q, ib, l, f, n, bi, rfl⟩ := add_data_frame ha
    rfl
  | starve hpc ha hm hg =>
    obtain ⟨q, ib, l, f, n, bi, rfl⟩ := add_data_frame ha
    obtain ⟨fr, ob, n, bo, heap, hs, nm, rfl⟩ := get_buf_frame hg
    rfl
  | work hpc ha hm hg hc hrc =>
    obtain ⟨q, ib, l, f, n, bi, rfl⟩ := add_data_frame ha
    obtain ⟨fr, ob, n, bo, heap, hs, nm, rfl⟩ := get_buf_frame hg
    obtain ⟨r, -, -, -, -, ib, bo, heap, a, d, b, f, dn, n, o, ob, rfl⟩ := compress_frame hc hrc
    rfl
  | keep hpc ho hf => rfl
  | give hpc ho hr => rfl

/-- A failed request stays failed. -/
theorem not_aborted_before {E : BodyEnv} {ok : BodyState Z → BodyOp → Prop} {s s' : BodyState Z}
    (h : Reaches (body_step E) ok s s') (hf : s'.ctx.aborted = false) : s.ctx.aborted = false := by
  induction h with
  | refl => exact hf
  | tail _ hm ih =>
    obtain ⟨op, -, hs⟩ := hm
    exact ih ((body_step_move hs hf).aborted ▸ hf)

/-- What every move preserves holds wherever a run gets without a failure. -/
theorem body_invariant {E : BodyEnv} {ok : BodyState Z → BodyOp → Prop} (I : BodyState Z → Prop)
    {s₀ s : BodyState Z} (h : Reaches (body_step E) ok s₀ s) (hf : s.ctx.aborted = false) (h0 : I s₀)
    (hs : ∀ t op u, I t → ok t op → BodyMove E t op u → I u) : I s := by
  refine h.invariant (fun s => s.ctx.aborted = false → I s) (fun _ => h0) ?_ hf
  intro t op u hi hok hu hau
  have hm := body_step_move hu hau
  exact hs t op u (hi (hm.aborted ▸ hau)) hok hm

end NginxZstd
