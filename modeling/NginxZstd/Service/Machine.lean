import NginxZstd.BodyFilter.RoundTrip
import NginxZstd.Ring.Safety
/-!
# The worker and its responses

A worker compresses many responses at once, and the contexts they are compressed in go
from request to request through the ring. What libzstd keeps of a stream it keeps in the
context, so the body filter finds there what the last call on it left, whoever made it.
`init_cctx` runs inside the callback that needs it, and `return_cctx` at the end of the
one that is done or fails.
-/

namespace NginxZstd

open Lib

variable {n : Nat} {Z : Compressor}

/-- What is the same for every request: the integer widths, `ZSTD_compressBound`, the
requests with `r->header_only`, and the state of a context that was reset and has its
settings. -/
structure Server (Z : Compressor) where
  abi : Abi
  compressBound : Nat → Nat
  header_only : ReqId → Bool
  reset : Settings → Z.State

def Server.env (S : Server Z) (r : ReqId) (q : Req n) : BodyEnv :=
  ⟨S.abi, q.zlcf, q.toFilterCtx, S.header_only r, S.compressBound⟩

/-- The ring and the requests, what is in every context, and the body of every request. -/
structure Service (n : Nat) (Z : Compressor) where
  worker : Worker n
  contexts : CCtx → Z.State
  bodies : ReqId → BodyState Z

def Service.start (n : Nat) (Z : Compressor) : Service n Z :=
  ⟨Worker.start n, fun _ => Z.start, fun _ => BodyState.start Z⟩

inductive Service.Op where
  | open_request (r : ReqId) (zlcf : LocConf) (ctx : FilterCtx)
  | body (r : ReqId) (op : BodyOp) (ans : Answers)
  | destroy_pool (r : ReqId)
  | exit_process

/-- The context a live request holds. -/
def Worker.handle (w : Worker n) (r : ReqId) : Option CCtx := (w.live r).bind Req.cctx

/-! ## A step of a body -/

/-- Whether a callback gets as far as `init_cctx`. -/
def needs_cctx (E : BodyEnv) (s : BodyState Z) : BodyOp → Bool
  | .callback chain _ _ =>
    decide (s.ctx.done = false ∧ E.header_only = false ∧ s.ctx.cctx_ready = false ∧
      (chain ≠ [] ∨ s.ctx.in_chain ≠ [] ∨ s.ctx.busy ≠ []))
  | _ => false

/-- The callback, once it is known whether `init_cctx` succeeds. -/
def BodyOp.answered (init : Bool) : BodyOp → BodyOp
  | .callback chain _ down => .callback chain init down
  | op => op

/-- The worker has reset a context. -/
def Service.adopt (S : Server Z) (v : Service n Z) (w : Worker n) (cctx : Option CCtx) : Service n Z :=
  match cctx with
  | some c => { v with worker := w, contexts := Function.update v.contexts c (S.reset (w.ring.settings c)) }
  | none => { v with worker := w }

@[simp]
theorem Service.adopt_worker (S : Server Z) (v : Service n Z) (w : Worker n) (cctx : Option CCtx) :
    (v.adopt S w cctx).worker = w := by cases cctx <;> rfl

@[simp]
theorem Service.adopt_bodies (S : Server Z) (v : Service n Z) (w : Worker n) (cctx : Option CCtx) :
    (v.adopt S w cctx).bodies = v.bodies := by cases cctx <;> rfl

/-- The call of `init_cctx`, where the callback makes it. -/
def Service.prepare (S : Server Z) (v : Service n Z) (r : ReqId) (q : Req n) (op : BodyOp) (ans : Answers) :
    Option (Service n Z × BodyOp) :=
  if needs_cctx (S.env r q) (v.bodies r) op then
    (v.worker.step S.abi (.init_cctx r ans)).map fun w =>
      (v.adopt S w (w.handle r), op.answered (decide ((init_cctx S.abi ans v.worker.ring r q).1 = .ok)))
  else some (v, op)

def BodyState.with_cctx (s : BodyState Z) (z : Z.State) : BodyState Z := { s with ctx := { s.ctx with cctx := z } }

/-- The body as the filter finds it, with the context its request holds. -/
def Service.load (v : Service n Z) (r : ReqId) : BodyState Z :=
  match v.worker.handle r with
  | some c => (v.bodies r).with_cctx (v.contexts c)
  | none => v.bodies r

def Service.save (v : Service n Z) (r : ReqId) (s : BodyState Z) : Service n Z :=
  { v with
    bodies := Function.update v.bodies r s
    contexts := match v.worker.handle r with
      | some c => Function.update v.contexts c s.ctx.cctx
      | none => v.contexts }

/-- Whether a step gets to a `return_cctx`: at the `failed` label, or behind the hand-over
of a request that is done. -/
def gives_back (s s' : BodyState Z) : Bool :=
  (!s.ctx.aborted && s'.ctx.aborted) || (s.pc = .tail && (s.ctx.out ≠ [] || s.flush) && s'.ctx.done)

def Service.give_back (S : Server Z) (v : Service n Z) (r : ReqId) : Option (Service n Z) :=
  (v.worker.step S.abi (.return_cctx r)).map fun w => v.adopt S w (v.worker.handle r)

def Service.body_step (S : Server Z) (v : Service n Z) (r : ReqId) (q : Req n) (op : BodyOp) (ans : Answers) :
    Option (Service n Z) := do
  let (v, op) ← v.prepare S r q op ans
  let s ← NginxZstd.body_step (S.env r q) (v.load r) op
  if gives_back (v.load r) s then (v.save r s).give_back S r else return v.save r s

def Service.step (S : Server Z) (v : Service n Z) : Service.Op → Option (Service n Z)
  | .open_request r zlcf ctx =>
    (v.worker.step S.abi (.open_request r zlcf ctx)).map fun w => { v with worker := w }
  | .body r op ans => (v.worker.live r).bind fun q => v.body_step S r q op ans
  | .destroy_pool r => (v.worker.step S.abi (.destroy_pool r)).map fun w => v.adopt S w (v.worker.handle r)
  | .exit_process => (v.worker.step S.abi .exit_process).map fun w => { v with worker := w }

/-- `last_buf` is only on the final link ever delivered to a body. -/
def Proper (v : Service n Z) : Service.Op → Prop
  | .body r op _ => LastIsFinal (v.bodies r) op
  | _ => True

instance (v : Service n Z) : ∀ op, Decidable (Proper v op)
  | .open_request _ _ _ => .isTrue trivial
  | .body r op _ => inferInstanceAs (Decidable (LastIsFinal (v.bodies r) op))
  | .destroy_pool _ => .isTrue trivial
  | .exit_process => .isTrue trivial

end NginxZstd
