import NginxZstd.Service.Machine
/-!
# Responses do not meet

Two requests never hold one context, so what a body filter finds in its context is what
its own calls made of it, in whatever order the requests of the worker are served, and
whatever the context was used for before. Each body is thus a stream of its own, begun
with the settings of its own request.
-/

namespace NginxZstd

open Lib

variable {n : Nat} {Z : Compressor} {S : Server Z}

/-! ## Who holds what -/

/-- The request a call of the worker is about. -/
def Worker.Op.request : Worker.Op → Option ReqId
  | .open_request r _ _ => some r
  | .init_cctx r _ => some r
  | .return_cctx r => some r
  | .destroy_pool r => some r
  | .exit_process => none

theorem Worker.step_put {A : Abi} {w w' : Worker n} {op : Worker.Op} {r : ReqId} (h : w.step A op = some w')
    (hr : op.request = some r) : ∃ ring q, w' = w.put r ring q := by
  cases op with
  | open_request r' zlcf ctx =>
    cases hr
    simp only [Worker.step] at h
    split at h
    · cases h
      exact ⟨_, _, rfl⟩
    · cases h
  | init_cctx r' ans =>
    cases hr
    simp only [Worker.step] at h
    split at h
    · split at h
      · cases h
        exact ⟨_, _, rfl⟩
      · cases h
    · cases h
  | return_cctx r' =>
    cases hr
    simp only [Worker.step] at h
    split at h
    · cases h
      exact ⟨_, _, rfl⟩
    · cases h
  | destroy_pool r' =>
    cases hr
    simp only [Worker.step] at h
    split at h
    · cases h
      exact ⟨_, _, rfl⟩
    · cases h
  | exit_process => cases hr

theorem Worker.handle_eq {w : Worker n} {r : ReqId} {q : Req n} (hr : w.reqs r = some q) (he : q.ended = false) :
    w.handle r = q.cctx := by
  have hlive : w.live r = some q := by
    rw [Worker.live, Option.filter_eq_some_iff]
    exact ⟨hr, by simp [he]⟩
  rw [Worker.handle, hlive, Option.bind_some]

theorem Worker.handle_congr {w w' : Worker n} {r : ReqId} (h : w'.reqs r = w.reqs r) : w'.handle r = w.handle r := by
  unfold Worker.handle Worker.live
  rw [h]

theorem Worker.handle_holds {w : Worker n} {r : ReqId} {c : CCtx} (h : w.handle r = some c) : Holds w r c := by
  obtain ⟨q, hq, hc⟩ := Option.bind_eq_some_iff.1 h
  exact ⟨q, hq, hc⟩

theorem Worker.Inv.exclusive {A : Abi} {w : Worker n} (hw : w.Inv A) (hx : w.exited = false) {r r' : ReqId} {c : CCtx}
    (h : w.handle r = some c) (h' : w.handle r' = some c) : r = r' := by
  obtain ⟨l, hl, he⟩ := (Worker.handle_holds h).loan A
  obtain ⟨l', hl', he'⟩ := (Worker.handle_holds h').loan A
  exact Lending.exclusive hw.accounts (hw.loans hx) hl hl' (he.trans he'.symm)

/-! ## The other requests -/

/-- The step was `r`'s: every other request has its state, its body and what is in its
context as before. -/
structure Spares (r : ReqId) (v v' : Service n Z) : Prop where
  reqs : ∀ r', r' ≠ r → v'.worker.reqs r' = v.worker.reqs r'
  bodies : ∀ r', r' ≠ r → v'.bodies r' = v.bodies r'
  contexts : ∀ r', r' ≠ r → ∀ c, v.worker.handle r' = some c → v'.contexts c = v.contexts c
  exited : v'.worker.exited = v.worker.exited

namespace Spares

variable {r : ReqId} {v v' v'' : Service n Z}

theorem refl (r : ReqId) (v : Service n Z) : Spares r v v := ⟨fun _ _ => rfl, fun _ _ => rfl, fun _ _ _ _ => rfl, rfl⟩

theorem trans (h : Spares r v v') (h' : Spares r v' v'') : Spares r v v'' where
  reqs r' hr := (h'.reqs r' hr).trans (h.reqs r' hr)
  bodies r' hr := (h'.bodies r' hr).trans (h.bodies r' hr)
  contexts r' hr c hc := (h'.contexts r' hr c ((Worker.handle_congr (h.reqs r' hr)).trans hc)).trans (h.contexts r' hr c hc)
  exited := h'.exited.trans h.exited

/-- Putting something into a context nobody else holds. -/
theorem update {w : Worker n} (hput : ∃ ring q, w = v.worker.put r ring q) {cctx : Option CCtx}
    (hown : ∀ c, cctx = some c → ∀ r', r' ≠ r → v.worker.handle r' ≠ some c) :
    Spares r v (v.adopt S w cctx) := by
  obtain ⟨ring, q, rfl⟩ := hput
  have hreqs : ∀ r', r' ≠ r → (v.worker.put r ring q).reqs r' = v.worker.reqs r' :=
    fun r' hr => Function.update_of_ne hr ..
  cases cctx with
  | none => exact ⟨hreqs, fun _ _ => rfl, fun _ _ _ _ => rfl, rfl⟩
  | some c =>
    refine ⟨hreqs, fun _ _ => rfl, fun r' hr c' hc' => ?_, rfl⟩
    refine Function.update_of_ne ?_ ..
    rintro rfl
    exact hown c' rfl r' hr hc'

theorem save (hw : v.worker.Inv S.abi) (hx : v.worker.exited = false) (s : BodyState Z) : Spares r v (v.save r s) where
  reqs _ _ := rfl
  bodies r' hr := Function.update_of_ne hr ..
  contexts r' hr c' hc' := by
    cases hc : v.worker.handle r with
    | none => simp only [Service.save, hc]
    | some c =>
      simp only [Service.save, hc]
      refine Function.update_of_ne ?_ ..
      rintro rfl
      exact hr (hw.exclusive hx hc' hc)
  exited := rfl

/-- A call that lets go of the context `r` holds. -/
theorem release {w : Worker n} {op : Worker.Op} (hw : v.worker.Inv S.abi) (hx : v.worker.exited = false)
    (hstep : v.worker.step S.abi op = some w) (hr : op.request = some r) :
    Spares r v (v.adopt S w (v.worker.handle r)) :=
  update (Worker.step_put hstep hr) fun _ hc _ hne hc' => hne (hw.exclusive hx hc' hc)

/-- A call that may hand `r` a context. -/
theorem acquire {w : Worker n} {op : Worker.Op} (hw : v.worker.Inv S.abi) (hx : v.worker.exited = false)
    (hstep : v.worker.step S.abi op = some w) (hr : op.request = some r) :
    Spares r v (v.adopt S w (w.handle r)) := by
  have hput := Worker.step_put hstep hr
  refine update hput fun c hc r' hne hc' => ?_
  have hw' := step_inv hw hstep
  obtain ⟨ring, q, rfl⟩ := hput
  have hreqs : (v.worker.put r ring q).reqs r' = v.worker.reqs r' := Function.update_of_ne hne ..
  exact hne (hw'.exclusive hx ((Worker.handle_congr hreqs).trans hc') hc)

end Spares

/-! ## One body -/

theorem settingsFor_congr {A : Abi} {q q' : Req n} (h : SameRequest q q') (ans : Answers) :
    settingsFor A ans q' = settingsFor A ans q := by
  unfold settingsFor
  rw [h.windowFor A, h.zlcf, h.ctx]

theorem Server.env_congr (S : Server Z) (r : ReqId) {q q' : Req n} (h : SameRequest q q') : S.env r q' = S.env r q := by
  unfold Server.env
  rw [h.ctx, h.zlcf]

/-- What is in the context is none of the integrity's business. -/
theorem Integrity.with_cctx {E : BodyEnv} {s : BodyState Z} (h : Integrity E s) (z : Z.State) :
    Integrity E (s.with_cctx z) where
  output := ⟨h.output.bytes, h.output.places, h.output.known, h.output.clean, h.output.unread, h.output.none_yet⟩
  empty := h.empty
  idle := h.idle
  inner := h.inner
  ended := h.ended
  input hh := (h.input hh).congr rfl rfl rfl rfl
  active := h.active
  cursor := h.cursor
  done := h.done

/-- Where the stream of a body stands: before its first data, or begun in a context that
had the settings of the request. Until the request is done or over it holds that context. -/
inductive Phase (S : Server Z) (contexts : CCtx → Z.State) (q : Req n) (s : BodyState Z) : Prop
  | asleep (hready : s.ctx.cctx_ready = false) (hpc : s.pc = .idle) (hd : s.ctx.done = false)
      (hx : s.ctx.consumed = []) (hw : s.ctx.produced = []) (ha : s.ctx.action = .compress)
  | awake {a z} (hready : s.ctx.cctx_ready = true)
      (hs : Streaming (S.reset (settingsFor S.abi a q)) (s.with_cctx z).ctx)
      (hc : q.ended = false → ¬ (s.ctx.done = true ∧ s.pc = .idle) → ∃ c, q.cctx = some c ∧ contexts c = z)

theorem Phase.start (S : Server Z) (contexts : CCtx → Z.State) (q : Req n) : Phase S contexts q (BodyState.start Z) :=
  .asleep rfl rfl rfl rfl rfl rfl

/-- Seen from a body, another request's step changes nothing. -/
theorem Phase.congr {contexts contexts' : CCtx → Z.State} {q : Req n} {s : BodyState Z} (h : Phase S contexts q s)
    (hc : q.ended = false → ∀ c, q.cctx = some c → contexts' c = contexts c) : Phase S contexts' q s := by
  cases h with
  | asleep hready hpc hd hx hw ha => exact .asleep hready hpc hd hx hw ha
  | awake hready hs hheld =>
    refine .awake hready hs fun he hn => ?_
    obtain ⟨c, hcctx, hz⟩ := hheld he hn
    exact ⟨c, hcctx, (hc he c hcctx).trans hz⟩

/-- A request that is over, or whose body is done, needs no context. -/
theorem Phase.let_go {contexts contexts' : CCtx → Z.State} {q q' : Req n} {s : BodyState Z} (h : Phase S contexts q s)
    (hq : SameRequest q { q' with ended := q.ended }) (hover : q'.ended = true ∨ s.ctx.done = true ∧ s.pc = .idle) :
    Phase S contexts' q' s := by
  cases h with
  | asleep hready hpc hd hx hw ha => exact .asleep hready hpc hd hx hw ha
  | @awake ans z hready hs hheld =>
    have hset : settingsFor S.abi ans q' = settingsFor S.abi ans q :=
      (rfl : settingsFor S.abi ans q' = settingsFor S.abi ans { q' with ended := q.ended }).trans
        (settingsFor_congr hq ans)
    refine .awake (a := ans) (z := z) hready (hset ▸ hs) fun he hn => ?_
    rcases hover with ho | ho
    · rw [he] at ho
      cases ho
    · exact (hn ho).elim

theorem BodyMove.ready {E : BodyEnv} {s s' : BodyState Z} {op : BodyOp} (h : BodyMove E s op s')
    (hready : s.ctx.cctx_ready = true) : s'.ctx.cctx_ready = true := by
  cases h with
  | pass hpc hd => exact hready
  | noop hpc hd hh hr hi hb => exact hready
  | begin_loop b hpc hd hh hn => rfl
  | resume b hpc hd hh hn => rfl
  | read hpc => exact hready
  | skip hpc ha | dry hpc ha =>
    obtain ⟨q, ib, l, f, n, bi, rfl⟩ := add_data_frame ha
    exact hready
  | starve hpc ha hm hg =>
    obtain ⟨q, ib, l, f, n, bi, rfl⟩ := add_data_frame ha
    obtain ⟨fr, ob, n, bo, heap, hs, nm, rfl⟩ := get_buf_frame hg
    exact hready
  | work hpc ha hm hg hc hrc =>
    obtain ⟨q, ib, l, f, n, bi, rfl⟩ := add_data_frame ha
    obtain ⟨fr, ob, n, bo, heap, hs, nm, rfl⟩ := get_buf_frame hg
    obtain ⟨r, -, -, -, -, ib, bo, heap, a, d, b, f, dn, n, o, ob, rfl⟩ := compress_frame hc hrc
    exact hready
  | keep hpc ho hf => exact hready
  | give hpc ho hr => exact hready

/-- A done body stays done; what is read of it is behind the compressor. -/
theorem BodyMove.done_idle {E : BodyEnv} {s s' : BodyState Z} {op : BodyOp} (h : BodyMove E s op s')
    (hd : s.ctx.done = true) (hpc : s.pc = .idle) :
    s'.pc = .idle ∧ ∃ heap, s'.ctx = { s.ctx with heap := heap } := by
  cases h with
  | pass hpc' hd' => exact ⟨hpc, _, rfl⟩
  | noop hpc' hd' | begin_loop b hpc' hd' | resume b hpc' hd' =>
    rw [hd] at hd'
    cases hd'
  | read hpc' => exact ⟨hpc, _, rfl⟩
  | skip hpc' | dry hpc' | starve hpc' | work hpc' | keep hpc' | give hpc' =>
    rw [hpc] at hpc'
    cases hpc'

/-- Where nothing failed, the context is given back by a request that is done. -/
theorem BodyMove.gives_back {E : BodyEnv} {s s' : BodyState Z} {op : BodyOp} (h : BodyMove E s op s')
    (hg : gives_back s s' = true) : s'.ctx.done = true ∧ s'.pc = .idle := by
  have hab := h.aborted
  obtain ⟨hpc, hout, hdone⟩ : s.pc = .tail ∧ (s.ctx.out ≠ [] ∨ s.flush = true) ∧ s'.ctx.done = true := by
    have hno : (!s.ctx.aborted && s'.ctx.aborted) = false := by rw [hab]; cases s.ctx.aborted <;> rfl
    simpa [NginxZstd.gives_back, hno, and_assoc] using hg
  refine ⟨hdone, ?_⟩
  cases h with
  | pass hpc' | noop hpc' | read hpc' => exact hpc'
  | begin_loop b hpc' | resume b hpc' | skip hpc' | dry hpc' | starve hpc' | work hpc' =>
    rw [hpc] at hpc'
    cases hpc'
  | keep hpc' ho hf => rfl
  | give hpc' ho hr => exact if_pos hdone

/-- Where no context is asked for, an untouched body stays untouched. -/
theorem body_step_asleep {E : BodyEnv} {s s' : BodyState Z} {op : BodyOp} (hready : s.ctx.cctx_ready = false)
    (hpc : s.pc = .idle) (hd : s.ctx.done = false) (hn : needs_cctx E s op = false)
    (h : body_step E s op = some s') : s'.pc = .idle ∧ ∃ heap, s'.ctx = { s.ctx with heap := heap } := by
  cases op with
  | callback chain init down =>
    simp only [body_step, hpc, Option.some.injEq] at h
    subst h
    unfold enter
    dsimp only
    split
    · exact ⟨hpc, _, rfl⟩
    next hhead =>
    have hnoop : ¬ s.ctx.cctx_ready ∧ chain = [] ∧ s.ctx.in_chain = [] ∧ s.ctx.busy = [] := by
      have hho : E.header_only = false := Bool.eq_false_iff.2 fun h => hhead (.inr h)
      simpa [needs_cctx, hd, hho, hready, and_assoc] using hn
    split
    · exact ⟨hpc, _, rfl⟩
    next hno => exact (hno hnoop).elim
  | drain drained =>
    simp only [body_step, hpc, Option.some.injEq] at h
    subst h
    exact ⟨rfl, _, rfl⟩
  | iterate palloc link => simp [body_step, hpc] at h
  | tail links down => simp [body_step, hpc] at h

/-! ## One step of one body -/

/-- What the filter knows of the body it works on. -/
theorem Service.load_spec (v : Service n Z) (r : ReqId) :
    ∃ z, v.load r = (v.bodies r).with_cctx z ∧ ∀ c, v.worker.handle r = some c → v.contexts c = z := by
  unfold Service.load
  split
  · next c hc =>
    refine ⟨v.contexts c, rfl, fun c' hc' => ?_⟩
    rw [hc] at hc'
    cases hc'
    rfl
  · next hc =>
    refine ⟨(v.bodies r).ctx.cctx, rfl, fun c' hc' => ?_⟩
    rw [hc] at hc'
    cases hc'

theorem Service.save_contexts {v : Service n Z} {r : ReqId} {c : CCtx} (hc : v.worker.handle r = some c)
    (s : BodyState Z) : (v.save r s).contexts c = s.ctx.cctx := by
  simp only [Service.save, hc]
  exact Function.update_self ..

theorem needs_cctx_spec {E : BodyEnv} {s : BodyState Z} {op : BodyOp} (h : needs_cctx E s op = true) :
    ∃ chain init down, op = .callback chain init down ∧ s.ctx.done = false ∧ E.header_only = false ∧
      s.ctx.cctx_ready = false ∧ (chain ≠ [] ∨ s.ctx.in_chain ≠ [] ∨ s.ctx.busy ≠ []) := by
  cases op with
  | callback chain init down => exact ⟨chain, init, down, rfl, of_decide_eq_true h⟩
  | iterate _ _ => cases h
  | tail _ _ => cases h
  | drain _ => cases h

/-- `init_cctx` is the worker's, and when it succeeds the request holds a context that was
reset and has the request's settings. -/
theorem Service.prepare_spec {v v' : Service n Z} {r : ReqId} {q : Req n} {op op' : BodyOp} {ans : Answers}
    (hw : v.worker.Inv S.abi) (hx : v.worker.exited = false) (hlive : v.worker.live r = some q)
    (h : v.prepare S r q op ans = some (v', op')) :
    v'.worker.Inv S.abi ∧ Spares r v v' ∧ v'.bodies = v.bodies ∧
      ∃ q', v'.worker.live r = some q' ∧ SameRequest q q' ∧
        ((needs_cctx (S.env r q) (v.bodies r) op = false ∧ v' = v ∧ op' = op) ∨
          (needs_cctx (S.env r q) (v.bodies r) op = true ∧ ∃ init, op' = op.answered init ∧
            (init = true → ∃ c, q'.cctx = some c ∧ v'.contexts c = S.reset (settingsFor S.abi ans q)))) := by
  unfold Service.prepare at h
  split at h
  · next hneeds =>
    obtain ⟨w, hstep, he⟩ := Option.map_eq_some_iff.1 h
    cases he
    have hspares := Spares.acquire hw hx hstep rfl
    have hinv := step_inv hw hstep
    obtain ⟨hr, hend, -⟩ := loan_of_live (A := S.abi) hlive
    simp only [Worker.step, hlive] at hstep
    split at hstep
    · next hfresh =>
      obtain ⟨⟨rc, ring, q'⟩, hinit⟩ : ∃ x, init_cctx S.abi ans v.worker.ring r q = x := ⟨_, rfl⟩
      obtain ⟨-, hsame, -, hok⟩ := init_spec hlive (hw.reqs r q hr) hfresh hinit
      rw [hinit] at hstep ⊢
      cases hstep
      have hreq : (v.worker.put r ring q').reqs r = some q' := Function.update_self ..
      have hlive' : (v.worker.put r ring q').live r = some q' := by
        rw [Worker.live, Option.filter_eq_some_iff]
        exact ⟨hreq, by simp [hsame.ended, hend]⟩
      refine ⟨by rw [Service.adopt_worker]; exact hinv, hspares, Service.adopt_bodies .., q',
        by rw [Service.adopt_worker]; exact hlive', hsame, .inr ⟨hneeds, _, rfl, fun hi => ?_⟩⟩
      obtain ⟨c, hc, hset⟩ := hok (of_decide_eq_true hi)
      refine ⟨c, hc, ?_⟩
      rw [Worker.handle, hlive', Option.bind_some, hc]
      simp only [Service.adopt]
      rw [Function.update_self, ← hset]
      rfl
    · cases hstep
  · next hneeds =>
    cases h
    exact ⟨hw, Spares.refl r v, rfl, q, hlive, SameRequest.refl q, .inl ⟨Bool.eq_false_iff.2 hneeds, rfl, rfl⟩⟩

theorem lastIsFinal_with_cctx {s : BodyState Z} {z : Z.State} {op : BodyOp} (h : LastIsFinal s op) :
    LastIsFinal (s.with_cctx z) op := by
  cases op with
  | callback chain init down => exact h
  | iterate _ _ => trivial
  | tail _ _ => trivial
  | drain _ => trivial

theorem lastIsFinal_answered {s : BodyState Z} {op : BodyOp} {init : Bool} (h : LastIsFinal s op) :
    LastIsFinal s (op.answered init) := by
  cases op with
  | callback chain init' down => exact h
  | iterate _ _ => trivial
  | tail _ _ => trivial
  | drain _ => trivial

/-- The callback that gets its context begins the stream there. -/
theorem Streaming.wake {E : BodyEnv} {s s' : BodyState Z} {op : BodyOp} {init : Bool} {z : Z.State}
    (hi : Integrity E s) (hpc : s.pc = .idle) (hx : s.ctx.consumed = []) (hw : s.ctx.produced = [])
    (ha : s.ctx.action = .compress) (hn : needs_cctx E s op = true)
    (h : body_step E (s.with_cctx z) (op.answered init) = some s') (hf : s'.ctx.aborted = false) :
    init = true ∧ s'.ctx.cctx_ready = true ∧ Streaming z s'.ctx := by
  obtain ⟨chain, init', down, rfl, hd, hh, hready, hwork⟩ := needs_cctx_spec hn
  have hm := body_step_move h hf
  have hbegin : Streaming z (s.with_cctx z).ctx := by
    refine ⟨?_, fun he => ?_⟩
    · show Session Z.Call z s.ctx.consumed s.ctx.produced s.ctx.done z
      rw [hx, hw, hd]
      exact .start
    · rw [show (s.with_cctx z).ctx.action = s.ctx.action from rfl, ha] at he
      cases he
  refine ⟨?_, ?_, hbegin.move (hi.with_cctx z) hm⟩
  · -- without a context the request fails
    by_contra hinit
    have hstep : body_step E (s.with_cctx z) (.callback chain init down) =
        some (enter E (s.with_cctx z) chain init down) := by
      simp only [body_step, show (s.with_cctx z).pc = .idle from hpc]
    rw [BodyOp.answered, hstep] at h
    cases h
    unfold enter at hf
    dsimp only at hf
    have hnot : ¬ (chain = [] ∧ s.ctx.in_chain = [] ∧ s.ctx.busy = []) := by
      rintro ⟨h1, h2, h3⟩
      rcases hwork with hw | hw | hw
      · exact hw h1
      · exact hw h2
      · exact hw h3
    rw [if_neg (by simp [deliver, BodyState.with_cctx, hd, hh]), if_neg fun hc => hnot hc.2,
      if_pos (by simp [deliver, BodyState.with_cctx, hready, hinit])] at hf
    cases hf
  · cases hm with
    | pass hpc' hd' =>
      rcases hd' with hd' | hd'
      · exact absurd hd' (by simp [BodyState.with_cctx, hd])
      · rw [hh] at hd'
        cases hd'
    | noop hpc' hd' hh' hr' hi' hb' => exact absurd hwork (by simpa using ⟨hi', hb'⟩)
    | begin_loop b hpc' hd' hh' hn' => rfl
    | resume b hpc' hd' hh' hn' => rfl

/-- A step of a body, from where the stream stands to where it stands next. -/
theorem Service.advance {v v' : Service n Z} {r : ReqId} {q q' : Req n} {op op' : BodyOp} {ans : Answers}
    {s' : BodyState Z} (hi : Integrity (S.env r q) (v.bodies r)) (hphase : Phase S v.contexts q (v.bodies r))
    (hok : LastIsFinal (v.bodies r) op) (hbodies : v'.bodies = v.bodies) (hlive' : v'.worker.live r = some q')
    (hsame : SameRequest q q')
    (hprep : (needs_cctx (S.env r q) (v.bodies r) op = false ∧ v' = v ∧ op' = op) ∨
      (needs_cctx (S.env r q) (v.bodies r) op = true ∧ ∃ init, op' = op.answered init ∧
        (init = true → ∃ c, q'.cctx = some c ∧ v'.contexts c = S.reset (settingsFor S.abi ans q))))
    (hstep : NginxZstd.body_step (S.env r q) (v'.load r) op' = some s') (hf : s'.ctx.aborted = false)
    (hlive : v.worker.live r = some q) :
    Integrity (S.env r q') s' ∧ Phase S (v'.save r s').contexts q' s' := by
  obtain ⟨z, hload, hz⟩ := v'.load_spec r
  rw [hbodies] at hload
  have hm := body_step_move hstep hf
  rw [hload] at hm hstep
  have hend := (loan_of_live (A := S.abi) hlive').2.1
  have hhandle : v'.worker.handle r = q'.cctx := Worker.handle_eq (loan_of_live (A := S.abi) hlive').1 hend
  rw [S.env_congr r hsame]
  have hok' : LastIsFinal ((v.bodies r).with_cctx z) op' := by
    apply lastIsFinal_with_cctx
    rcases hprep with ⟨-, -, rfl⟩ | ⟨-, init, rfl, -⟩
    · exact hok
    · exact lastIsFinal_answered hok
  refine ⟨(hi.with_cctx z).move hok' hm, ?_⟩
  cases hphase with
  | asleep hready hpc hd hx hw ha =>
    rcases hprep with ⟨hneeds, rfl, rfl⟩ | ⟨hneeds, init, rfl, hinit⟩
    · have hneeds' : needs_cctx (S.env r q) ((v'.bodies r).with_cctx z) op' = false := by
        rw [← hneeds]
        cases op' <;> rfl
      obtain ⟨hpc', heap, hctx⟩ := body_step_asleep (s := (v'.bodies r).with_cctx z) hready hpc hd hneeds' hstep
      exact .asleep (by rw [hctx]; exact hready) hpc' (by rw [hctx]; exact hd) (by rw [hctx]; exact hx)
        (by rw [hctx]; exact hw) (by rw [hctx]; exact ha)
    · obtain ⟨rfl, hready', hstream⟩ := Streaming.wake hi hpc hx hw ha hneeds hstep hf
      obtain ⟨c, hc, hcontext⟩ := hinit rfl
      obtain rfl := (hz c (hhandle.trans hc)).symm.trans hcontext
      refine .awake (a := ans) (z := s'.ctx.cctx) hready' ?_ fun _ _ => ⟨c, hc, v'.save_contexts (hhandle.trans hc) s'⟩
      rw [settingsFor_congr hsame]
      exact hstream
  | @awake ans z₀ hready hs hheld =>
    obtain ⟨rfl, rfl⟩ : v' = v ∧ op' = op := by
      rcases hprep with ⟨-, hv, hop⟩ | ⟨hneeds, -⟩
      · exact ⟨hv, hop⟩
      · obtain ⟨chain, init, down, -, -, -, hr, -⟩ := needs_cctx_spec hneeds
        rw [hready] at hr
        cases hr
    obtain rfl : q' = q := Option.some.inj (hlive'.symm.trans hlive)
    have hready' := hm.ready hready
    by_cases hdone : (v'.bodies r).ctx.done = true ∧ (v'.bodies r).pc = .idle
    · obtain ⟨hpc', heap, hctx⟩ := hm.done_idle hdone.1 hdone.2
      refine .awake (a := ans) (z := z₀) hready' ?_ fun _ hn => (hn ⟨by rw [hctx]; exact hdone.1, hpc'⟩).elim
      refine hs.congr ?_ ?_ ?_ rfl ?_ ?_ <;> simp only [BodyState.with_cctx, hctx]
      exact id
    · obtain ⟨c, hc, hcontext⟩ := hheld hend hdone
      obtain rfl := (hz c (hhandle.trans hc)).symm.trans hcontext
      have hstream := hs.move (hi.with_cctx _) hm
      exact .awake (a := ans) (z := s'.ctx.cctx) hready' hstream fun _ _ =>
        ⟨c, hc, v'.save_contexts (hhandle.trans hc) s'⟩

/-! ## Every reachable service -/

/-- Until the worker exits, every body that has not failed is whole and is a stream of its
own. -/
structure Service.Inv (S : Server Z) (v : Service n Z) : Prop where
  worker : v.worker.Inv S.abi
  unopened : ∀ r, v.worker.reqs r = none → v.bodies r = BodyState.start Z
  bodies : v.worker.exited = false → ∀ r q, v.worker.reqs r = some q → (v.bodies r).ctx.aborted = false →
    Integrity (S.env r q) (v.bodies r) ∧ Phase S v.contexts q (v.bodies r)

theorem Service.start_inv (S : Server Z) : (Service.start n Z).Inv S where
  worker := NginxZstd.start_inv S.abi
  unopened _ _ := rfl
  bodies _ r q hr := by cases hr

/-- A step of `r` keeps the invariant if it keeps it of `r`. -/
theorem Service.Inv.spared {v v' : Service n Z} {r : ReqId} {q : Req n} (h : v.Inv S) (hs : Spares r v v')
    (hw : v'.worker.Inv S.abi) (hr : v'.worker.reqs r = some q)
    (hbody : v'.worker.exited = false → (v'.bodies r).ctx.aborted = false →
      Integrity (S.env r q) (v'.bodies r) ∧ Phase S v'.contexts q (v'.bodies r)) : v'.Inv S where
  worker := hw
  unopened r' hr' := by
    by_cases he : r' = r
    · subst he
      rw [hr] at hr'
      cases hr'
    · rw [hs.bodies r' he]
      exact h.unopened r' ((hs.reqs r' he).symm.trans hr')
  bodies hx r' q' hr' hf := by
    by_cases he : r' = r
    · subst he
      obtain rfl : q' = q := Option.some.inj (hr'.symm.trans hr)
      exact hbody hx hf
    · have hr := (hs.reqs r' he).symm.trans hr'
      rw [hs.bodies r' he] at hf ⊢
      obtain ⟨hi, hphase⟩ := h.bodies (hs.exited.symm.trans hx) r' q' hr hf
      exact ⟨hi, hphase.congr fun hend c hc => hs.contexts r' he c ((Worker.handle_eq hr hend).trans hc)⟩

theorem Worker.return_req {A : Abi} {w w' : Worker n} {r : ReqId} (hw : w.Inv A)
    (h : w.step A (.return_cctx r) = some w') :
    ∃ q q', w.live r = some q ∧ w'.reqs r = some q' ∧ SameRequest q q' := by
  simp only [Worker.step] at h
  split at h
  · next q hlive =>
    cases h
    obtain ⟨-, hsame, -⟩ := return_spec (A := A) hlive (hw.reqs r q (loan_of_live (A := A) hlive).1)
    exact ⟨q, _, hlive, Function.update_self .., hsame⟩
  · cases h

theorem Worker.destroy_req {A : Abi} {w w' : Worker n} {r : ReqId} (hw : w.Inv A)
    (h : w.step A (.destroy_pool r) = some w') :
    ∃ q q', w.reqs r = some q ∧ w'.reqs r = some q' ∧ SameRequest q { q' with ended := q.ended } ∧
      q'.ended = true := by
  simp only [Worker.step] at h
  split at h
  · next q hlive =>
    have hr := (loan_of_live (A := A) hlive).1
    have hq := hw.reqs r q hr
    obtain ⟨-, hsame, -, hnone⟩ := return_spec (A := A) hlive hq
    rw [run_cleanups_eq w.ring hq hnone] at h
    cases h
    exact ⟨q, _, hr, Function.update_self .., ⟨hsame.ctx, hsame.zlcf, rfl⟩, rfl⟩
  · cases h

theorem Service.body_step_inv {v v' : Service n Z} {r : ReqId} {q : Req n} {op : BodyOp} {ans : Answers} (h : v.Inv S)
    (hx : v.worker.exited = false) (hok : LastIsFinal (v.bodies r) op) (hlive : v.worker.live r = some q)
    (hstep : v.body_step S r q op ans = some v') : v'.Inv S := by
  obtain ⟨⟨v₁, op₁⟩, hprep, hstep⟩ := Option.bind_eq_some_iff.1 hstep
  obtain ⟨s', hbody, hstep⟩ := Option.bind_eq_some_iff.1 hstep
  obtain ⟨hw₁, hs₁, hb₁, q₁, hlive₁, hsame, hcases⟩ := Service.prepare_spec h.worker hx hlive hprep
  have hx₁ : v₁.worker.exited = false := hs₁.exited.trans hx
  have hs₂ : Spares r v (v₁.save r s') := hs₁.trans (.save hw₁ hx₁ s')
  have hr₁ := (loan_of_live (A := S.abi) hlive₁).1
  have hsaved : (v₁.save r s').bodies r = s' := Function.update_self ..
  -- the body itself, where it did not fail
  have hadvance : s'.ctx.aborted = false → Integrity (S.env r q₁) s' ∧ Phase S (v₁.save r s').contexts q₁ s' := by
    intro hf
    have hf₀ : (v.bodies r).ctx.aborted = false := by
      obtain ⟨z, hload, -⟩ := v₁.load_spec r
      have hm := body_step_move hbody hf
      rw [hload, hb₁] at hm
      exact hm.aborted.symm.trans hf
    obtain ⟨hi, hphase⟩ := h.bodies hx r q (loan_of_live (A := S.abi) hlive).1 hf₀
    exact Service.advance hi hphase hok hb₁ hlive₁ hsame hcases hbody hf hlive
  have hsave : (v₁.save r s').Inv S := by
    refine h.spared hs₂ hw₁ hr₁ fun _ hf => ?_
    rw [hsaved] at hf ⊢
    exact hadvance hf
  split at hstep
  · next hgives =>
    obtain ⟨w, hreturn, rfl⟩ := Option.map_eq_some_iff.1 hstep
    obtain ⟨q₂, q₃, hlive₂, hr₃, hsame₃⟩ := Worker.return_req hw₁ hreturn
    obtain rfl : q₂ = q₁ := Option.some.inj (hlive₂.symm.trans hlive₁)
    refine hsave.spared (.release hw₁ hx₁ hreturn rfl) (by rw [Service.adopt_worker]; exact step_inv hw₁ hreturn)
      (by rw [Service.adopt_worker]; exact hr₃) fun _ hf => ?_
    rw [Service.adopt_bodies, hsaved] at hf ⊢
    obtain ⟨hi, hphase⟩ := hadvance hf
    refine ⟨by rw [S.env_congr r hsame₃]; exact hi, hphase.let_go ⟨hsame₃.ctx, hsame₃.zlcf, rfl⟩ (.inr ?_)⟩
    exact (body_step_move hbody hf).gives_back hgives
  · cases hstep
    exact hsave

theorem Service.step_inv {v v' : Service n Z} {op : Service.Op} (h : v.Inv S) (hok : Proper v op)
    (hstep : v.step S op = some v') (hx' : v'.worker.exited = false) (hx : v.worker.exited = false) : v'.Inv S := by
  cases op with
  | open_request r zlcf ctx =>
    obtain ⟨w, hw, rfl⟩ := Option.map_eq_some_iff.1 hstep
    have hspares : Spares r v (v.adopt S w none) := .update (Worker.step_put hw rfl) fun _ hc => by cases hc
    have hinv := NginxZstd.step_inv h.worker hw
    simp only [Worker.step] at hw
    split at hw
    · next hnone =>
      cases hw
      refine h.spared hspares hinv (Function.update_self ..) fun _ _ => ?_
      show Integrity _ (v.bodies r) ∧ Phase S v.contexts _ (v.bodies r)
      rw [h.unopened r hnone]
      exact ⟨.start, .start S _ _⟩
    · cases hw
  | body r op ans =>
    obtain ⟨q, hlive, hstep⟩ := Option.bind_eq_some_iff.1 hstep
    exact Service.body_step_inv h hx hok hlive hstep
  | destroy_pool r =>
    obtain ⟨w, hw, rfl⟩ := Option.map_eq_some_iff.1 hstep
    obtain ⟨q, q', hr, hr', hsame, hend⟩ := Worker.destroy_req h.worker hw
    refine h.spared (.release h.worker hx hw rfl) (by rw [Service.adopt_worker]; exact NginxZstd.step_inv h.worker hw)
      (by rw [Service.adopt_worker]; exact hr') fun _ hf => ?_
    rw [Service.adopt_bodies] at hf ⊢
    obtain ⟨hi, hphase⟩ := h.bodies hx r q hr hf
    have henv : S.env r q' = S.env r q := @Server.env_congr n Z S r q { q' with ended := q.ended } hsame
    exact ⟨henv ▸ hi, hphase.let_go hsame (.inl hend)⟩
  | exit_process =>
    simp only [Service.step, Worker.step, Option.map_some, Option.some.injEq] at hstep
    subst hstep
    cases hx'

/-- What the service does to its worker are calls of the worker. -/
theorem Service.step_worker {v v' : Service n Z} {op : Service.Op} (hstep : v.step S op = some v') :
    Reaches (Worker.step S.abi) Any v.worker v'.worker := by
  cases op with
  | open_request r zlcf ctx =>
    obtain ⟨w, hw, rfl⟩ := Option.map_eq_some_iff.1 hstep
    exact (Reaches.refl _).snoc trivial hw
  | body r op ans =>
    obtain ⟨q, -, hstep⟩ := Option.bind_eq_some_iff.1 hstep
    obtain ⟨⟨v₁, op₁⟩, hprep, hstep⟩ := Option.bind_eq_some_iff.1 hstep
    obtain ⟨s', -, hstep⟩ := Option.bind_eq_some_iff.1 hstep
    have hinit : Reaches (Worker.step S.abi) Any v.worker v₁.worker := by
      unfold Service.prepare at hprep
      split at hprep
      · obtain ⟨w, hw, he⟩ := Option.map_eq_some_iff.1 hprep
        cases he
        rw [Service.adopt_worker]
        exact (Reaches.refl _).snoc trivial hw
      · cases hprep
        exact Reaches.refl _
    split at hstep
    · obtain ⟨w, hw, rfl⟩ := Option.map_eq_some_iff.1 hstep
      rw [Service.adopt_worker]
      exact hinit.snoc trivial hw
    · cases hstep
      exact hinit
  | destroy_pool r =>
    obtain ⟨w, hw, rfl⟩ := Option.map_eq_some_iff.1 hstep
    rw [Service.adopt_worker]
    exact (Reaches.refl _).snoc trivial hw
  | exit_process =>
    cases hstep
    exact (Reaches.refl v.worker).snoc (a := .exit_process) trivial rfl

/-- A worker that exited stays so. -/
theorem Worker.exited_of_reaches {A : Abi} {w w' : Worker n} (h : Reaches (Worker.step A) Any w w')
    (hx : w.exited = true) : w'.exited = true := by
  refine h.invariant (fun w => w.exited = true) hx fun t op u ht _ hs => ?_
  cases hr : op.request with
  | none =>
    cases op <;> cases hr
    cases hs
    rfl
  | some r =>
    obtain ⟨ring, q, rfl⟩ := Worker.step_put hs hr
    exact ht

theorem Service.reaches_inv {v : Service n Z} (h : Reaches (Service.step S) Proper (Service.start n Z) v)
    (hx : v.worker.exited = false) : v.Inv S := by
  refine h.invariant (fun v => v.worker.exited = false → v.Inv S) (fun _ => Service.start_inv S) ?_ hx
  intro v op v' hi hok hstep hx'
  have hx : v.worker.exited = false := by
    by_contra hn
    have := Worker.exited_of_reaches (Service.step_worker hstep) (by simpa using hn)
    rw [hx'] at this
    cases this
  exact Service.step_inv (hi hx) hok hstep hx' hx

/-! ## Every response is its own -/

/-- The dictionary a request compresses with. -/
def dictFor (A : Abi) (q : Req n) : Option DictRef :=
  match q.dcz_dict with
  | some dict => some (dcz_ref dict q.zlcf (windowFor A q))
  | none => q.zlcf.dict.map .cdict

/-- The frame header in front of a dcz response. -/
def FilterCtx.prefix_bytes (ctx : FilterCtx) : Bytes :=
  ctx.dcz_dict.elim [] fun d => d.frame_header.take dcz_header_len

/-- A body with a context is a session of the library. -/
theorem Phase.session {contexts : CCtx → Z.State} {q : Req n} {s : BodyState Z} (h : Phase S contexts q s)
    (hready : s.ctx.cctx_ready = true) :
    ∃ ans z, Session Z.Call (S.reset (settingsFor S.abi ans q)) s.ctx.consumed s.ctx.produced s.ctx.done z := by
  cases h with
  | asleep hready' =>
    rw [hready] at hready'
    cases hready'
  | awake hready' hs hheld => exact ⟨_, _, hs.session⟩

theorem Phase.done_ready {contexts : CCtx → Z.State} {q : Req n} {s : BodyState Z} (h : Phase S contexts q s)
    (hd : s.ctx.done = true) : s.ctx.cctx_ready = true := by
  cases h with
  | asleep hready hpc hd' =>
    rw [hd] at hd'
    cases hd'
  | awake hready hs hheld => exact hready

/-- The response of a request that is done. -/
theorem Service.Inv.response {decode : Option DictRef → Bytes → Option Bytes}
    (hlib : ∀ s : Settings, Lossless Z.Call (S.reset s) (decode s.dict)) {v : Service n Z} (h : v.Inv S)
    (hx : v.worker.exited = false) {r : ReqId} {q : Req n} (hr : v.worker.reqs r = some q)
    (hf : (v.bodies r).ctx.aborted = false) (hd : (v.bodies r).ctx.done = true) (hpc : (v.bodies r).pc = .idle) :
    ∃ frame, forwarded (v.bodies r).handed = q.toFilterCtx.prefix_bytes ++ frame ∧
      decode (dictFor S.abi q) frame = some (v.bodies r).delivered := by
  obtain ⟨hi, hphase⟩ := h.bodies hx r q hr hf
  obtain ⟨ans, z, hs⟩ := hphase.session (hphase.done_ready hd)
  rw [hd] at hs
  exact complete_body (hlib _) hi hs hd hpc

/-- However the requests of a worker take turns, and whoever had their contexts before:
until the worker exits, what libzstd wrote for a request that has not failed is what it
wrote in a session begun with the settings of that request; and the response of a request
that is done is its frame header and a frame that decodes, with its dictionary, to its
body. -/
theorem responses_independent (S : Server Z) {decode : Option DictRef → Bytes → Option Bytes}
    (hlib : ∀ s : Settings, Lossless Z.Call (S.reset s) (decode s.dict)) {v : Service n Z}
    (h : Reaches (Service.step S) Proper (Service.start n Z) v) (hx : v.worker.exited = false) {r : ReqId} {q : Req n}
    (hr : v.worker.reqs r = some q) (hf : (v.bodies r).ctx.aborted = false) :
    ((v.bodies r).ctx.cctx_ready = true → ∃ ans z, Session Z.Call (S.reset (settingsFor S.abi ans q))
      (v.bodies r).ctx.consumed (v.bodies r).ctx.produced (v.bodies r).ctx.done z) ∧
    ((v.bodies r).ctx.done = true → (v.bodies r).pc = .idle → ∃ frame,
      forwarded (v.bodies r).handed = q.toFilterCtx.prefix_bytes ++ frame ∧
        decode (dictFor S.abi q) frame = some (v.bodies r).delivered) := by
  have hi := Service.reaches_inv h hx
  obtain ⟨-, hphase⟩ := hi.bodies hx r q hr hf
  exact ⟨fun hready => hphase.session hready, fun hd hpc => hi.response hlib hx hr hf hd hpc⟩

/-- The blocks come out as they went in. -/
theorem blocks_lossless (size : Nat) : Lossless (Compressor.blocks size).Call ([] : Bytes) some := by
  have hcall : ∀ {z u : Bytes} {d : EndDirective} {space : Nat} {r : Reply Bytes},
      (Compressor.blocks size).call z d u space = some r →
      z ++ u.take r.consumed = r.written ++ r.state ∧ (d = .e_end → r.rc = 0 → r.state = []) := by
    intro z u d space r h
    simp only [Compressor.blocks] at h
    split at h
    · next hc =>
      cases h
      exact ⟨by simp, fun he => by rw [hc.1] at he; cases he⟩
    · cases h
      refine ⟨by simp, fun _ hrc => ?_⟩
      have hrc : (z ++ u).length - space = 0 := hrc
      exact List.drop_eq_nil_iff.2 (by omega)
  refine @Lossless.of_invariant Bytes UInt8 UInt8 (Compressor.blocks size).Call [] some (fun xs ws z => xs = ws ++ z) rfl
    ?_ ?_
  · rintro xs ws z x w z' rfl ⟨d, u, space, r, hr, rfl, rfl, -, rfl⟩
    exact (List.append_assoc ..).trans ((congrArg (ws ++ ·) (hcall hr).1).trans (List.append_assoc ..).symm)
  · rintro xs ws z x w z' rfl ⟨d, u, space, r, hr, rfl, rfl, hfin, rfl⟩
    obtain ⟨he, hrc⟩ := hfin.1 rfl
    obtain ⟨hsum, hnil⟩ := hcall hr
    have hwritten : z ++ u.take r.consumed = r.written := hsum.trans ((congrArg (r.written ++ ·) (hnil he hrc)).trans
      (List.append_nil _))
    rw [List.append_assoc, hwritten]

def smallServer : Server (Compressor.blocks 2) := ⟨(sampleEnv 2 2 none none).abi, id, fun _ => false, fun _ => []⟩

/-- The first request is given up in the middle of its stream, and the third has its
context from it while the second is under way. -/
def reuseOps : List Service.Op :=
  let zlcf : LocConf := { oneDictConf with bufs := ⟨2, 2⟩ }
  let down : Downstream := ⟨.ok, fun _ => 100⟩
  let iterate (r : ReqId) : Service.Op := .body r (.iterate true true) (.granted 0)
  let send (r : ReqId) : Service.Op := .body r (.tail 0 down) (.granted 0)
  [.open_request 0 zlcf ⟨none, -1⟩, .body 0 (.callback [⟨[1], false, false⟩] true down) (.granted 100), iterate 0,
    .open_request 1 zlcf ⟨some sampleDict, -1⟩, .body 1 (.callback [⟨[2, 3], false, true⟩] true down) (.granted 101),
    .destroy_pool 0, .open_request 2 zlcf ⟨none, -1⟩,
    .body 2 (.callback [⟨[4], false, true⟩] true down) (.granted 102), iterate 1, iterate 2, send 1, send 2]

theorem responses_independent_reused : ∃ v : Service 4 (.blocks 2),
    run (Service.step smallServer) (Service.start 4 _) reuseOps = some v ∧
      (v.worker.ring.slots 0).cctx = some 100 ∧ v.worker.ring.created.length = 2 ∧
      forwarded (v.bodies 1).handed = List.replicate 40 7 ++ [2, 3] ∧ forwarded (v.bodies 2).handed = [4] := by
  have hsees : (run (Service.step smallServer) (Service.start 4 (.blocks 2)) reuseOps).map (fun v =>
      (v.worker.exited, (v.worker.ring.slots 0).cctx, v.worker.ring.created.length,
        (v.worker.reqs 1).map (·.dcz_dict), (v.worker.reqs 2).map (·.dcz_dict),
        ((v.bodies 1).ctx.aborted, (v.bodies 1).ctx.done, (v.bodies 1).pc, (v.bodies 1).delivered),
        (v.bodies 2).ctx.aborted, (v.bodies 2).ctx.done, (v.bodies 2).pc, (v.bodies 2).delivered)) =
      some (false, some 100, 2, some (some sampleDict), some none, (false, true, .idle, [2, 3]), false, true, .idle,
        [4]) := by rfl
  have hmeets : Meets (Service.step smallServer) Proper (Service.start 4 (.blocks 2)) reuseOps := by decide
  obtain ⟨v, hv, hsees⟩ := Option.map_eq_some_iff.1 hsees
  simp only [Prod.mk.injEq, Option.map_eq_some_iff] at hsees
  obtain ⟨hx, hslot, hmade, ⟨q₁, hr₁, hd₁⟩, ⟨q₂, hr₂, hd₂⟩, ⟨hf₁, hdone₁, hpc₁, hdel₁⟩, hf₂, hdone₂, hpc₂, hdel₂⟩ := hsees
  have hlib : ∀ s : Settings, Lossless (Compressor.blocks 2).Call (smallServer.reset s) some := fun _ => blocks_lossless 2
  have hreaches := reaches_of_run hv hmeets
  obtain ⟨frame₁, hout₁, hframe₁⟩ :=
    (@responses_independent 4 _ smallServer (fun _ => some) hlib v hreaches hx 1 q₁ hr₁ hf₁).2 hdone₁ hpc₁
  obtain ⟨frame₂, hout₂, hframe₂⟩ :=
    (@responses_independent 4 _ smallServer (fun _ => some) hlib v hreaches hx 2 q₂ hr₂ hf₂).2 hdone₂ hpc₂
  refine ⟨v, hv, hslot, hmade, ?_, ?_⟩
  · rw [hout₁, Option.some.inj hframe₁, hdel₁, FilterCtx.prefix_bytes, hd₁]
    rfl
  · rw [hout₂, Option.some.inj hframe₂, hdel₂, FilterCtx.prefix_bytes, hd₂]
    rfl

end NginxZstd
