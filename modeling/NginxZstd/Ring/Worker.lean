import NginxZstd.Lib.Lending
import NginxZstd.Lib.Runs
import NginxZstd.Ring.Cctx
/-!
# The worker

One worker serves any number of requests at once and runs one call at a time, so
every schedule is a run of `step`. The ring refines the lending pool of
`Lib.Lending`: each call of a request is one move of the pool or none, and
`exit_process` retires the shelves one after another.
-/

namespace NginxZstd

open Lib

variable {n : Nat}

/-- `exited` is set by `exit_process`; nothing reads it. -/
structure Worker (n : Nat) where
  ring : Ring n
  reqs : ReqId → Option (Req n)
  exited : Bool

def Worker.start (n : Nat) : Worker n := ⟨Ring.empty n, fun _ => none, false⟩

/-- A request whose pool is not destroyed. -/
def Worker.live (w : Worker n) (r : ReqId) : Option (Req n) := (w.reqs r).filter fun q => !q.ended

inductive Worker.Op where
  | open_request (r : ReqId) (zlcf : LocConf) (ctx : FilterCtx)
  | init_cctx (r : ReqId) (ans : Answers)
  | return_cctx (r : ReqId)
  | destroy_pool (r : ReqId)
  | exit_process

/-- `ZSTD_createCCtx` returns NULL or a handle it never returned before. -/
def Answers.fresh (ans : Answers) (ring : Ring n) : Bool :=
  ans.createCCtx.all fun c => ring.created.all fun x => x.1 != c

def Worker.put (w : Worker n) (r : ReqId) (ring : Ring n) (q : Req n) : Worker n :=
  { w with ring := ring, reqs := Function.update w.reqs r (some q) }

/-- One call in the worker. The calls of a request need it live, that is, its pool
not destroyed yet. -/
def Worker.step (A : Abi) (w : Worker n) : Worker.Op → Option (Worker n)
  | .open_request r zlcf ctx =>
    match w.reqs r with
    | none => some (w.put r w.ring (Req.start n zlcf ctx))
    | some _ => none
  | .init_cctx r ans =>
    match w.live r with
    | some q =>
      if ans.fresh w.ring then
        let res := init_cctx A ans w.ring r q
        some (w.put r res.2.1 res.2.2)
      else none
    | none => none
  | .return_cctx r =>
    match w.live r with
    | some q => some (w.put r (return_cctx w.ring q).1 (return_cctx w.ring q).2)
    | none => none
  | .destroy_pool r =>
    match w.live r with
    | some q =>
      let res := run_cleanups q.cleanups (w.ring, q)
      some (w.put r res.1 { res.2 with ended := true })
    | none => none
  | .exit_process => some { w with ring := exit_process w.ring, exited := true }

/-! ## A request -/

/-- The window a request compresses at, from its dictionary and its location. -/
def windowFor (A : Abi) (q : Req n) : Int :=
  match q.dcz_dict with
  | some dict => dcz_window_log A dict.bytes.length q.pledged_size q.zlcf.window_log q.zlcf.dcz_window_cap
  | none => q.zlcf.window_log

def Req.profile (A : Abi) (q : Req n) : Profile := ⟨q.zlcf.level, q.zlcf.long_mode, windowFor A q⟩

/-- The memoised window is the request's window. -/
def Req.Memo (A : Abi) (q : Req n) : Prop :=
  q.dcz_window_log_cache = 0 ∨ (q.dcz_dict ≠ none ∧ q.dcz_window_log_cache = windowFor A q)

/-- A context is never held without a registered cleanup nor lent without being
held. -/
structure Req.Ok (A : Abi) (q : Req n) : Prop where
  idle : q.cctx = none → q.lender = none
  registered : q.cctx ≠ none → 0 < q.cleanups
  memo : q.Memo A

/-- `q'` is `q` with another context, lender, memo or cleanup count. -/
structure SameRequest (q q' : Req n) : Prop where
  ctx : q'.toFilterCtx = q.toFilterCtx
  zlcf : q'.zlcf = q.zlcf
  ended : q'.ended = q.ended

namespace SameRequest

theorem refl (q : Req n) : SameRequest q q := ⟨rfl, rfl, rfl⟩

theorem trans {q q' q'' : Req n} (h : SameRequest q q') (h' : SameRequest q' q'') : SameRequest q q'' :=
  ⟨h'.ctx.trans h.ctx, h'.zlcf.trans h.zlcf, h'.ended.trans h.ended⟩

theorem windowFor {q q' : Req n} (h : SameRequest q q') (A : Abi) : windowFor A q' = NginxZstd.windowFor A q := by
  unfold NginxZstd.windowFor
  rw [h.ctx, h.zlcf]

theorem profile {q q' : Req n} (h : SameRequest q q') (A : Abi) : q'.profile A = q.profile A := by
  unfold Req.profile
  rw [h.windowFor A, h.zlcf]

theorem memo {q q' : Req n} (h : SameRequest q q') (hc : q'.dcz_window_log_cache = q.dcz_window_log_cache) {A : Abi}
    (hm : q.Memo A) : q'.Memo A := by
  unfold Req.Memo
  rw [h.windowFor A, h.ctx, hc]
  exact hm

end SameRequest

/-! ## The memoised window -/

/-- What `fill_window_log_cache` may change. -/
theorem fill_spec (A : Abi) (q : Req n) : SameRequest q (fill_window_log_cache A q) ∧
    (fill_window_log_cache A q).cctx = q.cctx ∧ (fill_window_log_cache A q).lender = q.lender ∧
    (fill_window_log_cache A q).cleanups = q.cleanups := by
  unfold fill_window_log_cache
  split
  · split
    · exact ⟨⟨rfl, rfl, rfl⟩, rfl, rfl, rfl⟩
    · exact ⟨SameRequest.refl q, rfl, rfl, rfl⟩
  · exact ⟨SameRequest.refl q, rfl, rfl, rfl⟩

theorem fill_dcz {A : Abi} {q : Req n} {dict : DczDict} (hd : q.dcz_dict = some dict) (hm : q.Memo A) :
    (fill_window_log_cache A q).dcz_window_log_cache = windowFor A q := by
  unfold fill_window_log_cache
  rw [hd]
  dsimp only
  split
  · unfold windowFor
    rw [hd]
  · next h => exact (hm.resolve_left h).2

theorem fill_memo {A : Abi} {q : Req n} (hm : q.Memo A) : (fill_window_log_cache A q).Memo A := by
  have hs := (fill_spec A q).1
  cases hd : q.dcz_dict with
  | none =>
    have : fill_window_log_cache A q = q := by unfold fill_window_log_cache; rw [hd]
    rw [this]
    exact hm
  | some dict =>
    refine .inr ⟨?_, ?_⟩
    · rw [hs.ctx, hd]
      simp
    · rw [hs.windowFor A]
      exact fill_dcz hd hm

theorem eff_fill {A : Abi} {q : Req n} (hm : q.Memo A) : eff_window_log (fill_window_log_cache A q) = windowFor A q := by
  have hs := (fill_spec A q).1
  cases hd : q.dcz_dict with
  | none =>
    unfold eff_window_log windowFor
    rw [hs.ctx, hs.zlcf, hd]
  | some dict =>
    unfold eff_window_log
    rw [hs.ctx, hd]
    exact fill_dcz hd hm

/-! ## Acquiring -/

theorem find_slot_found {slots : Fin n → CctxSlot} {key : Nat} {is : List (Fin n)} {free_slot : Option (Fin n)}
    {i : Fin n} (h : (find_slot slots key is free_slot).1 = some i) :
    (slots i).busy = false ∧ (slots i).cctx ≠ none ∧ (slots i).key = key := by
  induction is generalizing free_slot with
  | nil => simp [find_slot] at h
  | cons j is ih =>
    unfold find_slot at h
    split at h
    · exact ih h
    split at h
    · exact ih h
    split at h
    · next hb hc hk =>
      simp only [Option.some.injEq] at h
      subst h
      exact ⟨by simpa using hb, hc, hk⟩
    · exact ih h

theorem find_slot_free {slots : Fin n → CctxSlot} {key : Nat} {is : List (Fin n)} {free_slot : Option (Fin n)}
    {i : Fin n} (h : (find_slot slots key is free_slot).2 = some i)
    (h0 : ∀ j, free_slot = some j → (slots j).busy = false ∧ (slots j).cctx = none) :
    (slots i).busy = false ∧ (slots i).cctx = none := by
  induction is generalizing free_slot with
  | nil => exact h0 i h
  | cons j is ih =>
    unfold find_slot at h
    split at h
    · exact ih h h0
    split at h
    · next hb hc =>
      refine ih h ?_
      intro k hk
      split at hk
      · simp only [Option.some.injEq] at hk
        subst hk
        exact ⟨by simpa using hb, hc⟩
      · exact h0 k hk
    split at h
    · exact h0 i h
    · exact ih h h0

/-- The four ways an acquisition ends. -/
inductive Acquired (ans : Answers) (ring : Ring n) (r : ReqId) (key : Nat) (q : Req n) : Status × Ring n × Req n → Prop
  | failed : Acquired ans ring r key q (.error, ring, { q with cctx := none })
  | borrowed {i c} : (ring.slots i).busy = false → (ring.slots i).cctx = some c → (ring.slots i).key = key →
      Acquired ans ring r key q (.ok,
        { ring with slots := Function.update ring.slots i ⟨some c, key, true⟩ },
        { q with cctx := some c, lender := some i })
  | made {c} : ans.createCCtx = some c →
      Acquired ans ring r key q (.ok,
        { ring with
          created := (c, r) :: ring.created, settings := Function.update ring.settings c Settings.default },
        { q with cctx := some c })
  | seeded {c i} : ans.createCCtx = some c → key ≠ profile_invalid → (ring.slots i).busy = false →
      (ring.slots i).cctx = none →
      Acquired ans ring r key q (.ok,
        { ring with
          slots := Function.update ring.slots i ⟨some c, key, true⟩
          created := (c, r) :: ring.created, settings := Function.update ring.settings c Settings.default },
        { q with cctx := some c, lender := some i })

theorem acquire_registered_spec (ans : Answers) (ring : Ring n) (r : ReqId) {q : Req n} (hl : q.lender = none) :
    Acquired ans ring r (cctx_profile_from_conf_wlog q.zlcf (eff_window_log q)) q (acquire_registered ans ring r q) := by
  unfold acquire_registered
  dsimp only
  split
  · next i hf =>
    obtain ⟨hb, hc, hk⟩ := find_slot_found hf
    obtain ⟨c, hc⟩ := Option.ne_none_iff_exists'.1 hc
    simp only [borrow_slot, reduceCtorEq, ↓reduceIte, hc, hk]
    exact .borrowed hb hc hk
  · simp only [hl, ↓reduceIte]
    unfold create_cctx
    cases hcr : ans.createCCtx with
    | none => exact .failed
    | some c =>
      dsimp only
      split
      · exact .made hcr
      · next i hf =>
        obtain ⟨hb, hc⟩ := find_slot_free hf (by simp)
        split
        · next hk => exact .seeded hcr hk hb hc
        · exact .made hcr

/-! ## The pool behind the ring -/

def Req.loan (A : Abi) (q : Req n) : Option (Loan (Fin n) CCtx Nat) :=
  if q.ended then none else q.cctx.map fun c => ⟨c, (q.profile A).key, q.lender⟩

/-- The ring as a lending pool: its slots are the shelves, the requests the holders. -/
def Ring.pool (ring : Ring n) (holds : ReqId → Option (Loan (Fin n) CCtx Nat)) : Lending (Fin n) ReqId CCtx Nat where
  shelf i := (ring.slots i).cctx.map fun c => (c, (ring.slots i).key)
  lent i := (ring.slots i).busy
  holds := holds
  made := ring.created
  freed := ring.freed

def Worker.loans (A : Abi) (w : Worker n) (r : ReqId) : Option (Loan (Fin n) CCtx Nat) :=
  (w.reqs r).bind fun q => q.loan A

def Worker.pool (A : Abi) (w : Worker n) : Lending (Fin n) ReqId CCtx Nat := w.ring.pool (w.loans A)

/-- The keys that may be cached. -/
def Cacheable (key : Nat) : Prop := key ≠ profile_invalid

/-- One move of the pool, or none. -/
def Refines (p p' : Lending (Fin n) ReqId CCtx Nat) : Prop := p' = p ∨ Lending.Move Cacheable p p'

theorem pool_put (A : Abi) (w : Worker n) (r : ReqId) (ring : Ring n) (q : Req n) :
    (w.put r ring q).pool A = ring.pool (Function.update (w.loans A) r (q.loan A)) := by
  unfold Worker.pool
  congr 1
  funext r'
  simp only [Worker.loans, Worker.put]
  by_cases h : r' = r
  · subst h
    simp
  · simp only [Function.update_of_ne h]
    rfl

/-- The pool sees of a ring its slots, its creations and its frees. -/
theorem pool_congr {ring ring' : Ring n} (h1 : ring'.slots = ring.slots) (h2 : ring'.created = ring.created)
    (h3 : ring'.freed = ring.freed) (holds : ReqId → Option (Loan (Fin n) CCtx Nat)) :
    ring'.pool holds = ring.pool holds := by
  unfold Ring.pool
  rw [h1, h2, h3]

theorem loan_of_live {A : Abi} {w : Worker n} {r : ReqId} {q : Req n} (h : w.live r = some q) :
    w.reqs r = some q ∧ q.ended = false ∧
      w.loans A r = q.cctx.map fun c => ⟨c, (q.profile A).key, q.lender⟩ := by
  unfold Worker.live at h
  rw [Option.filter_eq_some_iff] at h
  obtain ⟨h1, h2⟩ := h
  have h3 : q.ended = false := by simpa using h2
  exact ⟨h1, h3, by simp [Worker.loans, h1, Req.loan, h3]⟩

theorem shelf_update (ring : Ring n) (i : Fin n) (slot : CctxSlot) :
    (fun j => (Function.update ring.slots i slot j).cctx.map fun c => (c, (Function.update ring.slots i slot j).key)) =
      Function.update (fun j => (ring.slots j).cctx.map fun c => (c, (ring.slots j).key)) i
        (slot.cctx.map fun c => (c, slot.key)) := by
  funext j
  by_cases h : j = i
  · subst h
    simp
  · simp [Function.update_of_ne h]

theorem lent_update (ring : Ring n) (i : Fin n) (slot : CctxSlot) :
    (fun j => (Function.update ring.slots i slot j).busy) = Function.update (fun j => (ring.slots j).busy) i slot.busy := by
  funext j
  by_cases h : j = i
  · subst h
    simp
  · simp [Function.update_of_ne h]

/-- A call that leaves the request's loan and the ring's pool alone is no move. -/
theorem refines_same {A : Abi} {w : Worker n} {r : ReqId} {ring : Ring n} {q : Req n}
    (h1 : ring.slots = w.ring.slots) (h2 : ring.created = w.ring.created) (h3 : ring.freed = w.ring.freed)
    (hl : q.loan A = w.loans A r) : Refines (w.pool A) ((w.put r ring q).pool A) := by
  refine .inl ?_
  rw [pool_put, hl, Function.update_eq_self, pool_congr h1 h2 h3]
  rfl

theorem SameRequest.loan {q q' : Req n} (hs : SameRequest q q') (he : q.ended = false) (A : Abi) :
    q'.loan A = q'.cctx.map fun c => ⟨c, (q.profile A).key, q'.lender⟩ := by
  unfold Req.loan
  rw [if_neg (by simp [hs.ended, he]), hs.profile A]

theorem fresh_spec {ans : Answers} {ring : Ring n} (h : ans.fresh ring = true) {c : CCtx}
    (hc : ans.createCCtx = some c) (r : ReqId) : (c, r) ∉ ring.created := by
  intro hm
  simp only [Answers.fresh, hc, Option.all_some, List.all_eq_true] at h
  simpa using h _ hm

/-- Acquiring is a borrow, a creation, a creation with seeding, or nothing. -/
theorem acquired_refines {A : Abi} {w : Worker n} {r : ReqId} {q q1 : Req n} {ans : Answers}
    {res : Status × Ring n × Req n} (hlive : w.live r = some q) (hc : q.cctx = none) (hf : ans.fresh w.ring = true)
    (hq1 : SameRequest q q1) (hl : q1.lender = none) (h : Acquired ans w.ring r (q.profile A).key q1 res) :
    Refines (w.pool A) ((w.put r res.2.1 res.2.2).pool A) := by
  obtain ⟨-, hend, hloan⟩ := loan_of_live (A := A) hlive
  rw [hc, Option.map_none] at hloan
  -- the loan of the request afterwards
  have hq' : ∀ (o : Option (Fin n)) (c : CCtx), ({ q1 with cctx := some c, lender := o } : Req n).loan A =
      some ⟨c, (q.profile A).key, o⟩ := fun o c =>
    @SameRequest.loan n q { q1 with cctx := some c, lender := o } ⟨hq1.ctx, hq1.zlcf, hq1.ended⟩ hend A
  cases h with
  | failed => exact refines_same rfl rfl rfl (by simp [Req.loan, hloan])
  | @borrowed i c hb hcc hk =>
    refine .inr ?_
    rw [pool_put, hq']
    have hsame : Function.update w.ring.slots i ⟨some c, (q.profile A).key, true⟩ =
        Function.update w.ring.slots i { w.ring.slots i with busy := true } := by rw [← hcc, ← hk]
    have hshelf : Function.update (fun j => (w.ring.slots j).cctx.map fun c => (c, (w.ring.slots j).key)) i
        (some (c, (q.profile A).key)) = fun j => (w.ring.slots j).cctx.map fun c => (c, (w.ring.slots j).key) := by
      rw [Function.update_eq_self_iff, hcc, hk]
      rfl
    have hm : Lending.Move Cacheable (w.pool A) _ :=
      .borrow (h := r) (i := i) (c := c) (k := (q.profile A).key) hloan
        (by simp only [Worker.pool, Ring.pool, hcc, hk]; rfl) hb
    simpa only [Ring.pool, Worker.pool, shelf_update, lent_update, Option.map_some, hshelf] using hm
  | @made c hcr =>
    refine .inr ?_
    rw [pool_put]
    have := hq' none c
    rw [← hl] at this
    rw [this, hl]
    exact .make _ hloan (fresh_spec hf hcr)
  | @seeded c i hcr hk hb hcc =>
    refine .inr ?_
    rw [pool_put, hq']
    have hm : Lending.Move Cacheable (w.pool A) _ :=
      .seed (h := r) (i := i) (c := c) (k := (q.profile A).key) hloan (fresh_spec hf hcr) hk
        (by simp only [Worker.pool, Ring.pool, hcc]; rfl) hb
    simpa only [Ring.pool, Worker.pool, shelf_update, lent_update, Option.map_some] using hm

end NginxZstd
