import NginxZstd.Ring.Setup
/-!
# Ring safety

Every call in the worker refines the lending pool, so the pool's accounts and
loans hold in every state a worker reaches: the accounts through `exit_process`
and beyond, the loans until it. The contract of the ring is read off them.
-/

namespace NginxZstd

open Lib

variable {n : Nat}

/-! ## Every call is a move -/

theorem acquire_spec {A : Abi} {w : Worker n} {r : ReqId} {q : Req n} {ans : Answers} (hlive : w.live r = some q)
    (hq : q.Ok A) (hc : q.cctx = none) (hf : ans.fresh w.ring = true) {rc : Status} {ring' : Ring n} {q' : Req n}
    (h : acquire_cctx A ans w.ring r q = (rc, ring', q')) :
    Refines (w.pool A) ((w.put r ring' q').pool A) ∧ SameRequest q q' ∧ q'.Ok A ∧ (rc = .ok → q'.cctx ≠ none) := by
  have hloan := (loan_of_live (A := A) hlive).2.2
  rw [hc, Option.map_none] at hloan
  unfold acquire_cctx at h
  cases hadd : ans.cleanup_add with
  | false =>
    simp only [hadd, Bool.false_eq_true, ↓reduceIte, Prod.mk.injEq] at h
    obtain ⟨rfl, rfl, rfl⟩ := h
    exact ⟨refines_same rfl rfl rfl (by simp [Req.loan, hc, hloan]), SameRequest.refl q, hq, by simp⟩
  | true =>
    simp only [hadd, ↓reduceIte] at h
    generalize hq0 : ({ q with cleanups := q.cleanups + 1 } : Req n) = q0 at h
    have hs0 : SameRequest q q0 := by rw [← hq0]; exact ⟨rfl, rfl, rfl⟩
    have hm0 : q0.Memo A := hs0.memo (by rw [← hq0]) hq.memo
    obtain ⟨hs1, hc1, hl1, hn1⟩ := fill_spec A q0
    have hl : (fill_window_log_cache A q0).lender = none := by rw [hl1, ← hq0]; exact hq.idle hc
    have hkey : cctx_profile_from_conf_wlog (fill_window_log_cache A q0).zlcf
        (eff_window_log (fill_window_log_cache A q0)) = (q.profile A).key := by
      rw [eff_fill hm0, hs1.zlcf, hs0.zlcf, hs0.windowFor A]
      rfl
    have hacq := acquire_registered_spec ans w.ring r hl
    rw [hkey, h] at hacq
    have hpos : 0 < (fill_window_log_cache A q0).cleanups := by rw [hn1, ← hq0]; exact Nat.succ_pos _
    have hm1 := fill_memo hm0
    have hsame := hs0.trans hs1
    refine ⟨acquired_refines hlive hc hf hsame hl hacq, ?_⟩
    -- whichever way it ended, only the context and the lender are new
    cases hacq with
    | failed => exact ⟨⟨hsame.ctx, hsame.zlcf, hsame.ended⟩, ⟨fun _ => hl, by simp, hm1⟩, by simp⟩
    | borrowed _ _ _ => exact ⟨⟨hsame.ctx, hsame.zlcf, hsame.ended⟩, ⟨by simp, fun _ => hpos, hm1⟩, by simp⟩
    | made _ => exact ⟨⟨hsame.ctx, hsame.zlcf, hsame.ended⟩, ⟨by simp, fun _ => hpos, hm1⟩, by simp⟩
    | seeded _ _ _ _ => exact ⟨⟨hsame.ctx, hsame.zlcf, hsame.ended⟩, ⟨by simp, fun _ => hpos, hm1⟩, by simp⟩

theorem put_pool_congr {A : Abi} (w : Worker n) (r : ReqId) {ring ring' : Ring n} {q q' : Req n}
    (h1 : ring'.slots = ring.slots) (h2 : ring'.created = ring.created) (h3 : ring'.freed = ring.freed)
    (hl : q'.loan A = q.loan A) : (w.put r ring' q').pool A = (w.put r ring q).pool A := by
  rw [pool_put, pool_put, hl, pool_congr h1 h2 h3]

theorem Touched.loan {A : Abi} {q q' : Req n} (h : Touched A q q') : q'.loan A = q.loan A := by
  unfold Req.loan
  rw [h.same.ended, h.cctx, h.lender, h.same.profile A]

theorem Touched.ok {A : Abi} {q q' : Req n} (h : Touched A q q') (hq : q.Ok A) : q'.Ok A :=
  ⟨by rw [h.cctx, h.lender]; exact hq.idle, by rw [h.cctx, h.cleanups]; exact hq.registered, h.memo hq.memo⟩

/-- `init_cctx` moves the pool at most once, and when it succeeds the request holds
a context with the request's settings. -/
theorem init_spec {A : Abi} {w : Worker n} {r : ReqId} {q : Req n} {ans : Answers} (hlive : w.live r = some q)
    (hq : q.Ok A) (hf : ans.fresh w.ring = true) {rc : Status} {ring' : Ring n} {q' : Req n}
    (h : init_cctx A ans w.ring r q = (rc, ring', q')) :
    Refines (w.pool A) ((w.put r ring' q').pool A) ∧ SameRequest q q' ∧ q'.Ok A ∧
      (rc = .ok → ∃ c, q'.cctx = some c ∧ ring'.settings c = settingsFor A ans q) := by
  unfold init_cctx at h
  cases hc : q.cctx with
  | some c =>
    simp only [hc] at h
    obtain ⟨h1, h2, h3, ht, hok⟩ := configure_spec ans w.ring hq.memo c
    rw [h] at h1 h2 h3 ht hok
    refine ⟨refines_same h1 h2 h3 ?_, ht.same, ht.ok hq, fun hrc => ⟨c, ht.cctx.trans hc, hok hrc⟩⟩
    obtain ⟨hr, -, -⟩ := loan_of_live (A := A) hlive
    rw [ht.loan, Worker.loans, hr, Option.bind_some]
  | none =>
    simp only [hc] at h
    obtain ⟨⟨rc1, ring1, q1⟩, hacq⟩ : ∃ x, acquire_cctx A ans w.ring r q = x := ⟨_, rfl⟩
    obtain ⟨href, hs, hok, hheld⟩ := acquire_spec hlive hq hc hf hacq
    rw [hacq] at h
    cases rc1 with
    | error =>
      simp only [Prod.mk.injEq] at h
      obtain ⟨rfl, rfl, rfl⟩ := h
      exact ⟨href, hs, hok, by simp⟩
    | ok =>
      obtain ⟨c, hc1⟩ := Option.ne_none_iff_exists'.1 (hheld rfl)
      simp only [hc1] at h
      obtain ⟨h1, h2, h3, ht, hset⟩ := configure_spec ans ring1 hok.memo c
      rw [h] at h1 h2 h3 ht hset
      refine ⟨?_, hs.trans ht.same, ht.ok hok, fun hrc => ⟨c, ht.cctx.trans hc1, ?_⟩⟩
      · rw [put_pool_congr w r h1 h2 h3 ht.loan]
        exact href
      · rw [hset hrc]
        unfold settingsFor
        rw [hs.windowFor A, hs.zlcf, hs.ctx]

/-- `return_cctx` gives the context back or frees it. -/
theorem return_spec {A : Abi} {w : Worker n} {r : ReqId} {q : Req n} (hlive : w.live r = some q) (hq : q.Ok A) :
    Refines (w.pool A) ((w.put r (return_cctx w.ring q).1 (return_cctx w.ring q).2).pool A) ∧
      SameRequest q (return_cctx w.ring q).2 ∧ (return_cctx w.ring q).2.Ok A ∧
      (return_cctx w.ring q).2.cctx = none := by
  obtain ⟨hr, hend, hloan⟩ := loan_of_live (A := A) hlive
  have hok : ({ q with cctx := none, lender := none } : Req n).Ok A := ⟨fun _ => rfl, by simp, hq.memo⟩
  have hnone : ({ q with cctx := none, lender := none } : Req n).loan A = none := by simp [Req.loan]
  unfold return_cctx
  cases hc : q.cctx with
  | none =>
    refine ⟨refines_same rfl rfl rfl ?_, SameRequest.refl q, hq, hc⟩
    rw [Worker.loans, hr, Option.bind_some]
  | some c =>
    rw [hc, Option.map_some] at hloan
    cases hl : q.lender with
    | none =>
      rw [hl] at hloan
      refine ⟨.inr ?_, ⟨rfl, rfl, rfl⟩, hok, rfl⟩
      rw [pool_put, hnone]
      exact Lending.Move.release (p := w.pool A) (h := r) hloan rfl
    | some i =>
      rw [hl] at hloan
      dsimp only
      split
      · next hne =>
        refine ⟨.inr ?_, ⟨rfl, rfl, rfl⟩, hok, rfl⟩
        rw [pool_put, hnone]
        have hm : Lending.Move Cacheable (w.pool A) _ :=
          .give_back (i := i) hloan rfl
            (by simpa only [Worker.pool, Ring.pool, ne_eq, Option.map_eq_none_iff] using hne)
        simpa only [Ring.pool, Worker.pool, shelf_update, lent_update, Function.update_eq_self] using hm
      · next he =>
        refine ⟨.inr ?_, ⟨rfl, rfl, rfl⟩, hok, rfl⟩
        rw [pool_put, hnone]
        exact Lending.Move.forget (p := w.pool A) (h := r) (i := i) hloan rfl
          (by simpa only [Worker.pool, Ring.pool, ne_eq, Option.map_eq_none_iff, not_not] using he)

/-- The second and later handlers of the chain find nothing to do. -/
theorem run_cleanups_idle (k : Nat) (ring : Ring n) {q : Req n} (hc : q.cctx = none) :
    run_cleanups k (ring, q) = (ring, q) := by
  induction k with
  | zero => rfl
  | succ k ih =>
    have hr : return_cctx ring q = (ring, q) := by unfold return_cctx; rw [hc]
    rw [run_cleanups, hr]
    exact ih

/-- Destroying the pool is one `return_cctx`, however many handlers are registered. -/
theorem run_cleanups_eq {A : Abi} (ring : Ring n) {q : Req n} (hq : q.Ok A) (hnone : (return_cctx ring q).2.cctx = none) :
    run_cleanups q.cleanups (ring, q) = return_cctx ring q := by
  cases hk : q.cleanups with
  | zero =>
    have hc : q.cctx = none := by
      by_contra hc
      have := hq.registered hc
      omega
    unfold return_cctx
    rw [hc, run_cleanups]
  | succ k =>
    rw [run_cleanups]
    exact run_cleanups_idle k _ hnone

/-! ## `exit_process` retires the shelves -/

theorem exit_slot_pool (ring : Ring n) (i : Fin n) (holds : ReqId → Option (Loan (Fin n) CCtx Nat)) :
    (exit_slot ring i).pool holds = (ring.pool holds).retire i := by
  unfold exit_slot Lending.retire
  cases hc : (ring.slots i).cctx with
  | none => simp [Ring.pool, shelf_update, lent_update, hc]
  | some c => simp [Ring.pool, shelf_update, lent_update, hc]

theorem exit_accounts {holds : ReqId → Option (Loan (Fin n) CCtx Nat)} (is : List (Fin n)) {ring : Ring n}
    (ha : (ring.pool holds).Accounts) : ((is.foldl exit_slot ring).pool holds).Accounts := by
  induction is generalizing ring with
  | nil => exact ha
  | cons i is ih =>
    refine ih ?_
    rw [exit_slot_pool]
    exact ha.retire i

/-- What one iteration leaves of the ring. -/
theorem exit_slot_spec (ring : Ring n) (i : Fin n) :
    ((exit_slot ring i).slots i).cctx = none ∧ (∀ j, j ≠ i → (exit_slot ring i).slots j = ring.slots j) ∧
      (∀ c, (ring.slots i).cctx = some c → c ∈ (exit_slot ring i).freed) ∧
      ∀ c ∈ ring.freed, c ∈ (exit_slot ring i).freed := by
  unfold exit_slot
  cases hc : (ring.slots i).cctx with
  | none => exact ⟨by simp [hc], fun j hj => Function.update_of_ne hj .., by simp, fun c h => h⟩
  | some c =>
    refine ⟨by simp, fun j hj => Function.update_of_ne hj .., ?_, fun c h => List.mem_cons_of_mem _ h⟩
    rintro _ ⟨⟩
    exact List.mem_cons_self

theorem exit_slots_spec (is : List (Fin n)) (ring : Ring n) :
    (∀ i, (ring.slots i).cctx = none → ((is.foldl exit_slot ring).slots i).cctx = none) ∧
      (∀ i ∈ is, ((is.foldl exit_slot ring).slots i).cctx = none) ∧
      (∀ i ∈ is, ∀ c, (ring.slots i).cctx = some c → c ∈ (is.foldl exit_slot ring).freed) ∧
      ∀ c ∈ ring.freed, c ∈ (is.foldl exit_slot ring).freed := by
  induction is generalizing ring with
  | nil => exact ⟨fun _ h => h, by simp, by simp, fun _ h => h⟩
  | cons j is ih =>
    obtain ⟨h1, h2, h3, h4⟩ := exit_slot_spec ring j
    obtain ⟨i1, i2, i3, i4⟩ := ih (exit_slot ring j)
    have hnone : ∀ i, (ring.slots i).cctx = none → ((exit_slot ring j).slots i).cctx = none := by
      intro i hi
      by_cases he : i = j
      · rw [he]; exact h1
      · rw [h2 i he]; exact hi
    refine ⟨fun i hi => i1 i (hnone i hi), ?_, ?_, fun c hc => i4 c (h4 c hc)⟩
    · intro i hi
      rcases List.mem_cons.1 hi with rfl | hi
      · exact i1 i h1
      · exact i2 i hi
    · intro i hi c hc
      by_cases he : i = j
      · subst he
        exact i4 c (h3 c hc)
      · rcases List.mem_cons.1 hi with rfl | hi
        · exact absurd rfl he
        · exact i3 i hi c (by rw [h2 i he]; exact hc)

/-! ## Every reachable worker -/

structure Worker.Inv (A : Abi) (w : Worker n) : Prop where
  reqs : ∀ r q, w.reqs r = some q → q.Ok A
  accounts : (w.pool A).Accounts
  loans : w.exited = false → (w.pool A).Loans Cacheable

theorem start_inv (A : Abi) : (Worker.start n).Inv A where
  reqs := by simp [Worker.start]
  accounts := by constructor <;> simp [Worker.start, Worker.pool, Ring.pool, Ring.empty, Worker.loans]
  loans _ := by constructor <;> simp [Worker.start, Worker.pool, Ring.pool, Ring.empty, Worker.loans]

/-- A call of a request: one move or none, and its context in order. -/
theorem step_refines {A : Abi} {w w' : Worker n} {op : Worker.Op} (hw : w.Inv A) (h : w.step A op = some w')
    (hop : op ≠ .exit_process) :
    Refines (w.pool A) (w'.pool A) ∧ w'.exited = w.exited ∧ ∀ r q, w'.reqs r = some q → q.Ok A := by
  -- the other requests are as they were
  have hput : ∀ {r ring} {q : Req n}, q.Ok A → ∀ r' q', (w.put r ring q).reqs r' = some q' → q'.Ok A := by
    intro r ring q hq r' q' hr'
    simp only [Worker.put] at hr'
    by_cases he : r' = r
    · subst he
      simp only [Function.update_self, Option.some.injEq] at hr'
      exact hr' ▸ hq
    · simp only [Function.update_of_ne he] at hr'
      exact hw.reqs r' q' hr'
  cases op with
  | exit_process => exact absurd rfl hop
  | open_request r zlcf ctx =>
    simp only [Worker.step] at h
    split at h
    · next hr =>
      simp only [Option.some.injEq] at h
      subst h
      refine ⟨refines_same rfl rfl rfl ?_, rfl, hput ⟨fun _ => rfl, by simp [Req.start], .inl rfl⟩⟩
      simp [Req.loan, Req.start, Worker.loans, hr]
    · exact absurd h (by simp)
  | init_cctx r ans =>
    simp only [Worker.step] at h
    split at h
    · next q hlive =>
      split at h
      · next hf =>
        simp only [Option.some.injEq] at h
        subst h
        obtain ⟨href, -, hok, -⟩ := init_spec (A := A) hlive (hw.reqs r q (loan_of_live (A := A) hlive).1) hf rfl
        exact ⟨href, rfl, hput hok⟩
      · exact absurd h (by simp)
    · exact absurd h (by simp)
  | return_cctx r =>
    simp only [Worker.step] at h
    split at h
    · next q hlive =>
      simp only [Option.some.injEq] at h
      subst h
      obtain ⟨href, -, hok, -⟩ := return_spec (A := A) hlive (hw.reqs r q (loan_of_live (A := A) hlive).1)
      exact ⟨href, rfl, hput hok⟩
    · exact absurd h (by simp)
  | destroy_pool r =>
    simp only [Worker.step] at h
    split at h
    · next q hlive =>
      have hq := hw.reqs r q (loan_of_live (A := A) hlive).1
      obtain ⟨href, -, hok, hnone⟩ := return_spec (A := A) hlive hq
      rw [run_cleanups_eq w.ring hq hnone, Option.some.injEq] at h
      subst h
      refine ⟨?_, rfl, hput ⟨fun _ => hok.idle hnone, fun hc => absurd hnone hc, hok.memo⟩⟩
      rw [put_pool_congr (A := A) w r rfl rfl rfl (q := (return_cctx w.ring q).2) (by simp [Req.loan, hnone])]
      exact href
    · exact absurd h (by simp)

theorem step_inv {A : Abi} {w w' : Worker n} {op : Worker.Op} (hw : w.Inv A) (h : w.step A op = some w') :
    w'.Inv A := by
  by_cases hop : op = .exit_process
  · subst hop
    simp only [Worker.step, Option.some.injEq] at h
    subst h
    exact ⟨hw.reqs, exit_accounts _ hw.accounts, by simp⟩
  · obtain ⟨href, hex, hreqs⟩ := step_refines hw h hop
    rcases href with he | hm
    · exact ⟨hreqs, he ▸ hw.accounts, fun hx => he ▸ hw.loans (hex ▸ hx)⟩
    · exact ⟨hreqs, hw.accounts.move hm, fun hx => (hw.loans (hex ▸ hx)).move hm⟩

theorem reaches_inv {A : Abi} {w : Worker n} (h : Reaches (Worker.step A) Any (Worker.start n) w) : w.Inv A :=
  h.invariant (Worker.Inv A) (start_inv A) fun _ _ _ hw _ hs => step_inv hw hs

/-! ## The contract -/

/-- A live request that has slot `i` as its lender and holds the slot's context. -/
def Borrows (w : Worker n) (r : ReqId) (i : Fin n) : Prop :=
  ∃ q c, w.live r = some q ∧ q.lender = some i ∧ q.cctx = some c ∧ (w.ring.slots i).cctx = some c

/-- A live request that holds `c`. -/
def Holds (w : Worker n) (r : ReqId) (c : CCtx) : Prop := ∃ q, w.live r = some q ∧ q.cctx = some c

def InRing (w : Worker n) (c : CCtx) : Prop := ∃ i, (w.ring.slots i).cctx = some c

/-- The request's pool, and with it the cleanup, has run. -/
def CleanedUp (w : Worker n) (r : ReqId) : Prop := ∃ q, w.reqs r = some q ∧ q.ended = true

theorem holds_iff {A : Abi} {w : Worker n} {r : ReqId} {l : Loan (Fin n) CCtx Nat} :
    w.loans A r = some l ↔
      ∃ q, w.live r = some q ∧ q.cctx = some l.handle ∧ q.lender = l.slot ∧ (q.profile A).key = l.key := by
  constructor
  · intro h
    unfold Worker.loans at h
    obtain ⟨q, hr, hq⟩ := Option.bind_eq_some_iff.1 h
    unfold Req.loan at hq
    split at hq
    · simp at hq
    · next he =>
      obtain ⟨c, hc, hl⟩ := Option.map_eq_some_iff.1 hq
      refine ⟨q, by simp [Worker.live, hr, he], ?_⟩
      rw [← hl]
      exact ⟨hc, rfl, rfl⟩
  · rintro ⟨q, hlive, hc, hl, hk⟩
    rw [(loan_of_live (A := A) hlive).2.2, hc, hl, hk]
    rfl

theorem Holds.loan {w : Worker n} {r : ReqId} {c : CCtx} (h : Holds w r c) (A : Abi) :
    ∃ l, w.loans A r = some l ∧ l.handle = c := by
  obtain ⟨q, hlive, hc⟩ := h
  exact ⟨⟨c, (q.profile A).key, q.lender⟩, holds_iff.2 ⟨q, hlive, hc, rfl, rfl⟩, rfl⟩

theorem shelf_iff {A : Abi} {w : Worker n} {i : Fin n} {c : CCtx} {k : Nat} :
    (w.pool A).shelf i = some (c, k) ↔ (w.ring.slots i).cctx = some c ∧ (w.ring.slots i).key = k := by
  simp [Worker.pool, Ring.pool]

/-- A lender lends to the request what it holds, under the request's key. -/
theorem Worker.Inv.lender {A : Abi} {w : Worker n} (hw : w.Inv A) (hx : w.exited = false) {r : ReqId} {q : Req n}
    {i : Fin n} (hlive : w.live r = some q) (hl : q.lender = some i) :
    (w.ring.slots i).busy = true ∧ ∃ c, q.cctx = some c ∧ (w.ring.slots i).cctx = some c ∧
      (w.ring.slots i).key = (q.profile A).key := by
  obtain ⟨hr, -, hloan⟩ := loan_of_live (A := A) hlive
  have hc : q.cctx ≠ none := fun hc => by
    have := (hw.reqs r q hr).idle hc
    simp [hl] at this
  obtain ⟨c, hc⟩ := Option.ne_none_iff_exists'.1 hc
  rw [hc, hl, Option.map_some] at hloan
  obtain ⟨h1, h2⟩ := (hw.loans hx).on_shelf (h := r) hloan rfl
  obtain ⟨h3, h4⟩ := shelf_iff.1 h2
  exact ⟨h1, c, hc, h3, h4⟩

theorem Worker.Inv.busy_iff {A : Abi} {w : Worker n} (hw : w.Inv A) (hx : w.exited = false) (i : Fin n) :
    (w.ring.slots i).busy = true ↔ ∃! r, Borrows w r i := by
  constructor
  · intro hb
    obtain ⟨r, l, hl, hs⟩ := (hw.loans hx).borrowed (i := i) hb
    obtain ⟨q, hlive, hc, hlend, -⟩ := holds_iff.1 hl
    obtain ⟨h1, -⟩ := shelf_iff.1 ((hw.loans hx).on_shelf hl hs).2
    refine ⟨r, ⟨q, l.handle, hlive, hlend.trans hs, hc, h1⟩, ?_⟩
    rintro r' ⟨q', c', hlive', hlend', hc', -⟩
    have hl' : w.loans A r' = some ⟨c', (q'.profile A).key, some i⟩ :=
      holds_iff.2 ⟨q', hlive', hc', hlend', rfl⟩
    exact (hw.loans hx).one_holder hl' hl rfl hs
  · rintro ⟨r, ⟨q, c, hlive, hlend, -, -⟩, -⟩
    exact (hw.lender hx hlive hlend).1

/-- Until `exit_process` a seeded slot keeps its context and its key. -/
theorem slot_kept {A : Abi} {w w' : Worker n} (hw : w.Inv A) (h : Reaches (Worker.step A) Any w w')
    (hx : w'.exited = false) {i : Fin n} {c : CCtx} (hc : (w.ring.slots i).cctx = some c) :
    (w'.ring.slots i).cctx = some c ∧ (w'.ring.slots i).key = (w.ring.slots i).key := by
  have key : w'.Inv A ∧ (w'.exited = false → (w'.pool A).shelf i = some (c, (w.ring.slots i).key)) := by
    refine h.invariant (fun v => v.Inv A ∧ (v.exited = false → (v.pool A).shelf i = some (c, (w.ring.slots i).key)))
      ⟨hw, fun _ => shelf_iff.2 ⟨hc, rfl⟩⟩ ?_
    rintro v op v' ⟨hv, hs⟩ - hstep
    refine ⟨step_inv hv hstep, fun hx' => ?_⟩
    by_cases hop : op = .exit_process
    · subst hop
      simp only [Worker.step, Option.some.injEq] at hstep
      subst hstep
      simp at hx'
    · obtain ⟨href, hex, -⟩ := step_refines hv hstep hop
      rcases href with he | hm
      · rw [he]
        exact hs (hex ▸ hx')
      · exact hm.shelf_kept (hs (hex ▸ hx'))
  exact shelf_iff.1 (key.2 hx)

theorem c_int_small {v : Int} (h0 : 0 ≤ v) (h1 : v ≤ 63) : c_int v = v := by
  unfold c_int
  rw [Int.bmod_eq_of_le (by omega) (by omega)]

/-- The window set on a borrowed context is the window in the slot's key. -/
theorem init_window {A : Abi} {w : Worker n} (hw : w.Inv A) (hx : w.exited = false) {r : ReqId} {q q' : Req n}
    {ans : Answers} {ring' : Ring n} {i : Fin n} (hlive : w.live r = some q) (hf : ans.fresh w.ring = true)
    (h : init_cctx A ans w.ring r q = (.ok, ring', q')) (hl : q'.lender = some i) :
    ∃ c, q'.cctx = some c ∧ (ring'.slots i).cctx = some c ∧ (ring'.settings c).param .windowLog =
      if (profile_unpack (ring'.slots i).key).window_log = 0 then none
      else some (profile_unpack (ring'.slots i).key).window_log := by
  obtain ⟨hr, hend, -⟩ := loan_of_live (A := A) hlive
  obtain ⟨-, hs, -, hok⟩ := init_spec hlive (hw.reqs r q hr) hf h
  obtain ⟨c, hc, hset⟩ := hok rfl
  have hstep : w.step A (.init_cctx r ans) = some (w.put r ring' q') := by
    simp only [Worker.step, hlive, hf, ↓reduceIte, h]
  have hw' := step_inv hw hstep
  have hlive' : (w.put r ring' q').live r = some q' := by
    simp [Worker.live, Worker.put, hs.ended, hend]
  obtain ⟨-, c', hc', hslot, hkey⟩ := hw'.lender hx hlive' hl
  obtain rfl : c = c' := by simpa [hc] using hc'
  have hvalid := (hw'.loans hx).valid_key (shelf_iff.2 ⟨hslot, rfl⟩)
  rw [hkey] at hvalid
  have hadm := (q'.profile A).key_ne_invalid_iff.1 hvalid
  refine ⟨c, hc, hslot, ?_⟩
  have hslots : (w.put r ring' q').ring.slots i = ring'.slots i := rfl
  rw [hslots] at hkey
  rw [hset, hkey, profile_unpack_key hadm, hs.profile A]
  rw [hs.profile A] at hadm
  obtain ⟨-, -, h0, h63⟩ := hadm
  have hset' : (settingsFor A ans q).param .windowLog =
      if (q.profile A).window_log > 0 then some (c_int (q.profile A).window_log) else none := rfl
  rw [hset']
  by_cases hz : (q.profile A).window_log = 0
  · rw [if_neg (by omega), if_pos hz]
  · rw [if_pos (by omega), if_neg hz, c_int_small h0 h63]

/-- The contract of the ring, in every state of every worker. -/
theorem cctx_ring_safe (A : Abi) {w : Worker n} (h : Reaches (Worker.step A) Any (Worker.start n) w) :
    (w.exited = false →
      (∀ i, (w.ring.slots i).busy = true ↔ ∃! r, Borrows w r i) ∧
      (∀ r q i, w.live r = some q → q.lender = some i →
        Borrows w r i ∧ (w.ring.slots i).key = (q.profile A).key) ∧
      (∀ r r' c, Holds w r c → Holds w r' c → r = r') ∧
      (∀ i, (w.ring.slots i).cctx ≠ none → (w.ring.slots i).key ≠ profile_invalid) ∧
      (∀ w' i c, Reaches (Worker.step A) Any w w' → w'.exited = false → (w.ring.slots i).cctx = some c →
        (w'.ring.slots i).cctx = some c ∧ (w'.ring.slots i).key = (w.ring.slots i).key) ∧
      (∀ r q ans ring' q' i, w.live r = some q → ans.fresh w.ring = true →
        init_cctx A ans w.ring r q = (.ok, ring', q') → q'.lender = some i →
        ∃ c, q'.cctx = some c ∧ (ring'.slots i).cctx = some c ∧ (ring'.settings c).param .windowLog =
          if (profile_unpack (ring'.slots i).key).window_log = 0 then none
          else some (profile_unpack (ring'.slots i).key).window_log) ∧
      (∀ c, InRing w c → w.ring.freed.count c = 0) ∧
      (∀ r c, Holds w r c → w.ring.freed.count c = 0)) ∧
    (∀ p p' : Profile, p.Admitted → p'.Admitted → p.key = p'.key → p = p') ∧
    (∀ c r, (c, r) ∈ w.ring.created → ¬ InRing w c → CleanedUp w r → w.ring.freed.count c = 1) ∧
    (∀ w' c, w.step A .exit_process = some w' → InRing w c → w'.ring.freed.count c = 1 ∧ ¬ InRing w' c) ∧
    ∀ c, w.ring.freed.count c ≤ 1 := by
  have hw := reaches_inv h
  have hcount : ∀ {v : Worker n}, v.Inv A → ∀ c, c ∈ v.ring.freed → v.ring.freed.count c = 1 :=
    fun hv c hc => List.count_eq_one_of_mem hv.accounts.freed_once hc
  refine ⟨fun hx => ⟨hw.busy_iff hx, ?_, ?_, ?_, fun w' i c hr hx' hc => slot_kept hw hr hx' hc,
    fun r q ans ring' q' i hlive hf hi hl => init_window hw hx hlive hf hi hl, ?_, ?_⟩,
    fun p p' hp hp' he => Profile.key_injective hp hp' he, ?_, ?_, ?_⟩
  · intro r q i hlive hl
    obtain ⟨-, c, hc, hs, hk⟩ := hw.lender hx hlive hl
    exact ⟨⟨q, c, hlive, hl, hc, hs⟩, hk⟩
  · intro r r' c hr hr'
    obtain ⟨l, hl, he⟩ := hr.loan A
    obtain ⟨l', hl', he'⟩ := hr'.loan A
    exact Lending.exclusive hw.accounts (hw.loans hx) hl hl' (he.trans he'.symm)
  · intro i hne
    obtain ⟨c, hc⟩ := Option.ne_none_iff_exists'.1 hne
    exact (hw.loans hx).valid_key (shelf_iff.2 ⟨hc, rfl⟩)
  · rintro c ⟨i, hi⟩
    exact List.count_eq_zero.2 (hw.accounts.shelf_made (shelf_iff.2 ⟨hi, rfl⟩)).2
  · intro r c hr
    obtain ⟨l, hl, rfl⟩ := hr.loan A
    exact List.count_eq_zero.2 (Lending.held_not_freed hw.accounts (hw.loans hx) hl)
  · rintro c r hm hring ⟨q, hr, hend⟩
    refine hcount hw c (hw.accounts.released hm ?_ fun i k hi => hring ⟨i, (shelf_iff.1 hi).1⟩)
    have : w.loans A r = none := by simp [Worker.loans, hr, Req.loan, hend]
    exact this
  · rintro w' c hs ⟨i, hi⟩
    have hw' := step_inv hw hs
    simp only [Worker.step, Option.some.injEq] at hs
    subst hs
    obtain ⟨-, h2, h3, -⟩ := exit_slots_spec (List.finRange n) w.ring
    refine ⟨hcount hw' c (h3 i (List.mem_finRange i) c hi), ?_⟩
    rintro ⟨j, hj⟩
    have := h2 j (List.mem_finRange j)
    simp only [exit_process] at hj
    simp [this] at hj
  · intro c
    by_cases hc : c ∈ w.ring.freed
    · exact (hcount hw c hc).le
    · rw [List.count_eq_zero.2 hc]
      exact Nat.zero_le 1

/-- The answers of a call in which nothing fails. -/
def Answers.granted (c : CCtx) : Answers := ⟨true, some c, true, fun _ => true, true, true⟩

/-- Two overlapping requests of one location, and a third after the first is done. -/
def overlapOps : List Worker.Op :=
  let ctx : FilterCtx := ⟨none, -1⟩
  [.open_request 0 oneDictConf ctx, .init_cctx 0 (.granted 100), .open_request 1 oneDictConf ctx,
    .init_cctx 1 (.granted 101), .return_cctx 0, .open_request 2 oneDictConf ctx, .init_cctx 2 (.granted 102)]

/-- The third request borrows the context the first one seeded. -/
theorem cctx_ring_safe_overlap : ∃ w : Worker 4,
    run (Worker.step ⟨64, 64, .inr rfl, .inr rfl⟩) (Worker.start 4) overlapOps = some w ∧
      (w.ring.slots 0).cctx = some 100 ∧ Borrows w 2 0 ∧ ∃! r, Borrows w r 0 := by
  obtain ⟨w, hw⟩ := Option.isSome_iff_exists.1
    (by decide : (run (Worker.step ⟨64, 64, .inr rfl, .inr rfl⟩) (Worker.start 4) overlapOps).isSome = true)
  have hsees : (run (Worker.step ⟨64, 64, .inr rfl, .inr rfl⟩) (Worker.start 4) overlapOps).map
      (fun w => (w.exited, (w.ring.slots 0).cctx, (w.ring.slots 0).busy, (w.live 2).map fun q => (q.lender, q.cctx))) =
      some (false, some 100, true, some (some 0, some 100)) := by rfl
  simp only [hw, Option.map_some, Option.some.injEq, Prod.mk.injEq, Option.map_eq_some_iff] at hsees
  obtain ⟨hx, hc, hb, q, hq, hl, hcc⟩ := hsees
  have hsafe := (cctx_ring_safe _ (reaches_of_run hw (meets_any _ _))).1 hx
  exact ⟨w, hw, hc, ⟨q, 100, hq, hl, hcc, hc⟩, (hsafe.1 0).1 hb⟩

end NginxZstd
