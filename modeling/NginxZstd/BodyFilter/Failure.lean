import NginxZstd.BodyFilter.Flags
/-!
# Failing the request

The cap on the input, which the filter checks against the running total of what it
dequeued, and what becomes of a request after a failure.
-/

namespace NginxZstd

open Lib

variable {Z : Compressor} {E : BodyEnv}

/-! ## The input cap -/

/-- The bytes dequeued so far: libzstd has consumed them or is offered them next. -/
def BodyCtx.total (ctx : BodyCtx Z) : Nat := (ctx.consumed ++ ctx.buffer_in.unread).length

/-- `bytes_in` counts what was dequeued, which was all delivered. -/
structure Counted (ctx : BodyCtx Z) (cursor : List InBuf) (delivered : Bytes) : Prop where
  bytes_in : ctx.bytes_in = ctx.total % 2 ^ 64
  bound : ctx.total + (bytesOf (ctx.in_chain ++ cursor)).length ≤ delivered.length

theorem Counted.congr {ctx ctx' : BodyCtx Z} {cursor cursor' : List InBuf} {delivered delivered' : Bytes}
    (h : Counted ctx cursor delivered) (ht : ctx'.total = ctx.total) (hb : ctx'.bytes_in = ctx.bytes_in)
    (hq : (bytesOf (ctx'.in_chain ++ cursor')).length + delivered.length ≤
      (bytesOf (ctx.in_chain ++ cursor)).length + delivered'.length) : Counted ctx' cursor' delivered' := by
  refine ⟨by rw [hb, ht, h.bytes_in], ?_⟩
  have := h.bound
  rw [ht]
  omega

/-- Below 2^64 the counter is exact. -/
theorem Counted.exact {ctx : BodyCtx Z} {cursor : List InBuf} {delivered : Bytes} (h : Counted ctx cursor delivered)
    (hlen : delivered.length < 2 ^ 64) : ctx.bytes_in = ctx.total := by
  have := h.bound
  rw [h.bytes_in, Nat.mod_eq_of_lt (by omega)]

/-- The link `add_data` is about to take, if any. -/
def nextLink (s : BodyState Z) : Option InBuf :=
  if s.ctx.buffer_in.pos < s.ctx.buffer_in.src.length ∨ s.ctx.flush ∨ s.ctx.last ∨ s.ctx.redo then none
  else (s.ctx.in_chain ++ s.cursor).head?

/-- A dequeued link adds its length to the total. -/
theorem Counted.add_data {s : BodyState Z} {ctx : BodyCtx Z} {cursor : List InBuf} {rc : Rc}
    (h : Counted s.ctx s.cursor s.delivered) (ha : add_data s.ctx s.cursor = (rc, ctx, cursor)) :
    Counted ctx cursor s.delivered ∧ ctx.total = s.ctx.total + ((nextLink s).map (·.data.length)).getD 0 := by
  unfold nextLink
  rcases add_data_cases ha with ⟨hc, -, rfl, rfl⟩ | ⟨hc, ⟨hin, hcur, -, rfl, rfl⟩ | ⟨b, q, hq, hl⟩⟩
  · rw [if_pos hc]
    exact ⟨h, rfl⟩
  · rw [if_neg hc, hin, hcur]
    rw [hcur] at h
    exact ⟨h, rfl⟩
  · have hu : s.ctx.buffer_in.unread = [] := unread_nil_of_not_lt fun hlt => hc (.inl hlt)
    have ht : s.ctx.total = s.ctx.consumed.length := by simp [BodyCtx.total, hu]
    have hbound := h.bound
    rw [hq] at hbound
    simp only [bytesOf, List.flatMap_cons, List.length_append] at hbound
    rw [if_neg hc, hq]
    unfold load_buf at hl
    rw [note_signals_eq] at hl
    dsimp only at hl
    split at hl
    · next h0 =>
      simp only [Prod.mk.injEq] at hl
      obtain ⟨-, rfl⟩ := hl
      refine ⟨h.congr rfl rfl ?_, ?_⟩
      · rw [hq]
        simp only [bytesOf, List.flatMap_cons, List.length_append]
        omega
      · simp [h0, BodyCtx.total]
    · simp only [Prod.mk.injEq] at hl
      obtain ⟨-, rfl⟩ := hl
      have htot : ∀ (x : Nat) (f l : Bool), BodyCtx.total { s.ctx with
          in_chain := q, in_buf := some b, last := l, flush := f, buffer_in := ⟨b.data, 0⟩, bytes_in := x } =
          s.ctx.total + b.data.length := by
        intro x f l
        rw [ht]
        simp [BodyCtx.total, InBuffer.unread]
      refine ⟨⟨?_, ?_⟩, ?_⟩
      · rw [htot]
        show (s.ctx.bytes_in + b.data.length) % 2 ^ 64 = _
        rw [h.bytes_in, Nat.mod_add_mod]
      · rw [htot]
        show _ + (bytesOf (q ++ cursor)).length ≤ _
        simp only [bytesOf]
        omega
      · rw [htot]
        rfl

/-- A link that is skipped has no data. -/
theorem total_of_not_ok {ctx ctx' : BodyCtx Z} {cursor cursor' : List InBuf} {rc : Rc}
    (ha : add_data ctx cursor = (rc, ctx', cursor')) (hrc : rc ≠ .ok) : ctx'.total = ctx.total := by
  rcases add_data_cases ha with ⟨-, rfl, -, -⟩ | ⟨-, ⟨-, -, -, rfl, -⟩ | ⟨b, q, -, hl⟩⟩
  · exact absurd rfl hrc
  · rfl
  · unfold load_buf at hl
    rw [note_signals_eq] at hl
    dsimp only at hl
    split at hl
    · simp only [Prod.mk.injEq] at hl
      obtain ⟨-, rfl⟩ := hl
      rfl
    · simp only [Prod.mk.injEq] at hl
      exact absurd hl.1.symm hrc

theorem max_length_exceeded_iff {n : Nat} {m : Int} (h0 : 0 ≤ m) :
    max_length_exceeded n (some m) = true ↔ m.toNat < n := by
  simp [max_length_exceeded, h0]

/-- The counter is right, and no total above the cap was let through. -/
structure Capped (E : BodyEnv) (s : BodyState Z) : Prop where
  counted : Counted s.ctx s.cursor s.delivered
  below : ∀ m, E.zlcf.max_length = some m → 0 ≤ m → s.delivered.length < 2 ^ 64 → s.ctx.total ≤ m.toNat

theorem Capped.start : Capped E (BodyState.start Z) where
  counted := ⟨rfl, Nat.le_refl _⟩
  below _ _ _ _ := Nat.zero_le _

theorem Capped.congr {s s' : BodyState Z} (h : Capped E s) (ht : s'.ctx.total = s.ctx.total)
    (hb : s'.ctx.bytes_in = s.ctx.bytes_in) (hd : s.delivered.length ≤ s'.delivered.length)
    (hq : (bytesOf (s'.ctx.in_chain ++ s'.cursor)).length + s.delivered.length ≤
      (bytesOf (s.ctx.in_chain ++ s.cursor)).length + s'.delivered.length) : Capped E s' := by
  refine ⟨h.counted.congr ht hb hq, fun m hm h0 hlen => ?_⟩
  rw [ht]
  exact h.below m hm h0 (Nat.lt_of_le_of_lt hd hlen)

/-- Behind the check the total is within the cap. -/
theorem Capped.checked {s : BodyState Z} {c : BodyCtx Z} {cursor : List InBuf} (h : Capped E s)
    (ha : add_data s.ctx s.cursor = (.ok, c, cursor))
    (hm : max_length_exceeded c.bytes_in E.zlcf.max_length = false) : Capped E { s with ctx := c, cursor := cursor } := by
  obtain ⟨hc, -⟩ := h.counted.add_data ha
  refine ⟨hc, fun m hmax h0 hlen => ?_⟩
  rw [hmax, hc.exact hlen] at hm
  exact Nat.le_of_not_lt fun hlt => by simp [(max_length_exceeded_iff h0).2 hlt] at hm

theorem compress_total {c ctx : BodyCtx Z} {no_more_input link : Bool} {rc : Rc}
    (hc : filter_compress c no_more_input link = (rc, ctx)) (hrc : rc ≠ .error) : ctx.total = c.total := by
  obtain ⟨r, -, -, -, -, ib, bo, heap, a, d, b, f, dn, n, o, ob, rfl⟩ := compress_frame hc hrc
  unfold BodyCtx.total
  dsimp only
  rw [InBuffer.unread_advance, List.append_assoc, List.take_append_drop]

theorem Capped.move {s s' : BodyState Z} {op : BodyOp} (h : Capped E s) (hm : BodyMove E s op s') : Capped E s' := by
  cases hm with
  | pass hpc hd => exact h.congr rfl rfl (by simp [deliver]) (by simp [deliver])
  | noop hpc hd hh hr hi hb => exact h.congr rfl rfl (by simp [deliver]) (by simp [deliver])
  | begin_loop b hpc hd hh hn | resume b hpc hd hh hn =>
    refine h.congr rfl rfl (by simp [deliver]) ?_
    simp only [deliver, recycle, bytesOf_append, List.length_append]
    omega
  | read hpc => exact h.congr rfl rfl (Nat.le_refl _) (Nat.le_refl _)
  | skip hpc ha | dry hpc ha =>
    obtain ⟨hc, -⟩ := h.counted.add_data ha
    refine ⟨hc, fun m hmax h0 hlen => ?_⟩
    show BodyCtx.total _ ≤ _
    rw [total_of_not_ok ha (by simp)]
    exact h.below m hmax h0 hlen
  | starve hpc ha hm hg =>
    have hc := h.checked ha hm
    obtain ⟨fr, ob, n, bo, heap, hs, nm, rfl⟩ := get_buf_frame hg
    exact hc.congr rfl rfl (Nat.le_refl _) (Nat.le_refl _)
  | work hpc ha hm hg hc hrc =>
    have hcap := h.checked ha hm
    have htot := compress_total hc hrc
    obtain ⟨fr, ob, n, bo, heap, hs, nm, rfl⟩ := get_buf_frame hg
    obtain ⟨r, -, -, -, -, ib, bo, heap, a, d, b, f, dn, n, o, ob, rfl⟩ := compress_frame hc hrc
    exact hcap.congr htot rfl (Nat.le_refl _) (Nat.le_refl _)
  | keep hpc ho hf => exact h.congr rfl rfl (Nat.le_refl _) (by simp)
  | give hpc ho hr =>
    refine h.congr rfl rfl (Nat.le_refl _) ?_
    simp only [pass_out, recycle, bytesOf_append, List.length_append]
    split
    · simp [bytesOf]
    · exact Nat.le_refl _

/-- The check of the iteration at `s` fires. -/
def CapExceeded (E : BodyEnv) (s : BodyState Z) : Prop :=
  ∃ c cursor, add_data s.ctx s.cursor = (.ok, c, cursor) ∧ max_length_exceeded c.bytes_in E.zlcf.max_length = true

/-- However the body is split and drained: no call is offered more than the cap in
total, and an iteration fails at the check exactly when it dequeues a link that
brings a total within the cap above it. -/
theorem input_cap {m : Int} (hmax : E.zlcf.max_length = some m) (h0 : 0 ≤ m) {s : BodyState Z}
    (h : Reaches (body_step E) Any (BodyState.start Z) s) (hf : s.ctx.aborted = false)
    (hlen : s.delivered.length < 2 ^ 64) :
    (∀ op c no_more_input, CallsAt E s op c no_more_input → (c.consumed ++ c.buffer_in.unread).length ≤ m.toNat) ∧
    (CapExceeded E s ↔ ∃ b, nextLink s = some b ∧ s.ctx.total ≤ m.toNat ∧ m.toNat < s.ctx.total + b.data.length) ∧
    (CapExceeded E s → ∀ palloc link, (iterate E s palloc link).ctx.aborted = true) := by
  have hi : Capped E s := body_invariant (Capped E) h hf .start fun _ _ _ hi _ hm => hi.move hm
  have hbelow := hi.below m hmax h0 hlen
  refine ⟨fun op c nmi hat => ?_, ⟨?_, ?_⟩, ?_⟩
  · cases hat with
    | intro hpc ha hm hg =>
      have hb := (hi.checked ha hm).below m hmax h0 hlen
      obtain ⟨fr, ob, n, bo, heap, hs, nm, rfl⟩ := get_buf_frame hg
      exact hb
  · rintro ⟨c, cursor, ha, hexc⟩
    obtain ⟨hc, htot⟩ := hi.counted.add_data ha
    rw [hmax, max_length_exceeded_iff h0, hc.exact hlen, htot] at hexc
    cases hn : nextLink s with
    | none =>
      rw [hn] at hexc
      exact absurd hexc (Nat.not_lt_of_le hbelow)
    | some b =>
      rw [hn] at hexc
      exact ⟨b, rfl, hbelow, hexc⟩
  · rintro ⟨b, hn, -, hlt⟩
    generalize ha : add_data s.ctx s.cursor = res
    obtain ⟨rc, c, cursor⟩ := res
    obtain ⟨hc, htot⟩ := hi.counted.add_data ha
    rw [hn] at htot
    have hrc : rc = .ok := by
      by_contra hrc
      have := total_of_not_ok ha hrc
      have htot' : c.total = s.ctx.total + b.data.length := htot
      omega
    subst hrc
    refine ⟨c, cursor, ha, ?_⟩
    rw [hmax, max_length_exceeded_iff h0, hc.exact hlen, htot]
    exact hlt
  · rintro ⟨c, cursor, ha, hexc⟩ palloc link
    unfold iterate feed
    simp only [ha, hexc, ↓reduceIte]
    rfl

/-- The body `1 2`, then a link that goes beyond a cap of two bytes. -/
def cappedOps : List BodyOp :=
  [.callback [⟨[1, 2], false, false⟩, ⟨[3], false, true⟩] true slow, .iterate true true]

theorem input_cap_two_bytes : ∃ s : BodyState (.blocks 2),
    run (body_step (sampleEnv 2 8 (some 2) none)) (BodyState.start _) cappedOps = some s ∧ s.ctx.total = 2 ∧
      CapExceeded (sampleEnv 2 8 (some 2) none) s ∧
      (iterate (sampleEnv 2 8 (some 2) none) s true true).ctx.aborted = true := by
  have hsees : (run (body_step (Z := .blocks 2) (sampleEnv 2 8 (some 2) none)) (BodyState.start _) cappedOps).map
      (fun s => (s.ctx.aborted, s.delivered, s.ctx.total, nextLink s)) =
      some (false, [1, 2, 3], 2, some ⟨[3], false, true⟩) := by rfl
  obtain ⟨s, hs, hsees⟩ := Option.map_eq_some_iff.1 hsees
  simp only [Prod.mk.injEq] at hsees
  obtain ⟨hf, hd, ht, hn⟩ := hsees
  obtain ⟨-, hiff, hfails⟩ := input_cap (E := sampleEnv 2 8 (some 2) none) rfl (by decide)
    (reaches_of_run hs (meets_any _ _)) hf (by rw [hd]; decide)
  have hexc := hiff.2 ⟨_, hn, by rw [ht]; decide, by rw [ht]; decide⟩
  exact ⟨s, hs, ht, hexc, hfails hexc true true⟩

/-! ## After a failure -/

/-- A failed request is done, and stays so. -/
theorem failed_done {ok : BodyState Z → BodyOp → Prop} {s : BodyState Z}
    (h : Reaches (body_step E) ok (BodyState.start Z) s) (ha : s.ctx.aborted = true) :
    s.ctx.done = true ∧ s.pc = .idle := by
  refine h.invariant (fun s => s.ctx.aborted = true → s.ctx.done = true ∧ s.pc = .idle) ?_ ?_ ha
  · intro ha
    simp [BodyState.start, BodyCtx.start] at ha
  · intro t op u hi _ hu hau
    rcases body_step_cases hu with hm | ⟨v, rfl⟩
    · obtain ⟨hd, hpc⟩ := hi (hm.aborted ▸ hau)
      cases hm with
      | pass hpc' hd' => exact ⟨hd, hpc⟩
      | read hpc' => exact ⟨hd, hpc⟩
      | noop hpc' hd' hh hr hi hb => exact ⟨hd, hpc⟩
      | begin_loop b hpc' hd' hh hn | resume b hpc' hd' hh hn =>
        rw [hd] at hd'
        simp at hd'
      | skip hpc' ha | dry hpc' ha | starve hpc' ha hm hg | work hpc' ha hm hg hc hrc | keep hpc' ho hf
      | give hpc' ho hr =>
        rw [hpc] at hpc'
        simp at hpc'
    · exact ⟨rfl, rfl⟩

/-- The chain an operation delivers. -/
def BodyOp.chain : BodyOp → List InBuf
  | .callback chain _ _ => chain
  | _ => []

/-- After a failure a callback passes on the chain it is given. -/
theorem passes_after_failure {s s' : BodyState Z} {op : BodyOp} (hd : s.ctx.done = true) (hpc : s.pc = .idle)
    (hs : body_step E s op = some s') :
    s'.passed = s.passed ++ op.chain ∧ s'.handed = s.handed ∧ s'.ctx.done = true ∧ s'.pc = .idle := by
  unfold body_step at hs
  rw [hpc] at hs
  cases op with
  | callback chain init down =>
    have hs : enter E s chain init down = s' := Option.some.inj hs
    subst hs
    unfold enter
    rw [if_pos (.inl hd)]
    exact ⟨rfl, rfl, hd, hpc⟩
  | drain drained =>
    have hs := Option.some.inj hs
    subst hs
    exact ⟨(List.append_nil _).symm, rfl, hd, rfl⟩
  | iterate palloc link => simp at hs
  | tail links down => simp at hs

theorem run_after_failure {s s' : BodyState Z} {ops : List BodyOp} (hd : s.ctx.done = true) (hpc : s.pc = .idle)
    (hr : run (body_step E) s ops = some s') :
    s'.passed = s.passed ++ ops.flatMap BodyOp.chain ∧ s'.handed = s.handed := by
  induction ops generalizing s with
  | nil =>
    obtain rfl : s = s' := by simpa [run] using hr
    simp
  | cons op ops ih =>
    obtain ⟨t, ht, hr⟩ := Option.bind_eq_some_iff.1 hr
    obtain ⟨hp, hh, hd', hpc'⟩ := passes_after_failure hd hpc ht
    obtain ⟨hp', hh'⟩ := ih hd' hpc' hr
    rw [hp', hp, hh', hh, List.flatMap_cons, List.append_assoc]
    exact ⟨rfl, rfl⟩

/-- After a failure nothing goes to the next filter exactly if every later callback
is made with an empty chain. -/
theorem nothing_forwarded_after_failure {s s' : BodyState Z} (h : Reaches (body_step E) Any (BodyState.start Z) s)
    (ha : s.ctx.aborted = true) {ops : List BodyOp} (hr : run (body_step E) s ops = some s') :
    (s'.passed = s.passed ∧ s'.handed = s.handed) ↔ ∀ op ∈ ops, op.chain = [] := by
  obtain ⟨hd, hpc⟩ := failed_done h ha
  obtain ⟨hp, hh⟩ := run_after_failure hd hpc hr
  rw [hp, hh, List.append_right_eq_self, List.flatMap_eq_nil_iff]
  exact ⟨fun h => h.1, fun h => ⟨h, rfl⟩⟩

/-- A link that is compressed and handed over, and one that goes beyond the cap. -/
def lateFailureOps : List BodyOp := flushOps ++ [.callback [⟨[3], false, false⟩] true slow, .iterate true true]

/-- What had been handed over before the failure is all there is. -/
theorem nothing_forwarded_after_failure_late : ∃ s s' : BodyState (.blocks 2),
    run (body_step (sampleEnv 2 8 (some 2) none)) (BodyState.start _) lateFailureOps = some s ∧
      s.ctx.aborted = true ∧ forwarded s.handed = [1, 2] ∧
      run (body_step (sampleEnv 2 8 (some 2) none)) s [.callback [] true slow, .drain slow.drained,
        .callback [] true slow] = some s' ∧ s'.passed = s.passed ∧ s'.handed = s.handed := by
  let E := sampleEnv 2 8 (some 2) none
  have hsees : (run (body_step (Z := .blocks 2) E) (BodyState.start _) lateFailureOps).bind (fun s =>
      (run (body_step E) s [.callback [] true slow, .drain slow.drained, .callback [] true slow]).map fun _ =>
        (s.ctx.aborted, forwarded s.handed)) = some (true, [1, 2]) := by decide +kernel
  obtain ⟨s, hs, hsees⟩ := Option.bind_eq_some_iff.1 hsees
  obtain ⟨s', hs', hsees⟩ := Option.map_eq_some_iff.1 hsees
  obtain ⟨ha, hhanded⟩ := Prod.mk.inj hsees
  exact ⟨s, s', hs, ha, hhanded, hs', (nothing_forwarded_after_failure (reaches_of_run hs (meets_any _ _)) ha hs').2
    (by simp [BodyOp.chain])⟩

/-- A request whose context cannot be set up. -/
def failedOps : List BodyOp := [.callback [⟨[1], false, false⟩] false slow]

/-- The next callback's buffers go to the client as they are. -/
theorem forwarded_after_failure : ∃ s s' : BodyState (.blocks 1),
    Reaches (body_step (sampleEnv 2 8 none none)) Any (BodyState.start _) s ∧ s.ctx.aborted = true ∧ s.passed = [] ∧
      body_step (sampleEnv 2 8 none none) s (.callback [⟨[2], false, true⟩] true slow) = some s' ∧
      s'.passed = [⟨[2], false, true⟩] := by
  have hsees : (run (body_step (Z := .blocks 1) (sampleEnv 2 8 none none)) (BodyState.start _) failedOps).bind
      (fun s => (body_step (sampleEnv 2 8 none none) s (.callback [⟨[2], false, true⟩] true slow)).map fun s' =>
        (s.ctx.aborted, s.passed, s'.passed)) = some (true, [], [⟨[2], false, true⟩]) := by rfl
  obtain ⟨s, hs, hsees⟩ := Option.bind_eq_some_iff.1 hsees
  obtain ⟨s', hs', hsees⟩ := Option.map_eq_some_iff.1 hsees
  simp only [Prod.mk.injEq] at hsees
  exact ⟨s, s', reaches_of_run hs (meets_any _ _), hsees.1, hsees.2.1, hs', hsees.2.2⟩

end NginxZstd
