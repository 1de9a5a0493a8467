import NginxZstd.BodyFilter.Buffers
/-!
# Progress

A callback comes to an end, and when it returns with work left over it waits for
the downstream, which then holds at least one of the buffers.
-/

namespace NginxZstd

open Lib

variable {Z : Compressor} {E : BodyEnv}

/-! ## No stalled stream -/

/-- There is input or a signal the compressor has not dealt with. -/
def Pending (ctx : BodyCtx Z) : Prop :=
  ctx.buffer_in.unread ≠ [] ∨ ctx.in_chain ≠ [] ∨ ctx.redo = true ∨ ctx.flush = true ∨ ctx.last = true

theorem load_buf_ne_declined (ctx : BodyCtx Z) (b : InBuf) : (load_buf ctx b).1 ≠ .declined := by
  unfold load_buf
  dsimp only
  split
  · split <;> simp
  · simp

/-- `add_data` declines only when there is nothing at all. -/
theorem add_data_declined {ctx ctx' : BodyCtx Z} {cursor cursor' : List InBuf}
    (h : add_data ctx cursor = (.declined, ctx', cursor')) :
    ctx' = ctx ∧ cursor = [] ∧ cursor' = [] ∧ ¬ Pending ctx := by
  rcases add_data_cases h with ⟨-, hrc, -, -⟩ | ⟨hc, ⟨hin, rfl, -, rfl, rfl⟩ | ⟨b, q, -, hl⟩⟩
  · simp at hrc
  · refine ⟨rfl, rfl, rfl, ?_⟩
    rintro (hu | hq | hr | hf | hl)
    · exact hu (unread_nil_of_not_lt fun hlt => hc (.inl hlt))
    · exact hq hin
    · exact hc (.inr (.inr (.inr hr)))
    · exact hc (.inr (.inl hf))
    · exact hc (.inr (.inr (.inl hl)))
  · exact absurd (congrArg Prod.fst hl) (load_buf_ne_declined _ b)

/-- Why the inner loop was left, and what a return leaves behind. -/
structure Waiting (E : BodyEnv) (s : BodyState Z) : Prop where
  tail : s.pc = .tail → s.ctx.done = true ∨ s.ctx.nomem = true ∨ (¬ Pending s.ctx ∧ s.cursor = [])
  idle : s.pc = .idle → s.ctx.done = false → Pending s.ctx →
    s.ctx.nomem = true ∧ s.ctx.busy ≠ [] ∧ s.ret = .again
  around : E.header_only = true → ¬ Pending s.ctx ∧ s.ctx.consumed = [] ∧ bytesOf s.passed = s.delivered
  through : E.header_only = false → s.passed = []

theorem Waiting.start : Waiting E (BodyState.start Z) where
  tail h := by simp [BodyState.start] at h
  idle _ _ h := by simp [BodyState.start, BodyCtx.start, Pending, InBuffer.unread] at h
  around _ := by simp [BodyState.start, BodyCtx.start, Pending, InBuffer.unread, bytesOf]
  through _ := rfl

theorem Waiting.move {s s' : BodyState Z} {op : BodyOp} (hconf : BufsOk E) (hin : Integrity E s) (hst : Stocked E s)
    (h : Waiting E s) (hok : LastIsFinal s op) (hm : BodyMove E s op s') : Waiting E s' := by
  cases hm with
  | pass hpc hd =>
    refine ⟨fun hp => ?_, fun _ hd' hpend => ?_, fun hh => ?_, fun hh => ?_⟩
    · rw [show s.pc = .tail from hp] at hpc
      simp at hpc
    · rcases hd with hd | hd
      · rw [show s.ctx.done = false from hd'] at hd
        simp at hd
      · exact absurd hpend (h.around hd).1
    · obtain ⟨h1, h2, h3⟩ := h.around hh
      exact ⟨h1, h2, by simp only [deliver, bytesOf_append, h3]⟩
    · have hdone : s.ctx.done = true := by
        rcases hd with hd | hd
        · exact hd
        · rw [hh] at hd
          simp at hd
      have hended := ((hin.input hh).last (hin.done hdone).1).1
      show s.passed ++ _ = []
      rw [h.through hh, hok.2 hended]
      rfl
  | noop hpc hd hh hr hi hb =>
    refine ⟨fun hp => ?_, fun hp hd' hpend => ?_, fun hh' => ?_, h.through⟩
    · rw [show s.pc = .tail from hp] at hpc
      simp at hpc
    · exact absurd hb (h.idle hpc hd hpend).2.1
    · rw [hh] at hh'
      simp at hh'
  | begin_loop b hpc hd hh hn | resume b hpc hd hh hn =>
    refine ⟨fun hp => by simp at hp, fun hp => by simp at hp, fun hh' => ?_, h.through⟩
    rw [hh] at hh'
    simp at hh'
  | read hpc => exact ⟨h.tail, h.idle, h.around, h.through⟩
  | skip hpc ha =>
    have hh := hin.not_header_only hpc (by simp)
    exact ⟨fun hp => by simp at hp, fun hp => by simp at hp, by simp [hh], h.through⟩
  | dry hpc ha =>
    have hh := hin.not_header_only hpc (by simp)
    obtain ⟨rfl, -, rfl, hpend⟩ := add_data_declined ha
    exact ⟨fun _ => .inr (.inr ⟨hpend, rfl⟩), fun hp => by simp at hp, by simp [hh], h.through⟩
  | starve hpc ha hm hg =>
    have hh := hin.not_header_only hpc (by simp)
    obtain ⟨hout, hempty⟩ := hin.output.add_data hin.empty ha
    obtain ⟨-, -, hsame⟩ := get_buf_output hout hempty hg (by simp)
    obtain rfl := hsame (by simp)
    exact ⟨fun _ => .inr (.inl rfl), fun hp => by simp at hp, by simp [hh], h.through⟩
  | @work palloc link c cursor c' rc ctx hpc ha hm hg hc hrc =>
    have hh := hin.not_header_only hpc (by simp)
    have hdone : c'.done = false := (acquired_done ha hg).trans (hin.inner hpc)
    obtain ⟨r, -, hrc', hdone', -⟩ := compress_frame hc hrc
    refine ⟨fun hp => .inl ?_, fun hp => ?_, by simp [hh], h.through⟩
    · show ctx.done = true
      rw [hdone' hdone]
      by_contra hl
      rw [if_neg hl] at hrc'
      simp [hrc'] at hp
    · dsimp only at hp
      split at hp <;> simp at hp
  | keep hpc ho hf =>
    have hh := hin.not_header_only hpc (by simp)
    refine ⟨fun hp => by simp at hp, fun _ hd hpend => ?_, by simp [hh], h.through⟩
    have hn : s.ctx.nomem = true := by
      rcases h.tail hpc with hd' | hn | ⟨hnot, hcur⟩
      · rw [show s.ctx.done = false from hd] at hd'
        simp at hd'
      · exact hn
      · exact absurd hpend (by simpa [Pending, hcur] using hnot)
    have hbusy : s.ctx.busy ≠ [] := by
      have := hst.waits hconf hn
      rwa [ho, List.append_nil] at this
    exact ⟨hn, hbusy, if_pos hbusy⟩
  | give hpc ho hr =>
    have hh := hin.not_header_only hpc (by simp)
    by_cases hd : s.ctx.done = true
    · refine ⟨fun _ => .inl hd, fun _ hd' => ?_, by simp [hh], h.through⟩
      rw [show s.ctx.done = false from hd'] at hd
      simp at hd
    · simp only [hd]
      exact ⟨fun hp => by simp at hp, fun hp => by simp at hp, by simp [hh], h.through⟩

/-- Whatever is delivered, drained and compressed: a callback that returns with work
pending waits, with a buffer downstream and `NGX_AGAIN`; one that returns with
nothing downstream has fed the compressor everything, unless the response has no body
and all goes around it; and buffers run out only while one is downstream or about to
be. -/
theorem no_stalled_stream (hconf : BufsOk E) {s : BodyState Z}
    (h : Reaches (body_step E) LastIsFinal (BodyState.start Z) s) (hf : s.ctx.aborted = false) :
    (s.pc = .idle → s.ctx.done = false →
      (Pending s.ctx → s.ctx.nomem = true ∧ s.ctx.busy ≠ [] ∧ s.ret = .again) ∧
      (s.ctx.busy = [] → (E.header_only = false → s.ctx.consumed = s.delivered ∧ s.passed = []) ∧
        (E.header_only = true → s.ctx.consumed = [] ∧ bytesOf s.passed = s.delivered) ∧ ¬ Pending s.ctx)) ∧
    (s.ctx.nomem = true → s.ctx.busy ++ s.ctx.out ≠ []) := by
  have hi : Integrity E s ∧ Stocked E s ∧ Waiting E s :=
    body_invariant (fun s => Integrity E s ∧ Stocked E s ∧ Waiting E s) h hf ⟨.start, .start, .start⟩
      fun _ _ _ hi hok hm => ⟨hi.1.move hok hm, hi.2.1.move hconf hm, hi.2.2.move hconf hi.1 hi.2.1 hok hm⟩
  obtain ⟨hin, hst, hw⟩ := hi
  refine ⟨fun hpc hd => ⟨hw.idle hpc hd, fun hb => ?_⟩, hst.waits hconf⟩
  have hnot : ¬ Pending s.ctx := fun hp => (hw.idle hpc hd hp).2.1 hb
  refine ⟨fun hh => ?_, fun hh => (hw.around hh).2, hnot⟩
  have hbytes := (hin.input hh).bytes
  have hu : s.ctx.buffer_in.unread = [] := by
    by_contra hne
    exact hnot (.inl hne)
  have hq : s.ctx.in_chain = [] := by
    by_contra hne
    exact hnot (.inr (.inl hne))
  refine ⟨?_, hw.through hh⟩
  simpa [hu, hq, hin.cursor hpc, bytesOf] using hbytes

/-- A flush whose output needs two buffers, with one buffer and a slow downstream. -/
def waitOps : List BodyOp :=
  [.callback [⟨[1, 2], true, false⟩] true slow, .iterate true true, .iterate true true, .tail 0 slow,
    .iterate true true, .tail 0 slow]

theorem no_stalled_stream_one_buffer : ∃ s : BodyState (.blocks 1),
    run (body_step (sampleEnv 1 1 none none)) (BodyState.start _) waitOps = some s ∧ s.ctx.flush = true ∧
      s.ctx.nomem = true ∧ s.ctx.busy ≠ [] ∧ s.ret = .again := by
  have hsees : (run (body_step (Z := .blocks 1) (sampleEnv 1 1 none none)) (BodyState.start _) waitOps).map
      (fun s => (s.ctx.aborted, s.ctx.done, s.pc, s.ctx.flush)) = some (false, false, .idle, true) := by rfl
  have hmeets : Meets (body_step (sampleEnv 1 1 none none)) LastIsFinal (BodyState.start (.blocks 1)) waitOps := by decide
  obtain ⟨s, hs, hsees⟩ := Option.map_eq_some_iff.1 hsees
  simp only [Prod.mk.injEq] at hsees
  obtain ⟨hf, hd, hpc, hflush⟩ := hsees
  have hlive := no_stalled_stream ⟨by decide, by decide, by decide⟩ (reaches_of_run hs hmeets) hf
  exact ⟨s, hs, hflush, (hlive.1 hpc hd).1 (.inr (.inr (.inr (.inl hflush))))⟩

end NginxZstd
