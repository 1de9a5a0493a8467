import NginxZstd.BodyFilter.Output
/-!
# Body stream integrity

Nothing of the body is lost, duplicated or reordered on its way into the
compressor, and nothing of what the compressor writes on its way downstream. Both
are invariants of the machine, whatever the caller delivers, the downstream reads
and the compressor makes of its input.
-/

namespace NginxZstd

open Lib

variable {Z : Compressor} {E : BodyEnv}

/-! ## The input side -/

/-- What was delivered is, in order, what was consumed, what `buffer_in` still has
and what is queued; and no link stands behind one with `last_buf`. -/
structure Input (ctx : BodyCtx Z) (cursor : List InBuf) (delivered : Bytes) (ended : Bool) : Prop where
  bytes : ctx.consumed ++ ctx.buffer_in.unread ++ bytesOf (ctx.in_chain ++ cursor) = delivered
  final : ∀ b ∈ (ctx.in_chain ++ cursor).dropLast, b.last_buf = false
  not_ended : ended = false → ∀ b ∈ ctx.in_chain ++ cursor, b.last_buf = false
  last : ctx.last = true → ended = true ∧ ctx.in_chain ++ cursor = []

theorem bytesOf_append (xs ys : List InBuf) : bytesOf (xs ++ ys) = bytesOf xs ++ bytesOf ys := List.flatMap_append

/-- Another context with the same input, queued the same way in sum. -/
theorem Input.congr {ctx ctx' : BodyCtx Z} {cursor cursor' : List InBuf} {delivered : Bytes} {ended : Bool}
    (h : Input ctx cursor delivered ended) (hq : ctx'.in_chain ++ cursor' = ctx.in_chain ++ cursor)
    (hc : ctx'.consumed = ctx.consumed) (hb : ctx'.buffer_in = ctx.buffer_in) (hl : ctx'.last = ctx.last) :
    Input ctx' cursor' delivered ended := by
  refine ⟨?_, ?_, ?_, ?_⟩
  · rw [hc, hb, hq]
    exact h.bytes
  · rw [hq]
    exact h.final
  · rw [hq]
    exact h.not_ended
  · rw [hq, hl]
    exact h.last

/-- The link at the head of the queue is loaded once `buffer_in` is used up. -/
theorem Input.load {ctx c : BodyCtx Z} {cursor cursor' : List InBuf} {delivered : Bytes} {ended : Bool} {b : InBuf}
    (h : Input ctx cursor delivered ended) (hu : ctx.buffer_in.unread = []) (hlast : ctx.last = false)
    (hq : ctx.in_chain ++ cursor = b :: (c.in_chain ++ cursor')) (hc : c.consumed = ctx.consumed)
    (hb : c.buffer_in = ctx.buffer_in) (hl : c.last = ctx.last) : Input (load_buf c b).2 cursor' delivered ended := by
  obtain ⟨f, n, he⟩ := load_buf_spec c b
  rw [he]
  have hbytes := h.bytes
  rw [hu, List.append_nil, hq] at hbytes
  refine ⟨?_, ?_, ?_, ?_⟩
  · rw [← hbytes, hc]
    simp only [bytesOf, List.flatMap_cons, hb]
    split
    · next h0 =>
      have hd : b.data = [] := List.eq_nil_of_length_eq_zero h0
      simp [hu, hd]
    · simp [InBuffer.unread]
  · intro x hx
    refine h.final x ?_
    rw [hq]
    rcases List.eq_nil_or_concat (c.in_chain ++ cursor') with hn | ⟨l, y, he⟩
    · rw [hn] at hx
      simp at hx
    · rw [he, List.concat_eq_append] at hx ⊢
      rw [← List.cons_append, List.dropLast_concat]
      rw [List.dropLast_concat] at hx
      exact List.mem_cons_of_mem _ hx
  · intro he x hx
    exact h.not_ended he x (by rw [hq]; exact List.mem_cons_of_mem _ hx)
  · intro hl'
    have hbl : b.last_buf = true := by simpa [hl, hlast] using hl'
    constructor
    · by_contra he
      have := h.not_ended (by simpa using he) b (by rw [hq]; exact List.mem_cons_self)
      simp [hbl] at this
    · -- a link with `last_buf` is the last one
      by_contra hne
      have := h.final b (by rw [hq, List.dropLast_cons_of_ne_nil hne]; exact List.mem_cons_self)
      simp [hbl] at this

theorem unread_nil_of_not_lt {b : InBuffer} (h : ¬ b.pos < b.src.length) : b.unread = [] := by
  unfold InBuffer.unread
  exact List.drop_eq_nil_of_le (Nat.le_of_not_lt h)

/-- `add_data` keeps the input in order. -/
theorem Input.add_data {ctx ctx' : BodyCtx Z} {cursor cursor' : List InBuf} {delivered : Bytes} {ended : Bool} {rc : Rc}
    (h : Input ctx cursor delivered ended) (ha : add_data ctx cursor = (rc, ctx', cursor')) :
    Input ctx' cursor' delivered ended := by
  rcases add_data_cases ha with ⟨-, -, rfl, rfl⟩ | ⟨hc, ⟨-, rfl, -, rfl, rfl⟩ | ⟨b, q, hq, hl⟩⟩
  · exact h
  · exact h
  · have hu : ctx.buffer_in.unread = [] := unread_nil_of_not_lt fun hlt => hc (.inl hlt)
    have hlast : ctx.last = false := Bool.eq_false_iff.2 fun hl => hc (.inr (.inr (.inl hl)))
    have hin := h.load (c := { ctx with in_chain := q }) hu hlast hq rfl rfl rfl
    rwa [hl] at hin

/-- The caller delivers another chain. -/
theorem Input.deliver {ctx ctx' : BodyCtx Z} {chain : List InBuf} {delivered : Bytes} {ended : Bool}
    (h : Input ctx [] delivered ended) (hchain : ∀ b ∈ chain.dropLast, b.last_buf = false)
    (hended : ended = true → chain = []) (hq : ctx'.in_chain = ctx.in_chain) (hc : ctx'.consumed = ctx.consumed)
    (hb : ctx'.buffer_in = ctx.buffer_in) (hl : ctx'.last = ctx.last) :
    Input ctx' chain (delivered ++ bytesOf chain) (ended || chain.any (·.last_buf)) := by
  refine ⟨?_, ?_, ?_, ?_⟩
  · have := h.bytes
    rw [List.append_nil] at this
    rw [hc, hb, hq, bytesOf_append, ← List.append_assoc, this]
  · rw [hq]
    by_cases hn : chain = []
    · subst hn
      exact h.final
    · rw [List.dropLast_append_of_ne_nil hn]
      intro b hb
      rcases List.mem_append.1 hb with hb | hb
      · have he : ended = false := Bool.eq_false_iff.2 fun he => hn (hended he)
        exact h.not_ended he b (List.mem_append_left _ hb)
      · exact hchain b hb
  · intro he b hm
    rw [Bool.or_eq_false_iff, List.any_eq_false] at he
    rw [hq] at hm
    rcases List.mem_append.1 hm with hm | hm
    · exact h.not_ended he.1 b (List.mem_append_left _ hm)
    · exact Bool.eq_false_iff.2 (he.2 b hm)
  · rw [hl, hq]
    intro hlast
    obtain ⟨he, hnil⟩ := h.last hlast
    rw [hended he, he]
    exact ⟨rfl, hnil⟩

theorem InBuffer.unread_advance (b : InBuffer) (k : Nat) :
    ({ b with pos := b.pos + k } : InBuffer).unread = b.unread.drop k := (List.drop_drop ..).symm

/-- What the compressor consumes comes off the front of `buffer_in`. -/
theorem Input.compress {ctx ctx' : BodyCtx Z} {cursor : List InBuf} {delivered : Bytes} {ended : Bool} {k : Nat}
    (h : Input ctx cursor delivered ended) (hq : ctx'.in_chain = ctx.in_chain)
    (hc : ctx'.consumed = ctx.consumed ++ ctx.buffer_in.unread.take k)
    (hb : ctx'.buffer_in = { ctx.buffer_in with pos := ctx.buffer_in.pos + k }) (hl : ctx'.last = ctx.last) :
    Input ctx' cursor delivered ended := by
  refine ⟨?_, ?_, ?_, ?_⟩
  · rw [hc, hb, hq, InBuffer.unread_advance, List.append_assoc ctx.consumed, List.take_append_drop]
    exact h.bytes
  · rw [hq]
    exact h.final
  · rw [hq]
    exact h.not_ended
  · rw [hq, hl]
    exact h.last

/-! ## Both sides -/

/-- The invariant of a request that has not failed. -/
structure Integrity (E : BodyEnv) (s : BodyState Z) : Prop extends OutputSide E s where
  input : E.header_only = false → Input s.ctx s.cursor s.delivered s.ended
  active : s.pc ≠ .idle ∨ s.ctx.done = true → E.header_only = false
  cursor : s.pc = .idle → s.cursor = []
  done : s.ctx.done = true → s.ctx.last = true ∧ s.ctx.buffer_in.unread = [] ∧ s.ctx.bufs ≠ 0

theorem Integrity.start : Integrity E (BodyState.start Z) where
  toOutputSide := .start
  input _ := ⟨rfl, by simp [BodyState.start, BodyCtx.start], by simp [BodyState.start, BodyCtx.start],
    by simp [BodyState.start, BodyCtx.start]⟩
  active h := by simp [BodyState.start, BodyCtx.start] at h
  cursor _ := rfl
  done h := by simp [BodyState.start, BodyCtx.start] at h

theorem Integrity.not_header_only {s : BodyState Z} (h : Integrity E s) {pc : Pc} (hpc : s.pc = pc) (hne : pc ≠ .idle) :
    E.header_only = false := h.active (.inl (hpc ▸ hne))

/-- A delivered chain that is passed on: the request is done, so it is empty. -/
theorem Integrity.pass {s : BodyState Z} {chain : List InBuf} (h : Integrity E s)
    (hd : s.ctx.done = true ∨ E.header_only = true) (hok : s.ended = true → chain = []) (heap : BufId → OutBuf) :
    E.header_only = false → Input { s.ctx with heap := heap } s.cursor (s.delivered ++ bytesOf chain)
      (s.ended || chain.any (·.last_buf)) := by
  intro hh
  have hin := h.input hh
  have hdone : s.ctx.done = true := by
    rcases hd with hd | hd
    · exact hd
    · rw [hh] at hd
      exact absurd hd (by simp)
  have hended := (hin.last (h.done hdone).1).1
  rw [hok hended]
  have hsame : Input { s.ctx with heap := heap } s.cursor s.delivered s.ended := hin.congr rfl rfl rfl rfl
  simpa [bytesOf] using hsame

/-- An iteration that calls the compressor. -/
theorem Integrity.work {s : BodyState Z} {palloc link : Bool} {c c' ctx : BodyCtx Z} {cursor : List InBuf} {rc : Rc}
    (h : Integrity E s) (hpc : s.pc = .inner) (ha : NginxZstd.add_data s.ctx s.cursor = (.ok, c, cursor))
    (hg : get_buf E palloc c = (.ok, c'))
    (hc : filter_compress c' (c'.in_chain = [] ∧ cursor = []) link = (rc, ctx)) (hrc : rc ≠ .error) :
    Input ctx cursor s.delivered s.ended ∧
      (ctx.done = true → ctx.last = true ∧ ctx.buffer_in.unread = [] ∧ ctx.bufs ≠ 0) := by
  have hh := h.not_header_only hpc (by simp)
  have hin := (h.input hh).add_data ha
  obtain ⟨hout, hempty⟩ := h.output.add_data h.empty ha
  obtain ⟨hout', -, -⟩ := get_buf_output hout hempty hg (by simp)
  have hbufs := hout'.bufs_ne_zero hc hrc
  have hdone : c'.done = false := (acquired_done ha hg).trans (h.inner hpc)
  have hin' : Input c' cursor s.delivered s.ended := by
    obtain ⟨fr, ob, n, bo, heap, hs, nm, rfl⟩ := get_buf_frame hg
    exact hin.congr rfl rfl rfl rfl
  obtain ⟨r, hcall, hrc', hdone', -, ib, bo, heap, a, d, b, f, dn, n, o, ob, rfl⟩ := compress_frame hc hrc
  refine ⟨hin'.compress rfl rfl rfl rfl, fun hd => ?_⟩
  have hl : isLast c' (c'.in_chain = [] ∧ cursor = []) r.rc = true := (hdone' hdone).symm.trans hd
  obtain ⟨hz, hlast, hdir⟩ := isLast_rc hl
  refine ⟨hlast, ?_, hbufs⟩
  -- libzstd said of the end that nothing is left
  have hall := Z.complete hcall (by rw [hdir]; simp) hz
  show InBuffer.unread _ = []
  rw [InBuffer.unread_advance, hall, List.drop_length]

/-- The hand-over: after the end nothing is queued. -/
theorem Integrity.give {s : BodyState Z} {ctx : BodyCtx Z} (h : Integrity E s) (hpc : s.pc = .tail)
    (hq : ctx.in_chain = s.ctx.in_chain) (hc : ctx.consumed = s.ctx.consumed) (hb : ctx.buffer_in = s.ctx.buffer_in)
    (hl : ctx.last = s.ctx.last) : Input ctx (if s.ctx.done then [] else s.cursor) s.delivered s.ended := by
  have hin := h.input (h.not_header_only hpc (by simp))
  have hcur : (if s.ctx.done then [] else s.cursor) = s.cursor := by
    by_cases hd : s.ctx.done = true
    · rw [if_pos hd, (List.append_eq_nil_iff.1 (hin.last (h.done hd).1).2).2]
    · rw [if_neg hd]
  rw [hcur]
  exact hin.congr (by rw [hq]) hc hb hl

theorem Integrity.move {s s' : BodyState Z} {op : BodyOp} (h : Integrity E s) (hok : LastIsFinal s op)
    (hm : BodyMove E s op s') : Integrity E s' := by
  have hside := h.toOutputSide.move hm
  cases hm with
  | pass hpc hd => exact ⟨hside, h.pass hd hok.2 _, h.active, h.cursor, h.done⟩
  | noop hpc hd hh hr hi hb =>
    refine ⟨hside, fun hh => ?_, h.active, h.cursor, h.done⟩
    simpa [deliver, bytesOf] using h.input hh
  | begin_loop b hpc hd hh hn | resume b hpc hd hh hn =>
    have hin := h.input hh
    rw [h.cursor hpc] at hin
    exact ⟨hside, fun _ => hin.deliver hok.1 hok.2 rfl rfl rfl rfl, fun _ => hh, fun hp => by simp at hp, h.done⟩
  | read hpc => exact ⟨hside, fun hh => (h.input hh).congr rfl rfl rfl rfl, h.active, h.cursor, h.done⟩
  | skip hpc ha | dry hpc ha =>
    have hh := h.not_header_only hpc (by simp)
    have hd := h.inner hpc
    refine ⟨hside, fun _ => (h.input hh).add_data ha, fun _ => hh, fun hp => by simp at hp, ?_⟩
    obtain ⟨q, ib, l, f, n, bi, rfl⟩ := add_data_frame ha
    simp [hd]
  | starve hpc ha hm hg =>
    have hh := h.not_header_only hpc (by simp)
    have hd := h.inner hpc
    have hin := (h.input hh).add_data ha
    obtain ⟨q, ib, l, f, n, bi, rfl⟩ := add_data_frame ha
    obtain ⟨fr, ob, n, bo, heap, hs, nm, rfl⟩ := get_buf_frame hg
    exact ⟨hside, fun _ => hin.congr rfl rfl rfl rfl, fun _ => hh, fun hp => by simp at hp, by simp [hd]⟩
  | work hpc ha hm hg hc hrc =>
    have hh := h.not_header_only hpc (by simp)
    obtain ⟨hin, hdone⟩ := h.work hpc ha hg hc hrc
    refine ⟨hside, fun _ => hin, fun _ => hh, fun hp => ?_, hdone⟩
    dsimp only at hp
    split at hp <;> simp at hp
  | keep hpc ho hf =>
    have hh := h.not_header_only hpc (by simp)
    exact ⟨hside, fun _ => (h.input hh).congr (List.append_nil _) rfl rfl rfl, fun _ => hh, fun _ => rfl, h.done⟩
  | give hpc ho hr =>
    have hh := h.not_header_only hpc (by simp)
    refine ⟨hside, fun _ => h.give hpc rfl rfl rfl rfl, fun _ => hh, fun hp => ?_, h.done⟩
    dsimp only at hp ⊢
    by_cases hd : s.ctx.done = true
    · rw [if_pos hd]
    · rw [if_neg hd] at hp
      simp at hp

theorem integrity_of_reaches {s : BodyState Z} (h : Reaches (body_step E) LastIsFinal (BodyState.start Z) s)
    (hf : s.ctx.aborted = false) : Integrity E s :=
  body_invariant (Integrity E) h hf .start fun _ _ _ hi hok hm => hi.move hok hm

/-- Whatever is delivered, drained and compressed, as long as no step fails: at the
loop head the body is, in order, what libzstd consumed, the rest of `buffer_in`, the
links kept and the links of the caller; what was passed on and what waits is the
frame header, on a dcz response whose first buffer exists, and what libzstd wrote;
and when the request is done libzstd has had all of it and the client gets all of
that. -/
theorem body_stream_integrity {s : BodyState Z} (h : Reaches (body_step E) LastIsFinal (BodyState.start Z) s)
    (hf : s.ctx.aborted = false) :
    (s.pc = .inner →
      s.ctx.consumed ++ s.ctx.buffer_in.unread ++ bytesOf s.ctx.in_chain ++ bytesOf s.cursor = s.delivered) ∧
    forwarded s.handed ++ chainBytes s.ctx.heap s.ctx.out ++ chainBytes s.ctx.heap s.ctx.out_buf.toList =
      headerOf E s.ctx.bufs ++ s.ctx.produced ∧
    (s.ctx.bufs = 0 → s.ctx.produced = []) ∧
    (s.ctx.done = true → s.ctx.consumed = s.delivered ∧ s.ctx.bufs ≠ 0 ∧
      (s.pc = .idle → forwarded s.handed = headerOf E s.ctx.bufs ++ s.ctx.produced)) := by
  have hi := integrity_of_reaches h hf
  have hbytes := hi.output.bytes
  rw [chainBytes_append, ← List.append_assoc] at hbytes
  refine ⟨fun hpc => ?_, hbytes, fun h0 => (hi.output.none_yet h0).1, fun hd => ?_⟩
  · have := (hi.input (hi.not_header_only hpc (by simp))).bytes
    rwa [bytesOf_append, ← List.append_assoc] at this
  · obtain ⟨hlast, hunread, hbufs⟩ := hi.done hd
    have hin := hi.input (hi.active (.inr hd))
    have hdel := hin.bytes
    rw [hunread, (hin.last hlast).2, List.append_nil] at hdel
    refine ⟨(List.append_nil _).symm.trans hdel, hbufs, fun hpc => ?_⟩
    rw [hi.ended hd, hi.idle hpc] at hbytes
    simpa [chainBytes] using hbytes

/-- One output buffer of `size` bytes for every one of `num`, no cap, no dictionary
unless `dict` is given. -/
def sampleEnv (num size : Nat) (max_length : Option Int) (dict : Option DczDict) : BodyEnv where
  abi := ⟨64, 64, .inr rfl, .inr rfl⟩
  zlcf := { oneDictConf with bufs := ⟨num, size⟩, max_length := max_length }
  filter := ⟨dict, -1⟩
  header_only := false
  compressBound n := n

/-- A dictionary whose frame header is all sevens. -/
def sampleDict : DczDict := ⟨str "/d", [], zeroDigest, none, List.replicate 40 7⟩

/-- The body `1 2 3` in two links; the second fills the block, and its output waits
for a buffer to come back. -/
def sampleOps : List BodyOp :=
  let down : Downstream := ⟨.ok, fun _ => 100⟩
  [.callback [⟨[1], false, false⟩, ⟨[2, 3], false, true⟩] true down, .iterate true true, .iterate true true,
    .iterate true true, .tail 0 down, .iterate true true, .tail 0 down]

theorem body_stream_integrity_two_links : ∃ s : BodyState (.blocks 2),
    run (body_step (sampleEnv 2 2 none (some sampleDict))) (BodyState.start _) sampleOps = some s ∧
      s.ctx.consumed = [1, 2, 3] ∧ forwarded s.handed = List.replicate 40 7 ++ [1, 2, 3] := by
  have hsees : (run (body_step (Z := .blocks 2) (sampleEnv 2 2 none (some sampleDict))) (BodyState.start _)
      sampleOps).map (fun s => (s.ctx.aborted, s.ctx.done, s.pc, s.delivered, s.ctx.bufs, s.ctx.produced)) =
      some (false, true, .idle, [1, 2, 3], 2, [1, 2, 3]) := by rfl
  have hmeets : Meets (body_step (sampleEnv 2 2 none (some sampleDict))) LastIsFinal
      (BodyState.start (.blocks 2)) sampleOps := by decide
  obtain ⟨s, hs, hsees⟩ := Option.map_eq_some_iff.1 hsees
  simp only [Prod.mk.injEq] at hsees
  obtain ⟨hf, hd, hpc, hdel, hbufs, hprod⟩ := hsees
  obtain ⟨-, -, -, hdone⟩ := body_stream_integrity (reaches_of_run hs hmeets) hf
  obtain ⟨hconsumed, -, hforwarded⟩ := hdone hd
  refine ⟨s, hs, hconsumed.trans hdel, ?_⟩
  rw [hforwarded hpc, hbufs, hprod]
  rfl

end NginxZstd
