import NginxZstd.BodyFilter.Failure
import NginxZstd.BodyFilter.Progress
import Mathlib.Order.OrderIsoNat
/-!
# Every callback ends

The loops of `ngx_http_zstd_body_filter` have no single decreasing quantity. In a
callback that did not end, the queue, the input left and the buffers to allocate
would settle first; then, since no input is left to turn into output, what libzstd
writes; then nothing goes to `ctx->out` any more, so the loop never gets behind the
call of the compressor again; and what is left is one flush, or one end, asked for
over and over, which libzstd completes.
-/

namespace NginxZstd

open Lib

variable {Z : Compressor} {E : BodyEnv}

/-! ## What libzstd promises -/

/-- Calls with room that consume nothing and complete no frame lead from `z` to `z'`
and write `w` bytes in all. Either all of them ask for the end of the frame, or none. -/
inductive Silent (Z : Compressor) (ends : Bool) (z : Z.State) : Z.State → Nat → Prop
  | refl : Silent Z ends z z 0
  | call {z' w d u n r} (h : Silent Z ends z z' w) (hc : Z.call z' d u n = some r) (hd : d = .e_end ↔ ends = true)
      (hn : 0 < n) (h0 : r.consumed = 0) (he : ¬ (d = .e_end ∧ r.rc = 0)) :
      Silent Z ends z r.state (w + r.written.length)

/-- The progress of `ZSTD_compressStream2`: with input and room it consumes or
writes; without further input it has only so much to write, be it towards the end of
the frame or not; and a flush or an end asked for again and again, with room, is
completed. -/
structure Compressor.Progress (Z : Compressor) : Prop where
  moves : ∀ {z d u n r}, Z.call z d u n = some r → u ≠ [] → 0 < n → 0 < r.consumed ∨ r.written ≠ []
  finite_output : ∀ ends z, ∃ bound, ∀ z' w, Silent Z ends z z' w → w ≤ bound
  drains : ∀ (d : EndDirective) (z : Nat → Z.State) (n : Nat → Nat) (r : Nat → Reply Z.State), d ≠ .e_continue →
    (∀ k, 0 < n k) → (∀ k, Z.call (z k) d [] (n k) = some (r k)) → (∀ k, z (k + 1) = (r k).state) → ∃ k, (r k).rc = 0

/-! ## The signals -/

/-- A call to be repeated is a flush or an end, and an end comes after the last link. -/
structure Signals (ctx : BodyCtx Z) : Prop where
  redo : ctx.redo = true → ctx.action ≠ .compress
  ends : ctx.action = .end_frame → ctx.last = true

theorem load_buf_last (ctx : BodyCtx Z) (b : InBuf) : ctx.last = true → (load_buf ctx b).2.last = true := by
  intro h
  obtain ⟨f, n, he⟩ := load_buf_spec ctx b
  rw [he]
  simp [h]

theorem Signals.add_data {ctx ctx' : BodyCtx Z} {cursor cursor' : List InBuf} {rc : Rc} (h : Signals ctx)
    (ha : add_data ctx cursor = (rc, ctx', cursor')) : Signals ctx' := by
  rcases add_data_cases ha with ⟨-, -, rfl, -⟩ | ⟨-, ⟨-, -, -, rfl, -⟩ | ⟨b, q, -, hl⟩⟩
  · exact h
  · exact h
  · have hlast := load_buf_last { ctx with in_chain := q } b
    obtain ⟨f, n, he⟩ := load_buf_spec { ctx with in_chain := q } b
    rw [hl] at he hlast
    simp only at he hlast
    subst he
    exact ⟨h.redo, fun ha => hlast (h.ends ha)⟩

/-- An end is asked for only behind the last link. -/
theorem Signals.last_of_end {ctx : BodyCtx Z} {no_more_input : Bool} (h : Signals ctx)
    (hd : directive ctx no_more_input = .e_end) : ctx.last = true := by
  unfold directive at hd
  split at hd
  · next hc =>
    rcases hc with ha | ⟨hl, -⟩
    · exact h.ends ha
    · exact hl
  · split at hd <;> simp at hd

theorem Signals.next_action {ctx : BodyCtx Z} {dir : EndDirective} (h : Signals ctx) (hr : ctx.redo = false)
    (hdir : dir = .e_end → ctx.last = true) (no_more_input : Bool) (zrc written : Nat) :
    Signals (next_action ctx dir no_more_input zrc written).1 ∧
      (zrc = 0 → ctx.last = false → (NginxZstd.next_action ctx dir no_more_input zrc written).1.redo = false) := by
  unfold NginxZstd.next_action
  split
  · next hz =>
    refine ⟨⟨fun _ => ?_, fun he => ?_⟩, fun h0 => by omega⟩
    · dsimp only
      split
      · simp
      · split
        · simp
        · next hne => exact hne
    · dsimp only at he
      split at he
      · next hd => exact hdir hd
      · split at he
        · simp at he
        · exact h.ends he
  split
  · next hc => exact ⟨⟨fun _ => by simp, fun _ => hc.1⟩, fun _ hl => by simp [hl] at hc⟩
  split
  · exact ⟨⟨fun hr' => by simp [hr] at hr', fun he => by simp at he⟩, fun _ _ => hr⟩
  · exact ⟨h, fun _ _ => hr⟩

theorem Signals.compress {c ctx : BodyCtx Z} {no_more_input link : Bool} {rc : Rc} (h : Signals c)
    (hc : filter_compress c no_more_input link = (rc, ctx)) (hrc : rc ≠ .error) :
    Signals ctx ∧ ∀ r, replyOf c no_more_input = some r → r.rc = 0 → c.last = false → ctx.redo = false := by
  obtain ⟨i, r, a, d, hb, hcall, ha, hcases⟩ := filter_compress_cases hc hrc
  have hw : Signals (apply_reply c i r) := ⟨fun hr => by simp [apply_reply] at hr, h.ends⟩
  have hdir : directive c no_more_input = .e_end → (apply_reply c i r).last = true := h.last_of_end
  have hn := hw.next_action rfl hdir no_more_input r.rc r.written.length
  rw [ha] at hn
  obtain ⟨hsig, hredo⟩ := hn
  have hkeep : ∀ ctx : BodyCtx Z, ctx.redo = d → ctx.action = a → ctx.last = c.last →
      Signals ctx ∧ ∀ r', replyOf c no_more_input = some r' → r'.rc = 0 → c.last = false → ctx.redo = false := by
    intro ctx h1 h2 h3
    refine ⟨⟨fun hr => ?_, fun he => ?_⟩, fun r' hr' hz hl => ?_⟩
    · rw [h2]
      exact hsig.redo (h1 ▸ hr)
    · rw [h3]
      exact hsig.ends (h2 ▸ he)
    · obtain rfl : r = r' := Option.some.inj (hcall.symm.trans hr')
      exact h1.trans (hredo hz hl)
  rcases hcases with ⟨-, -, -, rfl⟩ | ⟨-, -, rfl⟩
  · obtain ⟨b, f, he⟩ := suppress_empty_spec { apply_reply c i r with action := a, redo := d } r.rc
    rw [he]
    exact hkeep _ rfl rfl rfl
  · obtain ⟨-, heap, n, b, f, dn, he⟩ :=
      link_out_spec { apply_reply c i r with action := a, redo := d } i r.rc (isLast c no_more_input r.rc)
    rw [he]
    exact hkeep _ rfl rfl rfl

theorem Signals.get_buf {ctx ctx' : BodyCtx Z} {palloc : Bool} {rc : Rc} (h : Signals ctx)
    (hg : get_buf E palloc ctx = (rc, ctx')) : Signals ctx' := by
  obtain ⟨fr, ob, n, bo, heap, hs, nm, rfl⟩ := get_buf_frame hg
  exact ⟨h.redo, h.ends⟩

theorem Signals.move {s s' : BodyState Z} {op : BodyOp} (h : Signals s.ctx) (hm : BodyMove E s op s') :
    Signals s'.ctx := by
  cases hm with
  | pass hpc hd | noop hpc hd hh hr hi hb | begin_loop b hpc hd hh hn | resume b hpc hd hh hn | read hpc
  | keep hpc ho hf | give hpc ho hr => exact ⟨h.redo, h.ends⟩
  | skip hpc ha | dry hpc ha => exact h.add_data ha
  | starve hpc ha hm hg => exact (h.add_data ha).get_buf hg
  | work hpc ha hm hg hc hrc => exact (((h.add_data ha).get_buf hg).compress hc hrc).1

/-! ## A callback that does not end -/

/-- The answers of the other parties to one turn of the loops. -/
structure Answer where
  palloc : Bool
  link : Bool
  links : Nat
  down : Downstream

/-- One turn of the loops of a callback. -/
def turn (E : BodyEnv) (s : BodyState Z) (a : Answer) : BodyState Z :=
  match s.pc with
  | .idle => s
  | .inner => iterate E s a.palloc a.link
  | .tail => tail s a.links a.down

/-- The callback from `s` on, turn by turn. -/
def turns (E : BodyEnv) (s : BodyState Z) (a : Nat → Answer) : Nat → BodyState Z
  | 0 => s
  | k + 1 => turn E (turns E s a k) (a k)

/-- What is known of a state within a callback. -/
structure Running (E : BodyEnv) (s : BodyState Z) : Prop where
  integrity : Integrity E s
  stocked : Stocked E s
  signals : Signals s.ctx

theorem Running.move {s s' : BodyState Z} {op : BodyOp} (hconf : BufsOk E) (h : Running E s) (hok : LastIsFinal s op)
    (hm : BodyMove E s op s') : Running E s' :=
  ⟨h.integrity.move hok hm, h.stocked.move hconf hm, h.signals.move hm⟩

/-- The operations of the loops themselves. -/
def BodyOp.isTurn : BodyOp → Prop
  | .iterate _ _ => True
  | .tail _ _ => True
  | _ => False

/-- A callback that goes on for ever. -/
structure Endless (E : BodyEnv) (t : Nat → BodyState Z) : Prop where
  running : ∀ k, Running E (t k)
  busy : ∀ k, (t k).pc ≠ .idle
  move : ∀ k, ∃ op, op.isTurn ∧ BodyMove E (t k) op (t (k + 1))

theorem turn_move {s : BodyState Z} {a : Answer} (hpc : s.pc ≠ .idle) (hpc' : (turn E s a).pc ≠ .idle) :
    ∃ op, op.isTurn ∧ BodyMove E s op (turn E s a) := by
  unfold turn at hpc' ⊢
  split
  · next h => exact absurd h hpc
  · next h =>
    rw [h] at hpc'
    rcases iterate_cases E a.palloc a.link h with hm | ⟨u, hu⟩
    · exact ⟨.iterate a.palloc a.link, trivial, hm⟩
    · rw [hu] at hpc'
      exact absurd rfl hpc'
  · next h =>
    rw [h] at hpc'
    rcases tail_cases E a.links a.down h with hm | ⟨u, hu⟩
    · exact ⟨.tail a.links a.down, trivial, hm⟩
    · rw [hu] at hpc'
      exact absurd rfl hpc'

theorem endless_of_turns (hconf : BufsOk E) {s : BodyState Z} {a : Nat → Answer} (h : Running E s)
    (hpc : ∀ k, (turns E s a k).pc ≠ .idle) : Endless E (turns E s a) := by
  have hmove : ∀ k, ∃ op, op.isTurn ∧ BodyMove E (turns E s a k) op (turns E s a (k + 1)) :=
    fun k => turn_move (hpc k) (hpc (k + 1))
  refine ⟨fun k => ?_, hpc, hmove⟩
  induction k with
  | zero => exact h
  | succ k ih =>
    obtain ⟨op, ht, hm⟩ := hmove k
    refine ih.move hconf ?_ hm
    cases op with
    | callback chain init down => exact ht.elim
    | iterate palloc link => trivial
    | tail links down => trivial
    | drain drained => trivial

/-! ## A turn that uses nothing up -/

/-- What a callback can use up: links, bytes of the input, and buffers to allocate. -/
def left (E : BodyEnv) (s : BodyState Z) : Nat :=
  (s.ctx.in_chain ++ s.cursor).length + (s.delivered.length - s.ctx.consumed.length) +
    (E.zlcf.bufs.num - s.ctx.bufs)

/-- `add_data` has something to work on without a new link. -/
def Busy (ctx : BodyCtx Z) : Prop :=
  ctx.buffer_in.pos < ctx.buffer_in.src.length ∨ ctx.flush = true ∨ ctx.last = true ∨ ctx.redo = true

def noMore (s : BodyState Z) : Bool := s.ctx.in_chain = [] ∧ s.cursor = []

/-- A call that consumes nothing, and does not end the frame. -/
structure Repeats (s s' : BodyState Z) (n : Nat) (r : Reply Z.State) : Prop where
  pc : s.pc = .inner ∧ s'.pc = .inner
  busy : Busy s.ctx
  room : 0 < n
  call : Z.call s.ctx.cctx (directive s.ctx (noMore s)) s.ctx.buffer_in.unread n = some r
  consumed : r.consumed = 0
  not_last : isLast s.ctx (noMore s) r.rc = false
  cctx : s'.ctx.cctx = r.state
  produced : s'.ctx.produced = s.ctx.produced ++ r.written
  kept : s'.ctx.buffer_in = s.ctx.buffer_in ∧ s'.ctx.last = s.ctx.last ∧ s'.flush = s.flush
  flush : r.rc = 0 → s'.ctx.flush = false
  redo : r.rc = 0 → s.ctx.last = false → s'.ctx.redo = false
  out : r.written = [] → s'.ctx.out = s.ctx.out

/-- The turns that leave `left` as it is. -/
inductive Settled (s s' : BodyState Z) : Prop
  | stop (hpc : s.pc = .inner) (hpc' : s'.pc = .tail) (hz : s'.ctx.cctx = s.ctx.cctx) (hl : s'.ctx.last = s.ctx.last)
      (hp : s'.ctx.produced = s.ctx.produced) (ho : s'.ctx.out = s.ctx.out) (hf : s'.flush = s.flush)
  | give (hpc : s.pc = .tail) (hpc' : s'.pc = .inner) (hz : s'.ctx.cctx = s.ctx.cctx) (hl : s'.ctx.last = s.ctx.last)
      (hp : s'.ctx.produced = s.ctx.produced) (hs : s.ctx.out ≠ [] ∨ s.flush = true) (ho : s'.ctx.out = [])
      (hf : s'.flush = false)
  | call (n : Nat) (r : Reply Z.State) (h : Repeats s s' n r)

/-- `add_data` takes a link off the queue or changes nothing. -/
theorem add_data_takes {ctx c : BodyCtx Z} {cursor cursor' : List InBuf} {rc : Rc}
    (ha : add_data ctx cursor = (rc, c, cursor')) :
    (c.in_chain ++ cursor').length < (ctx.in_chain ++ cursor).length ∨
      (c = ctx ∧ cursor' = cursor ∧ rc ≠ .again ∧ (rc = .ok → Busy ctx)) := by
  rcases add_data_cases ha with ⟨hb, rfl, rfl, rfl⟩ | ⟨-, ⟨-, rfl, rfl, rfl, rfl⟩ | ⟨b, q, hq, hl⟩⟩
  · exact .inr ⟨rfl, rfl, by simp, fun _ => hb⟩
  · exact .inr ⟨rfl, rfl, by simp, by simp⟩
  · left
    obtain ⟨f, n, he⟩ := load_buf_spec { ctx with in_chain := q } b
    rw [hl] at he
    simp only at he
    rw [hq, he]
    simp

/-- `get_buf` allocates a buffer or finds an empty one. -/
theorem get_buf_takes {ctx c : BodyCtx Z} {handed : List OutBuf} {palloc : Bool} {rc : Rc} (ho : Output E ctx handed)
    (he : Empty ctx) (hg : get_buf E palloc ctx = (rc, c)) (hrc : rc ≠ .error) :
    ctx.bufs < c.bufs ∨ (c.bufs = ctx.bufs ∧ Empty c) := by
  rcases get_buf_cases hg hrc with ⟨-, -, -, rfl⟩ |
    ⟨-, ⟨i, free, hf, -, rfl⟩ | ⟨hf, hn, -, rfl⟩ | ⟨hf, hn, -, rfl⟩⟩
  · exact .inr ⟨rfl, he⟩
  · refine .inr ⟨rfl, fun j hj => ?_⟩
    obtain rfl : i = j := Option.some.inj hj
    show (Function.update ctx.heap i _ i).data = []
    rw [Function.update_self]
    exact (ho.clean i (by rw [hf]; exact List.mem_cons_self)).1
  · left
    show ctx.bufs < ctx.bufs + 1
    omega
  · exact .inr ⟨rfl, he⟩

/-- An iteration that calls the compressor uses something up or repeats itself. -/
theorem Running.work {s : BodyState Z} {palloc link : Bool} {c c' ctx : BodyCtx Z} {cursor : List InBuf} {rc : Rc}
    (hconf : BufsOk E) (h : Running E s) (hpc : s.pc = .inner) (ha : add_data s.ctx s.cursor = (.ok, c, cursor))
    (hg : get_buf E palloc c = (.ok, c'))
    (hc : filter_compress c' (c'.in_chain = [] ∧ cursor = []) link = (rc, ctx)) (hrc : rc ≠ .error)
    (hd : ctx.done = false) :
    (ctx.in_chain ++ cursor).length < (s.ctx.in_chain ++ s.cursor).length ∨
      s.ctx.consumed.length < ctx.consumed.length ∨ s.ctx.bufs < ctx.bufs ∨
      ∃ n r, Repeats s { s with ctx := ctx, cursor := cursor, pc := if rc = .ok then .tail else .inner } n r := by
  obtain ⟨hout, hempty⟩ := h.integrity.output.add_data h.integrity.empty ha
  obtain ⟨hout', hsome, -⟩ := get_buf_output hout hempty hg (by simp)
  have hroom := ((h.stocked.stock.add_data ha).1.get_buf hconf hout hg (by simp)).room (hsome rfl)
  have htake := get_buf_takes hout hempty hg (by simp)
  have hsig := (((h.signals.add_data ha).get_buf hg).compress hc hrc).2
  have hdone : c'.done = false := (acquired_done ha hg).trans (h.integrity.inner hpc)
  obtain ⟨i, r, hb, hr, hcases⟩ := compress_out hout' hc hrc
  obtain ⟨r', hr', hrc', hdone', -, ib, bo, heap, a, d, b, f, dn, n, o, ob, rfl⟩ := compress_frame hc hrc
  obtain rfl : r = r' := Option.some.inj (hr.symm.trans hr')
  have hlast : isLast c' (c'.in_chain = [] ∧ cursor = []) r.rc = false := (hdone' hdone).symm.trans hd
  have hsize : ((apply_reply c' i r).heap i).size = (c'.heap i).data.length + r.written.length - (c'.heap i).pos := by
    simp [apply_reply, OutBuf.size]
  rcases add_data_takes ha with hlt | ⟨rfl, rfl, -, hbusy⟩
  · left
    obtain ⟨fr, ob, n, bo, heap, hs, nm, rfl⟩ := get_buf_frame hg
    exact hlt
  rcases htake with hlt | ⟨hbufs, hnone⟩
  · exact .inr (.inr (.inl hlt))
  by_cases h0 : r.consumed = 0
  · refine .inr (.inr (.inr ⟨c'.buffer_out.size - c'.buffer_out.pos, r, ?_⟩))
    have hagain : rc = .again := by
      rw [hrc', hlast]
      rfl
    have hflush : r.rc = 0 → f = false := by
      intro hz
      rcases hcases with ⟨-, -, -, -, hf⟩ | ⟨-, -, -, -, hf⟩
      · exact Bool.eq_false_iff.2 fun hfl => (hf.1 hfl).2 hz
      · exact Bool.eq_false_iff.2 fun hfl => (hf.1 hfl).2 hz
    have hkept : r.written = [] → o = c'.out := by
      intro hw
      rcases hcases with ⟨-, -, ho, -, -⟩ | ⟨hne, -, -, -, -⟩
      · exact ho
      · refine absurd ⟨?_, hlast⟩ hne
        rw [hsize, hnone i hb, hw]
        simp
    obtain ⟨fr, ob, n, bo, heap, hs, nm, rfl⟩ := get_buf_frame hg
    exact
      { pc := ⟨hpc, by simp [hagain]⟩
        busy := hbusy rfl
        room := Nat.sub_pos_of_lt hroom
        call := hr'
        consumed := h0
        not_last := hlast
        cctx := rfl
        produced := rfl
        kept := ⟨by simp [h0], rfl, rfl⟩
        flush := hflush
        redo := hsig r hr
        out := hkept }
  · right
    left
    have hle := Z.consumed_le hr'
    have hsame : c'.consumed = s.ctx.consumed := by
      obtain ⟨fr, ob, n, bo, heap, hs, nm, rfl⟩ := get_buf_frame hg
      rfl
    show _ < (c'.consumed ++ c'.buffer_in.unread.take r.consumed).length
    rw [hsame, List.length_append, List.length_take]
    omega

/-- No turn gives anything back. -/
theorem turn_uses {s s' : BodyState Z} {op : BodyOp} (h : Running E s) (ht : op.isTurn) (hm : BodyMove E s op s')
    (hpc' : s'.pc ≠ .idle) :
    (s'.ctx.in_chain ++ s'.cursor).length ≤ (s.ctx.in_chain ++ s.cursor).length ∧
      s.ctx.consumed.length ≤ s'.ctx.consumed.length ∧ s.ctx.bufs ≤ s'.ctx.bufs ∧ s'.delivered = s.delivered := by
  have hadd : ∀ {rc c cursor}, add_data s.ctx s.cursor = (rc, c, cursor) →
      (c.in_chain ++ cursor).length ≤ (s.ctx.in_chain ++ s.cursor).length ∧ c.consumed = s.ctx.consumed ∧
        c.bufs = s.ctx.bufs := by
    intro rc c cursor ha
    refine ⟨?_, ?_⟩
    · rcases add_data_takes ha with hlt | ⟨rfl, rfl, -⟩
      · exact Nat.le_of_lt hlt
      · exact Nat.le_refl _
    · obtain ⟨q, ib, l, f, n, bi, rfl⟩ := add_data_frame ha
      exact ⟨rfl, rfl⟩
  cases hm with
  | pass hpc hd | noop hpc hd hh hr hi hb | begin_loop b hpc hd hh hn | resume b hpc hd hh hn | read hpc => exact ht.elim
  | skip hpc ha | dry hpc ha =>
    obtain ⟨h1, h2, h3⟩ := hadd ha
    exact ⟨h1, Nat.le_of_eq (congrArg _ h2.symm), Nat.le_of_eq h3.symm, rfl⟩
  | starve hpc ha hm hg =>
    obtain ⟨h1, h2, h3⟩ := hadd ha
    obtain ⟨hout, hempty⟩ := h.integrity.output.add_data h.integrity.empty ha
    obtain ⟨-, -, hsame⟩ := get_buf_output hout hempty hg (by simp)
    rw [hsame (by simp)]
    exact ⟨h1, Nat.le_of_eq (congrArg _ h2.symm), Nat.le_of_eq h3.symm, rfl⟩
  | work hpc ha hm hg hc hrc =>
    obtain ⟨h1, h2, h3⟩ := hadd ha
    obtain ⟨hout, hempty⟩ := h.integrity.output.add_data h.integrity.empty ha
    have htake := get_buf_takes hout hempty hg (by simp)
    obtain ⟨r, -, -, -, -, ib, bo, heap, a, d, b, f, dn, n, o, ob, rfl⟩ := compress_frame hc hrc
    obtain ⟨fr, ob, n, bo, heap, hs, nm, rfl⟩ := get_buf_frame hg
    refine ⟨h1, ?_, ?_, rfl⟩
    · show _ ≤ (_ ++ _ : Bytes).length
      rw [List.length_append, h2]
      omega
    · show s.ctx.bufs ≤ n
      rcases htake with hlt | ⟨he, -⟩
      · exact Nat.le_of_lt (h3 ▸ hlt)
      · exact Nat.le_of_eq (h3.symm.trans he.symm)
  | keep hpc ho hf => exact absurd rfl hpc'
  | give hpc ho hr =>
    refine ⟨?_, Nat.le_refl _, Nat.le_refl _, rfl⟩
    dsimp only
    by_cases hd : s.ctx.done = true
    · simp [hd] at hpc'
    · rw [if_neg hd]
      exact Nat.le_refl _

/-- A turn uses something up or is settled. -/
theorem turn_cases {s s' : BodyState Z} {op : BodyOp} (hconf : BufsOk E) (h : Running E s) (ht : op.isTurn)
    (hm : BodyMove E s op s') (hpc' : s'.pc ≠ .idle) (hd : s'.ctx.done = false) :
    (s'.ctx.in_chain ++ s'.cursor).length < (s.ctx.in_chain ++ s.cursor).length ∨
      s.ctx.consumed.length < s'.ctx.consumed.length ∨ s.ctx.bufs < s'.ctx.bufs ∨ Settled s s' := by
  cases hm with
  | pass hpc hd | noop hpc hd hh hr hi hb | begin_loop b hpc hd hh hn | resume b hpc hd hh hn | read hpc => exact ht.elim
  | skip hpc ha =>
    rcases add_data_takes ha with hlt | ⟨-, -, hne, -⟩
    · exact .inl hlt
    · exact absurd rfl hne
  | dry hpc ha =>
    obtain ⟨rfl, -⟩ := add_data_declined ha
    exact .inr (.inr (.inr (.stop hpc rfl rfl rfl rfl rfl rfl)))
  | starve hpc ha hm hg =>
    obtain ⟨hout, hempty⟩ := h.integrity.output.add_data h.integrity.empty ha
    obtain ⟨-, -, hsame⟩ := get_buf_output hout hempty hg (by simp)
    rw [hsame (by simp)]
    rcases add_data_takes ha with hlt | ⟨rfl, rfl, -, -⟩
    · exact .inl hlt
    · exact .inr (.inr (.inr (.stop hpc rfl rfl rfl rfl rfl rfl)))
  | work hpc ha hm hg hc hrc =>
    rcases h.work hconf hpc ha hg hc hrc hd with hlt | hlt | hlt | ⟨n, r, hr⟩
    · exact .inl hlt
    · exact .inr (.inl hlt)
    · exact .inr (.inr (.inl hlt))
    · exact .inr (.inr (.inr (.call n r hr)))
  | keep hpc ho hf => exact absurd rfl hpc'
  | give hpc ho hr =>
    have hd' : s.ctx.done = false := hd
    exact .inr (.inr (.inr (.give hpc (by simp [hd']) rfl rfl rfl ho rfl rfl)))

/-! ## Nothing is left to use up -/

theorem Endless.shift {t : Nat → BodyState Z} (h : Endless E t) (K : Nat) : Endless E fun k => t (K + k) :=
  ⟨fun k => h.running (K + k), fun k => h.busy (K + k), fun k => h.move (K + k)⟩

/-- The request is not done: the callback would return with the next hand-over. -/
theorem Endless.not_done {t : Nat → BodyState Z} (h : Endless E t) (k : Nat) : (t k).ctx.done = false := by
  by_contra hd
  rw [Bool.not_eq_false] at hd
  have hnext := h.busy (k + 1)
  obtain ⟨op, ht, hm⟩ := h.move k
  have hinner : (t k).pc = .inner → False := fun hpc => by
    have := (h.running k).integrity.inner hpc
    simp [hd] at this
  revert hnext hm
  generalize t (k + 1) = u
  intro hnext hm
  cases hm with
  | pass hpc hd | noop hpc hd hh hr hi hb | begin_loop b hpc hd hh hn | resume b hpc hd hh hn | read hpc => exact ht
  | skip hpc ha | dry hpc ha | starve hpc ha hm hg | work hpc ha hm hg hc hrc => exact hinner hpc
  | keep hpc ho hf => exact hnext rfl
  | give hpc ho hr => simp [hd] at hnext

theorem Running.bounds {s : BodyState Z} (h : Running E s) (hpc : s.pc ≠ .idle) :
    s.ctx.consumed.length ≤ s.delivered.length ∧ s.ctx.bufs ≤ E.zlcf.bufs.num := by
  refine ⟨?_, h.stocked.stock.count⟩
  have hbytes := (h.integrity.input (h.integrity.active (.inl hpc))).bytes
  rw [← hbytes, List.length_append, List.length_append]
  omega

/-- From some turn on nothing is used up. -/
theorem Endless.settles {t : Nat → BodyState Z} (hconf : BufsOk E) (h : Endless E t) :
    ∃ K, ∀ k, Settled (t (K + k)) (t (K + k + 1)) := by
  have hstep : ∀ k, left E (t (k + 1)) < left E (t k) ∨
      left E (t (k + 1)) ≤ left E (t k) ∧ Settled (t k) (t (k + 1)) := by
    intro k
    obtain ⟨op, ht, hm⟩ := h.move k
    obtain ⟨h1, h2, h3, h4⟩ := turn_uses (h.running k) ht hm (h.busy (k + 1))
    obtain ⟨hb1, hb2⟩ := (h.running (k + 1)).bounds (h.busy (k + 1))
    have hcases := turn_cases hconf (h.running k) ht hm (h.busy (k + 1)) (h.not_done (k + 1))
    unfold left
    rw [h4] at hb1 ⊢
    rcases hcases with hlt | hlt | hlt | hset
    · exact .inl (by omega)
    · exact .inl (by omega)
    · exact .inl (by omega)
    · exact .inr ⟨by omega, hset⟩
  have hanti : Antitone fun k => left E (t k) := by
    apply antitone_nat_of_succ_le
    intro k
    rcases hstep k with hlt | ⟨hle, -⟩
    · exact Nat.le_of_lt hlt
    · exact hle
  obtain ⟨K, hK⟩ := WellFoundedLT.antitone_chain_condition hanti
  refine ⟨K, fun k => ?_⟩
  have h1 := hK (K + k) (Nat.le_add_right K k)
  have h2 := hK (K + k + 1) (by omega)
  rcases hstep (K + k) with hlt | ⟨-, hset⟩
  · omega
  · exact hset

/-! ## Nothing more is written -/

/-- In a callback the end of the frame is asked for exactly behind the last link. -/
theorem Running.end_iff {s : BodyState Z} (h : Running E s) (hpc : s.pc ≠ .idle) :
    directive s.ctx (noMore s) = .e_end ↔ s.ctx.last = true := by
  refine ⟨h.signals.last_of_end, fun hl => ?_⟩
  have hin := h.integrity.input (h.integrity.active (.inl hpc))
  have hq := List.append_eq_nil_iff.1 (hin.last hl).2
  simp [directive, noMore, hq, hl]

/-- The settled turns are all before the last link, or all behind it. -/
theorem settled_last {t : Nat → BodyState Z} (hset : ∀ k, Settled (t k) (t (k + 1))) (k : Nat) :
    (t k).ctx.last = (t 0).ctx.last := by
  induction k with
  | zero => rfl
  | succ k ih =>
    rw [← ih]
    cases hset k with
    | stop hpc hpc' hz hl hp ho hf | give hpc hpc' hz hl hp hs ho hf => exact hl
    | call n r hr => exact hr.kept.2.1

/-- What libzstd wrote since the settled turns began. -/
theorem Endless.silent {t : Nat → BodyState Z} (h : Endless E t) (hset : ∀ k, Settled (t k) (t (k + 1))) (k : Nat) :
    ∃ w, Silent Z (t 0).ctx.last (t 0).ctx.cctx (t k).ctx.cctx w ∧
      (t k).ctx.produced.length = (t 0).ctx.produced.length + w := by
  induction k with
  | zero => exact ⟨0, .refl, rfl⟩
  | succ k ih =>
    obtain ⟨w, hs, hw⟩ := ih
    cases hset k with
    | stop hpc hpc' hz hl hp ho hf | give hpc hpc' hz hl hp hs' ho hf =>
      rw [hz, hp]
      exact ⟨w, hs, hw⟩
    | call n r hr =>
      have hend := (h.running k).end_iff (h.busy k)
      refine ⟨w + r.written.length, ?_, ?_⟩
      · rw [hr.cctx]
        refine hs.call hr.call (by rw [hend, settled_last hset k]) hr.room hr.consumed ?_
        rintro ⟨hdir, hz⟩
        -- the completed end would have been the last call
        have := hr.not_last
        simp [isLast, hz, hend.1 hdir, hdir] at this
      · rw [hr.produced, List.length_append, hw]
        omega

theorem Endless.quiet {t : Nat → BodyState Z} (hz : Z.Progress) (h : Endless E t)
    (hset : ∀ k, Settled (t k) (t (k + 1))) :
    ∃ K, ∀ k, (t (K + k + 1)).ctx.produced.length = (t (K + k)).ctx.produced.length := by
  obtain ⟨bound, hbound⟩ := hz.finite_output (t 0).ctx.last (t 0).ctx.cctx
  have hle : ∀ k, (t k).ctx.produced.length ≤ (t 0).ctx.produced.length + bound := by
    intro k
    obtain ⟨w, hs, hw⟩ := h.silent hset k
    have := hbound _ w hs
    omega
  have hanti : Antitone fun k => (t 0).ctx.produced.length + bound - (t k).ctx.produced.length := by
    apply antitone_nat_of_succ_le
    intro k
    have : (t k).ctx.produced.length ≤ (t (k + 1)).ctx.produced.length := by
      cases hset k with
      | stop hpc hpc' hz hl hp ho hf | give hpc hpc' hz hl hp hs' ho hf => rw [hp]
      | call n r hr =>
        rw [hr.produced, List.length_append]
        omega
    omega
  obtain ⟨K, hK⟩ := WellFoundedLT.antitone_chain_condition hanti
  refine ⟨K, fun k => ?_⟩
  have h1 := hK (K + k) (Nat.le_add_right K k)
  have h2 := hK (K + k + 1) (by omega)
  have h3 := hle (K + k)
  have h4 := hle (K + k + 1)
  omega

/-! ## Only calls remain -/

/-- The loop can only go on by calls: a stop would end the callback. -/
def OnlyCalls (s : BodyState Z) : Prop := s.pc = .inner ∧ s.ctx.out = [] ∧ s.flush = false

theorem Repeats.written {s s' : BodyState Z} {n : Nat} {r : Reply Z.State} (h : Repeats s s' n r)
    (hw : s'.ctx.produced.length = s.ctx.produced.length) : r.written = [] := by
  rw [h.produced, List.length_append] at hw
  exact List.eq_nil_of_length_eq_zero (by omega)

/-- Behind a hand-over of what is left there is nothing to hand over again. -/
theorem only_calls {t : Nat → BodyState Z} (hset : ∀ k, Settled (t k) (t (k + 1)))
    (hquiet : ∀ k, (t (k + 1)).ctx.produced.length = (t k).ctx.produced.length) (h0 : OnlyCalls (t 0)) (k : Nat) :
    OnlyCalls (t k) ∧ ∃ n r, Repeats (t k) (t (k + 1)) n r := by
  have hcall : ∀ k, OnlyCalls (t k) → ∃ n r, Repeats (t k) (t (k + 1)) n r := by
    rintro k ⟨hin, hout, hfl⟩
    cases hset k with
    | stop hpc hpc' hz hl hp ho hf =>
      cases hset (k + 1) with
      | stop hpc2 => simp [hpc'] at hpc2
      | give hpc2 hpc2' hz2 hl2 hp2 hs2 ho2 hf2 => simp [ho, hout, hf, hfl] at hs2
      | call n r hr => exact absurd (hpc'.symm.trans hr.pc.1) (by simp)
    | give hpc hpc' hz hl hp hs ho hf => simp [hin] at hpc
    | call n r hr => exact ⟨n, r, hr⟩
  have hinv : OnlyCalls (t k) := by
    induction k with
    | zero => exact h0
    | succ k ih =>
      obtain ⟨n, r, hr⟩ := hcall k ih
      exact ⟨hr.pc.2, (hr.out (hr.written (hquiet k))).trans ih.2.1, hr.kept.2.2.trans ih.2.2⟩
  exact ⟨hinv, hcall k hinv⟩

theorem eventually_calls {t : Nat → BodyState Z} (hset : ∀ k, Settled (t k) (t (k + 1)))
    (hquiet : ∀ k, (t (k + 1)).ctx.produced.length = (t k).ctx.produced.length) :
    ∃ K, ∀ k, ∃ n r, Repeats (t (K + k)) (t (K + k + 1)) n r := by
  by_cases hall : ∀ k, ∃ n r, Repeats (t k) (t (k + 1)) n r
  · exact ⟨0, fun k => by simpa using hall k⟩
  -- otherwise there is a hand-over, at once or right after a stop
  have hgive : ∃ k, OnlyCalls (t (k + 1)) := by
    rw [not_forall] at hall
    obtain ⟨k, hk⟩ := hall
    cases hset k with
    | stop hpc hpc' hz hl hp ho hf =>
      cases hset (k + 1) with
      | stop hpc2 => simp [hpc'] at hpc2
      | give hpc2 hpc2' hz2 hl2 hp2 hs2 ho2 hf2 => exact ⟨k + 1, hpc2', ho2, hf2⟩
      | call n r hr => exact absurd (hpc'.symm.trans hr.pc.1) (by simp)
    | give hpc hpc' hz hl hp hs ho hf => exact ⟨k, hpc', ho, hf⟩
    | call n r hr => exact absurd ⟨n, r, hr⟩ hk
  obtain ⟨K, hK⟩ := hgive
  refine ⟨K + 1, fun k => ?_⟩
  exact (only_calls (t := fun k => t (K + 1 + k)) (fun k => hset (K + 1 + k)) (fun k => hquiet (K + 1 + k)) hK k).2

/-! ## The calls come to an end -/

/-- Once no input is left the directive is an end behind the last link, else a flush. -/
theorem Running.directive {s : BodyState Z} (h : Running E s) (hpc : s.pc ≠ .idle) (hbusy : Busy s.ctx)
    (hu : s.ctx.buffer_in.unread = []) :
    NginxZstd.directive s.ctx (noMore s) = if s.ctx.last then .e_end else .e_flush := by
  cases hl : s.ctx.last with
  | true => exact (h.end_iff hpc).2 hl
  | false =>
    have hend : s.ctx.action ≠ .end_frame := fun he => by simp [h.signals.ends he] at hl
    have hpos : ¬ s.ctx.buffer_in.pos < s.ctx.buffer_in.src.length := by
      intro hlt
      rw [InBuffer.unread, List.drop_eq_nil_iff] at hu
      omega
    have hsig : s.ctx.action = .flush ∨ s.ctx.flush = true := by
      rcases hbusy with hb | hb | hb | hb
      · exact absurd hb hpos
      · exact .inr hb
      · simp [hl] at hb
      · left
        have hne := h.signals.redo hb
        cases ha : s.ctx.action with
        | compress => exact absurd ha hne
        | flush => rfl
        | end_frame => exact absurd ha hend
    simp [NginxZstd.directive, hl, hend, hsig]

theorem calls_end {t : Nat → BodyState Z} (hz : Z.Progress) (h : Endless E t)
    (hquiet : ∀ k, (t (k + 1)).ctx.produced.length = (t k).ctx.produced.length) (n : Nat → Nat)
    (r : Nat → Reply Z.State) (hcalls : ∀ k, Repeats (t k) (t (k + 1)) (n k) (r k)) : False := by
  have hunread : ∀ k, (t k).ctx.buffer_in.unread = [] := by
    intro k
    by_contra hu
    rcases hz.moves (hcalls k).call hu (hcalls k).room with hc | hw
    · exact Nat.ne_of_gt hc (hcalls k).consumed
    · exact hw ((hcalls k).written (hquiet k))
  have hlast : ∀ k, (t k).ctx.last = (t 0).ctx.last := by
    intro k
    induction k with
    | zero => rfl
    | succ k ih => exact (hcalls k).kept.2.1.trans ih
  have hdir : ∀ k, directive (t k).ctx (noMore (t k)) = if (t 0).ctx.last then .e_end else .e_flush := by
    intro k
    rw [(h.running k).directive (h.busy k) (hcalls k).busy (hunread k), hlast k]
  have hcall : ∀ k, Z.call (t k).ctx.cctx (if (t 0).ctx.last then .e_end else .e_flush) [] (n k) = some (r k) := by
    intro k
    rw [← hdir k, ← hunread k]
    exact (hcalls k).call
  obtain ⟨k, hk⟩ := hz.drains _ (fun k => (t k).ctx.cctx) n r (by split <;> simp) (fun k => (hcalls k).room) hcall
    fun k => (hcalls k).cctx
  cases hl : (t 0).ctx.last with
  | true =>
    -- the completed end is the terminal call
    have := (hcalls k).not_last
    simp [isLast, hk, hlast k, hdir k, hl] at this
  | false =>
    -- behind the completed flush there is nothing to call for
    rcases (hcalls (k + 1)).busy with hb | hb | hb | hb
    · have := hunread (k + 1)
      rw [InBuffer.unread, List.drop_eq_nil_iff] at this
      omega
    · simp [(hcalls k).flush hk] at hb
    · simp [hlast, hl] at hb
    · simp [(hcalls k).redo hk ((hlast k).trans hl)] at hb

/-- There is no callback that goes on for ever. -/
theorem no_endless {t : Nat → BodyState Z} (hconf : BufsOk E) (hz : Z.Progress) (h : Endless E t) : False := by
  obtain ⟨K, hset⟩ := h.settles hconf
  obtain ⟨L, hquiet⟩ := (h.shift K).quiet hz hset
  have hset' : ∀ k, Settled (t (K + (L + k))) (t (K + (L + k) + 1)) := fun k => hset (L + k)
  obtain ⟨M, hcalls⟩ := eventually_calls (t := fun k => t (K + (L + k))) hset' hquiet
  choose n r hcalls using hcalls
  exact calls_end hz (((h.shift K).shift L).shift M) (fun k => hquiet (M + k)) n r hcalls

theorem running_of_reaches (hconf : BufsOk E) {s : BodyState Z}
    (h : Reaches (body_step E) LastIsFinal (BodyState.start Z) s) (hf : s.ctx.aborted = false) : Running E s := by
  refine body_invariant (Running E) h hf ⟨.start, .start, ⟨?_, ?_⟩⟩ fun _ _ _ hi hok hm => hi.move hconf hok hm
  · simp [BodyState.start, BodyCtx.start]
  · simp [BodyState.start, BodyCtx.start]

/-- A callback in any state a request can get to, with any chain whose `last_buf`, if
any, is on the final link ever delivered, returns after finitely many turns of its
loops, whatever the pool and the downstream answer, when the compressor makes
progress. -/
theorem callback_terminates (hconf : BufsOk E) (hz : Z.Progress) {s : BodyState Z}
    (h : Reaches (body_step E) LastIsFinal (BodyState.start Z) s) (hpc : s.pc = .idle) {chain : List InBuf} {init : Bool}
    {down : Downstream} (hchain : LastIsFinal s (.callback chain init down)) (a : Nat → Answer) :
    ∃ k, (turns E (enter E s chain init down) a k).pc = .idle := by
  have hstep : body_step E s (.callback chain init down) = some (enter E s chain init down) := by
    simp [body_step, hpc]
  have hreach := h.snoc hchain hstep
  by_contra hnever
  rw [not_exists] at hnever
  have hf : (enter E s chain init down).ctx.aborted = false := by
    rw [← Bool.not_eq_true]
    intro ha
    exact hnever 0 (failed_done hreach ha).2
  exact no_endless hconf hz (endless_of_turns hconf (running_of_reaches hconf hreach hf) hnever)

/-- How many bytes a block compressor holds back. -/
def held {size : Nat} (z : (Compressor.blocks size).State) : Nat := List.length (show Bytes from z)

theorem blocks_call {size n : Nat} {z : (Compressor.blocks size).State} {u : Bytes} {d : EndDirective}
    {r : Reply (Compressor.blocks size).State} (h : (Compressor.blocks size).call z d u n = some r) :
    r.consumed = u.length ∧ r.written.length + held r.state = held z + u.length ∧
      (d ≠ .e_continue → held r.state = held z + u.length - n ∧ r.rc = held z + u.length - n) := by
  have hlen := @List.length_append _ (show Bytes from z) u
  simp only [Compressor.blocks] at h
  split at h
  · next hc =>
    cases h
    exact ⟨rfl, (Nat.zero_add _).trans hlen, fun hd => absurd hc.1 hd⟩
  · cases h
    have hdrop := List.length_drop (i := n) (l := (show Bytes from z) ++ u)
    rw [hlen] at hdrop
    refine ⟨rfl, ?_, fun _ => ⟨hdrop, congrArg (· - n) hlen⟩⟩
    have hsplit := congrArg List.length (List.take_append_drop n ((show Bytes from z) ++ u))
    rw [List.length_append] at hsplit
    exact hsplit.trans hlen

theorem blocks_silent {size w : Nat} {ends : Bool} {z z' : (Compressor.blocks size).State}
    (h : Silent (.blocks size) ends z z' w) : w + held z' = held z := by
  induction h with
  | refl => exact Nat.zero_add _
  | call h hc hd hn h0 he ih =>
    obtain ⟨h1, h2, -⟩ := blocks_call hc
    omega

theorem blocks_progress (size : Nat) : (Compressor.blocks size).Progress where
  moves := by
    intro z d u n r h hu _
    left
    rw [(blocks_call h).1]
    exact List.length_pos_iff.2 hu
  finite_output := by
    intro ends z
    exact ⟨held z, fun z' w h => Nat.le.intro (blocks_silent h)⟩
  drains := by
    intro d z n r hd hn hcall hz
    by_contra hnever
    rw [not_exists] at hnever
    have hdec : ∀ k, held (z k) + k ≤ held (z 0) := by
      intro k
      induction k with
      | zero => exact Nat.le_refl _
      | succ k ih =>
        obtain ⟨-, -, h3⟩ := blocks_call (hcall k)
        obtain ⟨hst, hrc⟩ := h3 hd
        have hne := hnever k
        have hpos := hn k
        rw [hz k, hst]
        simp only [List.length_nil] at hrc ⊢
        omega
    have := hdec (held (z 0) + 1)
    omega

/-- A flush without data and the last link, while the output of the first link waits
downstream. -/
theorem callback_terminates_flush : ∃ s : BodyState (.blocks 2),
    run (body_step (sampleEnv 2 8 none none)) (BodyState.start _) flushOps = some s ∧
      ∃ k, (turns (sampleEnv 2 8 none none)
        (enter (sampleEnv 2 8 none none) s [⟨[], true, false⟩, ⟨[], false, true⟩] true slow)
        (fun _ => ⟨true, true, 0, slow⟩) k).pc = .idle := by
  have hsees : (run (body_step (Z := .blocks 2) (sampleEnv 2 8 none none)) (BodyState.start _) flushOps).map
      (fun s => (s.pc, s.ended)) = some (.idle, false) := by rfl
  have hmeets : Meets (body_step (sampleEnv 2 8 none none)) LastIsFinal (BodyState.start (.blocks 2)) flushOps := by
    decide
  obtain ⟨s, hs, hsees⟩ := Option.map_eq_some_iff.1 hsees
  simp only [Prod.mk.injEq] at hsees
  refine ⟨s, hs, callback_terminates ⟨by decide, by decide, by decide⟩ (blocks_progress 2) (reaches_of_run hs hmeets)
    hsees.1 ⟨by decide, ?_⟩ _⟩
  simp [hsees.2]

end NginxZstd
