import NginxZstd.BodyFilter.Failure
import NginxZstd.Ratio
/-!
# The variables of a response

`$zstd_bytes_in`, `$zstd_bytes_out` and `$zstd_ratio` read the counters of the request's
context. A lookup may come at any time: it finds nothing until the response is done, and
from then on the totals of what the caller delivered and of what went downstream, from
the handler or as nginx has kept them.
-/

namespace NginxZstd

open Lib

variable {Z : Compressor} {E : BodyEnv}

/-! ## The source -/

/-- `ngx_http_variable_value_t`. -/
structure VarValue where
  valid : Bool
  no_cacheable : Bool
  not_found : Bool
  data : Bytes

/-- The variables with one value a response. -/
inductive ZstdVar where
  | ratio
  | bytes_in
  | bytes_out
deriving DecidableEq

/-- `%uL` and `%ui` of `ngx_sprintf`. -/
def sprintf_num (n : Nat) : Bytes := (Nat.toDigits 10 n).map fun c => c.toNat.toUInt8

/-- The same with zeros in front, as in `%03ui`. -/
def sprintf_zeros (width n : Nat) : Bytes :=
  List.replicate (width - (sprintf_num n).length) 0x30 ++ sprintf_num n

/-- No value, and to be asked for again. -/
def unsettled (vv : VarValue) : VarValue := { vv with not_found := true, no_cacheable := true }

/-- `ngx_http_zstd_bytes_variable`, for the counter at `offset`. `pnalloc` says whether
the pool has room for the text. -/
def bytes_variable (offset : BodyCtx Z → Nat) (ctx : Option (BodyCtx Z)) (pnalloc : Bool) (vv : VarValue) :
    Rc × VarValue :=
  match ctx with
  | none => (.ok, unsettled vv)
  | some ctx =>
    if ctx.aborted ∨ ¬ctx.done then (.ok, unsettled vv)
    else if ¬pnalloc then (.error, { vv with data := [] })
    else (.ok, { vv with data := sprintf_num (offset ctx), valid := true, no_cacheable := false })

/-- `ngx_http_zstd_ratio_variable`. The parts are `ngx_uint_t`. -/
def ratio_variable (A : Abi) (ctx : Option (BodyCtx Z)) (pnalloc : Bool) (vv : VarValue) : Rc × VarValue :=
  match ctx with
  | none => (.ok, unsettled vv)
  | some ctx =>
    if ctx.aborted ∨ ¬ctx.done ∨ ctx.bytes_out = 0 then (.ok, unsettled vv)
    else if ¬pnalloc then (.error, { vv with data := [] })
    else
      let (ratio_int, ratio_frac) := ratio_parts (UInt64.ofNat ctx.bytes_in) (UInt64.ofNat ctx.bytes_out)
      let word (n : UInt64) : Nat := n.toNat % 2 ^ A.size_bits
      (.ok, { vv with
        data := sprintf_num (word ratio_int) ++ [0x2e] ++ sprintf_zeros 3 (word ratio_frac)
        valid := true
        no_cacheable := false })

/-- The handlers that `ngx_http_zstd_add_variables` registers. -/
def get_handler (A : Abi) : ZstdVar → Option (BodyCtx Z) → Bool → VarValue → Rc × VarValue
  | .ratio => ratio_variable A
  | .bytes_in => bytes_variable BodyCtx.bytes_in
  | .bytes_out => bytes_variable BodyCtx.bytes_out

/-! ## Lookups -/

/-- `ngx_http_get_indexed_variable`: nginx keeps a value, or that there is none. -/
def get_indexed_variable (handler : VarValue → Rc × VarValue) (vv : VarValue) : VarValue :=
  if vv.not_found ∨ vv.valid then vv
  else
    match handler vv with
    | (.ok, vv) => vv
    | (_, vv) => { vv with valid := false, not_found := true }

/-- `ngx_http_get_flushed_variable`: what is not cacheable is asked for again. -/
def get_flushed_variable (handler : VarValue → Rc × VarValue) (vv : VarValue) : VarValue :=
  if (vv.valid ∨ vv.not_found) ∧ ¬vv.no_cacheable then vv
  else get_indexed_variable handler { vv with valid := false, not_found := false }

/-- A request whose variables are looked up. -/
structure Watched (Z : Compressor) where
  body : BodyState Z
  vars : ZstdVar → VarValue

inductive WatchOp where
  | body (op : BodyOp)
  | indexed (var : ZstdVar) (pnalloc : Bool)
  | flushed (var : ZstdVar) (pnalloc : Bool)

def Watched.lookup (E : BodyEnv) (w : Watched Z) (var : ZstdVar) (pnalloc : Bool) : VarValue :=
  get_flushed_variable (get_handler E.abi var (some w.body.ctx) pnalloc) (w.vars var)

def Watched.step (E : BodyEnv) (w : Watched Z) : WatchOp → Option (Watched Z)
  | .body op => (body_step E w.body op).map fun body => { w with body }
  | .indexed var pnalloc =>
    let vv := get_indexed_variable (get_handler E.abi var (some w.body.ctx) pnalloc) (w.vars var)
    some { w with vars := Function.update w.vars var vv }
  | .flushed var pnalloc => some { w with vars := Function.update w.vars var (w.lookup E var pnalloc) }

def Watched.start (Z : Compressor) : Watched Z := ⟨BodyState.start Z, fun _ => ⟨false, false, false, []⟩⟩

/-- The caller ends the body once, and the pool has room for the texts. -/
def Watched.Proper (w : Watched Z) : WatchOp → Prop
  | .body op => LastIsFinal w.body op
  | .indexed _ pnalloc => pnalloc = true
  | .flushed _ pnalloc => pnalloc = true

instance Watched.decidableProper (w : Watched Z) : ∀ op, Decidable (w.Proper op)
  | .body op => inferInstanceAs (Decidable (LastIsFinal w.body op))
  | .indexed _ pnalloc => inferInstanceAs (Decidable (pnalloc = true))
  | .flushed _ pnalloc => inferInstanceAs (Decidable (pnalloc = true))

/-! ## The totals -/

/-- What there is to say of a response with these totals. -/
def totals (A : Abi) (total_in total_out : Nat) : ZstdVar → Option Bytes
  | .bytes_in => some (sprintf_num (total_in % 2 ^ 64))
  | .bytes_out => some (sprintf_num (total_out % 2 ^ 64))
  | .ratio =>
    if total_out % 2 ^ 64 = 0 then none
    else
      let thousandths := total_in % 2 ^ 64 * 1000 / (total_out % 2 ^ 64)
      some (sprintf_num (thousandths / 1000 % 2 ^ A.size_bits) ++ [0x2e] ++ sprintf_zeros 3 (thousandths % 1000))

/-- Nothing is said before the end, then what was delivered and what was sent. -/
def BodyState.report (A : Abi) (s : BodyState Z) (var : ZstdVar) : Option Bytes :=
  if s.ctx.done then totals A s.delivered.length (forwarded s.sent).length var else none

/-- `bytes_out` counts what was sent. -/
def Tallied (s : BodyState Z) : Prop := s.ctx.bytes_out = (forwarded s.sent).length % 2 ^ 64

/-- Linking counts the buffer. -/
theorem link_out_bytes (ctx : BodyCtx Z) (i : BufId) (zrc : Nat) (last : Bool) :
    (link_out ctx i zrc last).bytes_out = (ctx.bytes_out + ((link_out ctx i zrc last).heap i).size) % 2 ^ 64 := by
  have hcomplete : (complete_buf ctx i zrc last).bytes_out = ctx.bytes_out := by
    unfold complete_buf
    split <;> rfl
  have hunmark : ∀ c : BodyCtx Z, (unmark_empty c i).bytes_out = c.bytes_out := by
    intro c
    unfold unmark_empty
    split <;> rfl
  show ((unmark_empty (complete_buf ctx i zrc last) i).bytes_out + _) % 2 ^ 64 = _
  rw [hunmark, hcomplete]
  rfl

theorem forwarded_single (b : OutBuf) : (forwarded [b]).length = b.size := by
  simp [forwarded, OutBuf.unread, OutBuf.size]

/-- A call links one buffer and counts it, or none. -/
theorem compress_bytes {c ctx : BodyCtx Z} {handed : List OutBuf} {no_more_input link : Bool} {rc : Rc}
    (h : Output E c handed) (hc : filter_compress c no_more_input link = (rc, ctx)) (hrc : rc ≠ .error)
    (hlt : c.bytes_out < 2 ^ 64) :
    ∃ bs, ctx.out.map ctx.heap = c.out.map c.heap ++ bs ∧
      ctx.bytes_out = (c.bytes_out + (forwarded bs).length) % 2 ^ 64 := by
  obtain ⟨i, r, hb, -, hout⟩ := compress_out h hc hrc
  obtain ⟨j, r', a, d, hb', -, -, hcases⟩ := filter_compress_cases hc hrc
  obtain rfl : i = j := Option.some.inj (hb.symm.trans hb')
  rcases hcases with ⟨-, -, -, hctx⟩ | ⟨-, -, hctx⟩
  · obtain ⟨b, f, he⟩ := suppress_empty_spec { apply_reply c i r' with action := a, redo := d } r'.rc
    have hbytes : ctx.bytes_out = c.bytes_out := by
      rw [hctx, he]
      rfl
    have hsame : ctx.out = c.out := by
      rw [hctx, he]
      rfl
    rcases hout with ⟨-, -, -, hmap, -⟩ | ⟨-, hlink, -⟩
    · exact ⟨[], by rw [hmap, List.append_nil], by rw [hbytes]; exact (Nat.mod_eq_of_lt hlt).symm⟩
    · simp [hsame] at hlink
  · have hbytes := link_out_bytes { apply_reply c i r' with action := a, redo := d } i r'.rc
      (isLast c no_more_input r'.rc)
    obtain ⟨-, heap, n, b, f, dn, he⟩ := link_out_spec { apply_reply c i r' with action := a, redo := d } i r'.rc
      (isLast c no_more_input r'.rc)
    have hlink : ctx.out = c.out ++ [i] := by
      rw [hctx, he]
      rfl
    rw [← hctx] at hbytes
    rcases hout with ⟨-, -, hsame, -⟩ | ⟨-, -, -, hmap, -⟩
    · simp [hsame] at hlink
    · exact ⟨[ctx.heap i], hmap, by rw [forwarded_single]; exact hbytes⟩

/-- Only a call of the compressor counts. -/
theorem BodyMove.bytes_out {s s' : BodyState Z} {op : BodyOp} (hm : BodyMove E s op s') :
    s'.ctx.bytes_out = s.ctx.bytes_out ∨ ∃ c no_more_input, CallsAt E s op c no_more_input := by
  cases hm with
  | pass hpc hd | noop hpc hd hh hr hi hb | begin_loop b hpc hd hh hn | resume b hpc hd hh hn | read hpc =>
    exact .inl rfl
  | skip hpc ha | dry hpc ha =>
    obtain ⟨q, ib, l, f, n, bi, rfl⟩ := add_data_frame ha
    exact .inl rfl
  | starve hpc ha hm hg =>
    obtain ⟨fr, ob, n, bo, heap, hs, nm, rfl⟩ := get_buf_frame hg
    obtain ⟨q, ib, l, f, n, bi, rfl⟩ := add_data_frame ha
    exact .inl rfl
  | work hpc ha hm hg hc hrc => exact .inr ⟨_, _, .intro hpc ha hm hg⟩
  | keep hpc ho hf => exact .inl rfl
  | give hpc ho hr => exact .inl rfl

theorem CallsAt.bytes_out {s : BodyState Z} {op : BodyOp} {c : BodyCtx Z} {no_more_input : Bool}
    (hat : CallsAt E s op c no_more_input) : c.bytes_out = s.ctx.bytes_out := by
  cases hat with
  | intro hpc ha hm hg =>
    obtain ⟨fr, ob, n, bo, heap, hs, nm, rfl⟩ := get_buf_frame hg
    obtain ⟨q, ib, l, f, n, bi, rfl⟩ := add_data_frame ha
    rfl

theorem Tallied.move {s s' : BodyState Z} {op : BodyOp} (h : OutputSide E s) (ht : Tallied s)
    (hm : BodyMove E s op s') : Tallied s' := by
  have hlt : s.ctx.bytes_out < 2 ^ 64 := ht ▸ Nat.mod_lt _ (by decide)
  have hcall : ∀ {c no_more_input}, CallsAt E s op c no_more_input → Tallied s' := by
    intro c no_more_input hat
    obtain ⟨link, rc, hc, hrc, hhanded⟩ := hat.move hm
    obtain ⟨hout, hmap, -⟩ := hat.output h
    obtain ⟨bs, hbs, hbytes⟩ := compress_bytes hout hc hrc (hat.bytes_out ▸ hlt)
    have hsent : s'.sent = s.sent ++ bs := by
      rw [BodyState.sent, hbs, hmap, hhanded, ← List.append_assoc]
      rfl
    rw [Tallied, hsent, forwarded_append, List.length_append, hbytes, hat.bytes_out, ht, Nat.mod_add_mod]
  rcases hm.sent h with ⟨hsent, -⟩ | ⟨c, no_more_input, link, rc, hat, -⟩
  · rcases hm.bytes_out with hbytes | ⟨c, no_more_input, hat⟩
    · rw [Tallied, hsent, hbytes]
      exact ht
    · exact hcall hat
  · exact hcall hat

/-! ## What the handlers find -/

/-- The invariant behind the variables. -/
structure VarSide (E : BodyEnv) (s : BodyState Z) : Prop extends Integrity E s where
  capped : Capped E s
  tallied : Tallied s

theorem VarSide.start : VarSide E (BodyState.start Z) := ⟨.start, .start, rfl⟩

theorem VarSide.move {s s' : BodyState Z} {op : BodyOp} (h : VarSide E s) (hok : LastIsFinal s op)
    (hm : BodyMove E s op s') : VarSide E s' :=
  ⟨h.toIntegrity.move hok hm, h.capped.move hm, h.tallied.move h.toOutputSide hm⟩

/-- At the end everything delivered has been dequeued. -/
theorem VarSide.bytes_in {s : BodyState Z} (h : VarSide E s) (hd : s.ctx.done = true) :
    s.ctx.bytes_in = s.delivered.length % 2 ^ 64 := by
  obtain ⟨hlast, hunread, -⟩ := h.done hd
  have hin := h.input (h.active (.inr hd))
  have hbytes := hin.bytes
  rw [(hin.last hlast).2, show bytesOf ([] : List InBuf) = [] from rfl, List.append_nil] at hbytes
  rw [h.capped.counted.bytes_in, BodyCtx.total, hbytes]

/-- What is reported stays as it is. -/
theorem Integrity.report_stable {s s' : BodyState Z} {op : BodyOp} (h : Integrity E s) (hok : LastIsFinal s op)
    (hm : BodyMove E s op s') (hd : s.ctx.done = true) (A : Abi) (var : ZstdVar) :
    s'.report A var = s.report A var := by
  have hended := ((h.input (h.active (.inr hd))).last (h.done hd).1).1
  have hdelivered : s'.delivered = s.delivered := by
    cases hm with
    | @pass chain init down hpc hdone =>
      obtain ⟨-, hfinal⟩ := hok
      show s.delivered ++ bytesOf chain = s.delivered
      rw [hfinal hended]
      exact List.append_nil _
    | noop hpc hdone hh hr hi hb =>
      rw [hd] at hdone
      cases hdone
    | begin_loop b hpc hdone hh hn | resume b hpc hdone hh hn =>
      rw [hd] at hdone
      cases hdone
    | read hpc => rfl
    | skip hpc ha | dry hpc ha => rfl
    | starve hpc ha hm hg => rfl
    | work hpc ha hm hg hc hrc => rfl
    | keep hpc ho hf => rfl
    | give hpc ho hr => rfl
  rcases hm.sent h.toOutputSide with ⟨hsent, hdone⟩ | ⟨c, no_more_input, link, rc, hat, -⟩
  · rw [BodyState.report, BodyState.report, hsent, hdone, hdelivered]
  · cases hat with
    | intro hpc ha hmax hg =>
      rw [h.inner hpc] at hd
      cases hd

/-- The two parts are those of the thousandths. -/
theorem ratio_parts_thousandths {bytes_in bytes_out : UInt64} (h : 0 < bytes_out) :
    (ratio_parts bytes_in bytes_out).1.toNat = bytes_in.toNat * 1000 / bytes_out.toNat / 1000 ∧
      (ratio_parts bytes_in bytes_out).2.toNat = bytes_in.toNat * 1000 / bytes_out.toNat % 1000 := by
  have hpos := UInt64.lt_iff_toNat_lt.1 h
  obtain ⟨hrem, hfrac, hsum, -⟩ := @ratio_digits_spec bytes_in bytes_out h 3 (Nat.le_refl 3)
  simp only [toNats] at hrem hfrac hsum
  have hint : (ratio_parts bytes_in bytes_out).1.toNat = bytes_in.toNat / bytes_out.toNat := UInt64.toNat_div ..
  have hsum : (ratio_parts bytes_in bytes_out).2.toNat * bytes_out.toNat + _ = _ := hsum
  have hfrac : (ratio_parts bytes_in bytes_out).2.toNat < 10 ^ 3 := hfrac
  have hpos : 0 < bytes_out.toNat := hpos
  have hdm := Nat.div_add_mod bytes_in.toNat bytes_out.toNat
  rw [hint]
  generalize (ratio_parts bytes_in bytes_out).2.toNat = frac at *
  have hquot : bytes_in.toNat * 1000 / bytes_out.toNat = bytes_in.toNat / bytes_out.toNat * 1000 + frac := by
    have hmul : (bytes_in.toNat / bytes_out.toNat * 1000 + frac) * bytes_out.toNat =
        1000 * (bytes_out.toNat * (bytes_in.toNat / bytes_out.toNat)) + frac * bytes_out.toNat := by ring
    have hnext : (bytes_in.toNat / bytes_out.toNat * 1000 + frac + 1) * bytes_out.toNat =
        (bytes_in.toNat / bytes_out.toNat * 1000 + frac) * bytes_out.toNat + bytes_out.toNat := Nat.succ_mul ..
    refine Nat.div_eq_of_lt_le ?_ ?_
    · rw [hmul]
      omega
    · rw [hnext, hmul]
      omega
  constructor
  · rw [hquot]
    omega
  · rw [hquot]
    omega

/-- The handlers say what there is to report. -/
theorem VarSide.handler {s : BodyState Z} (h : VarSide E s) (ha : s.ctx.aborted = false) (var : ZstdVar)
    (vv : VarValue) :
    get_handler E.abi var (some s.ctx) true vv = match s.report E.abi var with
      | none => (.ok, unsettled vv)
      | some text => (.ok, { vv with data := text, valid := true, no_cacheable := false }) := by
  by_cases hd : s.ctx.done = true
  · have hin := h.bytes_in hd
    have hout : s.ctx.bytes_out = (forwarded s.sent).length % 2 ^ 64 := h.tallied
    have hbefore : ¬((s.ctx.aborted = true) ∨ ¬s.ctx.done = true) := by simp [ha, hd]
    rw [BodyState.report, if_pos hd]
    cases var with
    | bytes_in =>
      simp only [get_handler, bytes_variable, if_neg hbefore, totals, hin]
      simp
    | bytes_out =>
      simp only [get_handler, bytes_variable, if_neg hbefore, totals, hout]
      simp
    | ratio =>
      simp only [get_handler, ratio_variable, totals, hin, hout]
      by_cases hz : (forwarded s.sent).length % 2 ^ 64 = 0
      · rw [if_pos (.inr (.inr hz)), if_pos hz]
      · have hword : ∀ n : Nat, (UInt64.ofNat (n % 2 ^ 64)).toNat = n % 2 ^ 64 := fun n =>
          UInt64.toNat_ofNat_of_lt' (Nat.mod_lt _ (by decide))
        have hpos : 0 < UInt64.ofNat ((forwarded s.sent).length % 2 ^ 64) := by
          rw [UInt64.lt_iff_toNat_lt, hword]
          exact Nat.pos_of_ne_zero hz
        obtain ⟨hint, hfrac⟩ := @ratio_parts_thousandths (UInt64.ofNat (s.delivered.length % 2 ^ 64)) _ hpos
        rw [hword, hword] at hint hfrac
        have hsmall : ∀ n : Nat, n % 1000 % 2 ^ E.abi.size_bits = n % 1000 := fun n => by
          have := E.abi.two_pow_ge
          exact Nat.mod_eq_of_lt (by omega)
        have hall : ¬(s.ctx.aborted = true ∨ ¬s.ctx.done = true ∨ (forwarded s.sent).length % 2 ^ 64 = 0) := by
          rintro (h | h | h)
          · rw [ha] at h
            cases h
          · exact h hd
          · exact hz h
        simp only [if_neg hall, if_neg hz, hint, hfrac, hsmall]
        simp
  · rw [BodyState.report, if_neg hd]
    cases var with
    | bytes_in => exact if_pos (.inr hd)
    | bytes_out => exact if_pos (.inr hd)
    | ratio => exact if_pos (.inr (.inl hd))

/-! ## Lookups over a run -/

/-- What nginx keeps is what there is to report, and that there is nothing is asked for
again. -/
structure Kept (A : Abi) (s : BodyState Z) (var : ZstdVar) (vv : VarValue) : Prop where
  value : vv.valid = true → vv.no_cacheable = false ∧ vv.not_found = false ∧ s.report A var = some vv.data
  absent : vv.not_found = true → vv.no_cacheable = true ∧ vv.valid = false

/-- A lookup that asks the handler. -/
theorem VarSide.asked {s : BodyState Z} (h : VarSide E s) (ha : s.ctx.aborted = false) (var : ZstdVar) {vv : VarValue}
    (hv : vv.valid = false) (hn : vv.not_found = false) :
    let kept := get_indexed_variable (get_handler E.abi var (some s.ctx) true) vv
    Kept E.abi s var kept ∧ kept.valid = (s.report E.abi var).isSome ∧
      kept.not_found = (s.report E.abi var).isNone := by
  have hask : ¬(vv.not_found = true ∨ vv.valid = true) := by simp [hv, hn]
  simp only [get_indexed_variable, if_neg hask, h.handler ha]
  cases hr : s.report E.abi var with
  | none => exact ⟨⟨fun hvalid => (by simp [unsettled, hv] at hvalid), fun _ => ⟨rfl, hv⟩⟩, hv, rfl⟩
  | some text => exact ⟨⟨fun _ => ⟨rfl, hn, hr⟩, fun hnf => (by simp [hn] at hnf)⟩, rfl, hn⟩

/-- A lookup, whether or not it asks. -/
theorem VarSide.indexed {s : BodyState Z} (h : VarSide E s) (ha : s.ctx.aborted = false) {var : ZstdVar} {vv : VarValue}
    (hk : Kept E.abi s var vv) :
    Kept E.abi s var (get_indexed_variable (get_handler E.abi var (some s.ctx) true) vv) := by
  by_cases hask : vv.not_found = true ∨ vv.valid = true
  · rwa [get_indexed_variable, if_pos hask]
  · simp only [not_or, Bool.not_eq_true] at hask
    exact (h.asked ha var hask.2 hask.1).1

/-- A lookup that flushes finds a value exactly when there is one to report. -/
theorem VarSide.flushed {s : BodyState Z} (h : VarSide E s) (ha : s.ctx.aborted = false) {var : ZstdVar} {vv : VarValue}
    (hk : Kept E.abi s var vv) :
    let found := get_flushed_variable (get_handler E.abi var (some s.ctx) true) vv
    Kept E.abi s var found ∧ found.valid = (s.report E.abi var).isSome ∧
      found.not_found = (s.report E.abi var).isNone := by
  unfold get_flushed_variable
  by_cases hkeep : (vv.valid = true ∨ vv.not_found = true) ∧ ¬vv.no_cacheable = true
  · rw [if_pos hkeep]
    obtain ⟨hset, hcache⟩ := hkeep
    have hv : vv.valid = true := by
      rcases hset with hv | hn
      · exact hv
      · exact absurd (hk.absent hn).1 hcache
    obtain ⟨-, hn, hreport⟩ := hk.value hv
    rw [hreport]
    exact ⟨hk, hv, hn⟩
  · rw [if_neg hkeep]
    exact h.asked ha var rfl rfl

structure Watched.Inv (E : BodyEnv) (w : Watched Z) : Prop where
  side : VarSide E w.body
  kept : ∀ var, Kept E.abi w.body var (w.vars var)

theorem Watched.start_inv : (Watched.start Z).Inv E :=
  ⟨.start, fun _ => ⟨fun h => (by cases h), fun h => (by cases h)⟩⟩

/-- A value that is kept outlasts the steps of the filter. -/
theorem Kept.move {s s' : BodyState Z} {op : BodyOp} {A : Abi} {var : ZstdVar} {vv : VarValue} (hk : Kept A s var vv)
    (h : Integrity E s) (hok : LastIsFinal s op) (hm : BodyMove E s op s') : Kept A s' var vv := by
  refine ⟨fun hv => ?_, hk.absent⟩
  obtain ⟨hcache, hnot, hreport⟩ := hk.value hv
  have hd : s.ctx.done = true := by
    by_contra hd
    rw [BodyState.report, if_neg hd] at hreport
    cases hreport
  exact ⟨hcache, hnot, (h.report_stable hok hm hd A var).trans hreport⟩

theorem Watched.step_inv {w w' : Watched Z} {op : WatchOp} (hi : w.Inv E) (ha : w'.body.ctx.aborted = false)
    (hok : w.Proper op) (h : w.step E op = some w') : w'.Inv E := by
  cases op with
  | body op =>
    obtain ⟨body, hs, rfl⟩ := Option.map_eq_some_iff.1 h
    have hm := body_step_move hs ha
    exact ⟨hi.side.move hok hm, fun var => (hi.kept var).move hi.side.toIntegrity hok hm⟩
  | indexed var pnalloc =>
    cases h
    obtain rfl : pnalloc = true := hok
    refine ⟨hi.side, fun v => ?_⟩
    by_cases hv : v = var
    · subst hv
      show Kept E.abi w.body v (Function.update w.vars v _ v)
      rw [Function.update_self]
      exact hi.side.indexed ha (hi.kept v)
    · show Kept E.abi w.body v (Function.update w.vars var _ v)
      rw [Function.update_of_ne hv]
      exact hi.kept v
  | flushed var pnalloc =>
    cases h
    obtain rfl : pnalloc = true := hok
    refine ⟨hi.side, fun v => ?_⟩
    by_cases hv : v = var
    · subst hv
      show Kept E.abi w.body v (Function.update w.vars v _ v)
      rw [Function.update_self]
      exact (hi.side.flushed ha (hi.kept v)).1
    · show Kept E.abi w.body v (Function.update w.vars var _ v)
      rw [Function.update_of_ne hv]
      exact hi.kept v

theorem Watched.step_aborted {w w' : Watched Z} {op : WatchOp} (h : w.step E op = some w')
    (ha : w'.body.ctx.aborted = false) : w.body.ctx.aborted = false := by
  cases op with
  | body op =>
    obtain ⟨body, hs, rfl⟩ := Option.map_eq_some_iff.1 h
    exact (body_step_move hs ha).aborted ▸ ha
  | indexed var pnalloc =>
    cases h
    exact ha
  | flushed var pnalloc =>
    cases h
    exact ha

theorem Watched.reaches_inv {w : Watched Z} (h : Reaches (Watched.step E) Watched.Proper (.start Z) w)
    (ha : w.body.ctx.aborted = false) : w.Inv E :=
  h.invariant (fun w => w.body.ctx.aborted = false → w.Inv E) (fun _ => Watched.start_inv)
    (fun _ _ _ hi hok hs ha => Watched.step_inv (hi (Watched.step_aborted hs ha)) ha hok hs) ha

end NginxZstd
