import NginxZstd.BodyFilter.Machine
/-!
# The output side

What the compressor wrote, and with a dcz dictionary the frame header in front of
it, is in order what was passed on, what waits in `ctx->out` and what the output
buffer holds. The buffers do not overlap: each stands in at most one place, so a
write to one is seen nowhere else.
-/

namespace NginxZstd

open Lib

variable {Z : Compressor} {E : BodyEnv}

/-- What a dcz response starts with, once a buffer was allocated. -/
def headerOf (E : BodyEnv) (bufs : Nat) : Bytes :=
  match E.filter.dcz_dict with
  | some dict => if bufs = 0 then [] else dict.frame_header.take dcz_header_len
  | none => []

/-- The bytes in a chain of output buffers. -/
def chainBytes (heap : BufId → OutBuf) (ids : List BufId) : Bytes := ids.flatMap fun i => (heap i).unread

/-- Every place a buffer can be in. -/
def BodyCtx.places (ctx : BodyCtx Z) : List BufId := ctx.out_buf.toList ++ ctx.out ++ ctx.busy ++ ctx.free

/-- The bytes passed downstream so far. -/
def forwarded (handed : List OutBuf) : Bytes := handed.flatMap OutBuf.unread

structure Output (E : BodyEnv) (ctx : BodyCtx Z) (handed : List OutBuf) : Prop where
  bytes : forwarded handed ++ chainBytes ctx.heap (ctx.out ++ ctx.out_buf.toList) = headerOf E ctx.bufs ++ ctx.produced
  places : ctx.places.Nodup
  known : ∀ i ∈ ctx.places, i < ctx.bufs
  clean : ∀ i ∈ ctx.free, (ctx.heap i).data = [] ∧ (ctx.heap i).pos = 0
  unread : ∀ i, ctx.out_buf = some i → (ctx.heap i).pos = 0
  none_yet : ctx.bufs = 0 → ctx.produced = [] ∧ ctx.dcz_header_sent = false

/-- The output buffer, if there is one, has nothing in it. -/
def Empty (ctx : BodyCtx Z) : Prop := ∀ i, ctx.out_buf = some i → (ctx.heap i).data = []

theorem chainBytes_congr {heap heap' : BufId → OutBuf} {ids : List BufId}
    (h : ∀ i ∈ ids, (heap' i).data = (heap i).data ∧ (heap' i).pos = (heap i).pos) :
    chainBytes heap' ids = chainBytes heap ids := by
  unfold chainBytes
  refine List.flatMap_congr fun i hi => ?_
  obtain ⟨h1, h2⟩ := h i hi
  rw [OutBuf.unread, OutBuf.unread, h1, h2]

theorem chainBytes_update_of_notMem {heap : BufId → OutBuf} {ids : List BufId} {i : BufId} {b : OutBuf} (h : i ∉ ids) :
    chainBytes (Function.update heap i b) ids = chainBytes heap ids := by
  refine chainBytes_congr fun j hj => ?_
  have hne : j ≠ i := fun e => h (e ▸ hj)
  rw [Function.update_of_ne hne]
  exact ⟨rfl, rfl⟩

theorem chainBytes_append (heap : BufId → OutBuf) (is js : List BufId) :
    chainBytes heap (is ++ js) = chainBytes heap is ++ chainBytes heap js := List.flatMap_append

theorem mem_places {ctx : BodyCtx Z} {i : BufId} :
    i ∈ ctx.places ↔ ctx.out_buf = some i ∨ i ∈ ctx.out ∨ i ∈ ctx.busy ∨ i ∈ ctx.free := by
  simp only [BodyCtx.places, List.mem_append, Option.mem_toList, or_assoc]

/-- The output side sees the buffers' bytes and nothing of the rest. -/
theorem Output.congr {ctx ctx' : BodyCtx Z} {handed : List OutBuf} (h : Output E ctx handed)
    (hheap : ∀ i, (ctx'.heap i).data = (ctx.heap i).data ∧ (ctx'.heap i).pos = (ctx.heap i).pos)
    (hplaces : ctx'.out_buf = ctx.out_buf ∧ ctx'.out = ctx.out ∧ ctx'.busy = ctx.busy ∧ ctx'.free = ctx.free)
    (hrest : ctx'.bufs = ctx.bufs ∧ ctx'.produced = ctx.produced ∧ ctx'.dcz_header_sent = ctx.dcz_header_sent) :
    Output E ctx' handed := by
  obtain ⟨h1, h2, h3, h4⟩ := hplaces
  obtain ⟨h5, h6, h7⟩ := hrest
  have hp : ctx'.places = ctx.places := by unfold BodyCtx.places; rw [h1, h2, h3, h4]
  refine ⟨?_, hp ▸ h.places, ?_, ?_, ?_, ?_⟩
  · rw [h1, h2, h5, h6, chainBytes_congr fun i _ => hheap i]
    exact h.bytes
  · rw [hp, h5]
    exact h.known
  · intro i hi
    rw [(hheap i).1, (hheap i).2]
    exact h.clean i (h4 ▸ hi)
  · intro i hi
    rw [(hheap i).2]
    exact h.unread i (h1 ▸ hi)
  · rw [h5, h6, h7]
    exact h.none_yet

/-! ## Acquiring a buffer -/

theorem Empty.held_bytes {ctx : BodyCtx Z} (he : Empty ctx) : chainBytes ctx.heap ctx.out_buf.toList = [] := by
  cases hb : ctx.out_buf with
  | none => rfl
  | some i => simp [chainBytes, OutBuf.unread, he i hb]

/-- Where `out_buf` is let go of, it was empty. -/
theorem Output.drop_out_buf {ctx : BodyCtx Z} {handed : List OutBuf} (h : Output E ctx handed) (he : Empty ctx) :
    Output E { ctx with out_buf := none } handed := by
  refine ⟨?_, ?_, ?_, h.clean, by simp, h.none_yet⟩
  · have := h.bytes
    rw [chainBytes_append, he.held_bytes, List.append_nil] at this
    simpa using this
  · have := h.places
    simp only [BodyCtx.places, List.append_assoc] at this ⊢
    exact (List.nodup_append.1 this).2.1
  · intro i hi
    refine h.known i (mem_places.2 ?_)
    rcases mem_places.1 hi with hn | hr
    · simp at hn
    · exact .inr hr

theorem Output.reuse {ctx : BodyCtx Z} {handed : List OutBuf} {i : BufId} {free : List BufId}
    (h : Output E ctx handed) (hb : ctx.out_buf = none) (hf : ctx.free = i :: free) :
    Output E (reuse_buf ctx i free) handed := by
  have hclean := h.clean i (by rw [hf]; exact List.mem_cons_self)
  have hheap : ∀ j, ((reuse_buf ctx i free).heap j).data = (ctx.heap j).data ∧
      ((reuse_buf ctx i free).heap j).pos = (ctx.heap j).pos := by
    intro j
    by_cases hj : j = i
    · subst hj
      simp [reuse_buf]
    · simp [reuse_buf, Function.update_of_ne hj]
  have hperm : (reuse_buf ctx i free).places.Perm ctx.places := by
    simp only [BodyCtx.places, reuse_buf, hb, hf, Option.toList_some, Option.toList_none, List.nil_append,
      List.append_assoc, List.singleton_append]
    rw [← List.append_assoc, ← List.append_assoc]
    exact List.perm_middle.symm
  refine ⟨?_, hperm.nodup_iff.2 h.places, fun j hj => h.known j (hperm.mem_iff.1 hj), ?_, ?_, h.none_yet⟩
  · rw [chainBytes_congr fun j _ => hheap j]
    have := h.bytes
    rw [hb] at this
    simp only [reuse_buf, Option.toList_some, chainBytes_append]
    rw [show chainBytes ctx.heap [i] = [] by simp [chainBytes, OutBuf.unread, hclean.1]]
    simpa using this
  · intro j hj
    rw [(hheap j).1, (hheap j).2]
    exact h.clean j (by rw [hf]; exact List.mem_cons_of_mem _ hj)
  · intro j hj
    rw [(hheap j).2]
    obtain rfl : i = j := by simpa [reuse_buf] using hj
    exact hclean.2

theorem headerOf_succ {bufs : Nat} (h : bufs ≠ 0) : headerOf E (bufs + 1) = headerOf E bufs := by
  unfold headerOf
  split
  · rw [if_neg h, if_neg (Nat.succ_ne_zero bufs)]
  · rfl

/-- The buffer `alloc_buf` creates holds the header if it is the first, else nothing. -/
theorem alloc_data (ctx : BodyCtx Z) (h0 : ctx.bufs = 0 → ctx.dcz_header_sent = false) :
    headerOf E ctx.bufs ++ ((alloc_buf E ctx).heap ctx.bufs).data = headerOf E (ctx.bufs + 1) ∧
      ((alloc_buf E ctx).heap ctx.bufs).pos = 0 := by
  unfold alloc_buf want_header headerOf
  dsimp only
  rw [Function.update_self]
  cases hd : E.filter.dcz_dict with
  | none => exact ⟨rfl, rfl⟩
  | some dict =>
    dsimp only
    by_cases hz : ctx.bufs = 0
    · simp [hz, h0 hz, create_temp_buf]
    · simp [hz, create_temp_buf]

theorem Output.alloc {ctx : BodyCtx Z} {handed : List OutBuf} (h : Output E ctx handed) (hb : ctx.out_buf = none) :
    Output E (alloc_buf E ctx) handed := by
  obtain ⟨hdata, hpos⟩ := alloc_data (E := E) ctx fun h0 => (h.none_yet h0).2
  -- the new number is in no place yet
  have hnew : ctx.bufs ∉ ctx.places := fun hm => absurd (h.known _ hm) (lt_irrefl _)
  have hold : ∀ i ∈ ctx.places, (alloc_buf E ctx).heap i = ctx.heap i := by
    intro i hi
    have hne : i ≠ ctx.bufs := fun e => hnew (e ▸ hi)
    exact Function.update_of_ne hne ..
  have hplaces : (alloc_buf E ctx).places = ctx.bufs :: ctx.places := by
    simp only [BodyCtx.places, alloc_buf, hb, Option.toList_some, Option.toList_none, List.nil_append,
      List.cons_append]
  refine ⟨?_, ?_, ?_, ?_, ?_, fun h0 => absurd h0 (Nat.succ_ne_zero _)⟩
  · have hout : chainBytes (alloc_buf E ctx).heap ctx.out = chainBytes ctx.heap ctx.out := by
      refine chainBytes_congr fun i hi => ?_
      rw [hold i (mem_places.2 (.inr (.inl hi)))]
      exact ⟨rfl, rfl⟩
    have hone : chainBytes (alloc_buf E ctx).heap [ctx.bufs] = ((alloc_buf E ctx).heap ctx.bufs).data := by
      simp [chainBytes, OutBuf.unread, hpos]
    have hbytes := h.bytes
    rw [hb, Option.toList_none, List.append_nil] at hbytes
    have hgoal : (alloc_buf E ctx).out ++ (alloc_buf E ctx).out_buf.toList = ctx.out ++ [ctx.bufs] := rfl
    rw [hgoal, chainBytes_append, hout, hone, ← List.append_assoc, hbytes]
    show _ = headerOf E (ctx.bufs + 1) ++ ctx.produced
    by_cases hz : ctx.bufs = 0
    · rw [(h.none_yet hz).1, List.append_nil, List.append_nil, hdata]
    · have hnil : ((alloc_buf E ctx).heap ctx.bufs).data = [] := by
        rw [headerOf_succ hz] at hdata
        simpa using hdata
      rw [hnil, List.append_nil, headerOf_succ hz]
  · rw [hplaces]
    exact List.nodup_cons.2 ⟨hnew, h.places⟩
  · intro i hi
    rw [hplaces] at hi
    rcases List.mem_cons.1 hi with rfl | hi
    · exact Nat.lt_succ_self _
    · exact Nat.lt_succ_of_lt (h.known i hi)
  · intro i hi
    rw [hold i (mem_places.2 (.inr (.inr (.inr hi))))]
    exact h.clean i hi
  · intro i hi
    obtain rfl : ctx.bufs = i := by simpa [alloc_buf] using hi
    exact hpos

/-- `get_buf` either has an output buffer or reports why not. -/
theorem get_buf_output {ctx ctx' : BodyCtx Z} {handed : List OutBuf} {palloc : Bool} {rc : Rc}
    (h : Output E ctx handed) (he : Empty ctx) (hg : get_buf E palloc ctx = (rc, ctx')) (hrc : rc ≠ .error) :
    Output E ctx' handed ∧ (rc = .ok → ctx'.out_buf ≠ none) ∧ (rc ≠ .ok → ctx' = { ctx with nomem := true }) := by
  have hdrop := h.drop_out_buf he
  rcases get_buf_cases hg hrc with ⟨hb, -, rfl, rfl⟩ |
    ⟨-, ⟨i, free, hf, rfl, rfl⟩ | ⟨-, -, rfl, rfl⟩ | ⟨-, -, rfl, rfl⟩⟩
  · exact ⟨h, fun _ => hb, by simp⟩
  · have hr := hdrop.reuse rfl hf
    exact ⟨hr.congr (fun _ => ⟨rfl, rfl⟩) ⟨rfl, rfl, rfl, rfl⟩ ⟨rfl, rfl, rfl⟩, by simp [reuse_buf], by simp⟩
  · have hr := hdrop.alloc rfl
    exact ⟨hr.congr (fun _ => ⟨rfl, rfl⟩) ⟨rfl, rfl, rfl, rfl⟩ ⟨rfl, rfl, rfl⟩, by simp [alloc_buf], by simp⟩
  · exact ⟨h.congr (fun _ => ⟨rfl, rfl⟩) ⟨rfl, rfl, rfl, rfl⟩ ⟨rfl, rfl, rfl⟩, by simp, fun _ => rfl⟩

/-! ## Writing and linking -/

theorem Output.notMem_of_out_buf {ctx : BodyCtx Z} {handed : List OutBuf} {i : BufId} (h : Output E ctx handed)
    (hb : ctx.out_buf = some i) : i ∉ ctx.out ∧ i ∉ ctx.busy ∧ i ∉ ctx.free := by
  have hp := h.places
  rw [BodyCtx.places, hb, Option.toList_some, List.append_assoc, List.append_assoc, List.singleton_append,
    List.nodup_cons] at hp
  simpa only [List.mem_append, not_or] using hp.1

theorem Output.write {ctx : BodyCtx Z} {handed : List OutBuf} {i : BufId} (h : Output E ctx handed)
    (hb : ctx.out_buf = some i) (r : Reply Z.State) : Output E (apply_reply ctx i r) handed := by
  obtain ⟨hout, -, hfree⟩ := h.notMem_of_out_buf hb
  have hpos := h.unread i hb
  have hbufs : ctx.bufs ≠ 0 := by
    have := h.known i (mem_places.2 (.inl hb))
    exact Nat.ne_of_gt (Nat.lt_of_le_of_lt (Nat.zero_le i) this)
  refine ⟨?_, h.places, h.known, ?_, ?_, fun h0 => absurd h0 hbufs⟩
  · have hbytes := h.bytes
    simp only [hb, Option.toList_some, chainBytes_append] at hbytes
    have hone : chainBytes (apply_reply ctx i r).heap [i] = chainBytes ctx.heap [i] ++ r.written := by
      simp [chainBytes, apply_reply, OutBuf.unread, hpos]
    have hrest : chainBytes (apply_reply ctx i r).heap ctx.out = chainBytes ctx.heap ctx.out :=
      chainBytes_update_of_notMem hout
    have hgoal : (apply_reply ctx i r).out ++ (apply_reply ctx i r).out_buf.toList = ctx.out ++ [i] := by
      simp [apply_reply, hb]
    rw [hgoal, chainBytes_append, hrest, hone, ← List.append_assoc, ← List.append_assoc]
    rw [← List.append_assoc] at hbytes
    rw [hbytes, List.append_assoc]
    rfl
  · intro j hj
    have hne : j ≠ i := fun e => hfree (e ▸ hj)
    simp only [apply_reply, Function.update_of_ne hne]
    exact h.clean j hj
  · intro j hj
    obtain rfl : i = j := by simpa [apply_reply, hb] using hj
    simp only [apply_reply, Function.update_self]
    exact hpos

theorem Output.link {ctx : BodyCtx Z} {handed : List OutBuf} {i : BufId} (h : Output E ctx handed)
    (hb : ctx.out_buf = some i) (zrc : Nat) (last : Bool) : Output E (link_out ctx i zrc last) handed := by
  obtain ⟨hheap, heap, n, b, f, d, he⟩ := link_out_spec ctx i zrc last
  rw [he] at hheap ⊢
  have hperm : (ctx.out ++ [i] ++ ctx.busy ++ ctx.free).Perm ctx.places := by
    simp only [BodyCtx.places, hb, Option.toList_some, List.append_assoc, List.singleton_append]
    exact List.perm_middle
  refine ⟨?_, hperm.nodup_iff.2 h.places, fun j hj => h.known j (hperm.mem_iff.1 hj), ?_, by simp, h.none_yet⟩
  · rw [Option.toList_none, List.append_nil, chainBytes_congr fun j _ => hheap j]
    have := h.bytes
    rwa [hb, Option.toList_some] at this
  · intro j hj
    rw [(hheap j).1, (hheap j).2]
    exact h.clean j hj

/-- A call writes behind what is there, and leaves an output buffer only if it is
empty. -/
theorem compress_output {ctx ctx' : BodyCtx Z} {handed : List OutBuf} {no_more_input link : Bool} {rc : Rc}
    (h : Output E ctx handed) (hc : filter_compress ctx no_more_input link = (rc, ctx')) (hrc : rc ≠ .error) :
    Output E ctx' handed ∧ Empty ctx' := by
  obtain ⟨i, r, a, d, hb, -, -, hcases⟩ := filter_compress_cases hc hrc
  have hw : Output E { apply_reply ctx i r with action := a, redo := d } handed :=
    (h.write hb r).congr (fun _ => ⟨rfl, rfl⟩) ⟨rfl, rfl, rfl, rfl⟩ ⟨rfl, rfl, rfl⟩
  rcases hcases with ⟨hs, -, -, rfl⟩ | ⟨-, -, rfl⟩
  · obtain ⟨b, f, he⟩ := suppress_empty_spec { apply_reply ctx i r with action := a, redo := d } r.rc
    rw [he]
    refine ⟨hw.congr (fun _ => ⟨rfl, rfl⟩) ⟨rfl, rfl, rfl, rfl⟩ ⟨rfl, rfl, rfl⟩, fun j hj => ?_⟩
    obtain rfl : i = j := by simpa [apply_reply, hb] using hj
    have hpos := (h.write hb r).unread i hb
    rw [OutBuf.size, hpos, Nat.sub_zero] at hs
    exact List.eq_nil_of_length_eq_zero hs
  · refine ⟨hw.link hb _ _, fun j hj => ?_⟩
    obtain ⟨-, heap, n, b, f, d, he⟩ :=
      link_out_spec { apply_reply ctx i r with action := a, redo := d } i r.rc (isLast ctx no_more_input r.rc)
    simp [he] at hj

/-! ## Passing on and recycling -/

/-- Reading moves `pos`. -/
theorem drain_spec (drained : BufId → Nat) (ids : List BufId) (heap : BufId → OutBuf) (i : BufId) :
    ∃ p, drain drained ids heap i = { heap i with pos := p } := by
  unfold drain
  split
  · exact ⟨_, rfl⟩
  · exact ⟨(heap i).pos, rfl⟩

theorem drain_data (drained : BufId → Nat) (ids : List BufId) (heap : BufId → OutBuf) (i : BufId) :
    (drain drained ids heap i).data = (heap i).data := by
  obtain ⟨p, hp⟩ := drain_spec drained ids heap i
  rw [hp]

theorem drain_of_notMem {drained : BufId → Nat} {ids : List BufId} {heap : BufId → OutBuf} {i : BufId} (h : i ∉ ids) :
    drain drained ids heap i = heap i := if_neg h

/-- The downstream reads what it was given, the buffers in `busy`. -/
theorem Output.drain {ctx : BodyCtx Z} {handed : List OutBuf} (h : Output E ctx handed) (drained : BufId → Nat) :
    Output E { ctx with heap := drain drained ctx.busy ctx.heap } handed := by
  have hp := h.places
  rw [BodyCtx.places, List.append_assoc, List.nodup_append] at hp
  obtain ⟨-, hbf, hob⟩ := hp
  obtain ⟨-, -, hbf⟩ := List.nodup_append.1 hbf
  -- what is not downstream is not read
  have hkeep : ∀ i, i ∈ ctx.out ++ ctx.out_buf.toList ∨ i ∈ ctx.free →
      NginxZstd.drain drained ctx.busy ctx.heap i = ctx.heap i := by
    intro i hi
    refine drain_of_notMem fun hbusy => ?_
    rcases hi with hi | hi
    · exact hob i (by simpa [or_comm] using hi) i (List.mem_append_left _ hbusy) rfl
    · exact hbf i hbusy i hi rfl
  refine ⟨?_, h.places, h.known, ?_, ?_, h.none_yet⟩
  · have : chainBytes (NginxZstd.drain drained ctx.busy ctx.heap) (ctx.out ++ ctx.out_buf.toList) =
        chainBytes ctx.heap (ctx.out ++ ctx.out_buf.toList) :=
      chainBytes_congr fun i hi => by rw [hkeep i (.inl hi)]; exact ⟨rfl, rfl⟩
    rw [this]
    exact h.bytes
  · intro i hi
    dsimp only
    rw [hkeep i (.inr hi)]
    exact h.clean i hi
  · intro i (hi : ctx.out_buf = some i)
    dsimp only
    rw [hkeep i (.inl (List.mem_append_right _ (by simp [hi])))]
    exact h.unread i hi

/-- What `update_chains` does to the buffers in flight. -/
theorem update_chains_spec (heap : BufId → OutBuf) (free ids : List BufId) :
    ∃ read, ids = read ++ (update_chains heap free ids).2.2 ∧
      (update_chains heap free ids).2.1 = read.reverse ++ free ∧
      (∀ i ∈ read, ((update_chains heap free ids).1 i).data = [] ∧ ((update_chains heap free ids).1 i).pos = 0) ∧
      ∀ i, i ∉ read → (update_chains heap free ids).1 i = heap i := by
  induction ids generalizing heap free with
  | nil => exact ⟨[], rfl, rfl, by simp, fun _ _ => rfl⟩
  | cons i busy ih =>
    unfold update_chains
    split
    · exact ⟨[], rfl, rfl, by simp, fun _ _ => rfl⟩
    · obtain ⟨read, h1, h2, h3, h4⟩ := ih (Function.update heap i { heap i with data := [], pos := 0 }) (i :: free)
      refine ⟨i :: read, by rw [List.cons_append, ← h1], by simp [h2], ?_, ?_⟩
      · intro j hj
        by_cases hr : j ∈ read
        · exact h3 j hr
        · obtain rfl : j = i := by simpa [hr] using hj
          rw [h4 j hr, Function.update_self]
          exact ⟨rfl, rfl⟩
      · intro j hj
        obtain ⟨hne, hr⟩ : j ≠ i ∧ j ∉ read := by simpa using hj
        rw [h4 j hr, Function.update_of_ne hne]

/-- Recycling empties buffers. -/
theorem update_chains_keeps (heap : BufId → OutBuf) (free ids : List BufId) (i : BufId) :
    ∃ d p, (update_chains heap free ids).1 i = { heap i with data := d, pos := p } := by
  induction ids generalizing heap free with
  | nil => exact ⟨(heap i).data, (heap i).pos, rfl⟩
  | cons j busy ih =>
    unfold update_chains
    split
    · exact ⟨(heap i).data, (heap i).pos, rfl⟩
    · obtain ⟨d, p, he⟩ := ih (Function.update heap j { heap j with data := [], pos := 0 }) (j :: free)
      refine ⟨d, p, he.trans ?_⟩
      by_cases hj : i = j
      · subst hj
        rw [Function.update_self]
      · rw [Function.update_of_ne hj]

/-- No buffer in flight is lost. -/
theorem update_chains_perm (heap : BufId → OutBuf) (free ids : List BufId) :
    ((update_chains heap free ids).2.2 ++ (update_chains heap free ids).2.1).Perm (ids ++ free) := by
  obtain ⟨read, h1, h2, -, -⟩ := update_chains_spec heap free ids
  calc _ = (update_chains heap free ids).2.2 ++ (read.reverse ++ free) := by rw [h2]
    _ = ((update_chains heap free ids).2.2 ++ read.reverse) ++ free := by rw [List.append_assoc]
    List.Perm _ ((read ++ (update_chains heap free ids).2.2) ++ free) :=
      List.Perm.append_right _ (List.perm_append_comm.trans ((List.reverse_perm read).append_right _))
    _ = ids ++ free := by rw [← h1]

/-- Recycling: with `out` taken over by the buffers in flight, and `out_buf` given
up while it was empty. -/
theorem Output.recycle {ctx : BodyCtx Z} {handed handed' : List OutBuf} {out : List BufId} (h : Output E ctx handed)
    (he : Empty ctx) (hout : out = ctx.out)
    (hpass : forwarded handed' = forwarded handed ++ chainBytes ctx.heap ctx.out) (heap : BufId → OutBuf)
    (hheap : ∀ i, i ∉ ctx.busy ++ ctx.out → heap i = ctx.heap i) :
    Output E { NginxZstd.recycle { ctx with heap := heap } out with out := [] } handed' := by
  subst hout
  have hd := h.drop_out_buf he
  obtain ⟨read, h1, h2, h3, h4⟩ := update_chains_spec heap ctx.free (ctx.busy ++ ctx.out)
  have hperm : ((update_chains heap ctx.free (ctx.busy ++ ctx.out)).2.2 ++
      (update_chains heap ctx.free (ctx.busy ++ ctx.out)).2.1).Perm ({ ctx with out_buf := none } : BodyCtx Z).places := by
    simp only [BodyCtx.places, Option.toList_none, List.nil_append]
    exact (update_chains_perm ..).trans (List.perm_append_comm.append_right _)
  have hplaces : ({ NginxZstd.recycle { ctx with heap := heap } ctx.out with out := [] } : BodyCtx Z).places =
      (update_chains heap ctx.free (ctx.busy ++ ctx.out)).2.2 ++
        (update_chains heap ctx.free (ctx.busy ++ ctx.out)).2.1 := by
    simp only [BodyCtx.places, NginxZstd.recycle, Option.toList_none, List.nil_append]
  refine ⟨?_, ?_, ?_, ?_, by simp [NginxZstd.recycle], h.none_yet⟩
  · have := hd.bytes
    simp only [Option.toList_none, List.append_nil] at this
    simp only [NginxZstd.recycle, Option.toList_none, List.append_nil, hpass]
    rw [this]
    simp [chainBytes]
  · rw [hplaces]
    exact hperm.nodup_iff.2 hd.places
  · intro i hi
    rw [hplaces] at hi
    exact hd.known i (hperm.mem_iff.1 hi)
  · intro i hi
    have hi' : i ∈ read.reverse ++ ctx.free := by
      rw [← h2]
      exact hi
    by_cases hr : i ∈ read
    · exact h3 i hr
    · have hf : i ∈ ctx.free := by simpa [hr] using hi'
      -- a free buffer is not in flight
      have hnot : i ∉ ctx.busy ++ ctx.out := by
        have hp := hd.places
        simp only [BodyCtx.places, Option.toList_none, List.nil_append] at hp
        intro hm
        exact (List.nodup_append.1 hp).2.2 i (by simpa [or_comm] using hm) i hf rfl
      have hsame : (NginxZstd.recycle { ctx with heap := heap } ctx.out).heap i = ctx.heap i := by
        simp only [NginxZstd.recycle]
        rw [h4 i hr, hheap i hnot]
      dsimp only
      rw [hsame]
      exact h.clean i hf

theorem Empty.drain {ctx : BodyCtx Z} (h : Empty ctx) (drained : BufId → Nat) (ids : List BufId) :
    Empty { ctx with heap := drain drained ids ctx.heap } := by
  intro i hi
  show (NginxZstd.drain drained ids ctx.heap i).data = []
  rw [drain_data]
  exact h i hi

theorem Empty.of_none {ctx : BodyCtx Z} (h : ctx.out_buf = none) : Empty ctx := by
  intro i hi
  rw [h] at hi
  exact absurd hi (by simp)

/-- The output side after `add_data`. -/
theorem Output.add_data {ctx ctx' : BodyCtx Z} {cursor cursor' : List InBuf} {handed : List OutBuf} {rc : Rc}
    (h : Output E ctx handed) (he : Empty ctx) (ha : NginxZstd.add_data ctx cursor = (rc, ctx', cursor')) :
    Output E ctx' handed ∧ Empty ctx' := by
  obtain ⟨q, ib, l, f, n, bi, rfl⟩ := add_data_frame ha
  exact ⟨h.congr (fun _ => ⟨rfl, rfl⟩) ⟨rfl, rfl, rfl, rfl⟩ ⟨rfl, rfl, rfl⟩, he⟩

theorem Output.bufs_ne_zero {ctx ctx' : BodyCtx Z} {handed : List OutBuf} {no_more_input link : Bool} {rc : Rc}
    (h : Output E ctx handed) (hc : filter_compress ctx no_more_input link = (rc, ctx')) (hrc : rc ≠ .error) :
    ctx.bufs ≠ 0 := by
  obtain ⟨i, r, a, d, hb, -⟩ := filter_compress_cases hc hrc
  have := h.known i (mem_places.2 (.inl hb))
  exact Nat.ne_of_gt (Nat.lt_of_le_of_lt (Nat.zero_le i) this)

theorem forwarded_append (xs ys : List OutBuf) : forwarded (xs ++ ys) = forwarded xs ++ forwarded ys :=
  List.flatMap_append

theorem forwarded_map (heap : BufId → OutBuf) (ids : List BufId) : forwarded (ids.map heap) = chainBytes heap ids :=
  List.flatMap_map ..

/-! ## The output side over a run -/

/-- The invariant of the output side, whatever is delivered. -/
structure OutputSide (E : BodyEnv) (s : BodyState Z) : Prop where
  output : Output E s.ctx s.handed
  empty : Empty s.ctx
  idle : s.pc = .idle → s.ctx.out = []
  inner : s.pc = .inner → s.ctx.done = false
  ended : s.ctx.done = true → s.ctx.out_buf = none

theorem OutputSide.start : OutputSide E (BodyState.start Z) where
  output := ⟨by simp [BodyState.start, BodyCtx.start, forwarded, chainBytes, headerOf]; split <;> rfl,
    by simp [BodyState.start, BodyCtx.start, BodyCtx.places],
    by simp [BodyState.start, BodyCtx.start, BodyCtx.places], by simp [BodyState.start, BodyCtx.start],
    by simp [BodyState.start, BodyCtx.start], fun _ => ⟨rfl, rfl⟩⟩
  empty := Empty.of_none rfl
  idle _ := rfl
  inner h := by simp [BodyState.start] at h
  ended _ := rfl

/-- An iteration that calls the compressor. -/
theorem OutputSide.work {s : BodyState Z} {palloc link : Bool} {c c' ctx : BodyCtx Z} {cursor : List InBuf} {rc : Rc}
    (h : OutputSide E s) (hpc : s.pc = .inner) (ha : NginxZstd.add_data s.ctx s.cursor = (.ok, c, cursor))
    (hg : get_buf E palloc c = (.ok, c'))
    (hc : filter_compress c' (c'.in_chain = [] ∧ cursor = []) link = (rc, ctx)) (hrc : rc ≠ .error) :
    OutputSide E { s with ctx := ctx, cursor := cursor, pc := if rc = .ok then .tail else .inner } := by
  obtain ⟨hout, hempty⟩ := h.output.add_data h.empty ha
  obtain ⟨hout', -, -⟩ := get_buf_output hout hempty hg (by simp)
  obtain ⟨hout'', hempty''⟩ := compress_output hout' hc hrc
  have hdone : c'.done = false := (acquired_done ha hg).trans (h.inner hpc)
  obtain ⟨r, -, hrc', hdone', hnone, -⟩ := compress_frame hc hrc
  have hd := hdone' hdone
  refine ⟨hout'', hempty'', fun hp => ?_, fun hp => ?_, fun hl => hnone (hd.symm.trans hl)⟩
  · dsimp only at hp
    split at hp <;> simp at hp
  · dsimp only at hp
    rw [hd]
    by_contra hl
    rw [Bool.not_eq_false] at hl
    rw [hl, if_pos rfl] at hrc'
    simp [hrc'] at hp

/-- The hand-over. -/
theorem OutputSide.give {s : BodyState Z} {down : Downstream} (h : OutputSide E s) :
    Output E { NginxZstd.recycle (pass_out s down).ctx s.ctx.out with out := [] } (pass_out s down).handed := by
  have hpass : forwarded (s.handed ++ s.ctx.out.map s.ctx.heap) =
      forwarded s.handed ++ chainBytes s.ctx.heap s.ctx.out := by
    rw [forwarded_append, forwarded_map]
  exact h.output.recycle h.empty rfl hpass _ fun i hi => drain_of_notMem hi

theorem OutputSide.move {s s' : BodyState Z} {op : BodyOp} (h : OutputSide E s) (hm : BodyMove E s op s') :
    OutputSide E s' := by
  cases hm with
  | pass hpc hd => exact ⟨h.output.drain _, h.empty.drain _ _, h.idle, h.inner, h.ended⟩
  | noop hpc hd hh hr hi hb => exact ⟨h.output, h.empty, h.idle, h.inner, h.ended⟩
  | begin_loop b hpc hd hh hn =>
    exact ⟨h.output.congr (fun _ => ⟨rfl, rfl⟩) ⟨rfl, rfl, rfl, rfl⟩ ⟨rfl, rfl, rfl⟩, h.empty, fun hp => by simp at hp,
      fun _ => hd, h.ended⟩
  | @resume chain init down b hpc hd hh hn =>
    refine ⟨?_, Empty.of_none rfl, fun hp => by simp at hp, fun _ => hd, fun _ => rfl⟩
    have hnil := h.idle hpc
    have hpass : forwarded s.handed = forwarded s.handed ++ chainBytes s.ctx.heap s.ctx.out := by
      simp [hnil, chainBytes]
    have hr := h.output.recycle h.empty hnil.symm hpass (NginxZstd.drain down.drained s.ctx.busy s.ctx.heap) fun i hi =>
      drain_of_notMem fun hb => hi (List.mem_append_left _ hb)
    exact hr.congr (fun _ => ⟨rfl, rfl⟩) ⟨rfl, hnil, rfl, rfl⟩ ⟨rfl, rfl, rfl⟩
  | read hpc => exact ⟨h.output.drain _, h.empty.drain _ _, h.idle, h.inner, h.ended⟩
  | skip hpc ha | dry hpc ha =>
    obtain ⟨hout, hempty⟩ := h.output.add_data h.empty ha
    have hd := h.inner hpc
    obtain ⟨q, ib, l, f, n, bi, rfl⟩ := add_data_frame ha
    exact ⟨hout, hempty, fun hp => by simp at hp, fun _ => hd, h.ended⟩
  | starve hpc ha hm hg =>
    obtain ⟨hout, hempty⟩ := h.output.add_data h.empty ha
    obtain ⟨hout', -, hsame⟩ := get_buf_output hout hempty hg (by simp)
    obtain rfl := hsame (by simp)
    obtain ⟨q, ib, l, f, n, bi, rfl⟩ := add_data_frame ha
    exact ⟨hout', hempty, fun hp => by simp at hp, fun hp => by simp at hp, h.ended⟩
  | work hpc ha hm hg hc hrc => exact h.work hpc ha hg hc hrc
  | keep hpc ho hf =>
    exact ⟨h.output.congr (fun _ => ⟨rfl, rfl⟩) ⟨rfl, rfl, rfl, rfl⟩ ⟨rfl, rfl, rfl⟩, h.empty, fun _ => ho,
      fun hp => by simp at hp, h.ended⟩
  | give hpc ho hr =>
    refine ⟨h.give, Empty.of_none rfl, fun _ => rfl, fun hp => ?_, fun _ => rfl⟩
    dsimp only at hp
    by_cases hd : s.ctx.done = true
    · rw [if_pos hd] at hp
      simp at hp
    · exact Bool.eq_false_iff.2 hd

end NginxZstd
