import NginxZstd.Lib.Runs
import NginxZstd.Static.Probe
/-!
# The read loop

`ngx_http_zstd_static_pread` with all it touches: the buffer and what was in it
before, and the address, length and offset of every `pread(2)`. The kernel answers
as it likes: it interrupts, delivers short, or fails. The loop comes to its end,
stays within what `O_DIRECT` allows, and reports the bytes of the file only.
`static_pread` is what it returns.
-/

namespace NginxZstd

open Lib

/-! ## The source -/

/-- A call of `pread(2)` and what came of it. -/
structure PreadCall where
  buf : Nat
  size : Nat
  offset : Nat
  outcome : Pread

/-- The arguments: `buf` is an address, `file` is what `fd` reads from. -/
structure PreadArgs where
  file : Bytes
  buf : Nat
  size : Nat
  offset : Nat
  align : Nat

/-- The variables of the loop, with the bytes from `buf` on, the calls so far and the
value returned. No count in it exceeds `size`. -/
structure PreadState where
  mem : Bytes
  done : Nat
  prev : Nat
  calls : List PreadCall
  ret : Option Int

/-- `data` written over `mem` from `pos` on. -/
def overwrite (mem : Bytes) (pos : Nat) (data : Bytes) : Bytes :=
  mem.take pos ++ data ++ mem.drop (pos + data.length)

/-- The call a turn makes. -/
def pread_call (r : PreadArgs) (done : Nat) (outcome : Pread) : PreadCall :=
  ⟨r.buf + done, r.size - done, r.offset + done, outcome⟩

/-- One turn of the loop, on the kernel's answer. -/
def static_pread_turn (r : PreadArgs) (s : PreadState) (answer : Pread) : PreadState :=
  if s.done < r.size then
    match answer with
    | .eintr => { s with calls := s.calls ++ [pread_call r s.done .eintr] }
    | .error => { s with calls := s.calls ++ [pread_call r s.done .error], ret := some (-1) }
    | .bytes count =>
      let data := delivered r.file (r.offset + s.done) (r.size - s.done) count
      let n := data.length
      let s := { s with mem := overwrite s.mem s.done data, calls := s.calls ++ [pread_call r s.done (.bytes n)] }
      if n = 0 then { s with ret := some s.done }
      else
        let done := s.done + n
        if r.align > 1 then
          let aligned := done - done % r.align
          if aligned = s.prev then { s with done := s.prev + n, ret := some ↑(s.prev + n) }
          else { s with done := aligned, prev := aligned }
        else { s with done, prev := done }
  else { s with ret := some s.done }

/-- `ngx_http_zstd_static_pread`: turns until one returns. -/
def static_pread_step (r : PreadArgs) (s : PreadState) (answer : Pread) : Option PreadState :=
  if s.ret.isSome then none else some (static_pread_turn r s answer)

def static_pread_start (mem : Bytes) : PreadState := ⟨mem, 0, 0, [], none⟩

/-- How the probe calls it: buffered, or with two blocks where `O_DIRECT` wants them. -/
def PreadArgs.Legal (r : PreadArgs) : Prop :=
  r.align = 0 ∨ 1 < r.align ∧ r.align ∣ r.buf ∧ r.align ∣ r.offset ∧ r.size = 2 * r.align

/-! ## What a call delivers -/

/-- The deliveries are the ones a file allows: at most what is asked for and what is
there, and nothing only at its end. -/
theorem delivered_iff {file : Bytes} {offset size n : Nat} (hsize : 0 < size) :
    (∃ count, (delivered file offset size count).length = n) ↔
      n ≤ size ∧ n ≤ file.length - offset ∧ (n = 0 → file.length ≤ offset) := by
  have hlen : ∀ count, (delivered file offset size count).length = min (min size (max count 1)) (file.length - offset) :=
    fun count => by rw [delivered, List.length_take, List.length_drop]
  constructor
  · rintro ⟨count, rfl⟩
    rw [hlen]
    omega
  · rintro ⟨h1, h2, h3⟩
    refine ⟨n, ?_⟩
    rw [hlen]
    omega

theorem overwrite_length {mem data : Bytes} {pos : Nat} (h : pos + data.length ≤ mem.length) :
    (overwrite mem pos data).length = mem.length := by
  rw [overwrite, List.length_append, List.length_append, List.length_take, List.length_drop]
  omega

theorem overwrite_take {mem data : Bytes} {pos m : Nat} (h : pos + data.length ≤ mem.length) (hm : m ≤ pos + data.length) :
    (overwrite mem pos data).take m = (mem.take pos ++ data).take m := by
  have hlen : (mem.take pos ++ data).length = pos + data.length := by
    rw [List.length_append, List.length_take]
    omega
  rw [overwrite, List.take_append_of_le_length (by omega)]

/-! ## One turn -/

section
variable {r : PreadArgs} {s : PreadState}

theorem static_pread_turn_full (hd : ¬s.done < r.size) (a : Pread) :
    static_pread_turn r s a = { s with ret := some s.done } := by
  unfold static_pread_turn
  exact if_neg hd

variable (hd : s.done < r.size)
include hd

theorem static_pread_turn_eintr :
    static_pread_turn r s .eintr = { s with calls := s.calls ++ [pread_call r s.done .eintr] } := by
  rw [static_pread_turn, if_pos hd]

theorem static_pread_turn_error :
    static_pread_turn r s .error = { s with calls := s.calls ++ [pread_call r s.done .error], ret := some (-1) } := by
  rw [static_pread_turn, if_pos hd]

variable {count : Nat} {data : Bytes} (hdata : delivered r.file (r.offset + s.done) (r.size - s.done) count = data)
include hdata

theorem static_pread_turn_end (hn : data.length = 0) :
    static_pread_turn r s (.bytes count) =
      ⟨overwrite s.mem s.done data, s.done, s.prev, s.calls ++ [pread_call r s.done (.bytes data.length)], some s.done⟩ := by
  subst hdata
  rw [static_pread_turn, if_pos hd]
  exact if_pos hn

theorem static_pread_turn_stall (hn : data.length ≠ 0) (ha : 1 < r.align)
    (hstall : s.done + data.length - (s.done + data.length) % r.align = s.prev) :
    static_pread_turn r s (.bytes count) =
      ⟨overwrite s.mem s.done data, s.prev + data.length, s.prev, s.calls ++ [pread_call r s.done (.bytes data.length)],
        some ↑(s.prev + data.length)⟩ := by
  subst hdata
  rw [static_pread_turn, if_pos hd]
  exact (if_neg hn).trans ((if_pos ha).trans (if_pos hstall))

theorem static_pread_turn_resume (hn : data.length ≠ 0) (ha : 1 < r.align) {done : Nat}
    (hdone : s.done + data.length - (s.done + data.length) % r.align = done) (hmove : done ≠ s.prev) :
    static_pread_turn r s (.bytes count) =
      ⟨overwrite s.mem s.done data, done, done, s.calls ++ [pread_call r s.done (.bytes data.length)], s.ret⟩ := by
  subst hdata hdone
  rw [static_pread_turn, if_pos hd]
  exact (if_neg hn).trans ((if_pos ha).trans (if_neg hmove))

theorem static_pread_turn_advance (hn : data.length ≠ 0) (ha : ¬1 < r.align) :
    static_pread_turn r s (.bytes count) =
      ⟨overwrite s.mem s.done data, s.done + data.length, s.done + data.length,
        s.calls ++ [pread_call r s.done (.bytes data.length)], s.ret⟩ := by
  subst hdata
  rw [static_pread_turn, if_pos hd]
  exact (if_neg hn).trans (if_neg ha)

end

/-- Between two turns: `done` bytes of the file are in the buffer, in whole blocks, and no
call has failed. -/
structure Reading (r : PreadArgs) (s : PreadState) : Prop where
  running : s.ret = none
  prev : s.prev = s.done
  inside : s.done ≤ r.size
  room : r.size ≤ s.mem.length
  whole : 1 < r.align → r.align ∣ s.done
  filled : s.mem.take s.done = (r.file.drop r.offset).take s.done
  legal : 1 < r.align → ∀ c ∈ s.calls, r.align ∣ c.buf ∧ r.align ∣ c.offset ∧ r.align ∣ c.size
  sound : ∀ c ∈ s.calls, c.outcome ≠ .error

/-- What the function has done when it returns `ret`. -/
structure PreadReturns (r : PreadArgs) (s : PreadState) (ret : Int) : Prop where
  /-- every call was one `O_DIRECT` allows -/
  legal : 1 < r.align → ∀ c ∈ s.calls, r.align ∣ c.buf ∧ r.align ∣ c.offset ∧ r.align ∣ c.size
  failed : ret = -1 ↔ ∃ c ∈ s.calls, c.outcome = .error
  /-- the bytes reported are there, and are the file's -/
  exact : ret ≠ -1 → ∃ n : Nat, ret = n ∧ n ≤ r.size ∧ n ≤ r.file.length - r.offset ∧
    s.mem.take n = (r.file.drop r.offset).take n ∧
      (n < r.size → r.file.length ≤ r.offset + n ∨
        1 < r.align ∧ ∃ c count, s.calls.getLast? = some c ∧ c.outcome = .bytes count ∧ count < r.align)

def PreadReturned (r : PreadArgs) (s : PreadState) : Prop := ∃ ret, s.ret = some ret ∧ PreadReturns r s ret

theorem Reading.start (r : PreadArgs) {mem : Bytes} (hmem : r.size ≤ mem.length) : Reading r (static_pread_start mem) where
  running := rfl
  prev := rfl
  inside := Nat.zero_le _
  room := hmem
  whole _ := Nat.dvd_zero _
  filled := rfl
  legal _ := nofun
  sound := nofun

section
variable {r : PreadArgs} {s : PreadState}

/-- The bytes in the buffer are as many as the file has there. -/
theorem Reading.avail (hs : Reading r s) : s.done ≤ r.file.length - r.offset := by
  have hlen := congrArg List.length hs.filled
  have hin := hs.inside
  have hroom := hs.room
  rw [List.length_take, List.length_take, List.length_drop] at hlen
  omega

theorem Reading.legal_call (hr : r.Legal) (hs : Reading r s) (outcome : Pread) :
    1 < r.align → ∀ c ∈ s.calls ++ [pread_call r s.done outcome],
      r.align ∣ c.buf ∧ r.align ∣ c.offset ∧ r.align ∣ c.size := by
  intro ha c hc
  rcases List.mem_append.1 hc with hc | hc
  · exact hs.legal ha c hc
  · obtain rfl := List.mem_singleton.1 hc
    have hdone := hs.whole ha
    rcases hr with h0 | ⟨-, hbuf, hoff, hsize⟩
    · omega
    · refine ⟨Nat.dvd_add hbuf hdone, Nat.dvd_add hoff hdone, Nat.dvd_sub ?_ hdone⟩
      rw [hsize]
      exact Nat.dvd_mul_left _ _

theorem Reading.sound_call (hs : Reading r s) {outcome : Pread} (hne : outcome ≠ .error) :
    ∀ c ∈ s.calls ++ [pread_call r s.done outcome], c.outcome ≠ .error := by
  intro c hc
  rcases List.mem_append.1 hc with hc | hc
  · exact hs.sound c hc
  · obtain rfl := List.mem_singleton.1 hc
    exact hne

variable (hs : Reading r s) (hd : s.done < r.size) {count : Nat} {data : Bytes}
  (hdata : delivered r.file (r.offset + s.done) (r.size - s.done) count = data)
include hs hd hdata

theorem Reading.delivers :
    s.done + data.length ≤ r.size ∧ s.done + data.length ≤ s.mem.length ∧ s.done + data.length ≤ r.file.length - r.offset ∧
      (data.length = 0 → r.file.length ≤ r.offset + s.done) := by
  obtain ⟨h1, h2, h3⟩ := (delivered_iff (by omega)).1 ⟨count, congrArg List.length hdata⟩
  have havail := hs.avail
  have hroom := hs.room
  exact ⟨by omega, by omega, by omega, h3⟩

/-- After a delivery the buffer holds the file as far as the delivery goes. -/
theorem Reading.filled_next {m : Nat} (hm : m ≤ s.done + data.length) :
    (overwrite s.mem s.done data).take m = (r.file.drop r.offset).take m := by
  have hpiece := take_append_piece (r.file.drop r.offset) s.done (min (r.size - s.done) (max count 1))
  rw [List.drop_drop, ← delivered, hdata] at hpiece
  calc (overwrite s.mem s.done data).take m
      = (s.mem.take s.done ++ data).take m := overwrite_take (hs.delivers hd hdata).2.1 hm
    _ = ((r.file.drop r.offset).take (s.done + data.length)).take m := by rw [hs.filled, hpiece]
    _ = (r.file.drop r.offset).take m := by rw [List.take_take, Nat.min_eq_left hm]

/-- A buffer that agrees up to `done` agrees after the delivery. -/
theorem Reading.resumed {buf : Bytes} (hbuf : buf.take s.done = s.mem.take s.done) {m : Nat} (hm : m ≤ s.done + data.length) :
    (buf.take s.done ++ data).take m = (overwrite s.mem s.done data).take m := by
  rw [hbuf, overwrite_take (hs.delivers hd hdata).2.1 hm]

/-- A turn that goes on keeps what is in front of its resume point. -/
theorem Reading.resume (hr : r.Legal) {done : Nat} (hle : done ≤ s.done + data.length) (hwhole : 1 < r.align → r.align ∣ done) :
    Reading r { s with
      mem := overwrite s.mem s.done data, done, prev := done,
      calls := s.calls ++ [pread_call r s.done (.bytes data.length)] } where
  running := hs.running
  prev := rfl
  inside := hle.trans (hs.delivers hd hdata).1
  room := by rw [overwrite_length (hs.delivers hd hdata).2.1]; exact hs.room
  whole := hwhole
  filled := hs.filled_next hd hdata hle
  legal := hs.legal_call hr _
  sound := hs.sound_call nofun

/-- A turn that stops at `n` bytes: at the end of the file, or at a delivery below a block. -/
theorem Reading.stop (hr : r.Legal) {n : Nat} (hn : n ≤ s.done + data.length)
    (hwhy : r.file.length ≤ r.offset + n ∨ 1 < r.align ∧ data.length < r.align) {done prev : Nat} {ret : Option Int} :
    PreadReturns r
      ⟨overwrite s.mem s.done data, done, prev, s.calls ++ [pread_call r s.done (.bytes data.length)], ret⟩ n := by
  obtain ⟨hsize, hroom, havail, -⟩ := hs.delivers hd hdata
  refine ⟨hs.legal_call hr _, ⟨fun h => by omega, ?_⟩, fun _ => ⟨n, rfl, by omega, by omega, hs.filled_next hd hdata hn, ?_⟩⟩
  · rintro ⟨c, hc, herr⟩
    exact (hs.sound_call (show Pread.bytes data.length ≠ .error from nofun) c hc herr).elim
  · intro _
    refine hwhy.imp id fun ⟨ha, hlt⟩ => ⟨ha, _, data.length, List.getLast?_concat .., rfl, hlt⟩

end

section
variable {r : PreadArgs} {s : PreadState}

theorem Reading.interrupted (hr : r.Legal) (hs : Reading r s) :
    Reading r { s with calls := s.calls ++ [pread_call r s.done .eintr] } :=
  { hs with legal := hs.legal_call hr _, sound := hs.sound_call nofun }

theorem Reading.fail (hr : r.Legal) (hs : Reading r s) :
    PreadReturns r { s with calls := s.calls ++ [pread_call r s.done .error], ret := some (-1) } (-1) where
  legal := hs.legal_call hr _
  failed := iff_of_true rfl ⟨_, List.mem_append_right _ (List.mem_singleton_self _), rfl⟩
  exact h := absurd rfl h

/-- The loop condition fails with the buffer full. -/
theorem Reading.full (hs : Reading r s) (hd : ¬s.done < r.size) :
    PreadReturns r { s with ret := some s.done } s.done where
  legal := hs.legal
  failed := by
    refine iff_of_false (by omega) ?_
    rintro ⟨c, hc, herr⟩
    exact hs.sound c hc herr
  exact _ := ⟨s.done, rfl, hs.inside, hs.avail, hs.filled, fun h => absurd h hd⟩

/-- A turn returns, gets further, or was interrupted. -/
theorem static_pread_turn_cases (hr : r.Legal) (hs : Reading r s) (answer : Pread) :
    PreadReturned r (static_pread_turn r s answer) ∨
      Reading r (static_pread_turn r s answer) ∧
        (r.size - (static_pread_turn r s answer).done < r.size - s.done ∨
          answer = .eintr ∧ r.size - (static_pread_turn r s answer).done = r.size - s.done) := by
  by_cases hd : s.done < r.size
  · cases answer with
    | eintr =>
      rw [static_pread_turn_eintr hd]
      exact .inr ⟨hs.interrupted hr, .inr ⟨rfl, rfl⟩⟩
    | error =>
      rw [static_pread_turn_error hd]
      exact .inl ⟨-1, rfl, hs.fail hr⟩
    | bytes count =>
      obtain ⟨data, hdata⟩ : ∃ data, delivered r.file (r.offset + s.done) (r.size - s.done) count = data := ⟨_, rfl⟩
      obtain ⟨hsize, -, -, heof⟩ := hs.delivers hd hdata
      by_cases hn : data.length = 0
      · rw [static_pread_turn_end hd hdata hn]
        exact .inl ⟨s.done, rfl, hs.stop hd hdata hr (by omega) (.inl (heof hn))⟩
      by_cases ha : 1 < r.align
      · have hle := le_round_down (hs.whole ha) (Nat.le_add_right s.done data.length)
        by_cases hstall : s.done + data.length - (s.done + data.length) % r.align = s.prev
        · rw [static_pread_turn_stall hd hdata hn ha hstall, hs.prev]
          -- no new block: what came on top of the old ones is a remainder
          have hlt : data.length < r.align := by
            have hmod : (s.done + data.length) % r.align = data.length := by
              have := Nat.mod_le (s.done + data.length) r.align
              have := hs.prev
              omega
            rw [← hmod]
            exact Nat.mod_lt _ (by omega)
          exact .inl ⟨_, rfl, hs.stop hd hdata hr (Nat.le_refl _) (.inr ⟨ha, hlt⟩)⟩
        · rw [static_pread_turn_resume hd hdata hn ha rfl hstall]
          refine .inr ⟨hs.resume hd hdata hr (Nat.sub_le _ _) fun _ => Nat.dvd_sub_mod _, .inl ?_⟩
          have := hs.prev
          dsimp only
          omega
      · rw [static_pread_turn_advance hd hdata hn ha]
        refine .inr ⟨hs.resume hd hdata hr (Nat.le_refl _) fun h => absurd h ha, .inl ?_⟩
        dsimp only
        omega
  · rw [static_pread_turn_full hd]
    exact .inl ⟨s.done, rfl, hs.full hd⟩

end

/-! ## The loop -/

/-- The answers, and reads that deliver all from then on. -/
def answering (size : Nat) (answers : List Pread) (i : Nat) : Pread := answers.getD i (.bytes size)

theorem answering_finite (size : Nat) (answers : List Pread) : {i | answering size answers i = .eintr}.Finite := by
  refine (Set.finite_lt_nat answers.length).subset fun i (hi : answering size answers i = .eintr) => ?_
  by_contra hlt
  rw [answering, List.getD_eq_getElem?_getD, List.getElem?_eq_none (Nat.le_of_not_lt hlt)] at hi
  cases hi

/-- The loop returns on every file and whatever the kernel answers, as long as it stops
interrupting at some time. -/
theorem static_pread_returns (r : PreadArgs) (hr : r.Legal) (mem : Bytes) (hmem : r.size ≤ mem.length)
    (answers : Nat → Pread) (hfinite : {i | answers i = .eintr}.Finite) :
    ∃ n s, run (static_pread_step r) (static_pread_start mem) (supplied answers n) = some s ∧ PreadReturned r s := by
  have hstep : ∀ s a, Reading r s → ∃ s', static_pread_step r s a = some s' ∧
      (PreadReturned r s' ∨
        Reading r s' ∧ (r.size - s'.done < r.size - s.done ∨ a = .eintr ∧ r.size - s'.done = r.size - s.done)) := by
    intro s a hs
    refine ⟨static_pread_turn r s a, if_neg ?_, static_pread_turn_cases hr hs a⟩
    rw [hs.running]
    nofun
  exact halts_of_supply hstep hfinite (Reading.start r hmem)

/-- Two blocks from offset 2: an interruption, one and a half blocks, then half a block
behind the first one again. -/
def shortRead : PreadArgs := ⟨[1, 2, 3, 4, 5, 6, 7], 100, 4, 2, 2⟩

theorem static_pread_returns_short :
    ∃ n s, run (static_pread_step shortRead) (static_pread_start [0, 0, 0, 0])
      (supplied (answering 4 [.eintr, .bytes 3, .bytes 1]) n) = some s ∧ PreadReturned shortRead s :=
  static_pread_returns shortRead (.inr (by decide)) [0, 0, 0, 0] (by decide) _ (answering_finite 4 _)

example :
    (run (static_pread_step shortRead) (static_pread_start [0, 0, 0, 0])
      (supplied (answering 4 [.eintr, .bytes 3, .bytes 1]) 3)).map (fun s => (s.ret, s.mem)) =
      some (some 3, [3, 4, 5, 0]) := by decide

/-! ## What it returns -/

/-- The bytes the caller is left with, `none` for an error. -/
def PreadState.result (s : PreadState) : Option Bytes :=
  s.ret.bind fun ret => if ret = -1 then none else some (s.mem.take ret.toNat)

theorem static_pread_turn_answering {r : PreadArgs} {s : PreadState} (hd : s.done < r.size) {a : Pread}
    {answers rest : List Pread} (h : next_pread (r.size - s.done) answers = (a, rest)) :
    static_pread_turn r s (answering r.size answers 0) = static_pread_turn r s a ∧
      (fun i => answering r.size answers (i + 1)) = answering r.size rest := by
  cases answers with
  | nil =>
    cases h
    refine ⟨?_, rfl⟩
    have hall : delivered r.file (r.offset + s.done) (r.size - s.done) r.size =
        delivered r.file (r.offset + s.done) (r.size - s.done) (r.size - s.done) := by
      rw [delivered, delivered]
      congr 1
      omega
    show static_pread_turn r s (.bytes r.size) = _
    simp only [static_pread_turn, hall]
  | cons b answers =>
    cases h
    exact ⟨rfl, rfl⟩

/-- One answer is one turn. -/
theorem run_answering {r : PreadArgs} {s s' : PreadState} (hs : Reading r s) (hd : s.done < r.size) {a : Pread}
    {answers rest : List Pread} (h : next_pread (r.size - s.done) answers = (a, rest)) (hturn : static_pread_turn r s a = s')
    (n : Nat) :
    run (static_pread_step r) s (supplied (answering r.size answers) (n + 1)) =
      run (static_pread_step r) s' (supplied (answering r.size rest) n) := by
  obtain ⟨hanswer, hrest⟩ := static_pread_turn_answering hd h
  have hstep : static_pread_step r s (answering r.size answers 0) = some s' := by
    rw [static_pread_step, hs.running, ← hturn, ← hanswer]
    rfl
  rw [supplied_succ, run, hstep, hrest]
  rfl

theorem PreadState.result_bytes {s : PreadState} {n : Nat} (h : s.ret = some (n : Int)) :
    s.result = some (s.mem.take n) := by
  rw [result, h, Option.bind_some, if_neg (by omega), Int.toNat_natCast]

/-- From any turn on, the two loops return the same. Their buffers agree up to `done`. -/
theorem pread_loop_run {r : PreadArgs} (hr : r.Legal) (buf : Bytes) (done : Nat) (h : 1 < r.align → r.align ∣ done)
    (answers : List Pread) {s : PreadState} (hs : Reading r s) (hdone : s.done = done) (hbuf : buf.take done = s.mem.take done) :
    ∃ n s', run (static_pread_step r) s (supplied (answering r.size answers) n) = some s' ∧ s'.ret.isSome ∧
      (pread_loop r.file r.align r.size r.offset buf done h answers).1 = s'.result := by
  fun_induction pread_loop r.file r.align r.size r.offset buf done h answers generalizing s with
  | case1 buf done h answers hd answers' hn ih =>
    subst hdone
    obtain ⟨n, s', hrun, hret, heq⟩ := ih (hs.interrupted hr) rfl hbuf
    exact ⟨n + 1, s', (run_answering hs hd hn (static_pread_turn_eintr hd) n).trans hrun, hret, heq⟩
  | case2 buf done h answers hd answers' hn =>
    subst hdone
    exact ⟨1, _, run_answering hs hd hn (static_pread_turn_error hd) 0, rfl, rfl⟩
  | case3 buf done h answers hd count answers' hn data =>
    rename_i hdata
    subst hdone
    have hlen : data.length = 0 := List.length_eq_zero_iff.2 hdata
    refine ⟨1, _, run_answering hs hd hn (static_pread_turn_end hd rfl hlen) 0, rfl, ?_⟩
    rw [PreadState.result_bytes rfl, hbuf, hs.filled, hs.filled_next hd rfl (Nat.le_add_right ..)]
  | case4 buf done h answers hd count answers' hn data hdata buf' now ha =>
    rename_i hstall
    subst hdone
    have hlen : data.length ≠ 0 := mt List.length_eq_zero_iff.1 hdata
    have hturn := static_pread_turn_stall hd rfl hlen ha (hstall.trans hs.prev.symm)
    refine ⟨1, _, run_answering hs hd hn hturn 0, rfl, ?_⟩
    have hnew : (buf.take s.done ++ data).take (s.done + data.length) =
        (overwrite s.mem s.done data).take (s.done + data.length) :=
      hs.resumed hd rfl hbuf (Nat.le_refl _)
    have hlen' : buf'.length ≤ s.done + data.length := by
      rw [List.length_append]
      exact Nat.add_le_add_right (List.length_take_le ..) _
    rw [PreadState.result_bytes rfl, hs.prev, ← hnew, List.take_of_length_le hlen']
  | case5 buf done h answers hd count answers' hn data hdata buf' now ha hmove =>
    rename_i ih
    subst hdone
    have hlen : data.length ≠ 0 := mt List.length_eq_zero_iff.1 hdata
    have hle : now - now % r.align ≤ s.done + data.length := Nat.sub_le _ _
    have hturn := static_pread_turn_resume hd rfl hlen ha rfl fun h => hmove (h.trans hs.prev)
    have hs' := hs.resume hd rfl hr hle fun _ => Nat.dvd_sub_mod now
    obtain ⟨n, s', hrun, hret, heq⟩ := ih hs' rfl (hs.resumed hd rfl hbuf hle)
    exact ⟨n + 1, s', (run_answering hs hd hn hturn n).trans hrun, hret, heq⟩
  | case6 buf done h answers hd count answers' hn data hdata buf' now ha =>
    rename_i ih
    subst hdone
    have hlen : data.length ≠ 0 := mt List.length_eq_zero_iff.1 hdata
    have hturn := static_pread_turn_advance hd rfl hlen ha
    have hs' := hs.resume hd rfl hr (Nat.le_refl now) fun h => absurd h ha
    obtain ⟨n, s', hrun, hret, heq⟩ := ih hs' rfl (hs.resumed hd rfl hbuf (Nat.le_refl now))
    exact ⟨n + 1, s', (run_answering hs hd hn hturn n).trans hrun, hret, heq⟩
  | case7 buf done h answers hd =>
    subst hdone
    refine ⟨1, { s with ret := some s.done }, ?_, rfl, ?_⟩
    · rw [supplied_succ, run, static_pread_step, hs.running, static_pread_turn_full hd]
      rfl
    · rw [PreadState.result_bytes rfl, hbuf]

/-- `static_pread` is what the loop returns. -/
theorem static_pread_run {r : PreadArgs} (hr : r.Legal) {mem : Bytes} (hmem : r.size ≤ mem.length) (answers : List Pread) :
    ∃ n s, run (static_pread_step r) (static_pread_start mem) (supplied (answering r.size answers) n) = some s ∧
      s.ret.isSome ∧ (static_pread r.file r.align r.size r.offset answers).1 = s.result :=
  pread_loop_run hr [] 0 _ answers (Reading.start r hmem) rfl rfl

/-- The arguments of the probe's read at `pos`, into a buffer at `buf`. -/
def probe_args (f : OpenFile) (pos buf : Nat) : PreadArgs :=
  ⟨f.content, buf, probe_want f, pos - probe_frame_off f pos, probe_align f⟩

/-- The probe keeps to what the loop needs, once the buffer is aligned. -/
theorem probe_args_legal (f : OpenFile) (pos : Nat) {buf : Nat} (hbuf : probe_align f ∣ buf) :
    (probe_args f pos buf).Legal := by
  by_cases hdio : f.directio.isSome = true
  · have halign := probe_align_pos hdio
    unfold dio_probe at halign
    refine .inr ⟨?_, hbuf, ?_, ?_⟩
    · show 1 < probe_align f
      omega
    · show probe_align f ∣ pos - probe_frame_off f pos
      rw [probe_frame_off, if_pos hdio]
      exact Nat.dvd_sub_mod pos
    · show probe_want f = 2 * probe_align f
      rw [probe_want, if_pos hdio, Nat.mul_comm]
  · refine .inl ?_
    show probe_align f = 0
    rw [probe_align, Option.not_isSome_iff_eq_none.1 hdio]

/-- Each read of the probe is a run of the loop. -/
theorem probe_pread_run (f : OpenFile) (pos : Nat) {buf : Nat} (hbuf : probe_align f ∣ buf) {mem : Bytes}
    (hmem : probe_want f ≤ mem.length) (answers : List Pread) :
    ∃ n s, run (static_pread_step (probe_args f pos buf)) (static_pread_start mem)
        (supplied (answering (probe_want f) answers) n) = some s ∧ s.ret.isSome ∧
      (static_pread f.content (probe_align f) (probe_want f) (pos - probe_frame_off f pos) answers).1 = s.result :=
  static_pread_run (probe_args_legal f pos hbuf) hmem answers

end NginxZstd
