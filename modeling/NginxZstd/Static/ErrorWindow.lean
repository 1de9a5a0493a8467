import NginxZstd.Lib.Runs
import NginxZstd.Static.Probe
import NginxZstd.Window
/-!
# The log of failed directio reads

A read that fails on a directio file is a matter of the configuration, so it may fail
for every request. `ngx_http_zstd_static_dio_err_should_log` has one failure logged
and counts those of the next minute, for the line that ends it. The clock is what
`ngx_time()` says: it may stand, leap and go back.
-/

namespace NginxZstd

open Lib

/-! ## The source -/

/-- `NGX_HTTP_ZSTD_STATIC_DIO_ERR_WINDOW`, in seconds. -/
def dio_err_window : Int := 60

/-- The two variables of the worker. -/
structure DioErr where
  window_start : Int
  suppressed : Nat

/-- `ngx_http_zstd_static_dio_err_should_log`, which answers an `ngx_uint_t`. -/
def dio_err_should_log (A : Abi) (s : DioErr) (now n : Int) : Nat × DioErr :=
  if n ≥ 0 then (0, s)
  else if s.window_start = 0 ∨ now < s.window_start ∨ now - s.window_start ≥ dio_err_window then
    (s.suppressed, ⟨now, 0⟩)
  else (A.size_max, { s with suppressed := (s.suppressed + 1) % 2 ^ A.size_bits })

/-- What `ngx_http_zstd_static_probe_file` logs of a directio read that does not give
it a header: how many bytes it has, or that the read failed, and how many failures
before it are not logged. -/
inductive DioLine where
  | short (n : Int)
  | failed (dio_suppressed : Nat)

/-- That branch of `ngx_http_zstd_static_probe_file`. -/
def dio_read_log (A : Abi) (s : DioErr) (now n : Int) : Option DioLine × DioErr :=
  if n ≥ 0 then (some (.short n), s)
  else
    match dio_err_should_log A s now n with
    | (dio_suppressed, s) =>
      if dio_suppressed = 0 then (some (.failed 0), s)
      else if dio_suppressed ≠ A.size_max then (some (.failed dio_suppressed), s)
      else (none, s)

/-- A probe, with the time it is made at, the kept buffer as it finds it, and the
answers of the allocator and of the kernel. -/
structure DioVisit where
  now : Int
  zsmcf : DioScratch
  r : Nat
  file : OpenFile
  answer : BufPool → Option Nat
  answers : List Pread

/-- The worker, with the times of the reads that failed and the lines about them, the
last one first. -/
structure DioErrors where
  err : DioErr
  hits : List Int
  lines : List (Int × Nat)

/-- The read of a directio file failed. -/
def DioVisit.hit (v : DioVisit) : Bool :=
  v.file.directio.isSome && (probe_file v.zsmcf v.r v.file true v.answer v.answers).1 == .declined false

def DioErrors.step (A : Abi) (s : DioErrors) (v : DioVisit) : Option DioErrors :=
  if v.hit then
    match dio_read_log A s.err v.now (-1) with
    | (some (.failed dio_suppressed), err) => some ⟨err, v.now :: s.hits, (v.now, dio_suppressed) :: s.lines⟩
    | (_, err) => some ⟨err, v.now :: s.hits, s.lines⟩
  else some s

/-- A worker as it is forked. -/
def DioErrors.start : DioErrors := ⟨⟨0, 0⟩, [], []⟩

/-- The failures so far leave the count room. -/
def DioErrors.Room (A : Abi) (s : DioErrors) (_ : DioVisit) : Prop := s.hits.length < A.size_max

instance (A : Abi) (s : DioErrors) (v : DioVisit) : Decidable (s.Room A v) :=
  inferInstanceAs (Decidable (s.hits.length < A.size_max))

/-! ## The window -/

/-- The line at `l` is the one of its time: the next one is a window later, or the
clock was set back. Time 0 is no window. -/
def Spaced (later earlier : Int × Nat) : Prop :=
  earlier.1 = 0 ∨ later.1 < earlier.1 ∨ earlier.1 + dio_err_window ≤ later.1

structure DioErrors.Inv (s : DioErrors) : Prop where
  counted : s.hits.length = s.lines.length + (s.lines.map Prod.snd).sum + s.err.suppressed
  covered : ∀ t ∈ s.hits, ∃ l ∈ s.lines, l.1 ≤ t ∧ t < l.1 + dio_err_window
  spaced : s.lines.IsChain Spaced
  fresh : s.lines = [] → s.err = ⟨0, 0⟩
  start : ∀ l ∈ s.lines.head?, s.err.window_start = l.1

variable {A : Abi} {s s' : DioErrors} {v : DioVisit}

/-- Lines account for at least one failure each, so the count never comes to `-1`. -/
theorem DioErrors.Inv.count_lt (hi : s.Inv) (hroom : s.hits.length < A.size_max) : s.err.suppressed < A.size_max := by
  have := hi.counted
  omega

/-- A failed read is logged with the failures since the last line, or counted. -/
theorem dio_read_log_cases (s : DioErr) (now : Int) (hcount : s.suppressed < A.size_max) :
    ((s.window_start = 0 ∨ now < s.window_start ∨ now - s.window_start ≥ dio_err_window) ∧
      dio_read_log A s now (-1) = (some (.failed s.suppressed), ⟨now, 0⟩)) ∨
    (s.window_start ≠ 0 ∧ s.window_start ≤ now ∧ now < s.window_start + dio_err_window ∧
      dio_read_log A s now (-1) = (none, { s with suppressed := s.suppressed + 1 })) := by
  have hmax : A.size_max + 1 = 2 ^ A.size_bits := Nat.sub_add_cancel Nat.one_le_two_pow
  have hneg : ¬(-1 : Int) ≥ 0 := by decide
  by_cases hopen : s.window_start = 0 ∨ now < s.window_start ∨ now - s.window_start ≥ dio_err_window
  · refine .inl ⟨hopen, ?_⟩
    rw [dio_read_log, if_neg hneg, dio_err_should_log, if_neg hneg, if_pos hopen]
    by_cases hzero : s.suppressed = 0
    · rw [hzero]
      rfl
    · simp only [if_neg hzero, if_pos (Nat.ne_of_lt hcount)]
  · refine .inr ⟨fun h => hopen (.inl h), by omega, by omega, ?_⟩
    have hzero : A.size_max ≠ 0 := by omega
    rw [dio_read_log, if_neg hneg, dio_err_should_log, if_neg hneg, if_neg hopen]
    simp only [if_neg hzero, ne_eq, not_true_eq_false, if_false]
    rw [Nat.mod_eq_of_lt (by omega)]

theorem DioErrors.step_inv (hi : s.Inv) (hroom : s.Room A v) (h : s.step A v = some s') : s'.Inv := by
  unfold DioErrors.step at h
  split at h
  · rcases dio_read_log_cases s.err v.now (hi.count_lt hroom) with ⟨hopen, hlog⟩ | ⟨hset, hge, hlt, hlog⟩
    all_goals
      rw [hlog] at h
      cases h
    · refine ⟨?_, ?_, ?_, fun h => (by cases h), fun l hl => ?_⟩
      · have := hi.counted
        simp only [List.length_cons, List.map_cons, List.sum_cons]
        omega
      · intro t ht
        rcases List.mem_cons.1 ht with rfl | ht
        · exact ⟨_, List.mem_cons_self, Int.le_refl _, by simp only [dio_err_window]; omega⟩
        · obtain ⟨l, hl, hcover⟩ := hi.covered t ht
          exact ⟨l, List.mem_cons_of_mem _ hl, hcover⟩
      · refine List.isChain_cons.2 ⟨fun l hl => ?_, hi.spaced⟩
        have hstart := hi.start l hl
        rw [hstart] at hopen
        rcases hopen with h | h | h
        · exact .inl h
        · exact .inr (.inl h)
        · exact .inr (.inr (by show l.1 + dio_err_window ≤ v.now; omega))
      · cases hl
        rfl
    · refine ⟨?_, ?_, hi.spaced, fun h => ?_, hi.start⟩
      · have := hi.counted
        simp only [List.length_cons]
        omega
      · intro t ht
        rcases List.mem_cons.1 ht with rfl | ht
        · cases hlines : s.lines with
          | nil =>
            rw [hi.fresh hlines] at hset
            exact absurd rfl hset
          | cons l ls =>
            have hstart := hi.start l (by rw [hlines]; rfl)
            rw [hstart] at hge hlt
            exact ⟨l, List.mem_cons_self, hge, hlt⟩
        · exact hi.covered t ht
      · rw [hi.fresh h] at hset
        exact absurd rfl hset
  · cases h
    exact hi

theorem DioErrors.start_inv : DioErrors.start.Inv :=
  ⟨rfl, fun _ h => (by cases h), .nil, fun _ => rfl, fun _ h => (by cases h)⟩

/-- Whatever files the worker probes, and whatever the clock says: the failed reads are
the lines, the failures they report and the ones not yet reported; each failure has a
line of the minute before it; and a line comes a minute after the last one, unless the
clock went back or said 0 there. -/
theorem dio_errors_accounted (h : Reaches (DioErrors.step A) (DioErrors.Room A) .start s) :
    s.hits.length = s.lines.length + (s.lines.map Prod.snd).sum + s.err.suppressed ∧
    (∀ t ∈ s.hits, ∃ l ∈ s.lines, l.1 ≤ t ∧ t < l.1 + dio_err_window) ∧ s.lines.IsChain Spaced := by
  have hi : s.Inv := h.invariant DioErrors.Inv DioErrors.start_inv fun _ _ _ hi hok hs => DioErrors.step_inv hi hok hs
  exact ⟨hi.counted, hi.covered, hi.spaced⟩

/-- A hard error on the first read is a failure. -/
theorem hit_of_error {f : OpenFile} {zsmcf : DioScratch} {r : Nat} {answer : BufPool → Option Nat} (now : Int)
    (hdio : f.directio.isSome) (hgranted : Granted zsmcf r f answer) (hsize : 4 ≤ f.size) (rest : List Pread) :
    DioVisit.hit ⟨now, zsmcf, r, f, answer, .error :: rest⟩ = true := by
  have hwant : 0 < probe_want f := by
    have := probe_align_pos hdio
    rw [probe_want, if_pos hdio]
    unfold dio_probe at this
    omega
  have hread : static_pread f.content (probe_align f) (probe_want f) (0 - probe_frame_off f 0) (.error :: rest) =
      (none, rest) := by
    rw [static_pread, pread_loop, dif_pos hwant]
    rfl
  have hstep : probe_step f true (probe_start (.error :: rest)) = .inl (.declined false) := by
    simp only [probe_step, probe_read, probe_start, probe_retained, if_true, hread]
  have hprobe : (probe_file zsmcf r f true answer (.error :: rest)).1 = .declined false := by
    rw [probe_file_granted hgranted hsize, probe_run]
    split
    · next h =>
      rw [hstep] at h
      exact (Sum.inl.inj h).symm
    · next h =>
      rw [hstep] at h
      cases h
  simp only [DioVisit.hit, hdio, hprobe, beq_self_eq_true, Bool.and_self]

/-- A file that cannot be read, and a buffer to read it into. -/
def failingVisit (now : Int) : DioVisit :=
  ⟨now, fresh_scratch, 0, ⟨100, [], some 4096⟩, posix_memalign 4096 0x10000, [.error]⟩

/-- Three failures in one minute, and one behind it. -/
def failingVisits : List DioVisit := [1000, 1010, 1059, 1060].map failingVisit

theorem dio_errors_accounted_minute :
    let A : Abi := ⟨64, 64, .inr rfl, .inr rfl⟩
    ∃ s, run (DioErrors.step A) .start failingVisits = some s ∧ s.lines = [(1060, 2), (1000, 0)] ∧
      s.hits.length = 4 ∧ ∀ t ∈ s.hits, ∃ l ∈ s.lines, l.1 ≤ t ∧ t < l.1 + dio_err_window := by
  intro A
  have hstep : ∀ (s : DioErrors) (now : Int), s.step A (failingVisit now) =
      match dio_read_log A s.err now (-1) with
      | (some (.failed dio_suppressed), err) => some ⟨err, now :: s.hits, (now, dio_suppressed) :: s.lines⟩
      | (_, err) => some ⟨err, now :: s.hits, s.lines⟩ := by
    intro s now
    have hhit : (failingVisit now).hit = true := hit_of_error now rfl (by decide) (by decide) []
    rw [DioErrors.step, if_pos hhit]
    rfl
  have hrun : run (DioErrors.step A) .start failingVisits =
      some ⟨⟨1060, 0⟩, [1060, 1059, 1010, 1000], [(1060, 2), (1000, 0)]⟩ := by
    simp only [failingVisits, List.map_cons, List.map_nil, run, hstep]
    rfl
  have hmeets : Meets (DioErrors.step A) (DioErrors.Room A) .start failingVisits := by
    simp only [failingVisits, List.map_cons, List.map_nil, Meets, hstep]
    exact ⟨by decide, by decide, by decide, by decide, trivial⟩
  obtain ⟨-, hcovered, -⟩ := dio_errors_accounted (reaches_of_run hrun hmeets)
  exact ⟨_, hrun, rfl, rfl, hcovered⟩

end NginxZstd
