import NginxZstd.Static.Probe
import NginxZstd.Static.VerdictCache
/-!
# Short reads and bad verdicts

Under directio the read loop gives up on a count that completes no block, and the
probe takes what it got for the end of the file. A good file is then called malformed,
and the handler remembers it so. `Starves` says from the content, the alignment and the
counts when a read ends before the header it is made for; `bad_verdict_iff` says that
this is the only way.
-/

namespace NginxZstd

open Lib

/-- What the handler makes of the probe's answer. -/
def Probed.ending : Probed → ProbeEnd
  | .ok => .ok
  | .declined true => .malformed
  | .declined false => .failed
  | .error => .failed
  | .fault => .failed

/-- A bad verdict on `f` under this schedule, and one that the handler records, is a
verdict on the content. -/
structure BadMeansMalformed (zsmcf : DioScratch) (r : Nat) (f : OpenFile) (answer : BufPool → Option Nat)
    (answers : List Pread) : Prop where
  probe : (probe_file zsmcf r f true answer answers).1 = .declined true → ¬Accepts f.content 4 0
  recorded : ∀ {s s' : VerdictState} {v : Visit}, v.probe = (probe_file zsmcf r f true answer answers).1.ending →
    visit s v = some s' → s'.log = ⟨v.file, .bad, v.now⟩ :: s.log → ¬Accepts f.content 4 0

/-! ## The counts -/

/-- The block kept from the last read, by its offset and its count, has the header at
`pos`. -/
def keptHeader (f : OpenFile) (pos : Nat) : Option (Nat × Nat) → Bool
  | none => false
  | some (base, count) => (probe_reuse pos base count (probe_need f pos)).isSome

/-- The bytes that a read for the header at `pos` delivers, from the block boundary on. -/
def headerRead (f : OpenFile) (pos : Nat) (answers : List Pread) : Nat :=
  blockRead (f.content.length - (pos - pos % probe_align f)) (probe_align f) answers

/-- The block that is kept behind the header at `pos`, and the counts to come. -/
def afterHeader (f : OpenFile) (pos : Nat) (block : Option (Nat × Nat)) (answers : List Pread) :
    Option (Nat × Nat) × List Pread :=
  if keptHeader f pos block then (block, answers)
  else
    (if headerRead f pos answers > 0 then some (pos - pos % probe_align f, headerRead f pos answers) else block,
      blockRest (f.content.length - (pos - pos % probe_align f)) (probe_align f) answers)

/-- A good file, with `left` skippable frames allowed from `pos` on, where the read for
one of its headers ends before the header does. -/
inductive Starves (f : OpenFile) : Nat → Nat → Option (Nat × Nat) → List Pread → Prop where
  | here {left pos : Nat} {block : Option (Nat × Nat)} {answers : List Pread} : Accepts f.content left pos →
      keptHeader f pos block = false →
      headerRead f pos answers - pos % probe_align f <
        min (headerBytes (f.content.drop pos)) (f.content.drop pos).length →
      Starves f left pos block answers
  | later {left pos size : Nat} {block : Option (Nat × Nat)} {answers : List Pread} :
      Skippable (f.content.drop pos) size → pos + 8 + size ≤ f.content.length →
      Starves f left (pos + 8 + size) (afterHeader f pos block answers).1 (afterHeader f pos block answers).2 →
      Starves f (left + 1) pos block answers

/-- Only good files starve. -/
theorem Starves.accepts {f : OpenFile} {left pos : Nat} {block : Option (Nat × Nat)} {answers : List Pread}
    (h : Starves f left pos block answers) : Accepts f.content left pos := by
  induction h with
  | here hacc _ _ => exact hacc
  | later hsk hfit _ ih => exact .skip hsk hfit ih

/-- The plain walk accepts no file that is too short for a magic number. -/
theorem Accepts.four {file : Bytes} {left : Nat} (h : Accepts file left 0) : 4 ≤ file.length := by
  cases h with
  | regular hr => simpa using hr.1
  | skip hs _ _ =>
    have := hs.1
    simp only [List.drop_zero] at this
    omega

/-- Only a probe that leaves `malformed` set makes the handler record a bad verdict. -/
theorem recorded_bad {s s' : VerdictState} {v : Visit} (hv : visit s v = some s')
    (hlog : s'.log = ⟨v.file, .bad, v.now⟩ :: s.log) : v.probe = .malformed := by
  have hgrow : s'.log ≠ s.log := by
    rw [hlog]
    exact List.cons_ne_self _ _
  rcases visit_cases hv with ⟨-, rfl⟩ | ⟨-, -, rfl⟩
  · exact absurd rfl hgrow
  · simp only [record] at hlog hgrow
    split at hlog
    · simp only [List.cons.injEq, Recorded.mk.injEq, and_true, true_and] at hlog
      cases hp : v.probe with
      | malformed => rfl
      | ok => rw [hp] at hlog; cases hlog
      | failed => rw [hp] at hlog; cases hlog
    · next hr => simp [hr] at hgrow

theorem badMeansMalformed_of {zsmcf : DioScratch} {r : Nat} {f : OpenFile} {answer : BufPool → Option Nat}
    {answers : List Pread} (h : (probe_file zsmcf r f true answer answers).1 = .declined true → ¬Accepts f.content 4 0) :
    BadMeansMalformed zsmcf r f answer answers := by
  refine ⟨h, fun hprobe hv hlog => h ?_⟩
  have hend := hprobe.symm.trans (recorded_bad hv hlog)
  unfold Probed.ending at hend
  split at hend
  · cases hend
  · next heq => exact heq
  · cases hend
  · cases hend
  · cases hend

/-- A buffered read is never short of the file, so no pass is starved. -/
theorem not_starved_buffered {f : OpenFile} (hbuf : f.directio = none) (keep : Bool) (s : ProbeState) :
    ¬Starved f keep s := by
  rintro ⟨-, hlt⟩
  have h17 := headerBytes_le (f.content.drop s.pos)
  have hoff : probe_frame_off f s.pos = 0 := by simp [probe_frame_off, hbuf]
  have hbytes : probeBytes f (s.pos - probe_frame_off f s.pos) s.answers = 58 := by simp [probeBytes, hbuf]
  rw [hbytes, hoff] at hlt
  omega

/-! ## The walk under directio goes by the counts -/

/-- The block of a pass, by its count. -/
def ProbeState.counts (s : ProbeState) : Option (Nat × Nat) := s.block.map fun b => (b.1, b.2.length)

theorem probe_retained_counts (f : OpenFile) (s : ProbeState) :
    (probe_retained f s).isSome = keptHeader f s.pos s.counts := by
  unfold probe_retained ProbeState.counts
  cases s.block with
  | none => rfl
  | some b => exact Option.isSome_map ..

theorem blockRead_le (avail align : Nat) (answers : List Pread) : blockRead avail align answers ≤ avail := by
  simp only [blockRead]
  split <;> omega

section
variable {f : OpenFile} (hdio : f.directio.isSome = true)
include hdio

theorem starved_counts (s : ProbeState) :
    Starved f true s ↔ keptHeader f s.pos s.counts = false ∧
      headerRead f s.pos s.answers - s.pos % probe_align f <
        min (headerBytes (f.content.drop s.pos)) (f.content.drop s.pos).length := by
  rw [Starved, ← probe_retained_counts, probeBytes, if_pos hdio, probe_frame_off, if_pos hdio, if_pos rfl, headerRead,
    List.length_drop (i := s.pos - s.pos % probe_align f), Option.isSome_eq_false_iff, Option.isNone_iff_eq_none]

/-- A pass leaves the block and the answers that the counts say. -/
theorem probe_read_counts {s s' : ProbeState} {frame : Bytes} (hl : ErrorFree s.answers)
    (h : probe_read f true s = (some frame, s')) :
    (s'.counts, s'.answers) = afterHeader f s.pos s.counts s.answers := by
  have hkept := probe_retained_counts f s
  unfold probe_read at h
  rw [if_pos rfl] at h
  cases hret : probe_retained f s with
  | some r =>
    rw [hret] at h hkept
    cases h
    exact (if_pos hkept.symm).symm
  | none =>
    have halign := probe_align_pos hdio
    unfold dio_probe at halign
    have hread := static_pread_block f.content (show 1 < probe_align f by omega) (s.pos - s.pos % probe_align f) hl
    rw [List.length_drop] at hread
    rw [hret] at h hkept
    simp only [probe_frame_off, if_pos hdio, probe_want, hread] at h
    cases h
    have hle := blockRead_le (f.content.length - (s.pos - s.pos % probe_align f)) (probe_align f) s.answers
    have hlen : ((f.content.drop (s.pos - s.pos % probe_align f)).take (headerRead f s.pos s.answers)).length =
        headerRead f s.pos s.answers := by
      rw [List.length_take, List.length_drop, headerRead, Nat.min_eq_left hle]
    have hnot : ¬keptHeader f s.pos s.counts = true := by rw [← hkept]; decide
    rw [afterHeader, if_neg hnot, ← headerRead, hlen]
    by_cases hpos : headerRead f s.pos s.answers > 0
    · simp only [if_pos hpos, ProbeState.counts, Option.map_some, hlen]
    · simp only [if_neg hpos, ProbeState.counts]

theorem probe_step_counts {s s' : ProbeState} (hl : ErrorFree s.answers) (h : probe_step f true s = .inr s') :
    (s'.counts, s'.answers) = afterHeader f s.pos s.counts s.answers := by
  unfold probe_step at h
  split at h
  · cases h
  · next frame s₁ hread =>
    have hcounts := probe_read_counts hdio hl hread
    split at h
    · cases h
    split at h
    · cases h
    · cases h
    · cases h
    · split at h
      · cases h
      · cases h
        exact hcounts

/-- Behind a skippable frame whose header was read. -/
theorem starves_skippable {left size : Nat} {s : ProbeState} (hsk : Skippable (f.content.drop s.pos) size)
    (hfed : ¬Starved f true s) :
    Starves f left s.pos s.counts s.answers ↔ ∃ left', left = left' + 1 ∧ s.pos + 8 + size ≤ f.content.length ∧
      Starves f left' (s.pos + 8 + size) (afterHeader f s.pos s.counts s.answers).1
        (afterHeader f s.pos s.counts s.answers).2 := by
  constructor
  · intro h
    cases h with
    | here hacc hkept hlt => exact absurd ((starved_counts hdio s).2 ⟨hkept, hlt⟩) hfed
    | @later left' _ size' _ _ hsk' hfit hlater =>
      obtain rfl : size' = size := hsk'.2.2.2.trans hsk.2.2.2.symm
      exact ⟨left', rfl, hfit, hlater⟩
  · rintro ⟨left', rfl, hfit, hlater⟩
    exact .later hsk hfit hlater

/-- At a regular frame whose header was read. -/
theorem not_starves_regular {left : Nat} {s : ProbeState} (hreg : Regular (f.content.drop s.pos))
    (hfed : ¬Starved f true s) : ¬Starves f left s.pos s.counts s.answers := by
  intro h
  cases h with
  | here _ hkept hlt => exact hfed ((starved_counts hdio s).2 ⟨hkept, hlt⟩)
  | later hsk _ _ => exact hreg.not_skippable _ hsk

/-- The walk calls a good file malformed exactly when it starves. -/
theorem probe_run_starves (hsize : f.size = f.content.length) (s : ProbeState) (hs : ProbeInv f s)
    (hframes : s.frames ≤ max_skip_frames) :
    Starves f (max_skip_frames - s.frames) s.pos s.counts s.answers ↔
      Accepts f.content (max_skip_frames - s.frames) s.pos ∧ probe_run f true s = .declined true := by
  generalize hrun : probe_run f true s = ret
  fun_induction probe_run f true s with
  | case1 s r h =>
    subst hrun
    by_cases hst : Starved f true s
    · obtain ⟨hkept, hlt⟩ := (starved_counts hdio s).1 hst
      rw [probe_step_starved hsize hs hst] at h
      cases h
      exact ⟨fun hstarves => ⟨hstarves.accepts, rfl⟩, fun hacc => .here hacc.1 hkept hlt⟩
    rcases probe_step_cases hsize true hs hst with ⟨hreg, hstep⟩ | ⟨size, hsk, hfit, ⟨hmax, hstep⟩ | ⟨-, s', hstep, -⟩⟩ |
      ⟨hreg, hsk, hstep⟩
    · rw [hstep] at h
      cases h
      exact ⟨fun h => absurd h (not_starves_regular hdio hreg hst), fun hdecl => (by cases hdecl.2)⟩
    · -- out of frames, as the plain walk is
      have hleft : max_skip_frames - s.frames = 0 := by omega
      rw [hleft, starves_skippable hdio hsk hst, accepts_skippable hsk]
      exact ⟨fun h => (by obtain ⟨_, h, -⟩ := h; cases h), fun h => (by obtain ⟨⟨_, h, -⟩, -⟩ := h; cases h)⟩
    · rw [hstep] at h
      cases h
    · have hno : ¬Accepts f.content (max_skip_frames - s.frames) s.pos := not_accepts hreg hsk
      exact ⟨fun hstarves => absurd hstarves.accepts hno, fun hacc => absurd hacc.1 hno⟩
  | case2 s s' h ih =>
    have hfed : ¬Starved f true s := by
      intro hst
      rw [probe_step_starved hsize hs hst] at h
      cases h
    rcases probe_step_cases hsize true hs hfed with ⟨-, hstep⟩ |
      ⟨size, hsk, hfit, ⟨-, hstep⟩ | ⟨hlt, s₁, hstep, hf, hp, hs'⟩⟩ |
      ⟨-, -, hstep⟩
    · rw [hstep] at h
      cases h
    · rw [hstep] at h
      cases h
    · rw [hstep] at h
      cases h
      have hleft : max_skip_frames - s.frames = max_skip_frames - s'.frames + 1 := by omega
      have hcounts := Prod.mk.inj (probe_step_counts hdio hs.answers hstep)
      have hwalk := ih hs' (by omega) hrun
      rw [hp, hcounts.1, hcounts.2] at hwalk
      rw [hleft, starves_skippable hdio hsk hfed, accepts_skippable hsk]
      constructor
      · rintro ⟨left', heq, -, hstarves⟩
        obtain rfl := Nat.succ.inj heq
        obtain ⟨hacc, hdecl⟩ := hwalk.1 hstarves
        exact ⟨⟨_, rfl, hfit, hacc⟩, hdecl⟩
      · rintro ⟨⟨left', heq, -, hacc⟩, hdecl⟩
        obtain rfl := Nat.succ.inj heq
        exact ⟨_, rfl, hfit, hwalk.2 ⟨hacc, hdecl⟩⟩
    · rw [hstep] at h
      cases h

end

/-- The good files that the probe calls malformed. -/
theorem declined_good_iff {zsmcf : DioScratch} {r : Nat} {f : OpenFile} {answer : BufPool → Option Nat}
    (hsize : f.size = f.content.length) {answers : List Pread} (hl : ErrorFree answers) :
    (Accepts f.content 4 0 ∧ (probe_file zsmcf r f true answer answers).1 = .declined true) ↔
      f.directio.isSome ∧ Granted zsmcf r f answer ∧ Starves f 4 0 none answers := by
  have hinv := probe_start_inv f hl
  constructor
  · rintro ⟨hacc, hdecl⟩
    have h4 := hacc.four
    have hgranted : Granted zsmcf r f answer := by
      by_contra hrefused
      rw [probe_file_refused hrefused (by omega)] at hdecl
      cases hdecl
    rw [probe_file_granted hgranted (by omega)] at hdecl
    cases hdio : f.directio with
    | none =>
      rcases probe_run_eq hsize true (probe_start answers) hinv (fun s _ => not_starved_buffered hdio true s)
        (Nat.zero_le _) with ⟨-, hok⟩ | ⟨hno, -⟩
      · rw [hok] at hdecl
        cases hdecl
      · exact absurd hacc hno
    | some a =>
      have hsome : f.directio.isSome = true := by rw [hdio]; rfl
      exact ⟨rfl, hgranted, (probe_run_starves hsome hsize (probe_start answers) hinv (Nat.zero_le _)).2 ⟨hacc, hdecl⟩⟩
  · rintro ⟨hdio, hgranted, hstarves⟩
    obtain ⟨hacc, hdecl⟩ := (probe_run_starves hdio hsize (probe_start answers) hinv (Nat.zero_le _)).1 hstarves
    have h4 : 4 ≤ f.size := hsize ▸ Accepts.four hacc
    exact ⟨hacc, (probe_file_granted hgranted h4 true answers).trans hdecl⟩

/-- A good file is called malformed exactly when it is read under directio, into a
buffer that was granted, and a read gives up below a block and before the end of a
header that the plain walk looks at. -/
theorem bad_verdict_iff {zsmcf : DioScratch} {r : Nat} {f : OpenFile} {answer : BufPool → Option Nat}
    (hsize : f.size = f.content.length) {answers : List Pread} (hl : ErrorFree answers) :
    BadMeansMalformed zsmcf r f answer answers ↔
      ¬(f.directio.isSome ∧ Granted zsmcf r f answer ∧ Starves f 4 0 none answers) := by
  rw [← declined_good_iff hsize hl]
  constructor
  · rintro hbad ⟨hacc, hdecl⟩
    exact hbad.probe hdecl hacc
  · intro hcond
    exact badMeansMalformed_of fun hdecl hacc => hcond ⟨hacc, hdecl⟩

/-- The `.zst` of an empty file. -/
def emptyZst : Bytes := [0x28, 0xb5, 0x2f, 0xfd, 0x20, 0x00, 0x01, 0x00, 0x00]

theorem emptyZst_accepted : Accepts emptyZst 4 0 :=
  .regular ⟨by decide, by decide, ⟨0x20, by decide, by decide⟩, 0, by decide, by decide⟩

/-- An interruption, and a count that falls short of the file, but not of its header. -/
theorem bad_verdict_iff_header_read :
    BadMeansMalformed fresh_scratch 0 ⟨9, emptyZst, some 512⟩ (posix_memalign 4096 0x10000) [.eintr, .bytes 6] := by
  refine (bad_verdict_iff rfl (by unfold ErrorFree; simp)).2 ?_
  rintro ⟨-, -, hstarves⟩
  cases hstarves with
  | here _ _ hlt => exact absurd hlt (by decide)
  | later hsk _ _ => exact absurd hsk.2.2.1 (by decide)

/-- A smaller one ends the read before the magic number does. -/
theorem short_read_cached_bad :
    ErrorFree [.bytes 3] ∧ Accepts emptyZst 4 0 ∧
      (probe_file fresh_scratch 0 ⟨9, emptyZst, some 512⟩ true (posix_memalign 4096 0x10000) [.bytes 3]).1 =
        .declined true ∧
      ¬BadMeansMalformed fresh_scratch 0 ⟨9, emptyZst, some 512⟩ (posix_memalign 4096 0x10000) [.bytes 3] := by
  have hl : ErrorFree [.bytes 3] := by unfold ErrorFree; simp
  have hstarves : Starves ⟨9, emptyZst, some 512⟩ 4 0 none [.bytes 3] :=
    .here emptyZst_accepted (by decide) (by decide)
  have hdecl : (probe_file fresh_scratch 0 ⟨9, emptyZst, some 512⟩ true (posix_memalign 4096 0x10000) [.bytes 3]).1 =
      .declined true := by
    rw [probe_file_granted (by decide) (by decide)]
    exact ((probe_run_starves rfl rfl _ (probe_start_inv ⟨9, emptyZst, some 512⟩ hl) (Nat.zero_le _)).1 hstarves).2
  exact ⟨hl, emptyZst_accepted, hdecl, fun h => h.probe hdecl emptyZst_accepted⟩

end NginxZstd
