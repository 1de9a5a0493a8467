import NginxZstd.Static.Handler
import NginxZstd.Static.ShortReads
/-!
# Serving files

The handler of a worker as a whole: the negotiation, the file that is opened, the
verdict that is kept or probed for, and the answer. Its requests share the verdict
cache and the buffer of directio probes. However the kernel and the allocator answer, a
file that is served is one that the plain walk accepts; and where no read fails or ends
before a header does, the worker answers every request as a handler that knows the
content would.
-/

namespace NginxZstd

open Lib

/-! ## The source -/

/-- What `ngx_open_cached_file` finds at the path of the sidecar; of a file its name and
identity, its bytes, and the `directio_alignment` where it was opened for directio. -/
inductive OpenedFile where
  | failed
  | dir
  | special
  | file (path : Bytes) (of : OpenFileInfo) (content : Bytes) (directio : Option Nat)

/-- A request, with what the rest of nginx and the kernel say while it is handled.
`answer` is the allocator's for a directio probe, `good_valid` comes from
`open_file_cache`. -/
structure StaticRequest where
  id : Nat
  clcf : Option CoreLocConf
  zscf : StaticConf
  request : Request
  resp : Response
  opened : OpenedFile
  now : Int
  good_valid : Nat
  answer : BufPool → Option Nat
  answers : List Pread

/-- A worker: the verdicts, and the buffer of `ngx_http_zstd_static_main_conf_t`. -/
structure StaticWorker where
  verdicts : VerdictState
  zsmcf : DioScratch

def StaticWorker.start : StaticWorker := ⟨freshWorker, fresh_scratch⟩

/-- The file as the probe sees it. -/
def OpenFileInfo.probed (of : OpenFileInfo) (content : Bytes) (directio : Option Nat) : OpenFile :=
  ⟨of.size.toNat, content, directio⟩

/-- The probe of the file that is opened. -/
def StaticRequest.probe (q : StaticRequest) (zsmcf : DioScratch) (f : OpenFile) : Probed × DioScratch :=
  probe_file zsmcf q.id f true q.answer q.answers

/-- The request as the cache sees it. -/
def StaticRequest.visit (q : StaticRequest) (zsmcf : DioScratch) (path : Bytes) (of : OpenFileInfo) (content : Bytes)
    (directio : Option Nat) : Visit where
  path := path
  of := of
  now := q.now
  good_valid := q.good_valid
  probe := (q.probe zsmcf (of.probed content directio)).1.ending

/-- The handler on an opened file. -/
def serve_file (w : StaticWorker) (q : StaticRequest) (accepts : Bool) (resp : Response) (path : Bytes)
    (of : OpenFileInfo) (content : Bytes) (directio : Option Nat) : Except Abort (Routing × Response) × StaticWorker :=
  let looked := cached_verdict w.verdicts.cache path of q.now q.good_valid
  let s := { w.verdicts with cache := looked.2 }
  match looked.1 with
  | .bad => (.ok (.declined, resp), { w with verdicts := s })
  | .good => (static_answer q.clcf q.zscf accepts resp, { w with verdicts := s })
  | .none =>
    let v := q.visit w.zsmcf path of content directio
    match q.probe w.zsmcf (of.probed content directio) with
    | (.ok, zsmcf) => (static_answer q.clcf q.zscf accepts resp, ⟨record v .good s, zsmcf⟩)
    | (.declined malformed, zsmcf) => (.ok (.declined, resp), ⟨if malformed then record v .bad s else s, zsmcf⟩)
    | (.error, zsmcf) => (.error .error, ⟨s, zsmcf⟩)
    | (.fault, zsmcf) => (.error .fault, ⟨s, zsmcf⟩)

/-- `ngx_http_zstd_static_handler` in a worker, which it leaves with another cache and
buffer. -/
def serve (chained : Bool) (w : StaticWorker) (q : StaticRequest) : Except Abort (Routing × Response) × StaticWorker :=
  match static_negotiate chained q.clcf q.zscf q.request q.resp with
  | .error abort => (.error abort, w)
  | .ok (none, resp) => (.ok (.declined, resp), w)
  | .ok (some accepts, resp) =>
    if q.zscf.enable ≠ .on ∧ accepts = false then (.ok (.declined, resp), w)
    else
      match q.opened with
      | .failed => (.ok (.declined, resp), w)
      | .dir => (.ok (.declined, resp), w)
      | .special => (.ok (.not_found, resp), w)
      | .file path of content directio => serve_file w q accepts resp path of content directio

def serve_step (chained : Bool) (w : StaticWorker) (q : StaticRequest) : Option StaticWorker :=
  some (serve chained w q).2

/-! ## The probe under any schedule -/

/-- The answers before the first hard error. -/
def untilError : List Pread → List Pread
  | [] => []
  | .error :: _ => []
  | .eintr :: answers => .eintr :: untilError answers
  | .bytes count :: answers => .bytes count :: untilError answers

theorem untilError_errorFree (answers : List Pread) : ErrorFree (untilError answers) := by
  intro a ha
  fun_induction untilError answers with
  | case1 => cases ha
  | case2 => cases ha
  | case3 answers ih =>
    rcases List.mem_cons.1 ha with rfl | ha
    · exact fun h => (by cases h)
    · exact ih ha
  | case4 count answers ih =>
    rcases List.mem_cons.1 ha with rfl | ha
    · exact fun h => (by cases h)
    · exact ih ha

/-- An answer that is no error comes first there, too. -/
theorem next_untilError {size : Nat} {answers rest : List Pread} {a : Pread} (h : next_pread size answers = (a, rest))
    (ha : a ≠ .error) : next_pread size (untilError answers) = (a, untilError rest) := by
  cases answers with
  | nil =>
    cases h
    rfl
  | cons b answers =>
    cases h
    cases a with
    | eintr => rfl
    | error => exact absurd rfl ha
    | bytes count => rfl

/-- A turn of the loop on a delivery. -/
theorem pread_loop_bytes {file : Bytes} {align size offset : Nat} (buf : Bytes) {done : Nat}
    (h : 1 < align → align ∣ done) (hd : done < size) {answers rest : List Pread} {count : Nat}
    (hn : next_pread (size - done) answers = (.bytes count, rest)) :
    let data := delivered file (offset + done) (size - done) count
    let now := done + data.length
    pread_loop file align size offset buf done h answers =
      if data = [] then (some (buf.take done), rest)
      else if ha : 1 < align then
        if now - now % align = done then (some (buf.take done ++ data), rest)
        else pread_loop file align size offset (buf.take done ++ data) (now - now % align)
          (fun _ => Nat.dvd_sub_mod now) rest
      else pread_loop file align size offset (buf.take done ++ data) now (fun h' => absurd h' ha) rest := by
  intro data now
  rw [pread_loop, dif_pos hd]
  split
  · next hn' =>
    rw [hn] at hn'
    cases hn'
  · next hn' =>
    rw [hn] at hn'
    cases hn'
  · next hn' =>
    rw [hn] at hn'
    cases hn'
    rfl

/-- A read that succeeds has met no error. -/
theorem pread_loop_untilError {file : Bytes} {align size offset : Nat} (buf : Bytes) {done : Nat}
    (h : 1 < align → align ∣ done) (answers : List Pread) {b : Bytes} {rest : List Pread}
    (hread : pread_loop file align size offset buf done h answers = (some b, rest)) :
    pread_loop file align size offset buf done h (untilError answers) = (some b, untilError rest) := by
  fun_induction pread_loop file align size offset buf done h answers with
  | case1 buf done h answers hd answers' hn ih =>
    have hnext := next_untilError hn (fun h => (by cases h))
    unfold pread_loop
    rw [dif_pos hd]
    split
    · next rest' hn' =>
      rw [hnext] at hn'
      cases hn'
      exact ih hread
    · next hn' =>
      rw [hnext] at hn'
      cases hn'
    · next hn' =>
      rw [hnext] at hn'
      cases hn'
  | case2 buf done h answers hd answers' hn => cases hread
  | case3 buf done h answers hd count answers' hn data hdata =>
    cases hread
    rw [pread_loop_bytes buf h hd (next_untilError hn (fun h => (by cases h)))]
    exact if_pos hdata
  | case4 buf done h answers hd count answers' hn data hdata buf' now hal hstay =>
    obtain ⟨hb, hrest⟩ := Prod.mk.inj hread
    rw [← hb, ← hrest, pread_loop_bytes buf h hd (next_untilError hn (fun h => (by cases h)))]
    exact (if_neg hdata).trans ((dif_pos hal).trans (if_pos hstay))
  | case5 buf done h answers hd count answers' hn data hdata buf' now hal hmove ih =>
    rw [pread_loop_bytes buf h hd (next_untilError hn (fun h => (by cases h)))]
    exact (if_neg hdata).trans ((dif_pos hal).trans ((if_neg hmove).trans (ih hread)))
  | case6 buf done h answers hd count answers' hn data hdata buf' now hal ih =>
    rw [pread_loop_bytes buf h hd (next_untilError hn (fun h => (by cases h)))]
    exact (if_neg hdata).trans ((dif_neg hal).trans (ih hread))
  | case7 buf done h answers hd =>
    cases hread
    rw [pread_loop, dif_neg hd]

variable {f : OpenFile} {keep : Bool}

/-- The pass as if nothing came behind the first error. -/
def ProbeState.untilError (s : ProbeState) : ProbeState := { s with answers := NginxZstd.untilError s.answers }

theorem probe_read_untilError {s s' : ProbeState} {b : Bytes} (h : probe_read f keep s = (some b, s')) :
    probe_read f keep s.untilError = (some b, s'.untilError) := by
  have hblock : probe_retained f s.untilError = probe_retained f s := rfl
  unfold probe_read at h ⊢
  rw [hblock]
  split at h
  · next off hdr hkeep =>
    cases h
    rfl
  · next hkeep =>
    simp only at h ⊢
    split at h
    · cases h
    · next hdr answers hread =>
      cases h
      have hclean := pread_loop_untilError [] _ s.answers hread
      have hclean : static_pread f.content (probe_align f) (probe_want f)
          (s.untilError.pos - probe_frame_off f s.untilError.pos) s.untilError.answers =
          (some hdr, NginxZstd.untilError answers) := hclean
      rw [hclean]
      rfl

theorem probe_step_untilError {s : ProbeState} :
    (probe_step f keep s = .inl .ok → probe_step f keep s.untilError = .inl .ok) ∧
      ∀ s', probe_step f keep s = .inr s' → probe_step f keep s.untilError = .inr s'.untilError := by
  generalize hread : probe_read f keep s = r
  obtain ⟨b, s₁⟩ := r
  cases b with
  | none =>
    constructor
    · intro h
      rw [probe_step, hread] at h
      cases h
    · intro s' h
      rw [probe_step, hread] at h
      cases h
  | some frame =>
    rw [probe_step, probe_step, hread, probe_read_untilError hread]
    simp only
    split
    · exact ⟨fun h => (by cases h), fun _ h => (by cases h)⟩
    · have hpos : s₁.untilError.pos = s₁.pos := rfl
      rw [hpos]
      split
      · exact ⟨fun h => (by cases h), fun _ h => (by cases h)⟩
      · exact ⟨fun h => (by cases h), fun _ h => (by cases h)⟩
      · exact ⟨fun _ => rfl, fun _ h => (by cases h)⟩
      · have hframes : s₁.untilError.frames = s₁.frames := rfl
        rw [hframes]
        split
        · exact ⟨fun h => (by cases h), fun _ h => (by cases h)⟩
        · exact ⟨fun h => (by cases h), fun s' h => by cases h; rfl⟩

theorem probe_run_untilError {s : ProbeState} (h : probe_run f keep s = .ok) : probe_run f keep s.untilError = .ok := by
  fun_induction probe_run f keep s with
  | case1 s r hstep =>
    subst h
    have hclean := probe_step_untilError.1 hstep
    rw [probe_run]
    split
    · next h' =>
      rw [hclean] at h'
      cases h'
      rfl
    · next h' =>
      rw [hclean] at h'
      cases h'
  | case2 s s' hstep ih =>
    have hclean := probe_step_untilError.2 s' hstep
    rw [probe_run]
    split
    · next h' =>
      rw [hclean] at h'
      cases h'
    · next h' =>
      rw [hclean] at h'
      cases h'
      exact ih h

/-- However its reads come out: a walk that lets a file pass agrees with the plain walk. -/
theorem probe_run_sound (hsize : f.size = f.content.length) {answers : List Pread}
    (h : probe_run f keep (probe_start answers) = .ok) : Accepts f.content 4 0 := by
  have hok := probe_run_untilError h
  have hclean := untilError_errorFree answers
  have hok : probe_run f keep (probe_start (untilError answers)) = .ok := hok
  have hfed : Fed f keep (probe_start (untilError answers)) := by
    intro t ht hst
    have hreached := ProbeReached.start.trans ht
    have hstep := probe_step_starved hsize (hreached.inv hsize hclean) hst
    rw [hreached.run, probe_run] at hok
    split at hok
    · next h' =>
      rw [hstep] at h'
      cases h'
      cases hok
    · next h' =>
      rw [hstep] at h'
      cases h'
  rcases probe_run_eq hsize keep _ (probe_start_inv f hclean) hfed (Nat.zero_le _) with ⟨hacc, -⟩ | ⟨-, hdecl⟩
  · exact hacc
  · rw [hok] at hdecl
    cases hdecl

/-- However the allocator and the kernel answer: a file that the probe lets pass is one
that the plain walk accepts. -/
theorem probe_file_sound {zsmcf : DioScratch} {r : Nat} {answer : BufPool → Option Nat}
    (hsize : f.size = f.content.length) {answers : List Pread}
    (h : (probe_file zsmcf r f keep answer answers).1 = .ok) : Accepts f.content 4 0 := by
  by_cases h4 : f.size < 4
  · rw [probe_file_short h4] at h
    cases h
  by_cases hgranted : Granted zsmcf r f answer
  · rw [probe_file_granted hgranted (by omega)] at h
    exact probe_run_sound hsize h
  · rw [probe_file_refused hgranted (by omega)] at h
    cases h

/-- Without a read error the walk comes to a verdict. -/
theorem probe_run_verdict (hsize : f.size = f.content.length) (s : ProbeState) (hs : ProbeInv f s) :
    probe_run f keep s = .ok ∨ probe_run f keep s = .declined true := by
  fun_induction probe_run f keep s with
  | case1 s r h =>
    by_cases hst : Starved f keep s
    · rw [probe_step_starved hsize hs hst] at h
      cases h
      exact .inr rfl
    rcases probe_step_cases hsize keep hs hst with ⟨-, hstep⟩ | ⟨size, -, -, ⟨-, hstep⟩ | ⟨-, s', hstep, -⟩⟩ | ⟨-, -, hstep⟩
    · rw [hstep] at h
      cases h
      exact .inl rfl
    · rw [hstep] at h
      cases h
      exact .inr rfl
    · rw [hstep] at h
      cases h
    · rw [hstep] at h
      cases h
      exact .inr rfl
  | case2 s s' h ih =>
    refine ih ?_
    have hfed : ¬Starved f keep s := by
      intro hst
      rw [probe_step_starved hsize hs hst] at h
      cases h
    rcases probe_step_cases hsize keep hs hfed with ⟨-, hstep⟩ | ⟨size, -, -, ⟨-, hstep⟩ | ⟨-, s₁, hstep, -, -, hs₁⟩⟩ |
      ⟨-, -, hstep⟩
    · rw [hstep] at h
      cases h
    · rw [hstep] at h
      cases h
    · rw [hstep] at h
      cases h
      exact hs₁
    · rw [hstep] at h
      cases h

/-- Reads that neither fail nor end before a header leave the verdict to the content. -/
theorem probe_file_whole {zsmcf : DioScratch} {r : Nat} {answer : BufPool → Option Nat}
    (hsize : f.size = f.content.length) (hgranted : Granted zsmcf r f answer) {answers : List Pread}
    (hl : ErrorFree answers) (hfed : f.directio.isSome → ¬Starves f 4 0 none answers) :
    (Accepts f.content 4 0 ∧ (probe_file zsmcf r f true answer answers).1 = .ok) ∨
      (¬Accepts f.content 4 0 ∧ (probe_file zsmcf r f true answer answers).1 = .declined true) := by
  by_cases h4 : f.size < 4
  · refine .inr ⟨fun hacc => ?_, by rw [probe_file_short h4]⟩
    have := hacc.four
    omega
  · have hrun := probe_file_granted hgranted (Nat.not_lt.1 h4) true answers
    rcases @probe_run_verdict f true hsize (probe_start answers) (probe_start_inv f hl) with hok | hdecl
    · exact .inl ⟨probe_run_sound hsize hok, hrun.trans hok⟩
    · refine .inr ⟨fun hacc => ?_, hrun.trans hdecl⟩
      obtain ⟨hdio, -, hstarves⟩ := (declined_good_iff hsize hl).1 ⟨hacc, hrun.trans hdecl⟩
      exact hfed hdio hstarves

/-! ## The worker -/

/-- What the identity of a file tells: its content. -/
def OnDisk (disk : FileIdent → Bytes) (q : StaticRequest) : Prop :=
  ∀ path of content directio, q.opened = .file path of content directio →
    disk ⟨path, of⟩ = content ∧ of.size = content.length

/-- The reads neither fail nor end before a header does, and have a buffer to go to. -/
def WholeReads (w : StaticWorker) (q : StaticRequest) : Prop :=
  ErrorFree q.answers ∧ ∀ path of content directio, q.opened = .file path of content directio →
    Granted w.zsmcf q.id (of.probed content directio) q.answer ∧
      (directio.isSome → ¬Starves (of.probed content directio) 4 0 none q.answers)

variable {chained : Bool} {w : StaticWorker} {q : StaticRequest} {disk : FileIdent → Bytes}

/-- A verdict that a lookup answers has been recorded for the file. -/
theorem Coherent.logged {s : VerdictState} (h : Coherent s) {path : Bytes} {of : OpenFileInfo} {now : Int}
    {good_valid : Nat} (hne : (cached_verdict s.cache path of now good_valid).1 ≠ .none) :
    ∃ t, ⟨⟨path, of⟩, (cached_verdict s.cache path of now good_valid).1, t⟩ ∈ s.log := by
  obtain ⟨i, e, he, hfile, -, hvalid⟩ := cached_verdict_some hne
  have hlatest := h.recorded he
  rw [hfile, ← hvalid] at hlatest
  exact ⟨_, List.mem_of_find?_eq_some hlatest⟩

/-- Whatever the handler does with a file, the cache sees the visit. -/
theorem serve_file_visit (w : StaticWorker) (q : StaticRequest) (accepts : Bool) (resp : Response) (path : Bytes)
    (of : OpenFileInfo) (content : Bytes) (directio : Option Nat) :
    visit w.verdicts (q.visit w.zsmcf path of content directio) =
      some (serve_file w q accepts resp path of content directio).2.verdicts := by
  have hprobe : (q.visit w.zsmcf path of content directio).probe =
      (q.probe w.zsmcf (of.probed content directio)).1.ending := rfl
  have hlooked : cached_verdict w.verdicts.cache (q.visit w.zsmcf path of content directio).path
      (q.visit w.zsmcf path of content directio).of (q.visit w.zsmcf path of content directio).now
      (q.visit w.zsmcf path of content directio).good_valid =
      cached_verdict w.verdicts.cache path of q.now q.good_valid := rfl
  simp only [NginxZstd.visit, serve_file, hprobe, hlooked]
  cases (cached_verdict w.verdicts.cache path of q.now q.good_valid).1 with
  | bad => rfl
  | good => rfl
  | none =>
    rcases q.probe w.zsmcf (of.probed content directio) with ⟨probed, zsmcf⟩
    cases probed with
    | ok => rfl
    | error => rfl
    | fault => rfl
    | declined malformed => cases malformed <;> rfl

/-- A request leaves the cache alone, or visits it with the file it opened. -/
theorem serve_state (chained : Bool) (w : StaticWorker) (q : StaticRequest) :
    (serve chained w q).2 = w ∨ ∃ path of content directio, q.opened = .file path of content directio ∧
      visit w.verdicts (q.visit w.zsmcf path of content directio) = some (serve chained w q).2.verdicts := by
  unfold serve
  split
  · exact .inl rfl
  · exact .inl rfl
  · split
    · exact .inl rfl
    · split
      · exact .inl rfl
      · exact .inl rfl
      · exact .inl rfl
      · next path of content directio hopened =>
        exact .inr ⟨path, of, content, directio, hopened, serve_file_visit w q _ _ path of content directio⟩

/-- What is kept is coherent, and every verdict recorded is true to the file. -/
structure Truthful (ok : Recorded → Prop) (s : VerdictState) : Prop where
  coherent : Coherent s
  log : ∀ r ∈ s.log, ok r

theorem Truthful.start (ok : Recorded → Prop) : Truthful ok freshWorker :=
  ⟨freshWorker_coherent, fun _ h => (by cases h)⟩

/-- A request records the verdict of its own probe, if any. -/
theorem Truthful.serve {ok : Recorded → Prop} (h : Truthful ok w.verdicts)
    (hnew : ∀ path of content directio, q.opened = .file path of content directio →
      ok ⟨⟨path, of⟩, (q.visit w.zsmcf path of content directio).probe.verdict, q.now⟩) :
    Truthful ok (serve chained w q).2.verdicts := by
  rcases serve_state chained w q with heq | ⟨path, of, content, directio, hopened, hv⟩
  · rwa [heq]
  · refine ⟨h.coherent.visit hv, ?_⟩
    rcases visit_cases hv with ⟨-, heq⟩ | ⟨-, -, heq⟩
    · rw [heq]
      exact h.log
    · intro r hr
      rw [heq, record] at hr
      dsimp only at hr
      split at hr
      · rcases List.mem_cons.1 hr with rfl | hr
        · exact hnew path of content directio hopened
        · exact h.log r hr
      · exact h.log r hr

/-- The verdict of a visit is good only where the probe let the file pass. -/
theorem visit_good {zsmcf : DioScratch} {path content : Bytes} {of : OpenFileInfo} {directio : Option Nat}
    (h : (q.visit zsmcf path of content directio).probe.verdict = .good) :
    (q.probe zsmcf (of.probed content directio)).1 = .ok := by
  simp only [StaticRequest.visit] at h
  cases hp : (q.probe zsmcf (of.probed content directio)).1 with
  | ok => rfl
  | error =>
    rw [hp] at h
    cases h
  | fault =>
    rw [hp] at h
    cases h
  | declined malformed =>
    rw [hp] at h
    cases malformed <;> cases h

/-- The size that is opened is the length of what is on disk. -/
theorem OnDisk.probed_size (hq : OnDisk disk q) {path content : Bytes} {of : OpenFileInfo} {directio : Option Nat}
    (hopened : q.opened = .file path of content directio) :
    (of.probed content directio).size = (of.probed content directio).content.length := by
  obtain ⟨-, hsize⟩ := hq path of content directio hopened
  show of.size.toNat = content.length
  omega

/-- The content decides what the probe says, where the reads are whole. -/
theorem probe_whole {path content : Bytes} {of : OpenFileInfo} {directio : Option Nat} (hq : OnDisk disk q)
    (hw : WholeReads w q) (hopened : q.opened = .file path of content directio) :
    (Accepts content 4 0 ∧ (q.probe w.zsmcf (of.probed content directio)).1 = .ok) ∨
      (¬Accepts content 4 0 ∧ (q.probe w.zsmcf (of.probed content directio)).1 = .declined true) := by
  obtain ⟨hgranted, hfed⟩ := hw.2 path of content directio hopened
  exact probe_file_whole (hq.probed_size hopened) hgranted hw.1 hfed

/-! ## What is served -/

/-- The good verdicts on record are on files that the plain walk accepts. -/
def GoodAccepted (disk : FileIdent → Bytes) (r : Recorded) : Prop := r.verdict = .good → Accepts (disk r.file) 4 0

/-- A new good verdict comes from the probe. -/
theorem OnDisk.good_accepted (hq : OnDisk disk q) {zsmcf : DioScratch} {path content : Bytes} {of : OpenFileInfo}
    {directio : Option Nat} (hopened : q.opened = .file path of content directio)
    (h : (q.probe zsmcf (of.probed content directio)).1 = .ok) : Accepts content 4 0 :=
  probe_file_sound (hq.probed_size hopened) h

theorem served_reaches (h : Reaches (serve_step chained) (fun _ q => OnDisk disk q) .start w) :
    Truthful (GoodAccepted disk) w.verdicts := by
  refine h.invariant (fun w => Truthful (GoodAccepted disk) w.verdicts) (.start _) ?_
  intro t q u ht hq hs
  cases hs
  refine ht.serve fun path of content directio hopened hgood => ?_
  show Accepts (disk ⟨path, of⟩) 4 0
  rw [(hq path of content directio hopened).1]
  exact hq.good_accepted hopened (visit_good hgood)

/-- Whatever a worker is asked for, in whatever order, and however its reads are cut
short, interrupted or failed and its buffers refused: a response made from a file on disk
carries a file that is a regular frame within the window, behind at most four skippable
frames. -/
theorem served_files_accepted (h : Reaches (serve_step chained) (fun _ q => OnDisk disk q) .start w)
    (hq : OnDisk disk q) {resp : Response} (hserved : (serve chained w q).1 = .ok (.served, resp)) :
    ∃ path of content directio, q.opened = .file path of content directio ∧ Accepts content 4 0 := by
  have ht := served_reaches h
  unfold serve at hserved
  split at hserved
  · cases hserved
  · cases hserved
  · split at hserved
    · cases hserved
    · split at hserved
      · cases hserved
      · cases hserved
      · cases hserved
      · next accepts resp' _ _ path of content directio hopened =>
        refine ⟨path, of, content, directio, hopened, ?_⟩
        rw [serve_file] at hserved
        cases hlooked : (cached_verdict w.verdicts.cache path of q.now q.good_valid).1 with
        | bad =>
          rw [hlooked] at hserved
          cases hserved
        | good =>
          obtain ⟨t, hmem⟩ := ht.coherent.logged (by rw [hlooked]; exact fun h => (by cases h))
          rw [← (hq path of content directio hopened).1]
          exact ht.log _ hmem hlooked
        | none =>
          apply @OnDisk.good_accepted q disk hq w.zsmcf path content of directio hopened
          rw [hlooked] at hserved
          rcases hprobe : q.probe w.zsmcf (of.probed content directio) with ⟨probed, zsmcf⟩
          cases probed with
          | ok => rfl
          | error =>
            simp only [hprobe] at hserved
            cases hserved
          | fault =>
            simp only [hprobe] at hserved
            cases hserved
          | declined malformed =>
            simp only [hprobe] at hserved
            cases hserved

/-- A request for an empty frame, which is kept on disk and opened for directio. -/
def zstRequest (now : Int) (answers : List Pread) : StaticRequest where
  id := 0
  clcf := none
  zscf := ⟨.always, false⟩
  request := requestOf []
  resp := sampleResponse
  opened := .file (str "/test.zst") ⟨7, 100, 9⟩ emptyZst (some 512)
  now := now
  good_valid := 60
  answer := posix_memalign 4096 0x10000
  answers := answers

theorem zstRequest_onDisk (now : Int) (answers : List Pread) : OnDisk (fun _ => emptyZst) (zstRequest now answers) := by
  intro path of content directio hopened
  cases hopened
  exact ⟨rfl, rfl⟩

/-- The file as the probe is given it. -/
def zstFile : OpenFile := ⟨9, emptyZst, some 512⟩

theorem zstFile_fed : ¬Starves zstFile 4 0 none [] := by
  intro hstarves
  cases hstarves with
  | here _ _ hlt => exact absurd hlt (by decide)
  | later hsk _ _ => exact absurd hsk.2.2.1 (by decide)

theorem zstFile_granted {zsmcf : DioScratch} (h : zsmcf = fresh_scratch ∨ zsmcf = ⟨some 0x10000, 8192, 4096, false⟩) :
    Granted zsmcf 0 zstFile (posix_memalign 4096 0x10000) := by
  rcases h with rfl | rfl <;> decide

theorem zstRequest_wholeReads {w : StaticWorker} (now : Int)
    (h : w.zsmcf = fresh_scratch ∨ w.zsmcf = ⟨some 0x10000, 8192, 4096, false⟩) : WholeReads w (zstRequest now []) := by
  constructor
  · intro a ha
    cases ha
  · intro path of content directio hopened
    cases hopened
    exact ⟨zstFile_granted h, fun _ => zstFile_fed⟩

/-- A worker that has served the file once. -/
def servedOnce : StaticWorker := (serve false .start (zstRequest 0 [])).2

/-- It has the verdict in its cache. -/
theorem servedOnce_cache :
    servedOnce.verdicts.cache = remember freshWorker.cache (str "/test.zst") ⟨7, 100, 9⟩ .good 0 60 ∧
      servedOnce.zsmcf = ⟨some 0x10000, 8192, 4096, false⟩ := by
  have hprobe : ((zstRequest 0 []).probe fresh_scratch (OpenFileInfo.probed ⟨7, 100, 9⟩ emptyZst (some 512))).1 = .ok := by
    rcases probe_whole (w := .start) (zstRequest_onDisk 0 []) (zstRequest_wholeReads 0 (.inl rfl)) rfl with ⟨-, h⟩ | ⟨h, -⟩
    · exact h
    · exact absurd emptyZst_accepted h
  have hprobe : (zstRequest 0 []).probe fresh_scratch (OpenFileInfo.probed ⟨7, 100, 9⟩ emptyZst (some 512)) =
      (.ok, ⟨some 0x10000, 8192, 4096, false⟩) := Prod.ext hprobe rfl
  have hfile : serve false .start (zstRequest 0 []) =
      serve_file .start (zstRequest 0 []) true sampleResponse (str "/test.zst") ⟨7, 100, 9⟩ emptyZst (some 512) := rfl
  have hmiss : cached_verdict freshWorker.cache (str "/test.zst") ⟨7, 100, 9⟩ (zstRequest 0 []).now
      (zstRequest 0 []).good_valid = (.none, freshWorker.cache) := rfl
  rw [servedOnce, hfile]
  simp only [serve_file, StaticWorker.start, hmiss, hprobe]
  exact ⟨rfl, trivial⟩

/-- From there it answers without a probe. -/
theorem servedOnce_serves (answers : List Pread) :
    (serve false servedOnce (zstRequest 1 answers)).1 = static_answer none ⟨.always, false⟩ true sampleResponse := by
  have hlooked : (cached_verdict servedOnce.verdicts.cache (str "/test.zst") ⟨7, 100, 9⟩ 1 60).1 = .good := by
    rw [servedOnce_cache.1]
    decide
  have hfile : serve false servedOnce (zstRequest 1 answers) =
      serve_file servedOnce (zstRequest 1 answers) true sampleResponse (str "/test.zst") ⟨7, 100, 9⟩ emptyZst
        (some 512) := rfl
  have hhit : (cached_verdict servedOnce.verdicts.cache (str "/test.zst") ⟨7, 100, 9⟩ (zstRequest 1 answers).now
      (zstRequest 1 answers).good_valid).1 = .good := hlooked
  rw [hfile]
  simp only [serve_file, hhit]
  rfl

theorem served_files_accepted_cached :
    ∃ resp, (serve false servedOnce (zstRequest 1 [.error])).1 = .ok (.served, resp) ∧
      ∃ path of content directio, (zstRequest 1 [.error]).opened = .file path of content directio ∧
        Accepts content 4 0 := by
  have hreached : Reaches (serve_step false) (fun _ q => OnDisk (fun _ => emptyZst) q) .start servedOnce :=
    .single ⟨zstRequest 0 [], zstRequest_onDisk 0 [], rfl⟩
  have hserved := servedOnce_serves [.error]
  exact ⟨_, hserved, served_files_accepted hreached (zstRequest_onDisk 1 [.error]) hserved⟩

/-! ## The handler that knows the content -/

open Classical in
/-- What opening the sidecar finds, with the plain walk for the verdict. -/
noncomputable def OpenedFile.sidecar : OpenedFile → Sidecar
  | .failed => .failed
  | .dir => .dir
  | .special => .special
  | .file _ _ content _ => .file (decide (Accepts content 4 0))

theorem OpenedFile.sidecar_accepted {path content : Bytes} {of : OpenFileInfo} {directio : Option Nat}
    (h : Accepts content 4 0) : (OpenedFile.file path of content directio).sidecar = .file true :=
  congrArg Sidecar.file (@decide_eq_true _ (Classical.propDecidable _) h)

theorem OpenedFile.sidecar_rejected {path content : Bytes} {of : OpenFileInfo} {directio : Option Nat}
    (h : ¬Accepts content 4 0) : (OpenedFile.file path of content directio).sidecar = .file false :=
  congrArg Sidecar.file (@decide_eq_false _ (Classical.propDecidable _) h)

/-- Both verdicts on record are those of the plain walk. -/
def Judges (disk : FileIdent → Bytes) (r : Recorded) : Prop :=
  (r.verdict = .good → Accepts (disk r.file) 4 0) ∧ (r.verdict = .bad → ¬Accepts (disk r.file) 4 0)

theorem judged_reaches (h : Reaches (serve_step chained) (fun w q => OnDisk disk q ∧ WholeReads w q) .start w) :
    Truthful (Judges disk) w.verdicts := by
  refine h.invariant (fun w => Truthful (Judges disk) w.verdicts) (.start _) ?_
  intro t q u ht hq hs
  cases hs
  refine ht.serve fun path of content directio hopened => ?_
  have hdisk : disk ⟨path, of⟩ = content := (hq.1 path of content directio hopened).1
  have hvisit : (q.visit t.zsmcf path of content directio).probe =
      (q.probe t.zsmcf (of.probed content directio)).1.ending := rfl
  rw [Judges, hdisk, hvisit]
  rcases probe_whole hq.1 hq.2 hopened with ⟨hacc, hprobe⟩ | ⟨hacc, hprobe⟩
  · rw [hprobe]
    exact ⟨fun _ => hacc, fun h => (by cases h)⟩
  · rw [hprobe]
    exact ⟨fun h => (by cases h), fun _ => hacc⟩

/-- What the handler does once it has negotiated. -/
theorem static_handler_negotiated {clcf : Option CoreLocConf} {zscf : StaticConf} {sidecar : Bytes → Sidecar}
    {r : Request} {resp resp' : Response} {accepts : Bool}
    (hn : static_negotiate chained clcf zscf r resp = .ok (some accepts, resp')) :
    static_handler chained clcf zscf sidecar r resp =
      if zscf.enable ≠ .on ∧ accepts = false then .ok (.declined, resp')
      else
        match sidecar r.uri with
        | .failed => .ok (.declined, resp')
        | .dir => .ok (.declined, resp')
        | .special => .ok (.not_found, resp')
        | .file false => .ok (.declined, resp')
        | .file true => static_answer clcf zscf accepts resp' := by
  rw [static_handler, hn]
  rfl

/-- A file is answered for as its content deserves, be it from the cache or by a probe. -/
theorem serve_file_exact (ht : Truthful (Judges disk) w.verdicts) (hq : OnDisk disk q) (hw : WholeReads w q)
    {path content : Bytes} {of : OpenFileInfo} {directio : Option Nat}
    (hopened : q.opened = .file path of content directio) (accepts : Bool) (resp : Response) :
    (Accepts content 4 0 →
        (serve_file w q accepts resp path of content directio).1 = static_answer q.clcf q.zscf accepts resp) ∧
      (¬Accepts content 4 0 → (serve_file w q accepts resp path of content directio).1 = .ok (.declined, resp)) := by
  have hdisk : disk ⟨path, of⟩ = content := (hq path of content directio hopened).1
  cases hlooked : (cached_verdict w.verdicts.cache path of q.now q.good_valid).1 with
  | bad =>
    obtain ⟨t, hmem⟩ := ht.coherent.logged (by rw [hlooked]; exact fun h => (by cases h))
    have hbad := (ht.log _ hmem).2 hlooked
    rw [hdisk] at hbad
    simp only [serve_file, hlooked]
    exact ⟨fun hacc => absurd hacc hbad, fun _ => trivial⟩
  | good =>
    obtain ⟨t, hmem⟩ := ht.coherent.logged (by rw [hlooked]; exact fun h => (by cases h))
    have hgood := (ht.log _ hmem).1 hlooked
    rw [hdisk] at hgood
    simp only [serve_file, hlooked]
    exact ⟨fun _ => trivial, fun hacc => absurd hgood hacc⟩
  | none =>
    rcases probe_whole hq hw hopened with ⟨hacc, hprobe⟩ | ⟨hacc, hprobe⟩
    · rcases hp : q.probe w.zsmcf (of.probed content directio) with ⟨probed, zsmcf⟩
      rw [hp] at hprobe
      cases hprobe
      simp only [serve_file, hlooked, hp]
      exact ⟨fun _ => trivial, fun h => absurd hacc h⟩
    · rcases hp : q.probe w.zsmcf (of.probed content directio) with ⟨probed, zsmcf⟩
      rw [hp] at hprobe
      cases hprobe
      simp only [serve_file, hlooked, hp]
      exact ⟨fun h => absurd h hacc, fun _ => trivial⟩

/-- Where the reads are whole, the cache and the probe are not to be seen: over any run the
worker answers as the handler that knows of every file what the plain walk says of it. -/
theorem serving_exact (h : Reaches (serve_step chained) (fun w q => OnDisk disk q ∧ WholeReads w q) .start w)
    (hq : OnDisk disk q) (hw : WholeReads w q) :
    (serve chained w q).1 = static_handler chained q.clcf q.zscf (fun _ => q.opened.sidecar) q.request q.resp := by
  have ht := judged_reaches h
  cases hn : static_negotiate chained q.clcf q.zscf q.request q.resp with
  | error abort =>
    rw [serve, static_handler, hn]
    rfl
  | ok negotiated =>
    obtain ⟨accepts, resp⟩ := negotiated
    cases accepts with
    | none =>
      rw [serve, static_handler, hn]
      rfl
    | some accepts =>
      rw [static_handler_negotiated hn, serve, hn]
      by_cases hskip : q.zscf.enable ≠ .on ∧ accepts = false
      · simp only [if_pos hskip]
      · simp only [if_neg hskip]
        cases hopened : q.opened with
        | failed => rfl
        | dir => rfl
        | special => rfl
        | file path of content directio =>
          obtain ⟨hserved, hdeclined⟩ := serve_file_exact ht hq hw hopened accepts resp
          by_cases hacc : Accepts content 4 0
          · rw [OpenedFile.sidecar_accepted hacc]
            exact hserved hacc
          · rw [OpenedFile.sidecar_rejected hacc]
            exact hdeclined hacc

theorem serving_exact_cached :
    (serve false servedOnce (zstRequest 1 [])).1 =
      static_handler false none ⟨.always, false⟩ (fun _ => (zstRequest 1 []).opened.sidecar) (requestOf [])
        sampleResponse := by
  have hreached : Reaches (serve_step false) (fun w q => OnDisk (fun _ => emptyZst) q ∧ WholeReads w q) .start
      servedOnce := .single ⟨zstRequest 0 [], ⟨zstRequest_onDisk 0 [], zstRequest_wholeReads 0 (.inl rfl)⟩, rfl⟩
  exact serving_exact hreached (zstRequest_onDisk 1 []) (zstRequest_wholeReads 1 (.inr servedOnce_cache.2))

end NginxZstd
