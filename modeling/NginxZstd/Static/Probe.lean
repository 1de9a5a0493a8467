import NginxZstd.Static.FrameProbe
import NginxZstd.Static.Scratch
/-!
# Probing a file

The read loop, the walk over leading skippable frames, and the plain walk it
stands for. The walk reads in blocks, rounds offsets under directio and keeps the
last block; none of that shows in its answer as long as a read delivers the header
it is after, because the bytes the walk looks at are always the file's own. A directio file
without a buffer to read into is not walked at all.
-/

namespace NginxZstd

open Lib

/-! ## Reading -/

/-- One answer of `pread(2)`: an interruption, a hard error, or at most `count` bytes.
At or past the end of the file no byte is delivered, elsewhere at least one. -/
inductive Pread where
  | eintr
  | error
  | bytes (count : Nat)

/-- The bytes delivered for an answer of `count`. -/
def delivered (file : Bytes) (offset size count : Nat) : Bytes := (file.drop offset).take (min size (max count 1))

/-- The answer and the ones behind it. Once they have run out, every read delivers
all it was asked for. -/
def next_pread (size : Nat) : List Pread → Pread × List Pread
  | [] => (.bytes size, [])
  | a :: as => (a, as)

theorem next_pread_lt {size : Nat} {answers answers' : List Pread} {a : Pread}
    (h : next_pread size answers = (a, answers')) :
    answers'.length < answers.length ∨ (answers' = answers ∧ a = .bytes size) := by
  cases answers with
  | nil => cases h; exact .inr ⟨rfl, rfl⟩
  | cons a as => cases h; exact .inl (by simp)

theorem le_round_down {align done now : Nat} (h : align ∣ done) (hle : done ≤ now) : done ≤ now - now % align := by
  obtain ⟨k, rfl⟩ := h
  rcases Nat.eq_zero_or_pos align with rfl | hpos
  · simp
  · have hk : k ≤ now / align := (Nat.le_div_iff_mul_le hpos).2 (by rwa [Nat.mul_comm])
    have := Nat.div_add_mod now align
    calc align * k ≤ align * (now / align) := Nat.mul_le_mul_left _ hk
      _ = now - now % align := by omega

/-- The loop of `ngx_http_zstd_static_pread`, with `done` bytes in `buf`, on a whole
block under `align > 1`. It returns the bytes read, or `none` for a hard error. -/
def pread_loop (file : Bytes) (align size offset : Nat) (buf : Bytes) (done : Nat) (h : 1 < align → align ∣ done)
    (answers : List Pread) : Option Bytes × List Pread :=
  if _hd : done < size then
    match _hn : next_pread (size - done) answers with
    | (.eintr, answers) => pread_loop file align size offset buf done h answers
    | (.error, answers) => (none, answers)
    | (.bytes count, answers) =>
      let data := delivered file (offset + done) (size - done) count
      if _hdata : data = [] then (some (buf.take done), answers)
      else
        let buf := buf.take done ++ data
        let now := done + data.length
        if ha : 1 < align then
          -- the resume point is rounded down; without a new whole block the loop gives up
          if now - now % align = done then (some buf, answers)
          else pread_loop file align size offset buf (now - now % align) (fun _ => Nat.dvd_sub_mod now) answers
        else pread_loop file align size offset buf now (fun h' => absurd h' ha) answers
  else (some (buf.take done), answers)
termination_by (answers.length, size - done)
decreasing_by
  · rw [Prod.lex_def]
    rcases next_pread_lt _hn with hlt | ⟨-, hb⟩
    · exact .inl hlt
    · cases hb
  · next hne =>
    rw [Prod.lex_def]
    rcases next_pread_lt _hn with hlt | ⟨heq, -⟩
    · exact .inl hlt
    · have hle := le_round_down (h ha)
        (Nat.le_add_right done (delivered file (offset + done) (size - done) count).length)
      exact .inr ⟨congrArg List.length heq, Nat.sub_lt_sub_left _hd (Nat.lt_of_le_of_ne hle (Ne.symm hne))⟩
  · rw [Prod.lex_def]
    rcases next_pread_lt _hn with hlt | ⟨heq, -⟩
    · exact .inl hlt
    · have hpos : 0 < (delivered file (offset + done) (size - done) count).length := List.length_pos_iff.2 _hdata
      exact .inr ⟨congrArg List.length heq, Nat.sub_lt_sub_left _hd (Nat.lt_add_of_pos_right hpos)⟩

/-- `ngx_http_zstd_static_pread`. -/
def static_pread (file : Bytes) (align size offset : Nat) (answers : List Pread) : Option Bytes × List Pread :=
  pread_loop file align size offset [] 0 (fun _ => Nat.dvd_zero align) answers

/-! ## How much a read delivers -/

/-- No hard error is to come. -/
def ErrorFree (answers : List Pread) : Prop := ∀ a ∈ answers, a ≠ .error

/-- The bytes the next answer that is no interruption allows, and the answers behind
it. -/
def nextCount (size : Nat) : List Pread → Nat × List Pread
  | [] => (size, [])
  | .eintr :: answers => nextCount size answers
  | .error :: answers => (0, answers)
  | .bytes count :: answers => (min size (max count 1), answers)

/-- The bytes a directio read of two blocks delivers where the file has `avail`: a
count below a block ends it. -/
def blockRead (avail align : Nat) (answers : List Pread) : Nat :=
  let first := min avail (nextCount (align * 2) answers).1
  if first < align ∨ first = align * 2 then first
  else align + min (avail - align) (nextCount align (nextCount (align * 2) answers).2).1

/-- The answers behind that read. -/
def blockRest (avail align : Nat) (answers : List Pread) : List Pread :=
  let first := min avail (nextCount (align * 2) answers).1
  if first < align ∨ first = align * 2 then (nextCount (align * 2) answers).2
  else (nextCount align (nextCount (align * 2) answers).2).2

theorem errorFree_nil : ErrorFree [] := nofun

theorem ErrorFree.tail {a : Pread} {answers : List Pread} (h : ErrorFree (a :: answers)) : ErrorFree answers :=
  fun b hb => h b (List.mem_cons_of_mem _ hb)

theorem ErrorFree.next {answers : List Pread} (h : ErrorFree answers) (size : Nat) :
    ErrorFree (nextCount size answers).2 := by
  induction answers with
  | nil => exact h
  | cons a answers ih =>
    cases a with
    | eintr => exact ih h.tail
    | error => exact absurd rfl (h .error List.mem_cons_self)
    | bytes count => exact h.tail

theorem nextCount_le (size : Nat) (answers : List Pread) : (nextCount size answers).1 ≤ size := by
  induction answers with
  | nil => exact Nat.le_refl size
  | cons a answers ih =>
    cases a with
    | eintr => exact ih
    | error => exact Nat.zero_le size
    | bytes count => exact Nat.min_le_left _ _

theorem nextCount_pos {size : Nat} (hs : 0 < size) {answers : List Pread} (h : ErrorFree answers) :
    0 < (nextCount size answers).1 := by
  induction answers with
  | nil => exact hs
  | cons a answers ih =>
    cases a with
    | eintr => exact ih h.tail
    | error => exact absurd rfl (h .error List.mem_cons_self)
    | bytes count => simp only [nextCount]; omega

/-- One turn of the read loop behind the interruptions. -/
theorem pread_loop_next (file : Bytes) (align size offset : Nat) {answers : List Pread} (hl : ErrorFree answers)
    (buf : Bytes) {done : Nat} (h : 1 < align → align ∣ done) (hd : done < size) :
    let data := (file.drop (offset + done)).take (nextCount (size - done) answers).1
    let rest := (nextCount (size - done) answers).2
    let now := done + data.length
    pread_loop file align size offset buf done h answers =
      if data = [] then (some (buf.take done), rest)
      else if ha : 1 < align then
        if now - now % align = done then (some (buf.take done ++ data), rest)
        else pread_loop file align size offset (buf.take done ++ data) (now - now % align)
          (fun _ => Nat.dvd_sub_mod now) rest
      else pread_loop file align size offset (buf.take done ++ data) now (fun h' => absurd h' ha) rest := by
  induction answers with
  | nil =>
    rw [pread_loop, dif_pos hd]
    simp only [next_pread, nextCount, delivered, Nat.min_eq_left (Nat.le_max_left (size - done) 1), dite_eq_ite]
    rfl
  | cons a answers ih =>
    cases a with
    | eintr =>
      rw [pread_loop, dif_pos hd]
      exact ih hl.tail
    | error => exact absurd rfl (hl .error List.mem_cons_self)
    | bytes count =>
      rw [pread_loop, dif_pos hd]
      simp only [next_pread, nextCount, delivered]
      rfl

section
variable (file : Bytes) {align size offset done : Nat} {answers : List Pread} (hl : ErrorFree answers) {buf data : Bytes}
  (h : 1 < align → align ∣ done) (hd : done < size)
  (hdata : (file.drop (offset + done)).take (nextCount (size - done) answers).1 = data)
include hl hd hdata

theorem pread_loop_end (hnil : data = []) :
    pread_loop file align size offset buf done h answers = (some (buf.take done), (nextCount (size - done) answers).2) := by
  rw [pread_loop_next file align size offset hl buf h hd]
  simp only [hdata, if_pos hnil]

theorem pread_loop_stall (hne : data ≠ []) (ha : 1 < align)
    (hstall : done + data.length - (done + data.length) % align = done) :
    pread_loop file align size offset buf done h answers =
      (some (buf.take done ++ data), (nextCount (size - done) answers).2) := by
  rw [pread_loop_next file align size offset hl buf h hd]
  simp only [hdata, if_neg hne, dif_pos ha, if_pos hstall]

theorem pread_loop_resume (hne : data ≠ []) (ha : 1 < align) {done' : Nat} (h' : 1 < align → align ∣ done')
    (hdone : done + data.length - (done + data.length) % align = done') (hmove : done' ≠ done) :
    pread_loop file align size offset buf done h answers =
      pread_loop file align size offset (buf.take done ++ data) done' h' (nextCount (size - done) answers).2 := by
  subst hdone
  rw [pread_loop_next file align size offset hl buf h hd]
  simp only [hdata, if_neg hne, dif_pos ha, if_neg hmove]

theorem pread_loop_advance (hne : data ≠ []) (ha : ¬1 < align) :
    pread_loop file align size offset buf done h answers =
      pread_loop file align size offset (buf.take done ++ data) (done + data.length) (fun h' => absurd h' ha)
        (nextCount (size - done) answers).2 := by
  rw [pread_loop_next file align size offset hl buf h hd]
  simp only [hdata, if_neg hne, dif_neg ha]

end

/-- The answers behind a read. -/
theorem pread_loop_rest (file : Bytes) (align size offset : Nat) (buf : Bytes) (done : Nat)
    (h : 1 < align → align ∣ done) (answers : List Pread) :
    (pread_loop file align size offset buf done h answers).2 <:+ answers := by
  have hstep : ∀ {n : Nat} {a : Pread} {l l' : List Pread}, next_pread n l = (a, l') → l' <:+ l := by
    intro n a l l' hn
    cases l with
    | nil => cases hn; exact List.suffix_refl []
    | cons a l => cases hn; exact List.suffix_cons _ _
  fun_induction pread_loop file align size offset buf done h answers with
  | case1 buf done h answers hd answers' hn ih => exact ih.trans (hstep hn)
  | case2 buf done h answers hd answers' hn => exact hstep hn
  | case3 buf done h answers hd count answers' hn data hdata => exact hstep hn
  | case4 buf done h answers hd count answers' hn data hdata buf' now hal hstay => exact hstep hn
  | case5 buf done h answers hd count answers' hn data hdata buf' now hal hmove ih => exact ih.trans (hstep hn)
  | case6 buf done h answers hd count answers' hn data hdata buf' now hal ih => exact ih.trans (hstep hn)
  | case7 buf done h answers hd => exact List.suffix_refl answers

/-- A piece of the file in front of the next one. -/
theorem take_append_piece (l : Bytes) (done count : Nat) :
    l.take done ++ (l.drop done).take count = l.take (done + ((l.drop done).take count).length) := by
  rw [List.take_add]
  congr 1
  exact List.prefix_iff_eq_take.1 (List.take_prefix count (l.drop done))

/-- No byte is delivered only at the end of the file. -/
theorem piece_nil {file : Bytes} {offset done size : Nat} {answers : List Pread} (hl : ErrorFree answers) (hd : done < size)
    (h : (file.drop (offset + done)).take (nextCount (size - done) answers).1 = []) :
    (file.drop offset).length ≤ done := by
  have hpos := nextCount_pos (show 0 < size - done by omega) hl
  rcases List.take_eq_nil_iff.1 h with h0 | h0
  · omega
  · have := List.drop_eq_nil_iff.1 h0
    rw [List.length_drop]
    omega

/-- A buffered read goes on to the end of the file. -/
theorem pread_loop_buffered (file : Bytes) {align : Nat} (ha : ¬1 < align) (size offset : Nat) (left : Nat) :
    ∀ {done : Nat} {answers : List Pread} {buf : Bytes} (h : 1 < align → align ∣ done), size - done = left →
      ErrorFree answers → done ≤ size → buf.take done = (file.drop offset).take done →
      (pread_loop file align size offset buf done h answers).1 = some ((file.drop offset).take size) := by
  -- on the bytes that are missing; an interruption uses up an answer and is dealt with in `pread_loop_next`
  induction left using Nat.strong_induction_on with
  | _ left ih =>
    intro done answers buf h hleft hl hle hbuf
    by_cases hd : done < size
    · have hcount := nextCount_le (size - done) answers
      by_cases hnil : (file.drop (offset + done)).take (nextCount (size - done) answers).1 = []
      · have hend := piece_nil hl hd hnil
        rw [pread_loop_end file hl h hd rfl hnil, hbuf, List.take_of_length_le hend, List.take_of_length_le (by omega)]
      · have hlen := List.length_pos_iff.2 hnil
        have hsub := (List.length_take_le (nextCount (size - done) answers).1 (file.drop (offset + done))).trans hcount
        rw [pread_loop_advance file hl h hd rfl hnil ha]
        refine ih (size - (done + _)) ?_ _ rfl (hl.next _) (by omega) ?_
        · omega
        · rw [hbuf, ← List.drop_drop, take_append_piece, List.take_take, Nat.min_self]
    · rw [pread_loop, dif_neg hd, hbuf, show done = size by omega]

/-- Behind a whole first block, the second as far as its count goes. -/
theorem pread_second_block (file : Bytes) {align : Nat} (ha : 1 < align) (offset : Nat) {answers : List Pread}
    (hl : ErrorFree answers) {buf : Bytes} (hbuf : buf.take align = (file.drop offset).take align)
    (h : 1 < align → align ∣ align) :
    pread_loop file align (align * 2) offset buf align h answers =
      (some ((file.drop offset).take (align + min ((file.drop offset).length - align) (nextCount align answers).1)),
        (nextCount align answers).2) := by
  have hd : align < align * 2 := by omega
  have hwhole : align * 2 - align = align := by omega
  have hpiece := take_append_piece (file.drop offset) align (nextCount align answers).1
  rw [List.drop_drop] at hpiece
  have hdata : (file.drop (offset + align)).take (nextCount (align * 2 - align) answers).1 =
      (file.drop (offset + align)).take (nextCount align answers).1 := by rw [hwhole]
  have hlen : ((file.drop (offset + align)).take (nextCount align answers).1).length =
      min ((file.drop offset).length - align) (nextCount align answers).1 := by
    rw [List.length_take, List.length_drop, List.length_drop, Nat.min_comm, Nat.sub_sub]
  have hle := nextCount_le align answers
  generalize (file.drop (offset + align)).take (nextCount align answers).1 = data at hpiece hdata hlen
  rw [← hlen]
  by_cases hnil : data = []
  · rw [pread_loop_end file hl h hd hdata hnil, hbuf, hnil, hwhole]
    rfl
  by_cases hlt : data.length < align
  · have hstall : align + data.length - (align + data.length) % align = align := by
      rw [Nat.add_mod_left, Nat.mod_eq_of_lt hlt, Nat.add_sub_cancel]
    rw [pread_loop_stall file hl h hd hdata hnil ha hstall, hbuf, hpiece, hwhole]
  · have hfull : align + data.length = align * 2 := by omega
    have hdone : align + data.length - (align + data.length) % align = align * 2 := by
      rw [hfull, Nat.mul_mod_right, Nat.sub_zero]
    rw [pread_loop_resume file hl h hd hdata hnil ha (fun _ => Nat.dvd_mul_right align 2) hdone (by omega), pread_loop,
      dif_neg (Nat.lt_irrefl _), hbuf, hpiece, hfull, List.take_take, Nat.min_self, hwhole]

/-- A directio read delivers `blockRead` bytes. -/
theorem static_pread_block (file : Bytes) {align : Nat} (ha : 1 < align) (offset : Nat) {answers : List Pread}
    (hl : ErrorFree answers) :
    static_pread file align (align * 2) offset answers =
      (some ((file.drop offset).take (blockRead (file.drop offset).length align answers)),
        blockRest (file.drop offset).length align answers) := by
  have hc := nextCount_le (align * 2) answers
  have hd : 0 < align * 2 := by omega
  unfold static_pread
  generalize hfirst : min (file.drop offset).length (nextCount (align * 2) answers).1 = first
  have hblock : blockRead (file.drop offset).length align answers = if first < align ∨ first = align * 2 then first
      else align + min ((file.drop offset).length - align) (nextCount align (nextCount (align * 2) answers).2).1 := by
    rw [blockRead, hfirst]
  have hrest : blockRest (file.drop offset).length align answers =
      if first < align ∨ first = align * 2 then (nextCount (align * 2) answers).2
      else (nextCount align (nextCount (align * 2) answers).2).2 := by
    rw [blockRest, hfirst]
  have hdata : (file.drop (offset + 0)).take (nextCount (align * 2 - 0) answers).1 = (file.drop offset).take first := by
    rw [← hfirst, Nat.min_comm, ← List.take_eq_take_min]
    rfl
  have hlen : ((file.drop offset).take first).length = first := by rw [List.length_take]; omega
  by_cases hnil : (file.drop offset).take first = []
  · have h0 : first = 0 := by rw [← hlen, hnil]; rfl
    rw [pread_loop_end file hl _ hd hdata hnil, hblock, hrest, if_pos (.inl (by omega)), if_pos (.inl (by omega)), h0]
    rfl
  by_cases hlt : first < align
  · have hstall : 0 + ((file.drop offset).take first).length - (0 + ((file.drop offset).take first).length) % align = 0 := by
      rw [hlen, Nat.zero_add, Nat.mod_eq_of_lt hlt, Nat.sub_self]
    rw [pread_loop_stall file hl _ hd hdata hnil ha hstall, hblock, hrest, if_pos (.inl hlt), if_pos (.inl hlt)]
    rfl
  by_cases hfull : first = align * 2
  · rw [pread_loop_resume file hl _ hd hdata hnil ha (fun _ => Nat.dvd_mul_right align 2)
      (by rw [hlen, hfull, Nat.zero_add, Nat.mul_mod_right, Nat.sub_zero]) (by omega), pread_loop,
      dif_neg (Nat.lt_irrefl _), hblock, hrest, if_pos (.inr hfull), if_pos (.inr hfull)]
    simp [hfull, List.take_take]
  · have hmod : first % align = first - align := by
      rw [Nat.mod_eq_sub_mod (by omega), Nat.mod_eq_of_lt (by omega)]
    rw [pread_loop_resume file hl _ hd hdata hnil ha (fun _ => Nat.dvd_refl align)
      (by rw [hlen, Nat.zero_add, hmod]; omega) (by omega), hblock, hrest, if_neg (by omega), if_neg (by omega)]
    refine pread_second_block file ha offset (hl.next _) ?_ _
    rw [List.take_nil, List.nil_append, List.take_take, Nat.min_eq_left (by omega)]

/-! ## The walk -/

/-- What the probe is given: the size and the bytes of the file, and the location's
`directio_alignment` where it was opened for directio. -/
structure OpenFile where
  size : Nat
  content : Bytes
  directio : Option Nat

/-- `NGX_HTTP_ZSTD_STATIC_DIO_PROBE`. -/
def dio_probe : Nat := 4096

/-- `NGX_HTTP_ZSTD_STATIC_DIO_PROBE_MAX`. -/
def dio_probe_max : Nat := 64 * 1024

/-- `NGX_HTTP_ZSTD_STATIC_MAX_SKIP_FRAMES`. -/
def max_skip_frames : Nat := 4

/-- The clamped alignment, 0 for buffered reads. -/
def probe_align (f : OpenFile) : Nat :=
  match f.directio with
  | none => 0
  | some directio_alignment =>
    let align := if directio_alignment > dio_probe then directio_alignment else dio_probe
    if align > dio_probe_max then dio_probe_max else align

/-- The bytes asked for: two blocks, or the 58 of `hdrbuf`. -/
def probe_want (f : OpenFile) : Nat := if f.directio.isSome then probe_align f * 2 else 58

/-- The distance from the read offset to `pos`. -/
def probe_frame_off (f : OpenFile) (pos : Nat) : Nat := if f.directio.isSome then pos % probe_align f else 0

/-- The answer of `ngx_http_zstd_static_probe_file`, with what it leaves in
`malformed`; `error` is `NGX_HTTP_INTERNAL_SERVER_ERROR`. -/
inductive Probed where
  | ok
  | declined (malformed : Bool)
  | error
  | fault
deriving DecidableEq

/-- The answers of `ngx_http_zstd_static_probe_verdict`. -/
inductive Verdict where
  | ok
  | declined
  | again (pos : Nat)

/-- `ngx_http_zstd_static_probe_verdict` on the bytes available at `pos`. -/
def probe_verdict (frame : Bytes) (file_size pos : Nat) : Option Verdict := do
  match ← probe_frame frame with
  | .not_zstd => return .declined
  | .truncated => return .declined
  | .window_big _ => return .declined
  | .reserved => return .declined
  | .skip skip =>
    if pos > file_size ∨ file_size - pos < 8 then return .declined
    else if skip > file_size - pos - 8 then return .declined
    else return .again (pos + 8 + skip)
  | .ok => return .ok

/-- The loop variables. `block` is `have_base` and the bytes of the last read. -/
structure ProbeState where
  frames : Nat
  pos : Nat
  block : Option (Nat × Bytes)
  answers : List Pread

/-- `need`. -/
def probe_need (f : OpenFile) (pos : Nat) : Nat := min 18 (max 4 (f.size - pos))

/-- The retained block, when the next header is in it, with the offset it starts at. -/
def probe_retained (f : OpenFile) (s : ProbeState) : Option (Nat × Bytes) :=
  match s.block with
  | none => none
  | some (have_base, hdr) => (probe_reuse s.pos have_base hdr.length (probe_need f s.pos)).map fun off => (off, hdr)

/-- The bytes this pass looks at, from the block or from a new read; `none` for a
read error. `keep` is on in the code; without it every pass reads again. -/
def probe_read (f : OpenFile) (keep : Bool) (s : ProbeState) : Option Bytes × ProbeState :=
  match if keep then probe_retained f s else none with
  | some (frame_off, hdr) => (some (hdr.drop frame_off), s)
  | none =>
    let frame_off := probe_frame_off f s.pos
    let base := s.pos - frame_off
    match static_pread f.content (probe_align f) (probe_want f) base s.answers with
    | (none, answers) => (none, { s with answers })
    | (some hdr, answers) =>
      (some (hdr.drop frame_off), { s with block := if hdr.length > 0 then some (base, hdr) else s.block, answers })

/-- One pass of the loop. -/
def probe_step (f : OpenFile) (keep : Bool) (s : ProbeState) : Probed ⊕ ProbeState :=
  match probe_read f keep s with
  | (none, _) => .inl (.declined false)
  | (some frame, s) =>
    if frame.length < 4 then .inl (.declined true)
    else
      match probe_verdict frame f.size s.pos with
      | none => .inl .fault
      | some .declined => .inl (.declined true)
      | some .ok => .inl .ok
      | some (.again pos) =>
        if s.frames ≥ max_skip_frames then .inl (.declined true)
        else .inr { s with frames := s.frames + 1, pos }

theorem probe_read_frames {f : OpenFile} {keep : Bool} {s s' : ProbeState} {b : Option Bytes}
    (h : probe_read f keep s = (b, s')) : s'.frames = s.frames ∧ s'.pos = s.pos := by
  unfold probe_read at h
  split at h
  · cases h; exact ⟨rfl, rfl⟩
  · simp only at h
    split at h <;> cases h <;> exact ⟨rfl, rfl⟩

theorem probe_step_frames {f : OpenFile} {keep : Bool} {s s' : ProbeState} (h : probe_step f keep s = .inr s') :
    s.frames < max_skip_frames ∧ s'.frames = s.frames + 1 := by
  unfold probe_step at h
  split at h
  · cases h
  · next frame s1 hread =>
    obtain ⟨hf, -⟩ := probe_read_frames hread
    split at h
    · cases h
    split at h
    · cases h
    · cases h
    · cases h
    · split at h
      · cases h
      · next hlt =>
        cases h
        exact ⟨by omega, by simp [hf]⟩

/-- The loop. -/
def probe_run (f : OpenFile) (keep : Bool) (s : ProbeState) : Probed :=
  match _h : probe_step f keep s with
  | .inl r => r
  | .inr s' => probe_run f keep s'
termination_by max_skip_frames - s.frames
decreasing_by
  have := probe_step_frames _h
  omega

def probe_start (answers : List Pread) : ProbeState := ⟨0, 0, none, answers⟩

/-- `ngx_http_zstd_static_probe_file` for the request `r`, with what it leaves of the
kept buffer. `answer` is the allocator's, `answers` are those of `pread(2)`. -/
def probe_file (zsmcf : DioScratch) (r : Nat) (f : OpenFile) (keep : Bool) (answer : BufPool → Option Nat)
    (answers : List Pread) : Probed × DioScratch :=
  if f.size < 4 then (.declined true, zsmcf)
  else if f.directio.isSome then
    match dio_buf zsmcf r (probe_want f) (probe_align f) answer with
    | (none, zsmcf, _) => (.error, zsmcf)
    | (some hdr, zsmcf, _) =>
      let scratch := some hdr == zsmcf.dio_scratch
      (probe_run f keep (probe_start answers), if scratch then dio_buf_release zsmcf else zsmcf)
  else (probe_run f keep (probe_start answers), zsmcf)

/-- The probe has memory to read into: its own, or under directio a buffer. -/
def Granted (zsmcf : DioScratch) (r : Nat) (f : OpenFile) (answer : BufPool → Option Nat) : Prop :=
  f.directio.isSome → (dio_buf zsmcf r (probe_want f) (probe_align f) answer).1.isSome

instance grantedDecidable (zsmcf : DioScratch) (r : Nat) (f : OpenFile) (answer : BufPool → Option Nat) :
    Decidable (Granted zsmcf r f answer) := inferInstanceAs (Decidable (_ → _))

theorem granted_buffered {zsmcf : DioScratch} {r : Nat} {f : OpenFile} {answer : BufPool → Option Nat}
    (h : f.directio = none) : Granted zsmcf r f answer := by
  intro hdio
  rw [h] at hdio
  cases hdio

/-- With its memory, the probe is the loop. -/
theorem probe_file_granted {zsmcf : DioScratch} {r : Nat} {f : OpenFile} {answer : BufPool → Option Nat}
    (h : Granted zsmcf r f answer) (h4 : 4 ≤ f.size) (keep : Bool) (answers : List Pread) :
    (probe_file zsmcf r f keep answer answers).1 = probe_run f keep (probe_start answers) := by
  rw [probe_file, if_neg (Nat.not_lt.2 h4)]
  split
  · next hdio =>
    obtain ⟨hdr, hbuf⟩ := Option.isSome_iff_exists.1 (h hdio)
    split
    · next hnone =>
      rw [hnone] at hbuf
      cases hbuf
    · rfl
  · rfl

/-- Without it, the request fails. -/
theorem probe_file_refused {zsmcf : DioScratch} {r : Nat} {f : OpenFile} {answer : BufPool → Option Nat}
    (h : ¬Granted zsmcf r f answer) (h4 : 4 ≤ f.size) (keep : Bool) (answers : List Pread) :
    (probe_file zsmcf r f keep answer answers).1 = .error := by
  obtain ⟨hdio, hbuf⟩ := Classical.not_imp.1 h
  rw [probe_file, if_neg (Nat.not_lt.2 h4), if_pos hdio]
  split
  · rfl
  · next hsome =>
    rw [hsome] at hbuf
    exact absurd rfl hbuf

/-- A file too short for a magic number is malformed before any buffer is asked for. -/
theorem probe_file_short {f : OpenFile} (h4 : f.size < 4) (zsmcf : DioScratch) (r : Nat) (keep : Bool)
    (answer : BufPool → Option Nat) (answers : List Pread) :
    probe_file zsmcf r f keep answer answers = (.declined true, zsmcf) := if_pos h4

/-! ## The plain walk -/

/-- At most `left` skippable frames from `pos` on, each wholly inside the file, and a
regular frame behind them. -/
inductive Accepts (file : Bytes) : Nat → Nat → Prop where
  | regular {left pos : Nat} : Regular (file.drop pos) → Accepts file left pos
  | skip {left pos size : Nat} : Skippable (file.drop pos) size → pos + 8 + size ≤ file.length →
      Accepts file left (pos + 8 + size) → Accepts file (left + 1) pos

/-- Behind a skippable frame the walk goes on, or it has run out of frames or of
file. -/
theorem accepts_skippable {file : Bytes} {left pos size : Nat} (hsk : Skippable (file.drop pos) size) :
    Accepts file left pos ↔
      ∃ left', left = left' + 1 ∧ pos + 8 + size ≤ file.length ∧ Accepts file left' (pos + 8 + size) := by
  constructor
  · intro h
    cases h with
    | regular hreg => exact absurd hsk (hreg.not_skippable size)
    | @skip left' _ size' hsk' hfit ha =>
      obtain rfl : size' = size := hsk'.2.2.2.trans hsk.2.2.2.symm
      exact ⟨left', rfl, hfit, ha⟩
  · rintro ⟨left', rfl, hfit, ha⟩
    exact .skip hsk hfit ha

/-- A frame that is neither regular nor skippable inside the file ends the walk. -/
theorem not_accepts {file : Bytes} {left pos : Nat} (hreg : ¬Regular (file.drop pos))
    (hsk : ∀ size, Skippable (file.drop pos) size → file.length < pos + 8 + size) : ¬Accepts file left pos := by
  intro h
  cases h with
  | regular hr => exact hreg hr
  | skip hsk' hfit _ => exact Nat.not_le_of_lt (hsk _ hsk') hfit

/-! ## The walk looks at the file's own bytes -/

/-- What holds at every pass: no read error is to come, the walk stands inside the
file, and the block it kept is the file's, read at or before where it stands. -/
structure ProbeInv (f : OpenFile) (s : ProbeState) : Prop where
  answers : ErrorFree s.answers
  inside : s.pos ≤ f.size
  block : ∀ base hdr, s.block = some (base, hdr) → base ≤ s.pos ∧ ∃ n, hdr = (f.content.drop base).take n

/-- The bytes a new read at `base` delivers. -/
def probeBytes (f : OpenFile) (base : Nat) (answers : List Pread) : Nat :=
  if f.directio.isSome then blockRead (f.content.drop base).length (probe_align f) answers else 58

/-- This pass reads anew and is left with fewer bytes of the frame than decide its
header, although the file goes on. -/
def Starved (f : OpenFile) (keep : Bool) (s : ProbeState) : Prop :=
  (if keep then probe_retained f s else none) = none ∧
    probeBytes f (s.pos - probe_frame_off f s.pos) s.answers - probe_frame_off f s.pos <
      min (headerBytes (f.content.drop s.pos)) (f.content.drop s.pos).length

theorem probe_align_pos {f : OpenFile} (h : f.directio.isSome = true) : dio_probe ≤ probe_align f := by
  obtain ⟨a, ha⟩ := Option.isSome_iff_exists.1 h
  simp only [probe_align, ha]
  generalize hal : (if a > dio_probe then a else dio_probe) = align
  have : dio_probe ≤ align := by
    rw [← hal]
    split <;> omega
  split
  · decide
  · exact this

theorem probe_frame_off_le (f : OpenFile) (pos : Nat) : probe_frame_off f pos ≤ pos := by
  unfold probe_frame_off
  split
  · exact Nat.mod_le pos _
  · exact Nat.zero_le pos

/-- A new read, under any schedule without a hard error. -/
theorem probe_pread (f : OpenFile) (base : Nat) {answers : List Pread} (hl : ErrorFree answers) :
    ∃ rest, static_pread f.content (probe_align f) (probe_want f) base answers =
      (some ((f.content.drop base).take (probeBytes f base answers)), rest) ∧ ErrorFree rest := by
  have hrest := pread_loop_rest f.content (probe_align f) (probe_want f) base [] 0 (fun _ => Nat.dvd_zero _) answers
  have hread : (static_pread f.content (probe_align f) (probe_want f) base answers).1 =
      some ((f.content.drop base).take (probeBytes f base answers)) := by
    unfold probe_want probeBytes
    by_cases hdio : f.directio.isSome = true
    · have := probe_align_pos hdio
      rw [if_pos hdio, if_pos hdio]
      exact congrArg Prod.fst (static_pread_block f.content (by unfold dio_probe at this; omega) base hl)
    · have halign : probe_align f = 0 := by
        rw [probe_align, Option.not_isSome_iff_eq_none.1 hdio]
      rw [if_neg hdio, if_neg hdio]
      exact pread_loop_buffered f.content (by omega) 58 base _ _ rfl hl (Nat.zero_le _) rfl
  exact ⟨_, Prod.ext hread rfl, fun a ha => hl a (hrest.subset ha)⟩

/-- A block is kept for a pass that finds all it needs in it. -/
theorem probe_retained_some {f : OpenFile} {s : ProbeState} {off : Nat} {hdr : Bytes}
    (h : probe_retained f s = some (off, hdr)) :
    ∃ base, s.block = some (base, hdr) ∧ off = s.pos - base ∧ probe_need f s.pos ≤ hdr.length - off := by
  unfold probe_retained at h
  split at h
  · cases h
  · next base hdr' hb =>
    obtain ⟨off', hreuse, he⟩ := Option.map_eq_some_iff.1 h
    cases he
    unfold probe_reuse at hreuse
    split at hreuse
    · cases hreuse
    simp only at hreuse
    split at hreuse
    · cases hreuse
    · cases hreuse
      exact ⟨base, hb, rfl, by omega⟩

/-- From the block or from a new read, the pass looks at the file from `pos` on, and
at all the header there needs unless the read starved it. -/
theorem probe_read_spec {f : OpenFile} (hsize : f.size = f.content.length) (keep : Bool) {s : ProbeState}
    (hs : ProbeInv f s) :
    ∃ m s', probe_read f keep s = (some ((f.content.drop s.pos).take m), s') ∧ ProbeInv f s' ∧
      (Starved f keep s ↔ m < min (headerBytes (f.content.drop s.pos)) (f.content.drop s.pos).length) := by
  have hdroplen : (f.content.drop s.pos).length = f.size - s.pos := by rw [List.length_drop, hsize]
  unfold probe_read Starved
  cases hret : if keep then probe_retained f s else none with
  | some r =>
    obtain ⟨off, hdr⟩ := r
    have hretained : probe_retained f s = some (off, hdr) := by
      split at hret
      · exact hret
      · cases hret
    obtain ⟨base, hblock, hoff, hneed⟩ := probe_retained_some hretained
    obtain ⟨hbase, n, hn⟩ := hs.block base hdr hblock
    have hlen : hdr.length ≤ n := by rw [hn, List.length_take]; omega
    refine ⟨n - off, s, ?_, hs, ?_⟩
    · show (some (hdr.drop off), s) = _
      rw [hn, List.drop_take, List.drop_drop, hoff, Nat.add_sub_cancel' hbase]
    · -- `need` covers the longest header
      have h17 := headerBytes_le (f.content.drop s.pos)
      unfold probe_need at hneed
      simp only [reduceCtorEq, false_and, false_iff]
      omega
  | none =>
    have hle := probe_frame_off_le f s.pos
    obtain ⟨rest, hread, hrest⟩ := probe_pread f (s.pos - probe_frame_off f s.pos) hs.answers
    generalize probeBytes f (s.pos - probe_frame_off f s.pos) s.answers = got at hread ⊢
    have hframe : ((f.content.drop (s.pos - probe_frame_off f s.pos)).take got).drop (probe_frame_off f s.pos) =
        (f.content.drop s.pos).take (got - probe_frame_off f s.pos) := by
      rw [List.drop_take, List.drop_drop, Nat.sub_add_cancel hle]
    simp only [hread, hframe]
    refine ⟨_, _, rfl, ⟨hrest, hs.inside, fun base hdr hb => ?_⟩, ?_⟩
    · simp only at hb
      split at hb
      · cases hb
        exact ⟨Nat.sub_le _ _, _, rfl⟩
      · exact hs.block base hdr hb
    · simp only [true_and]

/-- What a pass with enough bytes does, by what stands in the file at `pos`. -/
theorem probe_step_cases {f : OpenFile} (hsize : f.size = f.content.length) (keep : Bool) {s : ProbeState}
    (hs : ProbeInv f s) (hfed : ¬Starved f keep s) :
    (Regular (f.content.drop s.pos) ∧ probe_step f keep s = .inl .ok) ∨
    (∃ size, Skippable (f.content.drop s.pos) size ∧ s.pos + 8 + size ≤ f.content.length ∧
      (s.frames ≥ max_skip_frames ∧ probe_step f keep s = .inl (.declined true) ∨
        s.frames < max_skip_frames ∧ ∃ s', probe_step f keep s = .inr s' ∧ s'.frames = s.frames + 1 ∧
          s'.pos = s.pos + 8 + size ∧ ProbeInv f s')) ∨
    (¬Regular (f.content.drop s.pos) ∧
      (∀ size, Skippable (f.content.drop s.pos) size → f.content.length < s.pos + 8 + size) ∧
      probe_step f keep s = .inl (.declined true)) := by
  obtain ⟨m, s1, hread, hs1, hstarved⟩ := probe_read_spec hsize keep hs
  have hm := Nat.le_of_not_lt (mt hstarved.2 hfed)
  obtain ⟨hframes, hpos⟩ := probe_read_frames hread
  have hlen : (f.content.drop s.pos).length = f.content.length - s.pos := List.length_drop
  have hin := hs.inside
  unfold probe_step
  rw [hread]
  simp only [List.length_take]
  by_cases h4 : min m (f.content.drop s.pos).length < 4
  · -- the file ends before a magic number could
    have hhb := headerBytes_ge (f.content.drop s.pos)
    refine .inr (.inr ⟨fun hr => ?_, fun size hsk => ?_, if_pos h4⟩)
    · have := hr.1
      omega
    · have := hsk.1
      omega
  · rw [if_neg h4]
    unfold probe_verdict
    rw [probe_frame_take (by rw [List.length_take]; omega) hm, hframes, hpos]
    -- enough bytes are there, so the verdict is the one on the whole file from `pos` on
    rcases probe_frame_cases (f := f.content.drop s.pos) (by omega) with
      ⟨size, hp, hsk⟩ | ⟨hp, hreg⟩ | ⟨v, hp, hok, hskip, hun⟩
    · rw [hp]
      have h8 := hsk.1
      simp only [Option.bind_eq_bind, Option.bind_some]
      rw [if_neg (by omega)]
      by_cases hfit : size > f.size - s.pos - 8
      · rw [if_pos hfit]
        refine .inr (.inr ⟨fun hr => hr.not_skippable size hsk, fun size' hsk' => ?_, rfl⟩)
        have : size' = size := hsk'.2.2.2.trans hsk.2.2.2.symm
        omega
      · rw [if_neg hfit]
        refine .inr (.inl ⟨size, hsk, by omega, ?_⟩)
        by_cases hmax : s.frames ≥ max_skip_frames
        · exact .inl ⟨hmax, if_pos hmax⟩
        · refine .inr ⟨by omega, _, if_neg hmax, rfl, rfl, hs1.answers, by simp only; omega, fun base hdr hb => ?_⟩
          obtain ⟨hbase, hn⟩ := hs1.block base hdr hb
          exact ⟨by simp only; omega, hn⟩
    · exact .inl ⟨hreg, by rw [hp]; rfl⟩
    · refine .inr (.inr ⟨hun.1, fun size hsk => absurd hsk (hun.2 size), ?_⟩)
      rw [hp]
      cases v with
      | ok => exact absurd rfl hok
      | skip size => exact absurd rfl (hskip size)
      | not_zstd => rfl
      | truncated => rfl
      | window_big w => rfl
      | reserved => rfl

/-- A starved pass ends the walk with `malformed` set. -/
theorem probe_step_starved {f : OpenFile} (hsize : f.size = f.content.length) {keep : Bool} {s : ProbeState}
    (hs : ProbeInv f s) (h : Starved f keep s) : probe_step f keep s = .inl (.declined true) := by
  obtain ⟨m, s1, hread, -, hstarved⟩ := probe_read_spec hsize keep hs
  have hm := hstarved.1 h
  unfold probe_step
  rw [hread]
  simp only [List.length_take]
  by_cases h4 : min m (f.content.drop s.pos).length < 4
  · exact if_pos h4
  · rw [if_neg h4, probe_verdict, probe_frame_starved (by omega) (by omega) (by omega)]
    rfl

/-- No pass from this one on is starved. -/
def Fed (f : OpenFile) (keep : Bool) (s : ProbeState) : Prop :=
  ∀ s', Relation.ReflTransGen (fun a b => probe_step f keep a = .inr b) s s' → ¬Starved f keep s'

/-- The walk from any pass on is the plain walk from there. -/
theorem probe_run_eq {f : OpenFile} (hsize : f.size = f.content.length) (keep : Bool) (s : ProbeState)
    (hs : ProbeInv f s) (hfed : Fed f keep s) (hframes : s.frames ≤ max_skip_frames) :
    (Accepts f.content (max_skip_frames - s.frames) s.pos ∧ probe_run f keep s = .ok) ∨
      (¬Accepts f.content (max_skip_frames - s.frames) s.pos ∧ probe_run f keep s = .declined true) := by
  fun_induction probe_run f keep s with
  | case1 s r h =>
    rcases probe_step_cases hsize keep hs (hfed s .refl) with ⟨hreg, hstep⟩ |
      ⟨size, hsk, hfit, ⟨hmax, hstep⟩ | ⟨-, s', hstep, -⟩⟩ |
      ⟨hreg, hsk, hstep⟩
    · rw [hstep] at h
      cases h
      exact .inl ⟨.regular hreg, rfl⟩
    · rw [hstep] at h
      cases h
      refine .inr ⟨fun ha => ?_, rfl⟩
      obtain ⟨left', hleft, -⟩ := (accepts_skippable hsk).1 ha
      omega
    · rw [hstep] at h
      cases h
    · rw [hstep] at h
      cases h
      exact .inr ⟨not_accepts hreg hsk, rfl⟩
  | case2 s s' h ih =>
    rcases probe_step_cases hsize keep hs (hfed s .refl) with ⟨-, hstep⟩ |
      ⟨size, hsk, hfit, ⟨-, hstep⟩ | ⟨hlt, s1, hstep, hf1, hp1, hs1⟩⟩ |
      ⟨-, -, hstep⟩
    · rw [hstep] at h
      cases h
    · rw [hstep] at h
      cases h
    · rw [hstep] at h
      cases h
      have hleft : max_skip_frames - s.frames = max_skip_frames - s'.frames + 1 := by omega
      have hfed' : Fed f keep s' := fun t ht => hfed t (.head hstep ht)
      have hwalk := ih hs1 hfed' (by omega)
      rw [hp1] at hwalk
      rw [hleft]
      rcases hwalk with ⟨ha, hr⟩ | ⟨ha, hr⟩
      · exact .inl ⟨.skip hsk hfit ha, hr⟩
      · refine .inr ⟨fun ha' => ha ?_, hr⟩
        obtain ⟨left', hl, -, ha'⟩ := (accepts_skippable hsk).1 ha'
        rwa [Nat.succ.inj hl]
    · rw [hstep] at h
      cases h

/-- The states the loop passes through. -/
inductive ProbeReached (f : OpenFile) (keep : Bool) (answers : List Pread) : ProbeState → Prop where
  | start : ProbeReached f keep answers (probe_start answers)
  | step {s s' : ProbeState} : ProbeReached f keep answers s → probe_step f keep s = .inr s' →
      ProbeReached f keep answers s'

theorem probe_start_inv (f : OpenFile) {answers : List Pread} (hl : ErrorFree answers) : ProbeInv f (probe_start answers) :=
  ⟨hl, Nat.zero_le _, nofun⟩

/-- Without a read error, the walk never leaves the file. -/
theorem ProbeReached.inv {f : OpenFile} (hsize : f.size = f.content.length) {keep : Bool} {answers : List Pread}
    (hl : ErrorFree answers) {s : ProbeState} (h : ProbeReached f keep answers s) : ProbeInv f s := by
  induction h with
  | start => exact probe_start_inv f hl
  | @step s s' _ hstep ih =>
    have hfed : ¬Starved f keep s := by
      intro hst
      rw [probe_step_starved hsize ih hst] at hstep
      cases hstep
    rcases probe_step_cases hsize keep ih hfed with ⟨-, h⟩ | ⟨size, -, -, ⟨-, h⟩ | ⟨-, s1, h, -, -, hs1⟩⟩ | ⟨-, -, h⟩
    · rw [hstep] at h
      cases h
    · rw [hstep] at h
      cases h
    · rw [hstep] at h
      cases h
      exact hs1
    · rw [hstep] at h
      cases h

theorem ProbeReached.trans {f : OpenFile} {keep : Bool} {answers : List Pread} {s s' : ProbeState}
    (h : ProbeReached f keep answers s) (hr : Relation.ReflTransGen (fun a b => probe_step f keep a = .inr b) s s') :
    ProbeReached f keep answers s' := by
  induction hr with
  | refl => exact h
  | tail _ hstep ih => exact ih.step hstep

/-- Where the loop ends is where it ends from any state on its way. -/
theorem ProbeReached.run {f : OpenFile} {keep : Bool} {answers : List Pread} {s : ProbeState}
    (h : ProbeReached f keep answers s) : probe_run f keep (probe_start answers) = probe_run f keep s := by
  induction h with
  | start => rfl
  | @step s s' _ hstep ih =>
    rw [ih, probe_run]
    split
    · next h => rw [hstep] at h; cases h
    · next h => rw [hstep] at h; cases h; rfl

theorem blockRead_nil (avail align : Nat) : blockRead avail align [] = min avail (align * 2) := by
  simp only [blockRead, nextCount]
  split <;> omega

/-- Reads that deliver what they are asked for leave no pass without its header. -/
theorem not_starved_nil (f : OpenFile) (keep : Bool) {s : ProbeState} (h : s.answers = []) : ¬Starved f keep s := by
  rintro ⟨-, hlt⟩
  have hle := probe_frame_off_le f s.pos
  have h17 := headerBytes_le (f.content.drop s.pos)
  have hlen : (f.content.drop s.pos).length = f.content.length - s.pos := List.length_drop
  rw [h, probeBytes] at hlt
  by_cases hdio : f.directio.isSome = true
  · have halign := probe_align_pos hdio
    unfold dio_probe at halign
    have hoff : probe_frame_off f s.pos < probe_align f := by
      rw [probe_frame_off, if_pos hdio]
      exact Nat.mod_lt _ (by omega)
    rw [if_pos hdio, blockRead_nil, List.length_drop] at hlt
    omega
  · have hoff : probe_frame_off f s.pos = 0 := by rw [probe_frame_off, if_neg hdio]
    rw [if_neg hdio] at hlt
    omega

/-- The answers are used up from the front. -/
theorem probe_step_answers {f : OpenFile} {keep : Bool} {s s' : ProbeState} (h : probe_step f keep s = .inr s') :
    s'.answers <:+ s.answers := by
  have hread : (probe_read f keep s).2.answers <:+ s.answers := by
    unfold probe_read
    split
    · exact List.suffix_refl _
    · simp only
      split
      · next hr =>
        have := pread_loop_rest f.content (probe_align f) (probe_want f) (s.pos - probe_frame_off f s.pos) [] 0
          (fun _ => Nat.dvd_zero _) s.answers
        rw [← static_pread, hr] at this
        exact this
      · next hr =>
        have := pread_loop_rest f.content (probe_align f) (probe_want f) (s.pos - probe_frame_off f s.pos) [] 0
          (fun _ => Nat.dvd_zero _) s.answers
        rw [← static_pread, hr] at this
        exact this
  unfold probe_step at h
  split at h
  · cases h
  · next frame s1 heq =>
    rw [heq] at hread
    split at h
    · cases h
    split at h
    · cases h
    · cases h
    · cases h
    · split at h
      · cases h
      · cases h
        exact hread

theorem ProbeReached.answers_nil {f : OpenFile} {keep : Bool} {s : ProbeState} (h : ProbeReached f keep [] s) :
    s.answers = [] := by
  induction h with
  | start => rfl
  | step _ hstep ih =>
    have := probe_step_answers hstep
    rw [ih] at this
    exact List.suffix_nil.1 this

/-- With its memory, and whether it reads in blocks of any alignment or not, and keeps
its last block or not, the probe accepts what the plain walk accepts and calls
everything else malformed; without it the request fails, and nothing is called
malformed. Every offset on the way is inside the file. -/
theorem probe_file_plain_walk (size : Nat) (content : Bytes) (hsize : size = content.length) (h4 : 4 ≤ size) :
    (∀ zsmcf r directio keep answer,
      (Granted zsmcf r ⟨size, content, directio⟩ answer →
        (Accepts content 4 0 → (probe_file zsmcf r ⟨size, content, directio⟩ keep answer []).1 = .ok) ∧
        (¬Accepts content 4 0 → (probe_file zsmcf r ⟨size, content, directio⟩ keep answer []).1 = .declined true)) ∧
      (¬Granted zsmcf r ⟨size, content, directio⟩ answer →
        (probe_file zsmcf r ⟨size, content, directio⟩ keep answer []).1 = .error)) ∧
    ∀ directio keep s, ProbeReached ⟨size, content, directio⟩ keep [] s →
      s.pos ≤ size ∧ s.pos - probe_frame_off ⟨size, content, directio⟩ s.pos ≤ size ∧
        ∀ base hdr, s.block = some (base, hdr) → base ≤ s.pos := by
  constructor
  · intro zsmcf r directio keep answer
    refine ⟨fun hgranted => ?_, fun hrefused => probe_file_refused hrefused h4 keep []⟩
    rw [probe_file_granted hgranted h4 keep []]
    have hfed : Fed ⟨size, content, directio⟩ keep (probe_start []) := fun s hs =>
      not_starved_nil _ keep (ProbeReached.start.trans hs).answers_nil
    have hrun := probe_run_eq (f := ⟨size, content, directio⟩) hsize keep (probe_start [])
      (probe_start_inv _ errorFree_nil) hfed (Nat.zero_le _)
    rcases hrun with ⟨ha, hr⟩ | ⟨ha, hr⟩
    · exact ⟨fun _ => hr, fun hn => absurd ha hn⟩
    · exact ⟨fun hy => absurd hy ha, fun _ => hr⟩
  · intro directio keep s hs
    have hinv := hs.inv hsize errorFree_nil
    have hin : s.pos ≤ size := hinv.inside
    exact ⟨hin, by omega, fun base hdr hb => (hinv.block base hdr hb).1⟩

/-- A one-byte marker frame in front of a frame with a 2 MB window. -/
def markedFile : Bytes := [0x50, 0x2a, 0x4d, 0x18, 1, 0, 0, 0, 0xff, 0x28, 0xb5, 0x2f, 0xfd, 0x00, 0x58]

theorem markedFile_accepted : Accepts markedFile 4 0 := by
  have hregular : Regular (markedFile.drop 9) :=
    ⟨by decide, by decide, ⟨0x00, by decide, by decide⟩, 2097152, by decide, by decide⟩
  have hskip : Skippable (markedFile.drop 0) 1 := ⟨by decide, by decide, by decide, by decide⟩
  exact .skip hskip (by decide) (.regular hregular)

theorem probe_file_plain_walk_marker :
    (probe_file fresh_scratch 0 ⟨15, markedFile, some 512⟩ true (posix_memalign 4096 0x10000) []).1 = .ok := by
  have hwalk := (probe_file_plain_walk 15 markedFile rfl (by decide)).1 fresh_scratch 0 (some 512) true
    (posix_memalign 4096 0x10000)
  exact (hwalk.1 (by decide)).1 markedFile_accepted

/-- With an alignment that is no power of two the same file is not judged at all,
though the buffered probe accepts it. -/
theorem probe_file_alignment_refused :
    let f : OpenFile := ⟨15, markedFile, some 5000⟩
    Accepts markedFile 4 0 ∧
      (probe_file fresh_scratch 0 ⟨15, markedFile, none⟩ true (posix_memalign (probe_align f) 0x10000) []).1 = .ok ∧
      (probe_file fresh_scratch 0 f true (posix_memalign (probe_align f) 0x10000) []).1 = .error ∧
      ¬(Accepts markedFile 4 0 →
        (probe_file fresh_scratch 0 f true (posix_memalign (probe_align f) 0x10000) []).1 = .ok) := by
  intro f
  have herror : (probe_file fresh_scratch 0 f true (posix_memalign (probe_align f) 0x10000) []).1 = .error :=
    probe_file_refused (by decide) (by decide) true []
  refine ⟨markedFile_accepted, ?_, herror, fun h => ?_⟩
  · rw [probe_file_granted (granted_buffered rfl) (by decide) true []]
    have hrun := probe_run_eq (f := ⟨15, markedFile, none⟩) rfl true (probe_start []) (probe_start_inv _ errorFree_nil)
      (fun s hs => not_starved_nil _ true (ProbeReached.start.trans hs).answers_nil) (Nat.zero_le _)
    rcases hrun with ⟨-, hr⟩ | ⟨ha, -⟩
    · exact hr
    · exact absurd markedFile_accepted ha
  · rw [herror] at h
    cases h markedFile_accepted

end NginxZstd
