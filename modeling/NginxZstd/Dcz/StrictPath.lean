import NginxZstd.Lib.Scan
import NginxZstd.Nginx
/-!
# The strict path walk

With `zstd_dict_strict_path` a dictionary is opened one path component at a time,
each relative to a directory that has been vetted. The operating system answers
every call as it likes, and may look at all the calls before it; the walk's calls
are recorded. `open_strict_vets` is about the whole record.
-/

namespace NginxZstd

open Lib

/-! ## Calls -/

/-- A descriptor stands for the open that returned it, the first, the second and so
on: its number in the process is reused only once it is closed. -/
abbrev Fd := Nat

inductive OFlag where
  | rdonly
  | directory
  | nofollow
  | cloexec
  | other (bit : Nat)
deriving DecidableEq

/-- `struct stat`, as far as the walk looks at it. -/
structure Stat where
  uid : Nat
  mode : Nat
deriving DecidableEq

/-- A call of the walk with its answer, `.error` for an `errno`. `vet` is `fstat` with
the `geteuid` behind it. -/
inductive Call where
  | open_root (oflags : List OFlag) (answer : Except Nat Fd)
  | openat (dir : Fd) (name : Bytes) (oflags : List OFlag) (answer : Except Nat Fd)
  | vet (fd : Fd) (answer : Except Nat Stat) (euid : Nat)
  | close (fd : Fd)
deriving DecidableEq

/-- How the calls are answered, after those already made. `none` is success. -/
structure Os where
  open_root : List Call → List OFlag → Option Nat
  openat : List Call → Fd → Bytes → List OFlag → Option Nat
  fstat : List Call → Fd → Except Nat Stat
  geteuid : List Call → Nat
  have_cloexec : Bool

/-- `oflags |= O_CLOEXEC`, where there is one. -/
def with_cloexec (os : Os) (oflags : List OFlag) : List OFlag :=
  if os.have_cloexec then oflags ++ [.cloexec] else oflags

/-! ## The walk -/

/-- `ngx_http_zstd_dict_walk_rc_t`. -/
inductive WalkRc where
  | ok
  | relative
  | open_root
  | directory
  | component_long
  | dot
  | openat
  | dir_fstat
  | dir_owner
  | dir_writable
deriving DecidableEq

/-- `ngx_http_zstd_dict_walk_t`. -/
structure Walk where
  rc : WalkRc
  err : Nat
  uid : Nat
  component : Bytes
deriving DecidableEq

/-- What a walk leaves: the descriptor it returns, its report and its calls. -/
structure PathWalk where
  fd : Option Fd
  walk : Walk
  calls : List Call

def slash : UInt8 := 0x2f

def is_slash (c : UInt8) : Bool := c == slash

def not_slash (c : UInt8) : Bool := c != slash

/-- The bytes a NUL-terminated string is read as. -/
def cstr (s : Bytes) : Bytes := s.takeWhile (· ≠ 0)

/-- `S_IWGRP | S_IWOTH`. -/
def writable_mask : Nat := 0o20 ||| 0o2

/-- The verdict of `ngx_http_zstd_dict_file_check_dir` on what `fstat` answered. -/
def judge_dir (walk : Walk) (answer : Except Nat Stat) (euid : Nat) : Walk :=
  match answer with
  | .error err => { walk with rc := .dir_fstat, err }
  | .ok st =>
    if st.uid ≠ 0 ∧ st.uid ≠ euid then { walk with rc := .dir_owner, uid := st.uid }
    else if st.mode &&& writable_mask ≠ 0 then { walk with rc := .dir_writable }
    else { walk with rc := .ok }

/-- `ngx_http_zstd_dict_file_check_dir`, with the call it makes. -/
def check_dir (os : Os) (fd : Fd) (walk : Walk) (calls : List Call) : Walk × Call :=
  (judge_dir walk (os.fstat calls fd) (os.geteuid calls), .vet fd (os.fstat calls fd) (os.geteuid calls))

/-- A component that was cut out, whether it is the leaf, and where the next starts. -/
structure Component where
  walk : Walk
  last : Bool
  start : Bytes

/-- `ngx_http_zstd_dict_file_next_component`. -/
def next_component (start : Bytes) (walk : Walk) : Except Walk Component :=
  let s := start.dropWhile is_slash
  let name := s.takeWhile not_slash
  let p := s.dropWhile not_slash
  if s = [] then .error { walk with rc := .directory }
  else if name.length ≥ max_path then .error { walk with rc := .component_long }
  else if cstr name = str "." ∨ cstr name = str ".." then .error { walk with rc := .dot, component := cstr name }
  -- a separator behind the last component asks for a directory
  else if p ≠ [] ∧ p.dropWhile is_slash = [] then .error { walk with rc := .directory, component := cstr name }
  else .ok ⟨{ walk with rc := .ok, component := cstr name }, p = [], p⟩

theorem next_component_start_lt {start : Bytes} {walk : Walk} {c : Component} (h : next_component start walk = .ok c) :
    c.start.length < start.length := by
  unfold next_component at h
  dsimp only at h
  split at h
  · cases h
  split at h
  · cases h
  split at h
  · cases h
  split at h
  · cases h
  · next hs _ _ _ =>
    cases h
    have hle := List.length_dropWhile_le is_slash start
    cases hd : start.dropWhile is_slash with
    | nil => exact absurd hd hs
    | cons x s =>
      have hx : not_slash x = true := by simpa [is_slash, not_slash] using dropWhile_head hd
      have hrest := List.length_dropWhile_le not_slash s
      rw [hd] at hle
      simp only [List.dropWhile_cons, hx, if_true, List.length_cons] at hle ⊢
      omega

/-- The flags a component is opened with. -/
def component_oflags (os : Os) (flags : List OFlag) (last : Bool) : List OFlag :=
  with_cloexec os (if last then flags ++ [.nofollow] else [.rdonly, .directory, .nofollow])

/-- The loop of `ngx_http_zstd_dict_file_open_strict`, with `fd` vetted. -/
def walk_components (os : Os) (flags : List OFlag) (fd : Fd) (start : Bytes) (walk : Walk) (calls : List Call) : PathWalk :=
  match _h : next_component start walk with
  | .error walk => ⟨none, walk, calls ++ [.close fd]⟩
  | .ok c =>
    match os.openat calls fd c.walk.component (component_oflags os flags c.last) with
    | some err =>
      ⟨none, { c.walk with rc := .openat, err },
        calls ++ [.openat fd c.walk.component (component_oflags os flags c.last) (.error err), .close fd]⟩
    | none =>
      -- the parent is closed before the child is looked at
      let calls := calls ++ [.openat fd c.walk.component (component_oflags os flags c.last) (.ok (fd + 1)), .close fd]
      if c.last then ⟨some (fd + 1), c.walk, calls⟩
      else
        match check_dir os (fd + 1) c.walk calls with
        | (walk, vet) =>
          if walk.rc ≠ .ok then ⟨none, walk, calls ++ [vet, .close (fd + 1)]⟩
          else walk_components os flags (fd + 1) c.start walk (calls ++ [vet])
termination_by start.length
decreasing_by exact next_component_start_lt _h

/-- `ngx_http_zstd_dict_file_open_strict`. -/
def open_strict (os : Os) (flags : List OFlag) (path : Bytes) : PathWalk :=
  let walk : Walk := ⟨.ok, 0, 0, str "/"⟩
  let oflags := with_cloexec os [.rdonly, .directory]
  if path.head? ≠ some slash then ⟨none, { walk with rc := .relative }, []⟩
  else
    match os.open_root [] oflags with
    | some err => ⟨none, { walk with rc := .open_root, err }, [.open_root oflags (.error err)]⟩
    | none =>
      match check_dir os 0 walk [.open_root oflags (.ok 0)] with
      | (walk, vet) =>
        if walk.rc ≠ .ok then ⟨none, walk, [.open_root oflags (.ok 0), vet, .close 0]⟩
        else walk_components os flags 0 (path.drop 1) walk [.open_root oflags (.ok 0), vet]

/-! ## Paths -/

/-- What stands between the separators. -/
def components (path : Bytes) : List Bytes := (path.splitOn slash).filter (· ≠ [])

/-- A component the walk goes through. -/
def GoodName (name : Bytes) : Prop := name ≠ str "." ∧ name ≠ str ".." ∧ name.length < max_path

/-- An absolute path of good components without a separator at the end. -/
def StrictPath (path : Bytes) : Prop :=
  path.head? = some slash ∧ path.getLast? ≠ some slash ∧ ∀ name ∈ components path, GoodName name

/-- What is left of such a path behind a separator or a component. -/
def StrictTail (rest : Bytes) : Prop :=
  rest ≠ [] ∧ rest.getLast? ≠ some slash ∧ ∀ name ∈ components rest, GoodName name

theorem components_slash (rest : Bytes) : components (slash :: rest) = components rest := by
  have h : (slash :: rest).splitOn slash = [] :: rest.splitOn slash :=
    List.splitOn_append_cons_self_of_not_mem List.not_mem_nil rest
  simp [components, h]

theorem components_name {name : Bytes} (hne : name ≠ []) (hs : slash ∉ name) : components name = [name] := by
  simp [components, List.splitOn_eq_singleton hs, hne]

theorem components_name_slash {name : Bytes} (hne : name ≠ []) (hs : slash ∉ name) (rest : Bytes) :
    components (name ++ slash :: rest) = name :: components (slash :: rest) := by
  rw [components_slash]
  simp [components, List.splitOn_append_cons_self_of_not_mem hs, hne]

theorem components_skip (rest : Bytes) : components rest = components (rest.dropWhile is_slash) := by
  induction rest with
  | nil => rfl
  | cons c rest ih =>
    by_cases hc : c = slash
    · subst hc
      rw [components_slash, ih]
      rfl
    · simp [is_slash, hc]

/-- The run of separators in front of a component does not matter. -/
theorem strictTail_skip {rest : Bytes} (h : rest.dropWhile is_slash ≠ []) :
    StrictTail rest ↔ StrictTail (rest.dropWhile is_slash) := by
  have hne : rest ≠ [] := by rintro rfl; exact h rfl
  have hlast : rest.getLast? = (rest.dropWhile is_slash).getLast? := by
    conv_lhs => rw [← List.takeWhile_append_dropWhile (p := is_slash) (l := rest)]
    rw [List.getLast?_append_of_ne_nil _ h]
  rw [StrictTail, StrictTail, components_skip rest, hlast]
  simp [hne, h]

theorem not_strictTail_separators {rest : Bytes} (h : rest.dropWhile is_slash = []) : ¬StrictTail rest := by
  rintro ⟨hne, hlast, -⟩
  have hall : ∀ c ∈ rest, is_slash c = true := List.dropWhile_eq_nil_iff.1 h
  have := hall (rest.getLast hne) (List.getLast_mem hne)
  refine hlast ?_
  rw [List.getLast?_eq_some_getLast hne]
  simpa [is_slash] using this

/-- A component in front of the rest of a path. -/
theorem strictTail_name {name p : Bytes} (hne : name ≠ []) (hs : slash ∉ name) (hp : p = [] ∨ p.head? = some slash) :
    components (name ++ p) = name :: components p ∧
      (StrictTail (name ++ p) ↔ GoodName name ∧ (p = [] ∨ StrictTail p)) := by
  rcases hp with rfl | hp
  · have hlast : name.getLast? ≠ some slash := by
      intro h
      exact hs (List.mem_of_getLast? h)
    have hcomp := components_name hne hs
    rw [List.append_nil, hcomp]
    exact ⟨rfl, by simp [StrictTail, hcomp, hne, hlast]⟩
  · obtain ⟨rest, rfl⟩ := List.head?_eq_some_iff.1 hp
    have hcomp := components_name_slash hne hs rest
    refine ⟨hcomp, ?_⟩
    have hlast : (name ++ slash :: rest).getLast? = (slash :: rest).getLast? :=
      List.getLast?_append_of_ne_nil _ (by simp)
    simp only [StrictTail, hcomp, hlast, List.forall_mem_cons]
    simp
    tauto

theorem cstr_eq {s : Bytes} (h : 0 ∉ s) : cstr s = s :=
  List.takeWhile_eq_self_iff.2 fun _ hc => decide_eq_true fun h0 => h (h0 ▸ hc)

/-- The component in front, and where it ends. -/
theorem cut_component {start : Bytes} (h : start.dropWhile is_slash ≠ []) :
    let name := (start.dropWhile is_slash).takeWhile not_slash
    let p := (start.dropWhile is_slash).dropWhile not_slash
    components start = name :: components p ∧ (StrictTail start ↔ GoodName name ∧ (p = [] ∨ StrictTail p)) := by
  intro name p
  have hsplit : start.dropWhile is_slash = name ++ p := List.takeWhile_append_dropWhile.symm
  have hs : slash ∉ name := by
    intro hmem
    have := List.mem_takeWhile_imp hmem
    simp [not_slash] at this
  have hp : p = [] ∨ p.head? = some slash := by
    cases hp : p with
    | nil => exact .inl rfl
    | cons c rest =>
      have : not_slash c = false := dropWhile_head hp
      right
      simpa [not_slash] using this
  have hne : name ≠ [] := by
    cases hd : start.dropWhile is_slash with
    | nil => exact absurd hd h
    | cons c rest =>
      have hc : not_slash c = true := by simpa [is_slash, not_slash] using dropWhile_head hd
      simp [name, hd, hc]
  obtain ⟨hcomp, htail⟩ := strictTail_name hne hs hp
  rw [components_skip start, strictTail_skip h, hsplit]
  exact ⟨hcomp, htail⟩

/-- A component is cut out of a path that goes on, and refused in one that cannot be
strict. -/
theorem next_component_spec {start : Bytes} (hz : 0 ∉ start) (walk : Walk) :
    match next_component start walk with
    | .error _ => ¬StrictTail start
    | .ok c => components start = c.walk.component :: components c.start ∧ (c.last = true ↔ c.start = []) ∧
        (StrictTail start ↔ c.last = true ∨ StrictTail c.start) ∧ 0 ∉ c.start := by
  simp only [next_component]
  by_cases hs : start.dropWhile is_slash = []
  · rw [if_pos hs]
    exact not_strictTail_separators hs
  obtain ⟨hcomp, htail⟩ := cut_component hs
  have hz' : 0 ∉ start.dropWhile is_slash := fun h => hz ((List.dropWhile_suffix _).subset h)
  have hname : 0 ∉ (start.dropWhile is_slash).takeWhile not_slash := fun h => hz' ((List.takeWhile_prefix _).subset h)
  have hzp : 0 ∉ (start.dropWhile is_slash).dropWhile not_slash := fun h => hz' ((List.dropWhile_suffix _).subset h)
  rw [if_neg hs, cstr_eq hname]
  generalize (start.dropWhile is_slash).takeWhile not_slash = name at hcomp htail
  generalize (start.dropWhile is_slash).dropWhile not_slash = p at hcomp htail hzp
  by_cases hlong : name.length ≥ max_path
  · rw [if_pos hlong]
    intro h
    have := (htail.1 h).1.2.2
    omega
  rw [if_neg hlong]
  by_cases hdot : name = str "." ∨ name = str ".."
  · rw [if_pos hdot]
    intro h
    exact hdot.elim (htail.1 h).1.1 (htail.1 h).1.2.1
  rw [if_neg hdot]
  by_cases hdir : p ≠ [] ∧ p.dropWhile is_slash = []
  · rw [if_pos hdir]
    intro h
    exact ((htail.1 h).2.elim hdir.1 (not_strictTail_separators hdir.2))
  rw [if_neg hdir]
  have hgood : GoodName name := ⟨fun h => hdot (.inl h), fun h => hdot (.inr h), by omega⟩
  exact ⟨hcomp, by simp, by simp [htail, hgood], hzp⟩

/-! ## The record of a walk -/

/-- The directory belongs to root or the effective user and neither group nor others
may write to it. -/
def Trusted (answer : Except Nat Stat) (euid : Nat) : Prop :=
  ∃ st, answer = .ok st ∧ (st.uid = 0 ∨ st.uid = euid) ∧ st.mode.testBit 4 = false ∧ st.mode.testBit 1 = false

/-- The mask has bits 4 and 1 and no other. -/
theorem writable_mask_testBit (i : Nat) : writable_mask.testBit i = decide (i = 4 ∨ i = 1) := by
  by_cases hi : i < 5
  · have low : ∀ i : Fin 5, writable_mask.testBit i = decide (i.1 = 4 ∨ i.1 = 1) := by decide
    exact low ⟨i, hi⟩
  · have hlt : writable_mask < 2 ^ i := lt_of_lt_of_le (by decide : writable_mask < 2 ^ 5)
      (Nat.pow_le_pow_right (by decide) (by omega))
    rw [Nat.testBit_lt_two_pow hlt]
    simp
    omega

theorem writable_mask_iff (mode : Nat) :
    mode &&& writable_mask = 0 ↔ mode.testBit 4 = false ∧ mode.testBit 1 = false := by
  constructor
  · intro h
    have hbit : ∀ i, (mode.testBit i && decide (i = 4 ∨ i = 1)) = false := by
      intro i
      rw [← writable_mask_testBit, ← Nat.testBit_and, h, Nat.zero_testBit]
    exact ⟨by simpa using hbit 4, by simpa using hbit 1⟩
  · rintro ⟨h4, h1⟩
    apply Nat.eq_of_testBit_eq
    intro i
    rw [Nat.testBit_and, Nat.zero_testBit, writable_mask_testBit]
    by_cases hi : i = 4 ∨ i = 1
    · rcases hi with rfl | rfl
      · rw [h4, Bool.false_and]
      · rw [h1, Bool.false_and]
    · simp [hi]

theorem judge_dir_ok (walk : Walk) (answer : Except Nat Stat) (euid : Nat) :
    (judge_dir walk answer euid).rc = .ok ↔ Trusted answer euid := by
  unfold judge_dir Trusted
  cases answer with
  | error err => simp
  | ok st =>
    have hmask := writable_mask_iff st.mode
    by_cases howner : st.uid ≠ 0 ∧ st.uid ≠ euid
    · simp only [if_pos howner, reduceCtorEq, Except.ok.injEq, exists_eq_left', false_iff]
      rintro ⟨h | h, -⟩
      · exact howner.1 h
      · exact howner.2 h
    · have howner' : st.uid = 0 ∨ st.uid = euid := by tauto
      by_cases hw : st.mode &&& writable_mask ≠ 0
      · simp only [if_neg howner, if_pos hw, reduceCtorEq, Except.ok.injEq, exists_eq_left', false_iff]
        exact fun h => hw (hmask.2 h.2)
      · simp only [if_neg howner, if_neg hw, Except.ok.injEq, exists_eq_left', true_iff]
        exact ⟨howner', hmask.1 (not_not.1 hw)⟩

/-- The calls of the loop from a vetted `fd` on, and the descriptor returned. -/
inductive Trail (os : Os) (flags : List OFlag) : Fd → Bytes → List Call → Option Fd → Prop where
  | refused {fd : Fd} {start : Bytes} (h : ¬StrictTail start) : Trail os flags fd start [.close fd] none
  | not_opened {fd : Fd} {start : Bytes} {name : Bytes} {rest : List Bytes} {last : Bool} {err : Nat}
      (hname : components start = name :: rest) :
      Trail os flags fd start [.openat fd name (component_oflags os flags last) (.error err), .close fd] none
  | leaf {fd : Fd} {start : Bytes} {name : Bytes} (hname : components start = [name]) (h : StrictTail start) :
      Trail os flags fd start [.openat fd name (component_oflags os flags true) (.ok (fd + 1)), .close fd] (some (fd + 1))
  | not_trusted {fd : Fd} {start : Bytes} {name : Bytes} {rest : List Bytes} {answer : Except Nat Stat} {euid : Nat}
      (hname : components start = name :: rest) (h : ¬Trusted answer euid) :
      Trail os flags fd start [.openat fd name (component_oflags os flags false) (.ok (fd + 1)), .close fd,
        .vet (fd + 1) answer euid, .close (fd + 1)] none
  | dir {fd : Fd} {start start' : Bytes} {name : Bytes} {answer : Except Nat Stat} {euid : Nat} {calls : List Call}
      {leaf : Option Fd} (hname : components start = name :: components start')
      (htail : StrictTail start ↔ StrictTail start') (h : Trusted answer euid)
      (hrest : Trail os flags (fd + 1) start' calls leaf) :
      Trail os flags fd start (.openat fd name (component_oflags os flags false) (.ok (fd + 1)) :: .close fd ::
        .vet (fd + 1) answer euid :: calls) leaf

/-- Every run of the loop leaves such calls. -/
theorem walk_components_trail (os : Os) (flags : List OFlag) (fd : Fd) (start : Bytes) (walk : Walk) (calls : List Call)
    (hz : 0 ∉ start) :
    ∃ suffix, (walk_components os flags fd start walk calls).calls = calls ++ suffix ∧
      Trail os flags fd start suffix (walk_components os flags fd start walk calls).fd := by
  fun_induction walk_components os flags fd start walk calls with
  | case1 fd start walk calls walk' h =>
    have hspec := next_component_spec hz walk
    rw [h] at hspec
    exact ⟨_, rfl, .refused hspec⟩
  | case2 fd start walk calls c h err ho =>
    have hspec := next_component_spec hz walk
    rw [h] at hspec
    exact ⟨_, rfl, .not_opened hspec.1⟩
  | case3 fd start walk calls c h ho calls' hlast =>
    have hspec := next_component_spec hz walk
    rw [h] at hspec
    obtain ⟨hname, hend, htail, -⟩ := hspec
    have hcomp : components start = [c.walk.component] := by
      rw [hname, hend.1 hlast]
      rfl
    refine ⟨_, rfl, ?_⟩
    rw [hlast]
    exact .leaf hcomp (htail.2 (.inl hlast))
  | case4 fd start walk calls c h ho calls' hlast walk' vet hcheck hbad =>
    have hspec := next_component_spec hz walk
    rw [h] at hspec
    have hlast' : c.last = false := by simpa using hlast
    cases hcheck
    refine ⟨_, List.append_assoc _ _ _, ?_⟩
    rw [hlast']
    exact .not_trusted hspec.1 fun ht => hbad ((judge_dir_ok _ _ _).2 ht)
  | case5 fd start walk calls c h ho calls' hlast walk' vet hcheck hgood ih =>
    have hspec := next_component_spec hz walk
    rw [h] at hspec
    obtain ⟨hname, -, htail, hz'⟩ := hspec
    have hlast' : c.last = false := by simpa using hlast
    obtain ⟨suffix, hcalls, htrail⟩ := ih hz'
    cases hcheck
    refine ⟨_, ?_, .dir hname (by simpa [hlast'] using htail) ((judge_dir_ok _ _ _).1 (not_not.1 hgood)) htrail⟩
    rw [hcalls, ← hlast']
    simp [calls']

/-! ## What the record shows -/

/-- The call went well: what was asked for was opened, or vetted and found good. -/
def Call.Succeeded : Call → Prop
  | .open_root _ answer => ∃ fd, answer = .ok fd
  | .openat _ _ _ answer => ∃ fd, answer = .ok fd
  | .vet _ answer euid => Trusted answer euid
  | .close _ => True

/-- The descriptor a call opened. -/
def Call.opened : Call → Option Fd
  | .open_root _ answer => answer.toOption
  | .openat _ _ _ answer => answer.toOption
  | .vet .. => none
  | .close _ => none

/-- The name an `openat` was given. -/
def Call.name : Call → Option Bytes
  | .openat _ name _ _ => some name
  | .open_root .. => none
  | .vet .. => none
  | .close _ => none

/-- The descriptors opened, in order. -/
def openedBy (calls : List Call) : List Fd := calls.filterMap Call.opened

/-- The names opened, in order. -/
def namedBy (calls : List Call) : List Bytes := calls.filterMap Call.name

/-- A directory was checked and found trustworthy. -/
def Vetted (calls : List Call) (dir : Fd) : Prop := ∃ answer euid, .vet dir answer euid ∈ calls ∧ Trusted answer euid

section
variable (calls : List Call) (fd d : Fd) (name : Bytes) (oflags : List OFlag)

@[simp] theorem openedBy_nil : openedBy [] = [] := rfl

@[simp] theorem openedBy_root (answer : Except Nat Fd) :
    openedBy (.open_root oflags answer :: calls) = answer.toOption.toList ++ openedBy calls := by
  cases answer <;> rfl

@[simp] theorem openedBy_openat (answer : Except Nat Fd) :
    openedBy (.openat fd name oflags answer :: calls) = answer.toOption.toList ++ openedBy calls := by
  cases answer <;> rfl

@[simp] theorem openedBy_vet (answer : Except Nat Stat) (euid : Nat) :
    openedBy (.vet fd answer euid :: calls) = openedBy calls := rfl

@[simp] theorem openedBy_close : openedBy (.close fd :: calls) = openedBy calls := rfl

@[simp] theorem namedBy_nil : namedBy [] = [] := rfl

@[simp] theorem namedBy_root (answer : Except Nat Fd) :
    namedBy (.open_root oflags answer :: calls) = namedBy calls := rfl

@[simp] theorem namedBy_openat (answer : Except Nat Fd) :
    namedBy (.openat fd name oflags answer :: calls) = name :: namedBy calls := rfl

@[simp] theorem namedBy_vet (answer : Except Nat Stat) (euid : Nat) :
    namedBy (.vet fd answer euid :: calls) = namedBy calls := rfl

@[simp] theorem namedBy_close : namedBy (.close fd :: calls) = namedBy calls := rfl

end

theorem nofollow_mem (os : Os) (flags : List OFlag) (last : Bool) : .nofollow ∈ component_oflags os flags last := by
  unfold component_oflags with_cloexec
  cases last <;> cases os.have_cloexec <;> simp

section
variable {os : Os} {flags : List OFlag} {fd : Fd} {start : Bytes} {calls : List Call} {leaf : Option Fd}

/-- A descriptor is returned for a strict path on which every call went well. -/
theorem Trail.returns (h : Trail os flags fd start calls leaf) :
    leaf.isSome ↔ StrictTail start ∧ ∀ c ∈ calls, c.Succeeded := by
  induction h with
  | refused h => simp [h]
  | not_opened hname => simp [Call.Succeeded]
  | leaf hname h => simp [Call.Succeeded, h]
  | not_trusted hname h => simp [Call.Succeeded, h]
  | dir hname htail h hrest ih =>
    rw [ih, htail]
    simp [Call.Succeeded, h]

/-- The names are the components, one after the other, and all of them where a
descriptor is returned. -/
theorem Trail.names (h : Trail os flags fd start calls leaf) :
    namedBy calls <+: components start ∧ (leaf.isSome → namedBy calls = components start) := by
  induction h with
  | refused h => simp
  | not_opened hname => simp [hname]
  | leaf hname h => simp [hname]
  | not_trusted hname h => simp [hname]
  | dir hname htail h hrest ih =>
    obtain ⟨hpre, hall⟩ := ih
    simp only [namedBy_openat, namedBy_close, namedBy_vet, hname, List.prefix_cons_inj, List.cons.injEq, true_and]
    exact ⟨hpre, hall⟩

/-- Descriptors come in order, the leaf among them. -/
theorem Trail.opened_gt (h : Trail os flags fd start calls leaf) :
    (∀ d ∈ openedBy calls, fd < d) ∧ ∀ d, leaf = some d → d ∈ openedBy calls := by
  induction h with
  | refused h => simp
  | not_opened hname => simp [Except.toOption]
  | leaf hname h => simp [Except.toOption]
  | not_trusted hname h => simp [Except.toOption]
  | @dir fd start start' name answer euid calls leaf hname htail h hrest ih =>
    obtain ⟨hgt, hleaf⟩ := ih
    refine ⟨fun d hd => ?_, fun d hd => ?_⟩
    · simp only [openedBy_openat, openedBy_close, openedBy_vet, Except.toOption, Option.toList_some,
        List.singleton_append, List.mem_cons] at hd
      rcases hd with rfl | hd
      · exact Nat.lt_succ_self fd
      · exact Nat.lt_of_succ_lt (hgt d hd)
    · simp only [openedBy_openat, openedBy_close, openedBy_vet, List.mem_append]
      exact .inr (hleaf d hd)

/-- What is opened is closed once, but for the leaf, and nothing else is closed. -/
theorem Trail.closes (h : Trail os flags fd start calls leaf) (d : Fd) :
    calls.count (.close d) = if d = fd ∨ d ∈ openedBy calls ∧ leaf ≠ some d then 1 else 0 := by
  induction h with
  | @refused fd start h => by_cases hd : d = fd <;> simp [hd, eq_comm]
  | @not_opened fd start name rest last err hname => by_cases hd : d = fd <;> simp [Except.toOption, hd, eq_comm]
  | @leaf fd start name hname h => by_cases hd : d = fd <;> simp [Except.toOption, hd, eq_comm]
  | @not_trusted fd start name rest answer euid hname h =>
    by_cases hd : d = fd <;> by_cases hd' : d = fd + 1 <;> simp [Except.toOption, hd, hd', eq_comm]
  | @dir fd start start' name answer euid calls leaf hname htail h hrest ih =>
    obtain ⟨hgt, hleaf⟩ := hrest.opened_gt
    -- the rest of the walk closes `fd + 1` and never sees `fd` again
    have hfd : fd ∉ openedBy calls := fun hmem => absurd (Nat.lt_of_succ_lt (hgt fd hmem)) (Nat.lt_irrefl fd)
    have hnext : leaf ≠ some (fd + 1) := fun hl => absurd (hgt _ (hleaf _ hl)) (Nat.lt_irrefl _)
    simp only [openedBy_openat, openedBy_close, openedBy_vet, Except.toOption, Option.toList_some,
      List.singleton_append, List.mem_cons, List.count_cons, ih]
    by_cases hd : d = fd
    · subst hd
      simp [hfd]
    · by_cases hd' : d = fd + 1
      · subst hd'
        simp [hnext]
      · simp [hd, hd', Ne.symm hd]

/-- Where in a record an `openat` stands: at its head or further on. -/
theorem openat_split {c : Call} {before after : List Call} {dir : Fd} {name : Bytes} {oflags : List OFlag}
    {answer : Except Nat Fd} (h : c :: calls = before ++ .openat dir name oflags answer :: after) :
    before = [] ∧ c = .openat dir name oflags answer ∨
      ∃ before', before = c :: before' ∧ calls = before' ++ .openat dir name oflags answer :: after := by
  cases before with
  | nil => exact .inl ⟨rfl, (List.cons.inj h).1⟩
  | cons c' before' =>
    obtain ⟨rfl, hcalls⟩ := List.cons.inj h
    exact .inr ⟨before', rfl, hcalls⟩

/-- In a record that opens nothing further on, an `openat` is the head. -/
theorem openat_only {c : Call} {before after : List Call} {dir : Fd} {name : Bytes} {oflags : List OFlag}
    {answer : Except Nat Fd} (hrest : ∀ c ∈ calls, c.name = none)
    (h : c :: calls = before ++ .openat dir name oflags answer :: after) :
    before = [] ∧ c = .openat dir name oflags answer := by
  rcases openat_split h with h | ⟨before', -, rfl⟩
  · exact h
  · have hnone := hrest (.openat dir name oflags answer) (by simp)
    cases hnone

/-- The loop's `openat` follows no symbolic link. -/
theorem openat_component {n name : Bytes} {last : Bool} {a answer : Except Nat Fd} {dir : Fd} {oflags : List OFlag}
    (h : Call.openat fd n (component_oflags os flags last) a = .openat dir name oflags answer) :
    .nofollow ∈ oflags ∧ fd = dir := by
  cases h
  exact ⟨nofollow_mem os flags last, rfl⟩

theorem Vetted.cons {dir : Fd} (h : Vetted calls dir) (c : Call) : Vetted (c :: calls) dir := by
  obtain ⟨answer, euid, hin, ht⟩ := h
  exact ⟨answer, euid, List.mem_cons_of_mem c hin, ht⟩

/-- Every `openat` is relative to the descriptor opened before it, which was vetted
first. -/
theorem Trail.based (h : Trail os flags fd start calls leaf) {before after : List Call} {dir : Fd} {name : Bytes}
    {oflags : List OFlag} {answer : Except Nat Fd} (hcalls : calls = before ++ .openat dir name oflags answer :: after) :
    .nofollow ∈ oflags ∧ (openedBy before).getLastD fd = dir ∧
      (dir = fd ∨ Vetted before dir) := by
  -- only the last case has an `openat` behind the head
  induction h generalizing before with
  | refused h =>
    obtain ⟨-, h⟩ := openat_only (by simp) hcalls
    cases h
  | not_opened hname =>
    obtain ⟨rfl, h⟩ := openat_only (by simp [Call.name]) hcalls
    obtain ⟨hmem, rfl⟩ := openat_component h
    exact ⟨hmem, rfl, .inl rfl⟩
  | leaf hname h =>
    obtain ⟨rfl, h⟩ := openat_only (by simp [Call.name]) hcalls
    obtain ⟨hmem, rfl⟩ := openat_component h
    exact ⟨hmem, rfl, .inl rfl⟩
  | not_trusted hname h =>
    obtain ⟨rfl, h⟩ := openat_only (by simp [Call.name]) hcalls
    obtain ⟨hmem, rfl⟩ := openat_component h
    exact ⟨hmem, rfl, .inl rfl⟩
  | @dir fd start start' name' answer' euid calls leaf hname htail htrust hrest ih =>
    rcases openat_split hcalls with ⟨rfl, h⟩ | ⟨b₁, hb₁, h⟩
    · obtain ⟨hmem, rfl⟩ := openat_component h
      exact ⟨hmem, rfl, .inl rfl⟩
    rcases openat_split h with ⟨-, h'⟩ | ⟨b₂, hb₂, h'⟩
    · cases h'
    rcases openat_split h' with ⟨-, h''⟩ | ⟨b₃, hb₃, h''⟩
    · cases h''
    subst hb₁ hb₂ hb₃
    obtain ⟨hmem, hlast, hvet⟩ := ih h''
    refine ⟨hmem, ?_, .inr ?_⟩
    · simp only [openedBy_openat, openedBy_close, openedBy_vet, Except.toOption, Option.toList_some,
        List.singleton_append, List.getLastD_cons]
      exact hlast
    · rcases hvet with rfl | hvet
      · exact ⟨answer', euid, by simp, htrust⟩
      · exact ((hvet.cons _).cons _).cons _

/-- On the way to a leaf every directory was vetted. -/
theorem Trail.vetted (h : Trail os flags fd start calls leaf) (hsome : leaf.isSome) :
    ∀ d ∈ openedBy calls, leaf ≠ some d → Vetted calls d := by
  induction h with
  | refused h => simp
  | not_opened hname => simp [Except.toOption]
  | leaf hname h => simp [Except.toOption]
  | not_trusted hname h => simp at hsome
  | @dir fd start start' name answer euid calls leaf hname htail h hrest ih =>
    intro d hd hne
    simp only [openedBy_openat, openedBy_close, openedBy_vet, Except.toOption, Option.toList_some,
      List.singleton_append, List.mem_cons] at hd
    rcases hd with rfl | hd
    · exact ⟨answer, euid, by simp, h⟩
    · exact (((ih hsome d hd hne).cons _).cons _).cons _

end

/-! ## The whole walk -/

theorem strictPath_iff {path : Bytes} : StrictPath path ↔ ∃ rest, path = slash :: rest ∧ StrictTail rest := by
  cases path with
  | nil => simp [StrictPath]
  | cons c rest =>
    by_cases hc : c = slash
    · subst hc
      have hlast : (slash :: rest).getLast? ≠ some slash ↔ rest ≠ [] ∧ rest.getLast? ≠ some slash := by
        cases rest with
        | nil => simp
        | cons x rest => simp
      simp [StrictPath, StrictTail, components_slash, hlast, and_assoc]
    · simp [StrictPath, hc]

/-- What a walk can be: it ends at the first test, at the root, or goes on from the
vetted root. -/
theorem open_strict_cases (os : Os) (flags : List OFlag) {path : Bytes} (hz : 0 ∉ path) :
    let r := open_strict os flags path
    (r.fd = none ∧ r.calls = [] ∧ path.head? ≠ some slash) ∨
    (∃ oflags err, r.fd = none ∧ r.calls = [.open_root oflags (.error err)]) ∨
    (∃ oflags answer euid, r.fd = none ∧ r.calls = [.open_root oflags (.ok 0), .vet 0 answer euid, .close 0] ∧
      ¬Trusted answer euid) ∨
    ∃ rest oflags answer euid calls, path = slash :: rest ∧
      r.calls = .open_root oflags (.ok 0) :: .vet 0 answer euid :: calls ∧ Trusted answer euid ∧
      Trail os flags 0 rest calls r.fd := by
  by_cases habs : path.head? = some slash
  · obtain ⟨rest, rfl⟩ := List.head?_eq_some_iff.1 habs
    right
    simp only [open_strict, List.head?_cons, ne_eq, not_true_eq_false, if_false]
    generalize with_cloexec os [.rdonly, .directory] = oflags
    cases os.open_root [] oflags with
    | some err => exact .inl ⟨oflags, err, rfl, rfl⟩
    | none =>
      have hroot := judge_dir_ok ⟨.ok, 0, 0, str "/"⟩ (os.fstat [.open_root oflags (.ok 0)] 0)
        (os.geteuid [.open_root oflags (.ok 0)])
      simp only [check_dir]
      by_cases hok : (judge_dir ⟨.ok, 0, 0, str "/"⟩ (os.fstat [.open_root oflags (.ok 0)] 0)
          (os.geteuid [.open_root oflags (.ok 0)])).rc = .ok
      · simp only [hok, not_true_eq_false, if_false]
        obtain ⟨calls, hcalls, htrail⟩ := walk_components_trail os flags 0 rest _ _
          fun h => hz (List.mem_cons_of_mem _ h)
        exact .inr (.inr ⟨rest, oflags, _, _, calls, rfl, hcalls, hroot.1 hok, htrail⟩)
      · simp only [hok, not_false_eq_true, if_true]
        exact .inr (.inl ⟨oflags, _, _, trivial, rfl, fun ht => hok (hroot.2 ht)⟩)
  · left
    simp [open_strict, habs]

/-- For every path without NUL bytes and every behaviour of the operating system: a
descriptor is returned exactly for a strict path on which every call succeeded and
every directory was found trustworthy; every `openat` names the next component,
relative to the descriptor opened before it, behind its check, and follows no
symbolic link; and whatever was opened, except the leaf, is closed exactly once. -/
theorem open_strict_vets (os : Os) (flags : List OFlag) {path : Bytes} (hz : 0 ∉ path) :
    let r := open_strict os flags path
    (r.fd.isSome ↔ StrictPath path ∧ (∀ c ∈ r.calls, c.Succeeded) ∧
      ∀ d ∈ openedBy r.calls, r.fd ≠ some d → Vetted r.calls d) ∧
    (namedBy r.calls <+: components path ∧ (r.fd.isSome → namedBy r.calls = components path)) ∧
    (∀ before after dir name oflags answer, r.calls = before ++ .openat dir name oflags answer :: after →
      .nofollow ∈ oflags ∧ (openedBy before).getLast? = some dir ∧ Vetted before dir) ∧
    ∀ d, r.calls.count (.close d) = if d ∈ openedBy r.calls ∧ r.fd ≠ some d then 1 else 0 := by
  intro r
  rcases open_strict_cases os flags hz with ⟨hfd, hcalls, habs⟩ | ⟨oflags, err, hfd, hcalls⟩ |
    ⟨oflags, answer, euid, hfd, hcalls, hbad⟩ | ⟨rest, oflags, answer, euid, calls, rfl, hcalls, hroot, htrail⟩
  · rw [hfd, hcalls]
    simp [StrictPath, habs]
  · rw [hfd, hcalls]
    simp [Call.Succeeded, Except.toOption, List.cons_eq_append_iff]
  · rw [hfd, hcalls]
    refine ⟨by simp [Call.Succeeded, hbad], by simp, fun before after dir name oflags' a h => ?_, fun d => ?_⟩
    · simp [List.cons_eq_append_iff] at h
    · by_cases hd : d = 0 <;> simp [Except.toOption, hd, eq_comm]
  · obtain ⟨hgt, hleaf⟩ := htrail.opened_gt
    have hpath : StrictPath (slash :: rest) ↔ StrictTail rest := by simp [strictPath_iff]
    have hopened : openedBy r.calls = 0 :: openedBy calls := by
      rw [hcalls]
      rfl
    refine ⟨⟨fun hsome => ?_, fun h => ?_⟩, ?_, fun before after dir name oflags' a h => ?_, fun d => ?_⟩
    · obtain ⟨hstrict, hall⟩ := htrail.returns.1 hsome
      refine ⟨hpath.2 hstrict, ?_, fun d hd hne => ?_⟩
      · rw [hcalls, List.forall_mem_cons, List.forall_mem_cons]
        exact ⟨⟨0, rfl⟩, hroot, hall⟩
      · rw [hopened, List.mem_cons] at hd
        rw [hcalls]
        rcases hd with rfl | hd
        · exact ⟨answer, euid, by simp, hroot⟩
        · exact ((htrail.vetted hsome d hd hne).cons _).cons _
    · rw [htrail.returns, ← hpath]
      refine ⟨h.1, fun c hc => h.2.1 c ?_⟩
      rw [hcalls]
      exact List.mem_cons_of_mem _ (List.mem_cons_of_mem _ hc)
    · rw [hcalls, namedBy_root, namedBy_vet, components_slash]
      exact htrail.names
    · rw [hcalls] at h
      rcases openat_split h with ⟨-, h'⟩ | ⟨b₁, hb₁, h'⟩
      · cases h'
      rcases openat_split h' with ⟨-, h''⟩ | ⟨b₂, hb₂, h''⟩
      · cases h''
      subst hb₁ hb₂
      obtain ⟨hmem, hlast, hvet⟩ := htrail.based h''
      refine ⟨hmem, ?_, ?_⟩
      · rw [← hlast]
        simp [Except.toOption, List.getLast?_cons]
      · rcases hvet with rfl | hvet
        · exact ⟨answer, euid, by simp, hroot⟩
        · exact (hvet.cons _).cons _
    · have hzero : (0 : Fd) ∉ openedBy calls := fun h => absurd (hgt 0 h) (Nat.lt_irrefl 0)
      have hfd : r.fd ≠ some 0 := fun h => hzero (hleaf 0 h)
      rw [hopened, hcalls]
      simp only [List.count_cons, htrail.closes d, List.mem_cons]
      by_cases hd : d = 0
      · subst hd
        simp [hfd]
      · simp only [hd, false_or, beq_iff_eq, reduceCtorEq, if_false, Nat.add_zero]
        rfl

/-- A walk to `/a/b` with everything owned by root ends with the second descriptor
behind the root's, both directories closed. -/
theorem open_strict_vets_ab :
    let os : Os := ⟨fun _ _ => none, fun _ _ _ _ => none, fun _ _ => .ok ⟨0, 0o755⟩, fun _ => 1000, true⟩
    let r := open_strict os [.rdonly] (str "/a/b")
    r.fd = some 2 ∧ namedBy r.calls = [str "a", str "b"] ∧ r.calls.count (.close 0) = 1 ∧ r.calls.count (.close 1) = 1 := by
  intro os r
  have hfd : r.fd = some 2 := by decide +kernel
  have hopened : openedBy r.calls = [0, 1, 2] := by decide +kernel
  obtain ⟨-, ⟨-, hnames⟩, -, hclose⟩ := @open_strict_vets os [.rdonly] (str "/a/b") (by decide)
  have hcount : ∀ d, r.calls.count (.close d) = if d ∈ openedBy r.calls ∧ r.fd ≠ some d then 1 else 0 := hclose
  refine ⟨hfd, hnames (Option.isSome_of_eq_some hfd), ?_, ?_⟩
  · rw [hcount 0]
    simp [hopened, hfd]
  · rw [hcount 1]
    simp [hopened, hfd]

end NginxZstd
