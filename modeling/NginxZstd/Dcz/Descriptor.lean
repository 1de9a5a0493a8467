import Mathlib.Data.Finset.Option
import NginxZstd.Dcz.DictFile
import NginxZstd.Dcz.StrictPath
import NginxZstd.Lib.Usage
import NginxZstd.Trained
/-!
# Reading a dictionary

Both dictionary directives open the file, look at it through the descriptor, read it
to the end of what `fstat` reported and close it. The kernel answers as it likes:
any call may fail, a read may be interrupted or deliver less than asked for. Every
call is recorded.
-/

namespace NginxZstd

open Lib

/-! ## Calls -/

/-- `ngx_file_info_t`, as far as the loaders look at it. -/
structure FileInfo extends Stat where
  regular : Bool
  link : Bool
  size : Nat
deriving DecidableEq

/-- What a `read(2)` comes back with. -/
inductive ReadAnswer where
  | eintr
  | error (errno : Nat)
  | bytes (data : Bytes)
deriving DecidableEq

/-- A call of a load, with its answer. -/
inductive IoCall where
  | walk (call : Call)
  | open_file (path : Bytes) (oflags : List OFlag) (answer : Except Nat Fd)
  | fd_info (fd : Fd) (answer : Except Nat FileInfo)
  | getfl (fd : Fd) (answer : Option (List OFlag))
  | setfl (fd : Fd) (oflags : List OFlag)
  | read (fd : Fd) (size : Nat) (answer : ReadAnswer)
  | close (fd : Fd) (ok : Bool)
deriving DecidableEq

/-- How the calls of one load are answered. `open_file` gives `none` for success, as
`Os` does; behind the last of `reads` is the end of the file. -/
structure Kernel where
  os : Os
  have_strict_walk : Bool
  open_file : Bytes → List OFlag → Option Nat
  fd_info : Except Nat FileInfo
  geteuid : Nat
  getfl : Option (List OFlag)
  reads : List ReadAnswer
  close : Bool

/-- `O_NONBLOCK`. -/
def nonblock : OFlag := .other 0o4000

/-- Why the file was not opened, with what the message prints. -/
inductive OpenError where
  | walk (report : Walk)
  | unsupported
  | open_file (errno : Nat)
  | fd_info (errno : Nat)
  | not_regular
  | symlink
  | owner (uid euid : Nat)
  | writable
deriving DecidableEq

/-! ## Opening -/

/-- The open itself: one component after the other with the strict flag, at once
without. -/
def open_path (K : Kernel) (path : Bytes) (strict : Bool) : Except OpenError Fd × List IoCall :=
  let oflags := [.rdonly, nonblock]
  if strict then
    if K.have_strict_walk then
      let res := open_strict K.os oflags path
      (match res.fd with | some fd => .ok fd | none => .error (.walk res.walk), res.calls.map .walk)
    else (.error .unsupported, [])
  else
    match K.open_file path oflags with
    | some errno => (.error (.open_file errno), [.open_file path oflags (.error errno)])
    | none => (.ok 0, [.open_file path oflags (.ok 0)])

/-- The tests on what `fstat` says of the leaf. -/
def judge_leaf (K : Kernel) (strict : Bool) (info : FileInfo) : Option OpenError :=
  if !info.regular then some .not_regular
  else if strict && info.link then some .symlink
  else if strict && info.uid != K.geteuid && info.uid != 0 then some (.owner info.uid K.geteuid)
  else if strict && info.mode &&& writable_mask != 0 then some .writable
  else none

/-- `O_NONBLOCK` is taken back; a failure of `fcntl` is ignored. -/
def clear_nonblock (K : Kernel) (fd : Fd) : List IoCall :=
  match K.getfl with
  | none => [.getfl fd none]
  | some oflags => [.getfl fd (some oflags), .setfl fd (oflags.filter (· ≠ nonblock))]

/-- `ngx_http_zstd_open_dict_file`. -/
def open_dict_file (K : Kernel) (path : Bytes) (strict : Bool) : Except OpenError (Fd × FileInfo) × List IoCall :=
  match open_path K path strict with
  | (.error e, calls) => (.error e, calls)
  | (.ok fd, calls) =>
    match K.fd_info with
    | .error errno => (.error (.fd_info errno), calls ++ [.fd_info fd (.error errno), .close fd K.close])
    | .ok info =>
      match judge_leaf K strict info with
      | some e => (.error e, calls ++ [.fd_info fd (.ok info), .close fd K.close])
      | none => (.ok (fd, info), calls ++ .fd_info fd (.ok info) :: clear_nonblock K fd)

/-! ## Reading -/

/-- What the loop returns, what it stored in front, and its calls. -/
structure FileRead where
  ret : Option Nat
  buf : Bytes
  calls : List IoCall

def FileRead.after (r : FileRead) (c : IoCall) : FileRead := { r with calls := c :: r.calls }

/-- `ngx_http_zstd_dict_file_read` with `buf` stored so far, `done` bytes of it. A
`read` delivers no more than it was asked for. -/
def dict_file_read (fd : Fd) (size : Nat) (buf : Bytes) : List ReadAnswer → FileRead
  | [] =>
    if buf.length < size then ⟨some buf.length, buf, [.read fd (size - buf.length) (.bytes [])]⟩
    else ⟨some buf.length, buf, []⟩
  | answer :: reads =>
    if buf.length < size then
      match answer with
      | .eintr => (dict_file_read fd size buf reads).after (.read fd (size - buf.length) .eintr)
      | .error errno => ⟨none, buf, [.read fd (size - buf.length) (.error errno)]⟩
      | .bytes data =>
        let data := data.take (size - buf.length)
        if data = [] then ⟨some buf.length, buf, [.read fd (size - buf.length) (.bytes [])]⟩
        else (dict_file_read fd size (buf ++ data) reads).after (.read fd (size - buf.length) (.bytes data))
    else ⟨some buf.length, buf, []⟩

/-- Why a file that was opened gave no dictionary. -/
inductive LoadError where
  | open_failed (error : OpenError)
  | empty
  | too_large (size : Nat)
  | no_memory
  | read_failed
  | ended_early (got size : Nat)
  | close_failed
deriving DecidableEq

/-- `ngx_http_zstd_read_dict_file`. -/
def read_dict_file (K : Kernel) (fd : Fd) (size : Nat) : Except LoadError Bytes × List IoCall :=
  let r := dict_file_read fd size [] K.reads
  match r.ret with
  | none => (.error .read_failed, r.calls)
  | some n => (if n ≠ size then .error (.ended_early n size) else .ok r.buf, r.calls)

/-- The file as `ngx_http_zstd_dcz_dict_file` and `ngx_http_zstd_merge_loc_conf` take it
in, from the open to the close. The two look at the size in opposite order; a file that
is refused is closed by one label at the end. -/
def load_bytes (K : Kernel) (palloc : Nat → Bool) (path : Bytes) (strict : Bool) : Except LoadError Bytes × List IoCall :=
  match open_dict_file K path strict with
  | (.error e, calls) => (.error (.open_failed e), calls)
  | (.ok (fd, info), calls) =>
    let failed e : Except LoadError Bytes × List IoCall := (.error e, calls ++ [.close fd K.close])
    if info.size = 0 then failed .empty
    else if info.size > max_dict_size then failed (.too_large info.size)
    else if ¬ palloc info.size then failed .no_memory
    else
      match read_dict_file K fd info.size with
      | (.error e, reads) => (.error e, calls ++ reads ++ [.close fd K.close])
      | (.ok buf, reads) => (if K.close then .ok buf else .error .close_failed, calls ++ reads ++ [.close fd K.close])

/-! ## What the record shows -/

/-- What a call does with the descriptors. -/
def Call.uses : Call → List (Use Fd)
  | .open_root _ answer => answer.toOption.toList.map .acquire
  | .openat dir _ _ answer => .use dir :: answer.toOption.toList.map .acquire
  | .vet fd _ _ => [.use fd]
  | .close fd => [.release fd]

/-- A descriptor is gone with `close`, whatever that returns. -/
def IoCall.uses : IoCall → List (Use Fd)
  | .walk call => call.uses
  | .open_file _ _ answer => answer.toOption.toList.map .acquire
  | .fd_info fd _ => [.use fd]
  | .getfl fd _ => [.use fd]
  | .setfl fd _ => [.use fd]
  | .read fd _ _ => [.use fd]
  | .close fd _ => [.release fd]

def usesOf (calls : List IoCall) : List (Use Fd) := calls.flatMap IoCall.uses

/-- The bytes a call read. -/
def IoCall.data : IoCall → Bytes
  | .read _ _ (.bytes data) => data
  | _ => []

/-- The bytes read, in order. -/
def dataOf (calls : List IoCall) : Bytes := calls.flatMap IoCall.data

theorem usesOf_append (xs ys : List IoCall) : usesOf (xs ++ ys) = usesOf xs ++ usesOf ys := List.flatMap_append

theorem dataOf_append (xs ys : List IoCall) : dataOf (xs ++ ys) = dataOf xs ++ dataOf ys := List.flatMap_append

theorem usesOf_walk (calls : List Call) : usesOf (calls.map .walk) = calls.flatMap Call.uses := by
  rw [usesOf, List.flatMap_map]
  rfl

theorem dataOf_walk (calls : List Call) : dataOf (calls.map .walk) = [] := by
  simp [dataOf, IoCall.data]

/-! ### The walk -/

/-- Of a directory and what was opened in it the latter is kept. -/
theorem insert_erase_parent (fd : Fd) : (insert (fd + 1) ({fd} : Finset Fd)).erase fd = {fd + 1} := by
  rw [Finset.erase_insert_of_ne (Nat.succ_ne_self fd), Finset.erase_singleton]
  rfl

/-- The loop holds one descriptor at each turn, and in the end the leaf or none. -/
theorem Trail.held {os : Os} {flags : List OFlag} {fd : Fd} {start : Bytes} {calls : List Call} {leaf : Option Fd}
    (h : Trail os flags fd start calls leaf) :
    holding {fd} (calls.flatMap Call.uses) = some leaf.toFinset := by
  induction h with
  | @refused fd start h =>
    show holding {fd} [.release fd] = _
    rw [holding_release (Finset.mem_singleton_self fd)]
    simp
  | @not_opened fd start name rest last err hname =>
    show holding {fd} [.use fd, .release fd] = _
    rw [holding_use (Finset.mem_singleton_self fd), holding_release (Finset.mem_singleton_self fd)]
    simp
  | @leaf fd start name hname h =>
    show holding {fd} [.use fd, .acquire (fd + 1), .release fd] = _
    rw [holding_use (Finset.mem_singleton_self fd), holding_acquire (by simp), holding_release (by simp), insert_erase_parent]
    rfl
  | @not_trusted fd start name rest answer euid hname h =>
    show holding {fd} [.use fd, .acquire (fd + 1), .release fd, .use (fd + 1), .release (fd + 1)] = _
    rw [holding_use (Finset.mem_singleton_self fd), holding_acquire (by simp), holding_release (by simp), insert_erase_parent,
      holding_use (Finset.mem_singleton_self _), holding_release (Finset.mem_singleton_self _)]
    simp
  | @dir fd start start' name answer euid calls leaf hname htail h hrest ih =>
    show holding {fd} (.use fd :: .acquire (fd + 1) :: .release fd :: .use (fd + 1) :: calls.flatMap Call.uses) = _
    rw [holding_use (Finset.mem_singleton_self fd), holding_acquire (by simp), holding_release (by simp), insert_erase_parent,
      holding_use (Finset.mem_singleton_self _), ih]

theorem open_strict_held (os : Os) (flags : List OFlag) {path : Bytes} (hz : 0 ∉ path) :
    holding ∅ ((open_strict os flags path).calls.flatMap Call.uses) = some (open_strict os flags path).fd.toFinset := by
  rcases open_strict_cases os flags hz with ⟨hfd, hcalls, -⟩ | ⟨oflags, err, hfd, hcalls⟩ |
    ⟨oflags, answer, euid, hfd, hcalls, -⟩ | ⟨rest, oflags, answer, euid, calls, -, hcalls, -, htrail⟩
  · rw [hfd, hcalls]
    rfl
  · rw [hfd, hcalls]
    rfl
  · rw [hfd, hcalls]
    show holding ∅ [.acquire 0, .use 0, .release 0] = _
    rw [holding_acquire (Finset.notMem_empty 0), holding_use (by simp), holding_release (by simp)]
    rfl
  · rw [hcalls]
    show holding ∅ (.acquire 0 :: .use 0 :: calls.flatMap Call.uses) = _
    rw [holding_acquire (Finset.notMem_empty 0), holding_use (by simp)]
    exact htrail.held

/-- A strict open that succeeds: the path is strict and every call of the walk went well. -/
theorem open_strict_returns (os : Os) (flags : List OFlag) {path : Bytes} (hz : 0 ∉ path) {fd : Fd}
    (h : (open_strict os flags path).fd = some fd) :
    StrictPath path ∧ ∀ c ∈ (open_strict os flags path).calls, c.Succeeded := by
  rcases open_strict_cases os flags hz with ⟨hfd, -, -⟩ | ⟨oflags, err, hfd, -⟩ | ⟨oflags, answer, euid, hfd, -, -⟩ |
    ⟨rest, oflags, answer, euid, calls, rfl, hcalls, hroot, htrail⟩
  · rw [hfd] at h
    cases h
  · rw [hfd] at h
    cases h
  · rw [hfd] at h
    cases h
  · obtain ⟨hstrict, hall⟩ := htrail.returns.1 (Option.isSome_of_eq_some h)
    refine ⟨strictPath_iff.2 ⟨rest, rfl, hstrict⟩, ?_⟩
    rw [hcalls, List.forall_mem_cons, List.forall_mem_cons]
    exact ⟨⟨0, rfl⟩, hroot, hall⟩

/-! ### Opening -/

/-- The descriptor an open returns. -/
def openedFd {α : Type} (res : Except OpenError α) (fd : α → Fd) : Finset Fd :=
  match res with
  | .ok a => {fd a}
  | .error _ => ∅

theorem open_path_held (K : Kernel) {path : Bytes} (hz : 0 ∉ path) (strict : Bool) :
    holding ∅ (usesOf (open_path K path strict).2) = some (openedFd (open_path K path strict).1 id) := by
  unfold open_path
  cases strict with
  | true =>
    by_cases hw : K.have_strict_walk = true
    · have hheld := open_strict_held K.os [.rdonly, nonblock] hz
      simp only [hw, if_true, usesOf_walk, hheld]
      cases (open_strict K.os [.rdonly, nonblock] path).fd <;> rfl
    · simp only [hw, if_true]
      rfl
  | false =>
    simp only [Bool.false_eq_true, if_false]
    cases K.open_file path [.rdonly, nonblock] with
    | some errno => rfl
    | none => rfl

/-- With the strict flag a descriptor comes from a walk without a fault. -/
theorem open_path_strict {K : Kernel} {path : Bytes} (hz : 0 ∉ path) {fd : Fd} {calls : List IoCall}
    (h : open_path K path true = (.ok fd, calls)) :
    StrictPath path ∧ ∃ walk : List Call, calls = walk.map .walk ∧ ∀ c ∈ walk, c.Succeeded := by
  simp only [open_path, if_true] at h
  split at h
  · obtain ⟨hres, hcalls⟩ := Prod.mk.inj h
    split at hres
    · next fd' hfd =>
      obtain ⟨hstrict, hall⟩ := open_strict_returns K.os [.rdonly, nonblock] hz hfd
      exact ⟨hstrict, _, hcalls.symm, hall⟩
    · cases hres
  · cases (Prod.mk.inj h).1

/-- A leaf that passes the tests. -/
theorem judge_leaf_none {K : Kernel} {strict : Bool} {info : FileInfo} (h : judge_leaf K strict info = none) :
    info.regular = true ∧ (strict = true → info.link = false ∧ Trusted (.ok info.toStat) K.geteuid) := by
  unfold judge_leaf at h
  by_cases hreg : info.regular = true
  · refine ⟨hreg, ?_⟩
    rintro rfl
    simp only [hreg, Bool.not_true, Bool.false_eq_true, if_false, Bool.true_and, Bool.and_eq_true, bne_iff_ne,
      ne_eq] at h
    split at h
    · cases h
    next hlink =>
    split at h
    · cases h
    next howner =>
    split at h
    · cases h
    next hmode =>
    refine ⟨by simpa using hlink, info.toStat, rfl, ?_, (writable_mask_iff _).1 (not_not.1 hmode)⟩
    by_contra hn
    rw [not_or] at hn
    exact howner ⟨hn.2, hn.1⟩
  · simp [hreg] at h

theorem clear_nonblock_uses (K : Kernel) (fd : Fd) :
    usesOf (clear_nonblock K fd) = [.use fd] ∨ usesOf (clear_nonblock K fd) = [.use fd, .use fd] := by
  unfold clear_nonblock
  cases K.getfl with
  | none => exact .inl rfl
  | some oflags => exact .inr rfl

theorem clear_nonblock_data (K : Kernel) (fd : Fd) : dataOf (clear_nonblock K fd) = [] := by
  unfold clear_nonblock
  cases K.getfl <;> rfl

theorem open_path_data (K : Kernel) (path : Bytes) (strict : Bool) : dataOf (open_path K path strict).2 = [] := by
  unfold open_path
  cases strict with
  | true =>
    simp only [if_true]
    split
    · exact dataOf_walk _
    · rfl
  | false =>
    simp only [Bool.false_eq_true, if_false]
    split <;> rfl

/-- A descriptor is returned with the file open, and without one nothing is. -/
theorem open_dict_file_held (K : Kernel) {path : Bytes} (hz : 0 ∉ path) (strict : Bool) :
    holding ∅ (usesOf (open_dict_file K path strict).2) = some (openedFd (open_dict_file K path strict).1 Prod.fst) := by
  have hpath := open_path_held K hz strict
  unfold open_dict_file
  split
  · next e calls hres =>
    rw [hres] at hpath
    exact hpath
  next fd calls hres =>
  rw [hres] at hpath
  have hpath : holding ∅ (usesOf calls) = some {fd} := hpath
  have hclosed : ∀ answer, holding {fd} (usesOf [.fd_info fd answer, .close fd K.close]) = some ∅ := by
    intro answer
    show holding {fd} [.use fd, .release fd] = _
    rw [holding_use (Finset.mem_singleton_self fd), holding_release (Finset.mem_singleton_self fd)]
    simp
  split
  · next errno hinfo =>
    rw [usesOf_append, holding_trans hpath]
    exact hclosed _
  next info hinfo =>
  split
  · next e hjudge =>
    rw [usesOf_append, holding_trans hpath]
    exact hclosed _
  · next hjudge =>
    rw [usesOf_append, holding_trans hpath]
    show holding {fd} (.use fd :: usesOf (clear_nonblock K fd)) = _
    rw [holding_use (Finset.mem_singleton_self fd)]
    rcases clear_nonblock_uses K fd with h | h
    · rw [h, holding_use (Finset.mem_singleton_self fd)]
      rfl
    · rw [h, holding_use (Finset.mem_singleton_self fd), holding_use (Finset.mem_singleton_self fd)]
      rfl

/-- What is known of a file that was opened: it is a regular one, and with the strict
flag neither the path nor the file let another user choose the bytes. -/
structure Opened (K : Kernel) (path : Bytes) (strict : Bool) (info : FileInfo) (calls : List IoCall) : Prop where
  answer : K.fd_info = .ok info
  regular : info.regular = true
  strict : strict = true → StrictPath path ∧ (∀ c, .walk c ∈ calls → c.Succeeded) ∧ info.link = false ∧
    Trusted (.ok info.toStat) K.geteuid

theorem open_dict_file_ok {K : Kernel} {path : Bytes} (hz : 0 ∉ path) {strict : Bool} {fd : Fd} {info : FileInfo}
    {calls : List IoCall} (h : open_dict_file K path strict = (.ok (fd, info), calls)) :
    Opened K path strict info calls ∧ dataOf calls = [] := by
  unfold open_dict_file at h
  have hdata := open_path_data K path strict
  split at h
  · cases (Prod.mk.inj h).1
  next fd' before hpath =>
  split at h
  · cases (Prod.mk.inj h).1
  next info' hinfo =>
  split at h
  · cases (Prod.mk.inj h).1
  next hjudge =>
  obtain ⟨hres, rfl⟩ := Prod.mk.inj h
  cases hres
  rw [hpath] at hdata
  obtain ⟨hreg, hleaf⟩ := judge_leaf_none hjudge
  refine ⟨⟨hinfo, hreg, ?_⟩, ?_⟩
  · rintro rfl
    obtain ⟨hstrict, walk, rfl, hall⟩ := open_path_strict hz hpath
    refine ⟨hstrict, fun c hc => ?_, hleaf rfl⟩
    rcases List.mem_append.1 hc with hc | hc
    · obtain ⟨c', hc', he⟩ := List.mem_map.1 hc
      cases he
      exact hall c hc'
    · unfold clear_nonblock at hc
      split at hc <;> simp at hc
  · rw [dataOf_append, hdata]
    exact clear_nonblock_data K fd

/-! ### The read loop -/

/-- Every call of the loop is a `read` of the descriptor. -/
theorem dict_file_read_held (fd : Fd) (size : Nat) (buf : Bytes) (reads : List ReadAnswer) :
    holding {fd} (usesOf (dict_file_read fd size buf reads).calls) = some {fd} := by
  have hcons : ∀ n a calls, holding {fd} (usesOf calls) = some {fd} →
      holding {fd} (usesOf (.read fd n a :: calls)) = some {fd} :=
    fun n a calls hr => (holding_use (Finset.mem_singleton_self fd)).trans hr
  fun_induction dict_file_read fd size buf reads with
  | case1 buf hd => exact hcons _ _ _ rfl
  | case2 buf hd => rfl
  | case3 buf reads hd ih => exact hcons _ _ _ ih
  | case4 buf reads hd errno => exact hcons _ _ _ rfl
  | case5 buf reads hd data piece hnil => exact hcons _ _ _ rfl
  | case6 buf reads hd data piece hpiece ih => exact hcons _ _ _ ih
  | case7 buf answer reads hd => rfl

/-- The loop stores what it reads, one piece behind the other, and returns its length. -/
theorem dict_file_read_spec (fd : Fd) (size : Nat) (buf : Bytes) (reads : List ReadAnswer) (h : buf.length ≤ size) :
    let r := dict_file_read fd size buf reads
    r.buf = buf ++ dataOf r.calls ∧ r.buf.length ≤ size ∧ ∀ n, r.ret = some n → n = r.buf.length := by
  fun_induction dict_file_read fd size buf reads with
  | case1 buf hd => exact ⟨(List.append_nil buf).symm, h, fun n hn => (by cases hn; rfl)⟩
  | case2 buf hd => exact ⟨(List.append_nil buf).symm, h, fun n hn => (by cases hn; rfl)⟩
  | case3 buf reads hd ih => exact ih h
  | case4 buf reads hd errno => exact ⟨(List.append_nil buf).symm, h, fun n hn => (by cases hn)⟩
  | case5 buf reads hd data piece hnil => exact ⟨(List.append_nil buf).symm, h, fun n hn => (by cases hn; rfl)⟩
  | case6 buf reads hd data piece hpiece ih =>
    have hlen : (buf ++ piece).length ≤ size := by
      rw [List.length_append, List.length_take]
      omega
    obtain ⟨hdata, hle, hret⟩ := ih hlen
    refine ⟨?_, hle, hret⟩
    show (dict_file_read fd size (buf ++ piece) reads).buf = _
    rw [hdata, List.append_assoc]
    rfl
  | case7 buf answer reads hd => exact ⟨(List.append_nil buf).symm, h, fun n hn => (by cases hn; rfl)⟩

/-- The bytes that are returned are those that were read, as many as asked for. -/
theorem read_dict_file_spec (K : Kernel) (fd : Fd) (size : Nat) :
    holding {fd} (usesOf (read_dict_file K fd size).2) = some {fd} ∧
      ∀ buf, (read_dict_file K fd size).1 = .ok buf → buf = dataOf (read_dict_file K fd size).2 ∧ buf.length = size := by
  have hheld := dict_file_read_held fd size [] K.reads
  obtain ⟨hbuf, -, hret⟩ := dict_file_read_spec fd size [] K.reads (Nat.zero_le size)
  unfold read_dict_file
  dsimp only
  split
  · exact ⟨hheld, fun buf h => by cases h⟩
  next n hn =>
  refine ⟨hheld, fun buf h => ?_⟩
  dsimp only at h
  split at h
  · cases h
  next heq =>
  cases h
  exact ⟨hbuf, (hret n hn).symm.trans (not_not.1 heq)⟩

/-- The loop makes no call of the walk. -/
theorem read_dict_file_no_walk (K : Kernel) (fd : Fd) (size : Nat) (c : Call) :
    .walk c ∉ (read_dict_file K fd size).2 := by
  have hloop : ∀ buf reads, .walk c ∉ (dict_file_read fd size buf reads).calls := by
    intro buf reads
    fun_induction dict_file_read fd size buf reads with
    | case1 buf hd => simp
    | case2 buf hd => simp
    | case3 buf reads hd ih => simpa [FileRead.after] using ih
    | case4 buf reads hd errno => simp
    | case5 buf reads hd data piece hnil => simp
    | case6 buf reads hd data piece hpiece ih => simpa [FileRead.after] using ih
    | case7 buf answer reads hd => simp
  unfold read_dict_file
  dsimp only
  split
  · exact hloop [] K.reads
  · exact hloop [] K.reads

/-- What a load comes to, behind the open. -/
theorem load_bytes_cases (K : Kernel) (palloc : Nat → Bool) (path : Bytes) (strict : Bool) :
    (∃ e, (open_dict_file K path strict).1 = .error e ∧
      load_bytes K palloc path strict = (.error (.open_failed e), (open_dict_file K path strict).2)) ∨
    ∃ fd info, (open_dict_file K path strict).1 = .ok (fd, info) ∧
      ((∃ e, load_bytes K palloc path strict = (.error e, (open_dict_file K path strict).2 ++ [.close fd K.close])) ∨
        0 < info.size ∧ info.size ≤ max_dict_size ∧ (load_bytes K palloc path strict).2 =
          (open_dict_file K path strict).2 ++ (read_dict_file K fd info.size).2 ++ [.close fd K.close] ∧
        (load_bytes K palloc path strict).1 = match (read_dict_file K fd info.size).1 with
          | .error e => .error e
          | .ok buf => if K.close then .ok buf else .error .close_failed) := by
  unfold load_bytes
  split
  · next e calls hopen => exact .inl ⟨e, by rw [hopen], by rw [hopen]⟩
  next fd info calls hopen =>
  refine .inr ⟨fd, info, by rw [hopen], ?_⟩
  rw [hopen]
  dsimp only
  split
  · exact .inl ⟨_, rfl⟩
  next h0 =>
  split
  · exact .inl ⟨_, rfl⟩
  next hmax =>
  split
  · exact .inl ⟨_, rfl⟩
  right
  generalize read_dict_file K fd info.size = res
  obtain ⟨res, reads⟩ := res
  cases res with
  | error e => exact ⟨by omega, by omega, rfl, rfl⟩
  | ok buf => exact ⟨by omega, by omega, rfl, rfl⟩

/-- Whatever the kernel answers, the load leaves no descriptor open, closes none twice
and touches none that is not open; and what it returns are the bytes that were read,
in order, all of a regular file of an admitted size, which with the strict flag nobody
but root and the loading user could have chosen. -/
theorem load_bytes_spec (K : Kernel) (palloc : Nat → Bool) {path : Bytes} (hz : 0 ∉ path) (strict : Bool) :
    holding ∅ (usesOf (load_bytes K palloc path strict).2) = some ∅ ∧
    ∀ buf, (load_bytes K palloc path strict).1 = .ok buf → ∃ fd info, (read_dict_file K fd info.size).1 = .ok buf ∧
      buf = dataOf (load_bytes K palloc path strict).2 ∧ buf.length = info.size ∧ 0 < info.size ∧
      info.size ≤ max_dict_size ∧ Opened K path strict info (load_bytes K palloc path strict).2 := by
  have hopen := open_dict_file_held K hz strict
  rcases load_bytes_cases K palloc path strict with ⟨e, hres, hload⟩ | ⟨fd, info, hres, hload⟩
  · rw [hload, hopen, hres]
    exact ⟨rfl, fun buf h => by cases h⟩
  rw [hres] at hopen
  have hopen : holding ∅ (usesOf (open_dict_file K path strict).2) = some {fd} := hopen
  have hclose : holding {fd} (usesOf [.close fd K.close]) = some ∅ := by
    show holding {fd} [.release fd] = _
    rw [holding_release (Finset.mem_singleton_self fd)]
    simp
  rcases hload with ⟨e, hload⟩ | ⟨hpos, hmax, hcalls, hret⟩
  · rw [hload]
    refine ⟨?_, fun buf h => by cases h⟩
    rw [usesOf_append, holding_trans hopen]
    exact hclose
  obtain ⟨hread, hbytes⟩ := read_dict_file_spec K fd info.size
  rw [hcalls, hret]
  refine ⟨?_, fun buf h => ?_⟩
  · rw [usesOf_append, usesOf_append, List.append_assoc, holding_trans hopen, holding_trans hread]
    exact hclose
  obtain ⟨hopened, hdata⟩ := open_dict_file_ok hz (Prod.ext hres rfl)
  split at h
  · cases h
  next buf' hok =>
  split at h
  swap
  · cases h
  cases h
  obtain ⟨hbuf, hlen⟩ := hbytes buf hok
  refine ⟨fd, info, hok, ?_, hlen, hpos, hmax, hopened.answer, hopened.regular, fun hs => ?_⟩
  · rw [dataOf_append, dataOf_append, hdata, List.nil_append, ← hbuf]
    exact (List.append_nil buf).symm
  · obtain ⟨hstrict, hwalk, hleaf⟩ := hopened.strict hs
    refine ⟨hstrict, fun c hc => hwalk c ?_, hleaf⟩
    rcases List.mem_append.1 hc with hc | hc
    · rcases List.mem_append.1 hc with hc | hc
      · exact hc
      · exact absurd hc (read_dict_file_no_walk K fd info.size c)
    · simp at hc

/-- A strict load of three bytes that come in two pieces, behind an interruption. -/
def threeBytes : Kernel where
  os := ⟨fun _ _ => none, fun _ _ _ _ => none, fun _ _ => .ok ⟨0, 0o755⟩, fun _ => 1000, true⟩
  have_strict_walk := true
  open_file _ _ := none
  fd_info := .ok ⟨⟨0, 0o644⟩, true, false, 3⟩
  geteuid := 1000
  getfl := none
  reads := [.eintr, .bytes [1], .bytes [2, 3]]
  close := true

theorem read_size (K : Kernel) (fd : Fd) (size : Nat) (buf : Bytes)
    (h : (read_dict_file K fd size).1.toOption = some buf) : buf.length = size := by
  cases hres : (read_dict_file K fd size).1 with
  | error e =>
    rw [hres] at h
    cases h
  | ok buf' =>
    rw [hres] at h
    cases h
    exact ((read_dict_file_spec K fd size).2 _ hres).2

/-- The file as the directives see it. -/
def Kernel.dict_fd (K : Kernel) (path : Bytes) (strict : Bool) : Option DictFd :=
  match (open_dict_file K path strict).1 with
  | .error _ => none
  | .ok (fd, info) => some ⟨info.size, (read_dict_file K fd info.size).1.toOption, K.close, read_size K fd info.size⟩

/-- The message of `zstd_dcz_dict_file`. -/
def LoadError.conf (path : Bytes) : LoadError → ConfError
  | .open_failed _ => .open_failed path
  | .empty => .empty path
  | .too_large size => .too_large path size
  | .no_memory => .no_memory
  | .read_failed => .read_failed path
  | .ended_early _ _ => .read_failed path
  | .close_failed => .close_failed path

/-- The message of `zstd_dict_file`. -/
def LoadError.trained (path : Bytes) : LoadError → TrainedError
  | .open_failed _ => .open_failed
  | .empty => .empty path
  | .too_large size => .too_large size
  | .no_memory => .no_memory
  | .read_failed => .read_failed
  | .ended_early _ _ => .read_failed
  | .close_failed => .close_failed path

theorem read_dict_file_error {K : Kernel} {fd : Fd} {size : Nat} {e : LoadError} {reads : List IoCall}
    (h : read_dict_file K fd size = (.error e, reads)) : e = .read_failed ∨ ∃ got size, e = .ended_early got size := by
  unfold read_dict_file at h
  dsimp only at h
  split at h
  · cases h
    exact .inl rfl
  · obtain ⟨h, -⟩ := Prod.mk.inj h
    split at h
    · cases h
      exact .inr ⟨_, _, rfl⟩
    · cases h

/-- The load through what the directives see of the file, for messages that tell neither
two failed opens nor a short file from a failed read. -/
theorem load_bytes_mapError {ε : Type} {f : LoadError → ε} (hopen : ∀ e e', f (.open_failed e) = f (.open_failed e'))
    (hread : ∀ got size, f (.ended_early got size) = f .read_failed) (K : Kernel) (palloc : Nat → Bool) (path : Bytes)
    (strict : Bool) :
    (load_bytes K palloc path strict).1.mapError f = match K.dict_fd path strict with
      | none => .error (f (.open_failed .unsupported))
      | some fd =>
        if fd.size = 0 then .error (f .empty)
        else if fd.size > max_dict_size then .error (f (.too_large fd.size))
        else if ¬ palloc fd.size then .error (f .no_memory)
        else
          match fd.read with
          | none => .error (f .read_failed)
          | some bytes => if fd.close then .ok bytes else .error (f .close_failed) := by
  unfold load_bytes Kernel.dict_fd
  cases hres : open_dict_file K path strict with
  | mk res calls =>
    cases res with
    | error e => exact congrArg Except.error (hopen e .unsupported)
    | ok opened =>
      obtain ⟨fd, info⟩ := opened
      dsimp only
      split
      · rfl
      split
      · rfl
      split
      · rfl
      obtain ⟨res, reads, hr⟩ : ∃ res reads, read_dict_file K fd info.size = (res, reads) := ⟨_, _, rfl⟩
      simp only [hr]
      cases res with
      | ok buf => cases K.close <;> rfl
      | error e =>
        rcases read_dict_file_error hr with rfl | ⟨got, size, rfl⟩
        · rfl
        · exact congrArg Except.error (hread got size)

/-- `zstd_dcz_dict_file` takes its file in like this. -/
theorem read_dict_eq {K : Kernel} {L : Loader} {path : Bytes} {strict : Bool}
    (hL : L.open_dict_file path strict = K.dict_fd path strict) :
    read_dict L path strict = (load_bytes K L.palloc path strict).1.mapError (LoadError.conf path) := by
  rw [load_bytes_mapError (fun _ _ => rfl) fun _ _ => rfl, read_dict, hL]
  cases K.dict_fd path strict with
  | none => rfl
  | some fd => rfl

/-- And so does `zstd_dict_file`, for the first location that needs the bytes. -/
theorem load_dict_buf_eq {K : Kernel} {E : TrainedLib} {s : Trained} {strict : Bool} (hs : s.dict_buf = none)
    (hE : E.open_dict_file s.opens = K.dict_fd E.dict_file strict) :
    (load_dict_buf E s).map Prod.fst =
      (load_bytes K (fun _ => E.pool s.calls) E.dict_file strict).1.mapError (LoadError.trained E.dict_file) := by
  rw [load_bytes_mapError (fun _ _ => rfl) fun _ _ => rfl, load_dict_buf, hs]
  dsimp only
  rw [hE]
  cases K.dict_fd E.dict_file strict with
  | none => rfl
  | some fd =>
    dsimp only
    by_cases h0 : fd.size = 0
    · have hmax : ¬fd.size > max_dict_size := by
        rw [h0]
        exact Nat.not_lt_zero _
      simp only [if_pos h0, if_neg hmax]
      rfl
    by_cases hmax : fd.size > max_dict_size
    · simp only [if_neg h0, if_pos hmax]
      rfl
    simp only [if_neg h0, if_neg hmax, Trained.alloc]
    cases E.pool s.calls with
    | false => rfl
    | true =>
      simp only [if_true, not_true_eq_false, if_false]
      cases fd.read with
      | none => rfl
      | some buf => cases fd.close <;> rfl

end NginxZstd
