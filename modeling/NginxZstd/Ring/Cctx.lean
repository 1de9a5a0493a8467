import Mathlib.Data.List.FinRange
import Mathlib.Logic.Function.Basic
import NginxZstd.Dcz.Cdicts
import NginxZstd.HeaderFilter
import NginxZstd.Ring.Profile
/-!
# Compression contexts

A request's compression context comes from the worker's ring of cached contexts
or is created for it alone; it is configured on first body data and given back at
the end of the stream or by the request pool's cleanup, whichever comes first.
What libzstd and the pool answer is an argument of the call, so that every
failure is a case of the model.
-/

namespace NginxZstd

open Lib

/-- A `ZSTD_CCtx` handle. -/
abbrev CCtx := Nat

abbrev ReqId := Nat

inductive Status where
  | ok
  | error
deriving DecidableEq

/-- `ngx_http_zstd_cctx_slot_t`. -/
structure CctxSlot where
  cctx : Option CCtx
  key : Nat
  busy : Bool

/-! ## libzstd -/

inductive CParameter where
  | compressionLevel
  | targetCBlockSize
  | enableLongDistanceMatching
  | windowLog
  | checksumFlag
deriving DecidableEq

inductive DictRef where
  | cdict (dict : CDict)
  | raw (bytes : Bytes)
deriving DecidableEq

/-- What is set on a context; `none` is libzstd's default. -/
@[ext]
structure Settings where
  param : CParameter → Option Int
  dict : Option DictRef
  pledged : Option Int

def Settings.default : Settings := ⟨fun _ => none, none, none⟩

def Settings.setParameter (s : Settings) (param : CParameter) (value : Int) : Settings :=
  { s with param := Function.update s.param param (some value) }

/-- `ZSTD_reset_session_only`: the parameters and the dictionary stay. -/
def Settings.reset_session (s : Settings) : Settings := { s with pledged := none }

/-- What the pool and libzstd answer during one call of `init_cctx`. Each call is
made at most once, `setParameter` once for each parameter. -/
structure Answers where
  cleanup_add : Bool
  createCCtx : Option CCtx
  reset : Bool
  setParameter : CParameter → Bool
  refDict : Bool
  setPledgedSrcSize : Bool

/-! ## The ring and a request -/

/-- The worker's slots, with what libzstd has been asked: the contexts created and
for which request, the calls of `ZSTD_freeCCtx`, and every context's settings. -/
structure Ring (n : Nat) where
  slots : Fin n → CctxSlot
  created : List (CCtx × ReqId)
  freed : List CCtx
  settings : CCtx → Settings

/-- The ring of a new worker: static storage, all zero. -/
def Ring.empty (n : Nat) : Ring n :=
  ⟨fun _ => ⟨none, 0, false⟩, [], [], fun _ => Settings.default⟩

/-- A request with its context: what the header filter left in it, the location it
is served from, and the number of cleanup handlers in its pool. `ended` is set
when the pool is destroyed. -/
structure Req (n : Nat) extends FilterCtx where
  zlcf : LocConf
  cctx : Option CCtx
  lender : Option (Fin n)
  dcz_window_log_cache : Int
  cleanups : Nat
  ended : Bool

/-- The context as the header filter allocates it. -/
def Req.start (n : Nat) (zlcf : LocConf) (ctx : FilterCtx) : Req n where
  toFilterCtx := ctx
  zlcf := zlcf
  cctx := none
  lender := none
  dcz_window_log_cache := 0
  cleanups := 0
  ended := false

variable {n : Nat}

/-! ## Acquiring -/

/-- Fill `dcz_window_log_cache` on a dcz request, once. -/
def fill_window_log_cache (A : Abi) (q : Req n) : Req n :=
  match q.dcz_dict with
  | some dict =>
    if q.dcz_window_log_cache = 0 then
      { q with dcz_window_log_cache :=
          dcz_window_log A dict.bytes.length q.pledged_size q.zlcf.window_log q.zlcf.dcz_window_cap }
    else q
  | none => q

def eff_window_log (q : Req n) : Int :=
  match q.dcz_dict with
  | some _ => q.dcz_window_log_cache
  | none => q.zlcf.window_log

/-- The walk over the slots: the first idle slot built for `key`, and the first
empty one seen before it. -/
def find_slot (slots : Fin n → CctxSlot) (key : Nat) :
    List (Fin n) → Option (Fin n) → Option (Fin n) × Option (Fin n)
  | [], free_slot => (none, free_slot)
  | i :: is, free_slot =>
    if (slots i).busy then find_slot slots key is free_slot
    else if (slots i).cctx = none then
      find_slot slots key is (if free_slot = none then some i else free_slot)
    else if (slots i).key = key then (some i, free_slot)
    else find_slot slots key is free_slot

def borrow_slot (ring : Ring n) (q : Req n) (i : Fin n) : Ring n × Req n :=
  ({ ring with slots := Function.update ring.slots i { ring.slots i with busy := true } },
    { q with cctx := (ring.slots i).cctx, lender := some i })

/-- The part behind `ctx->lender == NULL`: a fresh context, and the seeding of the
free slot. -/
def create_cctx (ans : Answers) (ring : Ring n) (r : ReqId) (q : Req n) (free_slot : Option (Fin n)) :
    Status × Ring n × Req n :=
  match ans.createCCtx with
  | none => (.error, ring, { q with cctx := none })
  | some c =>
    let ring := { ring with
      created := (c, r) :: ring.created
      settings := Function.update ring.settings c Settings.default }
    let key := cctx_profile_from_conf_wlog q.zlcf (eff_window_log q)
    match free_slot with
    | none => (.ok, ring, { q with cctx := some c })
    | some i =>
      if key ≠ profile_invalid then
        (.ok, { ring with slots := Function.update ring.slots i ⟨some c, key, true⟩ },
          { q with cctx := some c, lender := some i })
      else (.ok, ring, { q with cctx := some c })

/-- `ngx_http_zstd_acquire_cctx` behind the registered cleanup. -/
def acquire_registered (ans : Answers) (ring : Ring n) (r : ReqId) (q : Req n) : Status × Ring n × Req n :=
  let found := find_slot ring.slots (cctx_profile_from_conf_wlog q.zlcf (eff_window_log q)) (List.finRange n) none
  let lent := match found.1 with
    | some i => borrow_slot ring q i
    | none => (ring, q)
  if lent.2.lender = none then create_cctx ans lent.1 r lent.2 found.2 else (.ok, lent)

/-- `ngx_http_zstd_acquire_cctx`. -/
def acquire_cctx (A : Abi) (ans : Answers) (ring : Ring n) (r : ReqId) (q : Req n) : Status × Ring n × Req n :=
  if ans.cleanup_add then
    acquire_registered ans ring r (fill_window_log_cache A { q with cleanups := q.cleanups + 1 })
  else (.error, ring, q)

/-! ## Configuring -/

/-- The parameter section of `init_cctx`, over the settings of the context and the
request. An error keeps what was set before it. -/
abbrev Setup (n : Nat) := EStateM Unit (Settings × Req n)

/-- The `(int)` cast in front of `ZSTD_CCtx_setParameter`. -/
def c_int (v : Int) : Int := v.bmod (2 ^ 32)

def Setup.settings (f : Settings → Settings) : Setup n Unit := fun s => .ok () (f s.1, s.2)

def Setup.fail : Setup n Unit := fun s => .error () s

/-- `ngx_http_zstd_set_param`. -/
def set_param (ans : Answers) (param : CParameter) (value : Int) : Setup n Unit :=
  if ans.setParameter param then Setup.settings (·.setParameter param (c_int value)) else Setup.fail

def reset_cctx (ans : Answers) : Setup n Unit :=
  if ans.reset then Setup.settings fun _ => Settings.default else Setup.fail

def set_level (ans : Answers) (q : Req n) : Setup n Unit :=
  if q.zlcf.dict = none ∨ q.dcz_dict ≠ none then set_param ans .compressionLevel q.zlcf.level else pure ()

def set_target_cblock_size (ans : Answers) (q : Req n) : Setup n Unit :=
  if q.zlcf.target_cblock_size > 0 then set_param ans .targetCBlockSize q.zlcf.target_cblock_size else pure ()

def set_long_mode (ans : Answers) (q : Req n) : Setup n Unit :=
  if q.zlcf.long_mode then set_param ans .enableLongDistanceMatching 1 else pure ()

def set_window_log (ans : Answers) (q : Req n) : Setup n Unit :=
  if q.zlcf.window_log > 0 ∧ q.dcz_dict = none then set_param ans .windowLog q.zlcf.window_log else pure ()

def ref_dict (ans : Answers) (dict : DictRef) : Setup n Unit :=
  if ans.refDict then Setup.settings fun s => { s with dict := some dict } else Setup.fail

/-- The memoised window on a dcz context. -/
def set_dcz_window (A : Abi) (ans : Answers) : Setup n Unit := fun s =>
  let q := fill_window_log_cache A s.2
  set_param ans .windowLog q.dcz_window_log_cache (s.1, q)

/-- The CDict prepared for the window, or else the raw bytes. -/
def dcz_ref (dict : DczDict) (zlcf : LocConf) (wlog : Int) : DictRef :=
  match dcz_cdict_lookup dict zlcf.level wlog zlcf.long_mode zlcf.target_cblock_size with
  | some cdict => .cdict cdict
  | none => .raw dict.bytes

def ref_dcz (ans : Answers) (dict : DczDict) : Setup n Unit := fun s =>
  ref_dict ans (dcz_ref dict s.2.zlcf s.2.dcz_window_log_cache) s

/-- The dcz branch, with the content checksum. -/
def set_dcz (A : Abi) (ans : Answers) (dict : DczDict) : Setup n Unit := do
  set_dcz_window A ans
  ref_dcz ans dict
  set_param ans .checksumFlag 1

def set_dict (A : Abi) (ans : Answers) (q : Req n) : Setup n Unit :=
  match q.dcz_dict, q.zlcf.dict with
  | some dict, _ => set_dcz A ans dict
  | none, some dict => ref_dict ans (.cdict dict)
  | none, none => pure ()

/-- A pledge that libzstd refuses is ignored. -/
def set_pledged (ans : Answers) (q : Req n) : Setup n Unit :=
  if q.pledged_size ≥ 0 ∧ ans.setPledgedSrcSize then
    Setup.settings fun s => { s with pledged := some q.pledged_size }
  else pure ()

def set_params (A : Abi) (ans : Answers) (q : Req n) : Setup n Unit := do
  reset_cctx ans
  set_level ans q
  set_target_cblock_size ans q
  set_long_mode ans q
  set_window_log ans q
  set_dict A ans q
  set_pledged ans q

/-- `ngx_http_zstd_filter_init_cctx` once the request has a context. -/
def configure_cctx (A : Abi) (ans : Answers) (ring : Ring n) (q : Req n) (cctx : CCtx) : Status × Ring n × Req n :=
  match set_params A ans q (ring.settings cctx, q) with
  | .ok _ (s, q) => (.ok, { ring with settings := Function.update ring.settings cctx s }, q)
  | .error _ (s, q) => (.error, { ring with settings := Function.update ring.settings cctx s }, q)

/-- `ngx_http_zstd_filter_init_cctx`. -/
def init_cctx (A : Abi) (ans : Answers) (ring : Ring n) (r : ReqId) (q : Req n) : Status × Ring n × Req n :=
  match q.cctx with
  | some cctx => configure_cctx A ans ring q cctx
  | none =>
    match acquire_cctx A ans ring r q with
    | (.error, ring, q) => (.error, ring, q)
    | (.ok, ring, q) =>
      match q.cctx with
      | some cctx => configure_cctx A ans ring q cctx
      | none => (.error, ring, q)

/-! ## Giving back -/

/-- `ngx_http_zstd_return_cctx`. -/
def return_cctx (ring : Ring n) (q : Req n) : Ring n × Req n :=
  match q.cctx, q.lender with
  | none, _ => (ring, q)
  | some c, some i =>
    if (ring.slots i).cctx ≠ none then
      ({ ring with
          settings := Function.update ring.settings c (ring.settings c).reset_session
          slots := Function.update ring.slots i { ring.slots i with busy := false } },
        { q with cctx := none, lender := none })
    else (ring, { q with cctx := none, lender := none })
  | some c, none => ({ ring with freed := c :: ring.freed }, { q with cctx := none, lender := none })

/-- The pool's cleanup chain, every handler of it `ngx_http_zstd_cleanup_ctx`. -/
def run_cleanups : Nat → Ring n × Req n → Ring n × Req n
  | 0, s => s
  | k + 1, s => run_cleanups k (return_cctx s.1 s.2)

/-- One iteration of `ngx_http_zstd_exit_process`. -/
def exit_slot (ring : Ring n) (i : Fin n) : Ring n :=
  match (ring.slots i).cctx with
  | some c =>
    { ring with
      freed := c :: ring.freed
      slots := Function.update ring.slots i { ring.slots i with cctx := none, busy := false } }
  | none => { ring with slots := Function.update ring.slots i { ring.slots i with busy := false } }

/-- `ngx_http_zstd_exit_process`. -/
def exit_process (ring : Ring n) : Ring n := (List.finRange n).foldl exit_slot ring

end NginxZstd
