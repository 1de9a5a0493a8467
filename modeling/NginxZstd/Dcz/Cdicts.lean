import Mathlib.Data.List.Nodup
import NginxZstd.Conf
import NginxZstd.Window
/-!
# Prepared dcz dictionaries

At config load `dcz_build_cdicts` walks every window a request could ask for and
prepares a CDict for each that fits the cycle's byte limit; at request time
`dcz_cdict_lookup` asks for one `(level, window)`. The model keeps a log of what
became of every candidate, so that "was considered" is a statement about the
loop and not about its result.
-/

namespace NginxZstd

open Lib

/-- `NGX_HTTP_ZSTD_DCZ_CDICT_CACHE_BYTES`. -/
def dcz_cdict_cache_bytes : Nat := 64 * 1024 * 1024

/-- `ngx_http_zstd_dcz_cdict_lookup`. -/
def dcz_cdict_lookup (dict : DczDict) (level window_log : Int) (long_mode : Bool) (target_cblock_size : Int) :
    Option CDict :=
  if long_mode ∨ target_cblock_size > 0 then none
  else
    match dict.cdicts with
    | none => none
    | some entries => (entries.find? fun e => e.level == level && e.window_log == window_log).map (·.dict)

/-! ## Building -/

/-- The libzstd and pool calls of the build: the size estimate and the creation at
a level and a window, the measured size, and whether the pool grants its
allocations. -/
structure CdictLib where
  estimate : (dict_len : Nat) → (level window_log : Int) → Nat
  create : Bytes → (level window_log : Int) → Option CDict
  sizeof : CDict → Nat
  array_create : Bool
  cleanup_add : (window_log : Int) → Bool
  array_push : (window_log : Int) → Bool

/-- The cycle's share in `ngx_http_zstd_main_conf_t`. -/
structure CdictCache where
  dcz_cdict_bytes : Nat
  dcz_cdict_cache_warned : Bool

inductive CdictError where
  | no_memory
  | create_failed (file : Bytes) (level window_log : Int)
  | cleanup_failed (file : Bytes)

/-- What became of one candidate. -/
inductive Outcome where
  | present
  | over_estimate
  | over_size
  | built
deriving DecidableEq

/-- The candidate has a prepared dictionary. -/
def Outcome.kept : Outcome → Bool
  | .present | .built => true
  | .over_estimate | .over_size => false

/-- `ngx_http_zstd_dcz_cdict_cache_warn`. -/
def dcz_cdict_cache_warn (zmcf : CdictCache) : CdictCache := { zmcf with dcz_cdict_cache_warned := true }

/-- `NGX_HTTP_ZSTD_DCZ_CDICT_CACHE_BYTES - zmcf->dcz_cdict_bytes`, in `size_t`. -/
def remaining (A : Abi) (dcz_cdict_bytes : Nat) : Nat :=
  (dcz_cdict_cache_bytes + 2 ^ A.size_bits - dcz_cdict_bytes) % 2 ^ A.size_bits

/-- `ngx_array_push` of one entry. -/
def push_entry (dict : DczDict) (e : DczCdictEntry) : DczDict :=
  { dict with cdicts := some (dict.cdicts.getD [] ++ [e]) }

/-- One pass of the inner loop. -/
def build_candidate (A : Abi) (Z : CdictLib) (conf : LocConf) (dict : DczDict) (zmcf : CdictCache) (wlog : Int) :
    Except CdictError (DczDict × CdictCache × Outcome) :=
  if (dcz_cdict_lookup dict conf.level wlog conf.long_mode conf.target_cblock_size).isSome then
    .ok (dict, zmcf, .present)
  else if Z.estimate dict.bytes.length conf.level wlog > remaining A zmcf.dcz_cdict_bytes then
    .ok (dict, dcz_cdict_cache_warn zmcf, .over_estimate)
  else
    match Z.create dict.bytes conf.level wlog with
    | none => .error (.create_failed dict.file conf.level wlog)
    | some cdict =>
      if Z.sizeof cdict > remaining A zmcf.dcz_cdict_bytes then
        .ok (dict, dcz_cdict_cache_warn zmcf, .over_size)
      else if ¬ Z.cleanup_add wlog then .error (.cleanup_failed dict.file)
      else if ¬ Z.array_push wlog then .error .no_memory
      else
        .ok (push_entry dict ⟨conf.level, wlog, cdict⟩,
          { zmcf with dcz_cdict_bytes := (zmcf.dcz_cdict_bytes + Z.sizeof cdict) % 2 ^ A.size_bits }, .built)

/-- `for (wlog = min_wlog; wlog <= max_wlog; wlog++)`. -/
def windows (lo hi : Int) : List Int := (List.range (hi - lo + 1).toNat).map fun i : Nat => lo + (i : Int)

def build_windows (A : Abi) (Z : CdictLib) (conf : LocConf) :
    DczDict → CdictCache → List Int → Except CdictError (DczDict × CdictCache × List (Int × Outcome))
  | dict, zmcf, [] => .ok (dict, zmcf, [])
  | dict, zmcf, wlog :: ws => do
    let (dict, zmcf, o) ← build_candidate A Z conf dict zmcf wlog
    let (dict, zmcf, log) ← build_windows A Z conf dict zmcf ws
    return (dict, zmcf, (wlog, o) :: log)

/-- One dictionary of the outer loop. -/
def build_dict (A : Abi) (Z : CdictLib) (conf : LocConf) (dict : DczDict) (zmcf : CdictCache) :
    Except CdictError (DczDict × CdictCache × List (Int × Outcome)) :=
  let (min_wlog, max_wlog) := dcz_cdict_window_range A dict.bytes.length conf.window_log conf.dcz_window_cap
  if dict.cdicts = none ∧ ¬ Z.array_create then .error .no_memory
  else build_windows A Z conf { dict with cdicts := some (dict.cdicts.getD []) } zmcf (windows min_wlog max_wlog)

def build_dicts (A : Abi) (Z : CdictLib) (conf : LocConf) :
    List DczDict → CdictCache → Except CdictError (List DczDict × CdictCache × List (List (Int × Outcome)))
  | [], zmcf => .ok ([], zmcf, [])
  | d :: ds, zmcf => do
    let (d, zmcf, log) ← build_dict A Z conf d zmcf
    let (ds, zmcf, logs) ← build_dicts A Z conf ds zmcf
    return (d :: ds, zmcf, log :: logs)

/-- `ngx_http_zstd_dcz_build_cdicts`: the dictionaries afterwards, and for each the
candidates it went through. -/
def dcz_build_cdicts (A : Abi) (Z : CdictLib) (conf : LocConf) (zmcf : CdictCache) :
    Except CdictError (List DczDict × CdictCache × List (List (Int × Outcome))) :=
  let dicts := conf.dcz_dicts.getD []
  if ¬ conf.enable ∨ dicts = [] then .ok (dicts, zmcf, [])
  else if conf.long_mode ∨ conf.target_cblock_size > 0 then .ok (dicts, zmcf, [])
  else build_dicts A Z conf dicts zmcf

/-! ## What one candidate does -/

section Lookup

variable {conf : LocConf} (hl : conf.long_mode = false) (ht : conf.target_cblock_size ≤ 0)
include hl ht

end Lookup

/-! ## Load time and request time -/

end NginxZstd
