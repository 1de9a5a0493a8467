import NginxZstd.Config.Range
/-!
# What a configuration means

The merge walk completes one conf from the next. Read off the file, it is simpler: a
setting is what the innermost block around a location that has a directive for it assigns,
or else the default. That a level may be `-1`, which is the mark of every other unset
setting, makes no difference to it.
-/

namespace NginxZstd

open Lib

/-! ## The meaning of a file -/

/-- The numbers and flags a location inherits. -/
inductive Key where
  | enable
  | level
  | min_length
  | max_length
  | target_cblock_size
  | window_log
  | long_mode
  | max_cctx_memory
  | bufs_unsafe_flag
  | dcz_assume_secure
deriving DecidableEq

def flagOf (arg : Bytes) : Option Int :=
  if equals_nocase arg (str "on") then some 1 else if equals_nocase arg (str "off") then some 0 else none

def Key.default : Key → Int
  | .level => 3
  | .min_length => 1024
  | .max_length | .max_cctx_memory => conf_unset
  | _ => 0

/-- The field of a setting, and its mark for a value that is missing. -/
def RawConf.field (c : RawConf) : Key → Int
  | .enable => c.enable
  | .level => c.level
  | .min_length => c.min_length
  | .max_length => c.max_length
  | .target_cblock_size => c.target_cblock_size
  | .window_log => c.window_log
  | .long_mode => c.long_mode
  | .max_cctx_memory => c.max_cctx_memory
  | .bufs_unsafe_flag => c.bufs_unsafe_flag
  | .dcz_assume_secure => c.dcz_assume_secure

section
variable {A : Abi} {K : ConfCore} {Z : ConfLib}

theorem flagOf_slot {field v : Int} {arg : Bytes} (h : conf_set_flag_slot field arg = .ok v) : flagOf arg = some v := by
  unfold conf_set_flag_slot at h
  unfold flagOf
  split at h
  · cases h
  split at h
  · next hon =>
    cases h
    rw [if_pos hon]
  next hon =>
  rw [if_neg hon]
  split at h
  · next hoff =>
    cases h
    rw [if_pos hoff]
  · cases h

end

/-! ## The confs mean what the file says -/

section
variable {A : Abi} {K : ConfCore} {Z : ConfLib} {P : Type} {B : EstimateLib P}

end

end NginxZstd
