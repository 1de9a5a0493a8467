import NginxZstd.Config.Slots
import NginxZstd.Lib.Layers
/-!
# Loading a configuration

The settings of a location over the tree of blocks: a block starts with a conf of
unset marks, its directives fill it in, and `merge_loc_conf` completes it from the
conf around it. The dictionaries of a block have models of their own; what is left
of them here is the acknowledgement `zstd_dict_file` asks for.
-/

namespace NginxZstd

open Lib

/-- What a block is, to the directives that may stand in it. An `if` inside a location
admits `zstd` alone; the other blocks, such as `limit_except`, admit none. -/
inductive BlockKind where
  | http
  | server
  | location
  | location_if
  | other
deriving DecidableEq

/-- The directives of the module with their arguments, except those of the dcz
dictionaries and `zstd_types`. -/
inductive Setting where
  | zstd (arg : Bytes)
  | zstd_comp_level (arg : Bytes)
  | zstd_buffers (num size : Bytes)
  | zstd_buffers_unsafe_flag (arg : Bytes)
  | zstd_min_length (arg : Bytes)
  | zstd_max_length (arg : Bytes)
  | zstd_target_cblock_size (arg : Bytes)
  | zstd_window_log (arg : Bytes)
  | zstd_long (arg : Bytes)
  | zstd_max_cctx_memory (arg : Bytes)
  | zstd_bypass (args : List Bytes)
  | zstd_bypass_vary (arg : Bytes)
  | zstd_dcz_assume_secure_transport (arg : Bytes)
  | zstd_dict_file (arg : Bytes)
  | zstd_dict_file_unsafe_flag (arg : Bytes)

/-- A compiled `ngx_http_complex_value_t` with its text. -/
structure Predicate where
  value : Bytes
  eval : Request → Option Bytes

/-- `ngx_http_zstd_loc_conf_t` with its marks for what is unset: `NGX_CONF_UNSET`, the
level's own mark, `none` for `NGX_CONF_UNSET_PTR` and the null string. -/
structure RawConf where
  enable : Int
  level : Int
  min_length : Int
  max_length : Int
  target_cblock_size : Int
  window_log : Int
  long_mode : Int
  max_cctx_memory : Int
  dcz_window_cap : Int
  bufs : RawBufs
  bufs_unsafe_flag : Int
  bypass : Option (List Predicate)
  bypass_vary : Option Token
  dcz_assume_secure : Int

/-- `ngx_http_zstd_create_loc_conf`. -/
def create_loc_conf (A : Abi) : RawConf where
  enable := conf_unset
  level := level_unset A
  min_length := conf_unset
  max_length := conf_unset
  target_cblock_size := conf_unset
  window_log := conf_unset
  long_mode := conf_unset
  max_cctx_memory := conf_unset
  dcz_window_cap := 0
  bufs := ⟨0, 0⟩
  bufs_unsafe_flag := conf_unset
  bypass := none
  bypass_vary := none
  dcz_assume_secure := conf_unset

/-- `ngx_http_zstd_create_main_conf`. -/
def create_settings_conf : MainConf := ⟨false, false, false, none, conf_unset⟩

/-! ## Directives -/

/-- The configuration contexts in `ngx_http_zstd_filter_commands`. -/
def Setting.allowed : Setting → BlockKind → Bool
  | .zstd _, kind => kind ≠ .other
  | .zstd_dict_file _, kind | .zstd_dict_file_unsafe_flag _, kind => kind = .http
  | _, kind => kind = .http ∨ kind = .server ∨ kind = .location

/-- `ngx_http_set_predicate_slot`: the predicates of a block add up. -/
def set_predicate_slot (K : ConfCore) (field : Option (List Predicate)) :
    List Bytes → Except SettingError (Option (List Predicate))
  | [] => .ok field
  | arg :: args =>
    match K.compile arg with
    | none => .error .compile_failed
    | some eval => set_predicate_slot K (some (field.getD [] ++ [⟨arg, eval⟩])) args

section
variable (A : Abi) (K : ConfCore) (Z : ConfLib)

/-- The handler of a directive. -/
def run_setting (zmcf : MainConf) (conf : RawConf) : Setting → Except SettingError (MainConf × RawConf)
  | .zstd arg => do
    let (zmcf, enable) ← set_enable_slot zmcf conf.enable arg
    return (zmcf, { conf with enable })
  | .zstd_comp_level arg => do
    let (zmcf, level) ← set_num_slot_with_negatives A K Z zmcf conf.level arg
    return (zmcf, { conf with level })
  | .zstd_buffers num size => do
    let bufs ← set_bufs_slot A K conf.bufs num size
    return (zmcf, { conf with bufs })
  | .zstd_buffers_unsafe_flag arg => do
    let bufs_unsafe_flag ← conf_set_flag_slot conf.bufs_unsafe_flag arg
    return (zmcf, { conf with bufs_unsafe_flag })
  | .zstd_min_length arg => do
    let min_length ← conf_set_size_slot K conf.min_length arg
    return (zmcf, { conf with min_length })
  | .zstd_max_length arg => do
    let max_length ← conf_set_size_slot K conf.max_length arg
    return (zmcf, { conf with max_length })
  | .zstd_target_cblock_size arg => do
    let target_cblock_size ← conf_set_size_slot K conf.target_cblock_size arg
    let zmcf ← check_size_int_max Z zmcf target_cblock_size
    return (zmcf, { conf with target_cblock_size })
  | .zstd_window_log arg => do
    let window_log ← conf_set_num_slot K conf.window_log arg
    check_num_int_max Z window_log
    return (zmcf, { conf with window_log })
  | .zstd_long arg => do
    let long_mode ← conf_set_flag_slot conf.long_mode arg
    return (zmcf, { conf with long_mode })
  | .zstd_max_cctx_memory arg => do
    let max_cctx_memory ← conf_set_size_slot K conf.max_cctx_memory arg
    return (zmcf, { conf with max_cctx_memory })
  | .zstd_bypass args => do
    let bypass ← set_predicate_slot K conf.bypass args
    return (zmcf, { conf with bypass })
  | .zstd_bypass_vary arg => do
    let vary ← set_bypass_vary K conf.bypass_vary arg
    return (zmcf, { conf with bypass_vary := some vary })
  | .zstd_dcz_assume_secure_transport arg => do
    let dcz_assume_secure ← conf_set_flag_slot conf.dcz_assume_secure arg
    return (zmcf, { conf with dcz_assume_secure })
  | .zstd_dict_file arg =>
    if zmcf.dict_file.isSome then .error .is_duplicate else .ok ({ zmcf with dict_file := some arg }, conf)
  | .zstd_dict_file_unsafe_flag arg => do
    let dict_unsafe_flag ← conf_set_flag_slot zmcf.dict_unsafe_flag arg
    return ({ zmcf with dict_unsafe_flag }, conf)

/-- `ngx_conf_handler` with the module's command table. -/
def conf_handler (kind : BlockKind) (d : Setting) (zmcf : MainConf) (conf : RawConf) :
    Except SettingError (MainConf × RawConf) :=
  if d.allowed kind then run_setting A K Z zmcf conf d else .error .not_allowed_here

end

/-- The check of `ngx_http_zstd_init_main_conf` on `zstd_dict_file`. -/
def init_dict_file (zmcf : MainConf) : Except SettingError Unit :=
  if (zmcf.dict_file.getD []).length = 0 then .ok ()
  else if zmcf.dict_unsafe_flag ≠ 1 then .error .dict_file_unacknowledged
  else .ok ()

/-! ## Merging -/

/-- `ngx_conf_merge_bufs_value`. -/
def merge_bufs_value (conf prev default : RawBufs) : RawBufs :=
  if conf.num = 0 then (if prev.num ≠ 0 then prev else default) else conf

/-- The inheritance of `ngx_http_zstd_merge_loc_conf`. -/
def merge_settings (A : Abi) (Z : ConfLib) (prev conf : RawConf) : RawConf where
  enable := merge_value conf.enable prev.enable 0
  level := merge_level A conf.level prev.level
  min_length := merge_value conf.min_length prev.min_length 1024
  max_length := merge_value conf.max_length prev.max_length conf_unset
  target_cblock_size := merge_value conf.target_cblock_size prev.target_cblock_size 0
  window_log := merge_value conf.window_log prev.window_log 0
  long_mode := merge_value conf.long_mode prev.long_mode 0
  max_cctx_memory := merge_value conf.max_cctx_memory prev.max_cctx_memory conf_unset
  dcz_window_cap := conf.dcz_window_cap
  bufs := merge_bufs_value conf.bufs prev.bufs ⟨2, Z.cstream_out_size⟩
  bufs_unsafe_flag := merge_value conf.bufs_unsafe_flag prev.bufs_unsafe_flag 0
  bypass := conf.bypass.or prev.bypass
  bypass_vary := conf.bypass_vary.or prev.bypass_vary
  dcz_assume_secure := merge_value conf.dcz_assume_secure prev.dcz_assume_secure 0

/-- A merged conf with what the other parts of the module configure: the types, the
CDict of the trained dictionary and the dcz dictionaries. -/
def RawConf.loc_conf (conf : RawConf) (types : Option (List Bytes)) (dict : Option CDict)
    (dcz_dicts : Option (List DczDict)) : LocConf where
  enable := conf.enable ≠ 0
  level := conf.level
  min_length := conf.min_length
  max_length := if conf.max_length = conf_unset then none else some conf.max_length
  target_cblock_size := conf.target_cblock_size
  window_log := conf.window_log
  long_mode := conf.long_mode ≠ 0
  dcz_window_cap := conf.dcz_window_cap
  bypass := conf.bypass.map fun ps => ps.map Predicate.eval
  bypass_vary := conf.bypass_vary
  types := types
  bufs := ⟨conf.bufs.num.toNat, conf.bufs.size.toNat⟩
  dict := dict
  dcz_dicts := dcz_dicts
  dcz_assume_secure := conf.dcz_assume_secure ≠ 0

section
variable (A : Abi) (Z : ConfLib) {P : Type} (B : EstimateLib P)

/-- `ngx_http_zstd_merge_loc_conf` without its dictionaries. The budget is only looked
at once the buffers have passed. -/
def merge_loc_conf (prev conf : RawConf) : Except SettingError RawConf := do
  let conf := merge_settings A Z prev conf
  let _ ← check_bufs_product A conf.bufs (conf.bufs_unsafe_flag ≠ 0) (str "merged value") true
  let (merged, _) ← (merge_budget B (conf.loc_conf none none none) conf.max_cctx_memory).mapError .budget
  return { conf with dcz_window_cap := merged.dcz_window_cap }

/-- The module's configuration language. -/
def settings (K : ConfCore) : Layers BlockKind Setting MainConf RawConf SettingError where
  create := create_loc_conf A
  run := conf_handler A K Z
  merge _ := merge_loc_conf A Z B

/-- A configuration that loads: the main conf, the confs as parsed, and the merged conf
of every server and location. -/
structure Configuration where
  zmcf : MainConf
  http : RawConf
  parsed : Forest RawConf
  merged : Forest RawConf

/-- The load of the `http` block: parse, `init_main_conf`, merge. -/
def load_settings (K : ConfCore) (file : Source BlockKind Setting) : Except SettingError Configuration := do
  let (zmcf, http, parsed) ← (settings A Z B K).parse .http create_settings_conf (create_loc_conf A) file
  init_dict_file zmcf
  let merged ← (settings A Z B K).complete zmcf http parsed
  return ⟨zmcf, http, parsed, merged⟩

end

end NginxZstd
