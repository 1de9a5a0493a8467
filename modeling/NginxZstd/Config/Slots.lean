import NginxZstd.Dcz.Budget
import NginxZstd.Trained
/-!
# Directive arguments

A directive's slot parses its arguments into a field that must still be unset, and a
post handler checks what was parsed. The slots of nginx core are here as the module
uses them; its own slots and post handlers follow, with the latches they set in the
main conf.
-/

namespace NginxZstd

open Lib

/-- Why a configuration is refused: the string a slot returns, or the line that is
logged with the values it prints. -/
inductive SettingError where
  | is_duplicate
  | invalid_number
  | invalid_value
  | flag_value (value : Bytes)
  | not_allowed_here
  | no_memory
  | level_range (lowest highest : Int)
  | int_max_range (name : Bytes)
  | bounds_failed (param name : Bytes)
  | bounds_range (name : Bytes) (lower upper : Int)
  | bufs_overflow (ctx : Bytes) (num : Int) (size : Nat)
  | bufs_hard_cap (ctx : Bytes) (num : Int) (size total : Nat)
  | empty_value
  | bare_wildcard
  | comma_or_semicolon
  | quoted_string
  | not_a_token
  | compile_failed
  | dict_file_unacknowledged
  | budget (e : BudgetError)

/-! ## nginx core -/

/-- The parsers of numbers and sizes, with `-1` for `NGX_ERROR`; the pool; and the
compiler of script values. -/
structure ConfCore where
  atoi : Bytes → Int
  parse_size : Bytes → Int
  pstrdup : Bytes → Bool
  compile : Bytes → Option (Request → Option Bytes)

/-- `ngx_atoi` and `ngx_parse_size` give `NGX_ERROR` or a value of their type that is
not negative. -/
structure ConfCore.Parses (A : Abi) (K : ConfCore) : Prop where
  atoi : ∀ s, K.atoi s = -1 ∨ 0 ≤ K.atoi s ∧ K.atoi s < 2 ^ (A.size_bits - 1)
  parse_size : ∀ s, K.parse_size s = -1 ∨ 0 ≤ K.parse_size s ∧ K.parse_size s < 2 ^ (A.size_bits - 1)

/-- `ngx_conf_set_flag_slot`. -/
def conf_set_flag_slot (field : Int) (arg : Bytes) : Except SettingError Int :=
  if field ≠ conf_unset then .error .is_duplicate
  else if equals_nocase arg (str "on") then .ok 1
  else if equals_nocase arg (str "off") then .ok 0
  else .error (.flag_value arg)

/-- `ngx_conf_set_num_slot`. -/
def conf_set_num_slot (K : ConfCore) (field : Int) (arg : Bytes) : Except SettingError Int :=
  if field ≠ conf_unset then .error .is_duplicate
  else if K.atoi arg = -1 then .error .invalid_number
  else .ok (K.atoi arg)

/-- `ngx_conf_set_size_slot`. -/
def conf_set_size_slot (K : ConfCore) (field : Int) (arg : Bytes) : Except SettingError Int :=
  if field ≠ conf_unset then .error .is_duplicate
  else if K.parse_size arg = -1 then .error .invalid_value
  else .ok (K.parse_size arg)

/-- `ngx_bufs_t` in a conf that is not merged: the number of an unset one is zero. -/
structure RawBufs where
  num : Int
  size : Int
deriving DecidableEq

/-- `ngx_conf_set_bufs_slot`. -/
def conf_set_bufs_slot (K : ConfCore) (field : RawBufs) (num size : Bytes) : Except SettingError RawBufs :=
  if field.num ≠ 0 then .error .is_duplicate
  else if K.atoi num = -1 ∨ K.atoi num = 0 then .error .invalid_value
  else if K.parse_size size = -1 ∨ K.parse_size size = 0 then .error .invalid_value
  else .ok ⟨K.atoi num, K.parse_size size⟩

/-! ## The module's slots -/

/-- What libzstd says at configuration load, and the version the module was built
with. -/
structure ConfLib where
  build : Nat
  min_clevel : Int
  max_clevel : Int
  window_log_bounds : Except Bytes (Int × Int)
  target_cblock_size_bounds : Except Bytes (Int × Int)
  cstream_out_size : Nat

/-- The latches of `ngx_http_zstd_main_conf_t` and its settings of the trained
dictionary. -/
structure MainConf where
  any_enabled : Bool
  any_negative_level : Bool
  any_target_cblock_size : Bool
  dict_file : Option Bytes
  dict_unsafe_flag : Int

def int_max : Int := 2 ^ 31 - 1

/-- `ngx_http_zstd_set_enable_slot`. -/
def set_enable_slot (zmcf : MainConf) (field : Int) (arg : Bytes) : Except SettingError (MainConf × Int) := do
  let on ← conf_set_flag_slot field arg
  if arg = str "off" then return (zmcf, on)
  return ({ zmcf with any_enabled := true }, on)

/-- `ngx_http_zstd_comp_level`. -/
def comp_level (Z : ConfLib) (zmcf : MainConf) (np : Int) : Except SettingError MainConf :=
  let lowest := if Z.build ≥ 10400 then Z.min_clevel else 1
  if np < lowest ∨ np > Z.max_clevel then .error (.level_range lowest Z.max_clevel)
  else if np < 0 then .ok { zmcf with any_negative_level := true }
  else .ok zmcf

/-- The number of a level argument: a leading `-` is parsed around, the sign applied
after the test for `NGX_ERROR`. -/
def parse_level (K : ConfCore) : Bytes → Except SettingError Int
  | 0x2d :: digits => if K.atoi digits = -1 then .error .invalid_number else .ok (-K.atoi digits)
  | arg => if K.atoi arg = -1 then .error .invalid_number else .ok (K.atoi arg)

/-- `ngx_http_zstd_set_num_slot_with_negatives`, with its post handler. -/
def set_num_slot_with_negatives (A : Abi) (K : ConfCore) (Z : ConfLib) (zmcf : MainConf) (field : Int) (arg : Bytes) :
    Except SettingError (MainConf × Int) := do
  if field ≠ level_unset A then throw .is_duplicate
  let np ← parse_level K arg
  let zmcf ← comp_level Z zmcf np
  return (zmcf, np)

/-- `ngx_http_zstd_int_max_bound`. -/
def int_max_bound (value : Int) (name : Bytes) : Except SettingError Unit :=
  if value < 0 ∨ value > int_max then .error (.int_max_range name) else .ok ()

/-- A value against the bounds libzstd has for a parameter. -/
def check_bounds (value : Int) (param name : Bytes) : Except Bytes (Int × Int) → Except SettingError Unit
  | .error e => .error (.bounds_failed param e)
  | .ok (lower, upper) => if value < lower ∨ value > upper then .error (.bounds_range name lower upper) else .ok ()

/-- `ngx_http_zstd_check_size_int_max`. A build below 1.5.6 has no bounds to ask for
and only warns. -/
def check_size_int_max (Z : ConfLib) (zmcf : MainConf) (sp : Int) : Except SettingError MainConf := do
  int_max_bound sp (str "zstd_target_cblock_size")
  if sp ≤ 0 then return zmcf
  if Z.build ≥ 10506 then
    check_bounds sp (str "targetCBlockSize") (str "zstd_target_cblock_size") Z.target_cblock_size_bounds
  return { zmcf with any_target_cblock_size := true }

/-- `ngx_http_zstd_check_num_int_max`. -/
def check_num_int_max (Z : ConfLib) (np : Int) : Except SettingError Unit := do
  int_max_bound np (str "zstd_window_log")
  if np ≠ 0 then check_bounds np (str "windowLog") (str "zstd_window_log") Z.window_log_bounds

/-! ### `zstd_buffers` -/

def bufs_advisory_bytes : Nat := 8 * 1024 * 1024

def bufs_hard_cap_bytes : Nat := 256 * 1024 * 1024

/-- The two warnings about a product that is large but accepted. -/
inductive BufsNotice where
  | acknowledged (total : Nat)
  | advisory (total : Nat)
deriving DecidableEq

/-- `ngx_http_zstd_check_bufs_product`. -/
def check_bufs_product (A : Abi) (bufs : RawBufs) (bufs_unsafe_flag : Bool) (ctx : Bytes) (advise : Bool) :
    Except SettingError (Option BufsNotice) :=
  if bufs.num ≤ 0 ∨ bufs.size = 0 then .ok none
  else if bufs.num.toNat > A.size_max / bufs.size.toNat then
    .error (.bufs_overflow ctx bufs.num bufs.size.toNat)
  else if ¬advise then .ok none
  else
    let total := (bufs.num.toNat * bufs.size.toNat) % 2 ^ A.size_bits
    if total > bufs_hard_cap_bytes then
      if bufs_unsafe_flag then .ok (some (.acknowledged total))
      else .error (.bufs_hard_cap ctx bufs.num bufs.size.toNat total)
    else if total > bufs_advisory_bytes then .ok (some (.advisory total))
    else .ok none

/-- `ngx_http_zstd_set_bufs_slot`. -/
def set_bufs_slot (A : Abi) (K : ConfCore) (field : RawBufs) (num size : Bytes) : Except SettingError RawBufs := do
  let bufs ← conf_set_bufs_slot K field num size
  let _ ← check_bufs_product A bufs false (str "explicit directive") false
  return bufs

/-! ### `zstd_bypass_vary` -/

/-- `ngx_http_zstd_validate_field_name_token`. -/
def validate_field_name_token : Bytes → Except SettingError Unit
  | [] => .ok ()
  | c :: p =>
    if c = comma ∨ c = semicolon then .error .comma_or_semicolon
    else if c = 0x22 then .error .quoted_string
    else if ¬is_tchar c then .error .not_a_token
    else validate_field_name_token p

/-- What the loop accepts consists of token characters. -/
theorem validate_field_name_token_iff {value : Bytes} :
    validate_field_name_token value = .ok () ↔ ∀ c ∈ value, is_tchar c = true := by
  induction value with
  | nil => simp [validate_field_name_token]
  | cons c p ih =>
    -- the three bytes with a message of their own are no token characters either
    have hsep : c = comma ∨ c = semicolon ∨ c = 0x22 → is_tchar c = false := by
      rintro (rfl | rfl | rfl) <;> decide
    rw [List.forall_mem_cons, ← ih, validate_field_name_token]
    by_cases h1 : c = comma ∨ c = semicolon
    · rw [if_pos h1, hsep (by rcases h1 with h | h <;> simp [h])]
      simp
    rw [if_neg h1]
    by_cases h2 : c = 0x22
    · rw [if_pos h2, hsep (.inr (.inr h2))]
      simp
    rw [if_neg h2]
    cases is_tchar c <;> simp

theorem field_name_tchars {value : Bytes} (h : validate_field_name_token value = .ok ()) :
    ∀ c ∈ value, is_tchar c = true := validate_field_name_token_iff.1 h

/-- The stored value: what passed the checks is a token. -/
def field_name (value : Bytes) (h0 : value ≠ []) (h : validate_field_name_token value = .ok ()) : Token :=
  ⟨value, h0, field_name_tchars h⟩

/-- `ngx_http_zstd_set_bypass_vary`. -/
def set_bypass_vary (K : ConfCore) (field : Option Token) (value : Bytes) : Except SettingError Token :=
  if field.isSome then .error .is_duplicate
  else if h0 : value = [] then .error .empty_value
  else if value = str "*" then .error .bare_wildcard
  else
    match h : validate_field_name_token value with
    | .error e => .error e
    | .ok () => if K.pstrdup value then .ok (field_name value h0 h) else .error .no_memory

/-! ## What a slot accepts -/

section
variable {A : Abi} {K : ConfCore} {Z : ConfLib} {zmcf zmcf' : MainConf}

theorem conf_set_flag_slot_ok {field v : Int} {arg : Bytes} (h : conf_set_flag_slot field arg = .ok v) :
    field = conf_unset ∧ (v = 0 ∨ v = 1) ∧ (arg = str "off" → v = 0) := by
  unfold conf_set_flag_slot at h
  split at h
  · cases h
  next hf =>
  split at h
  · next hon =>
    cases h
    refine ⟨not_not.1 hf, .inr rfl, ?_⟩
    rintro rfl
    exact absurd hon (by decide)
  · split at h
    · cases h
      exact ⟨not_not.1 hf, .inl rfl, fun _ => rfl⟩
    · cases h

theorem conf_set_size_slot_ok (hK : K.Parses A) {field v : Int} {arg : Bytes}
    (h : conf_set_size_slot K field arg = .ok v) : field = conf_unset ∧ 0 ≤ v := by
  unfold conf_set_size_slot at h
  split at h
  · cases h
  split at h
  · cases h
  next hf hv =>
  cases h
  exact ⟨not_not.1 hf, ((hK.parse_size arg).resolve_left hv).1⟩

theorem set_enable_slot_ok {field v : Int} {arg : Bytes} (h : set_enable_slot zmcf field arg = .ok (zmcf', v)) :
    field = conf_unset ∧ (v = 0 ∨ v = 1) ∧
      (zmcf' = zmcf ∧ v = 0 ∨ zmcf' = { zmcf with any_enabled := true }) := by
  obtain ⟨on, hon, h⟩ := bind_ok h
  obtain ⟨hf, hv, hoff⟩ := conf_set_flag_slot_ok hon
  split at h
  · next harg =>
    cases h
    exact ⟨hf, hv, .inl ⟨rfl, hoff harg⟩⟩
  · cases h
    exact ⟨hf, hv, .inr rfl⟩

/-- The levels a build admits. -/
def ConfLib.LevelOk (Z : ConfLib) (level : Int) : Prop :=
  (if Z.build ≥ 10400 then Z.min_clevel else 1) ≤ level ∧ level ≤ Z.max_clevel

theorem comp_level_ok {np : Int} (h : comp_level Z zmcf np = .ok zmcf') :
    Z.LevelOk np ∧ (zmcf' = zmcf ∧ 0 ≤ np ∨ zmcf' = { zmcf with any_negative_level := true } ∧ np < 0) := by
  unfold comp_level at h
  unfold ConfLib.LevelOk
  dsimp only at h
  generalize (if Z.build ≥ 10400 then Z.min_clevel else 1) = lowest at h ⊢
  split at h
  · cases h
  next hr =>
  have hlevel : lowest ≤ np ∧ np ≤ Z.max_clevel := by omega
  split at h
  · next hneg =>
    cases h
    exact ⟨hlevel, .inr ⟨rfl, hneg⟩⟩
  · next hneg =>
    cases h
    exact ⟨hlevel, .inl ⟨rfl, not_lt.1 hneg⟩⟩

theorem set_num_slot_with_negatives_ok {field np : Int} {arg : Bytes}
    (h : set_num_slot_with_negatives A K Z zmcf field arg = .ok (zmcf', np)) :
    field = level_unset A ∧ parse_level K arg = .ok np ∧ comp_level Z zmcf np = .ok zmcf' := by
  unfold set_num_slot_with_negatives at h
  split at h
  · cases h
  next hf =>
  obtain ⟨np', hp, h⟩ := bind_ok h
  obtain ⟨zmcf1, hlevel, h⟩ := bind_ok h
  cases h
  exact ⟨not_not.1 hf, hp, hlevel⟩

/-- A value inside the bounds libzstd has. -/
def InBounds (bounds : Except Bytes (Int × Int)) (value : Int) : Prop :=
  ∃ lower upper, bounds = .ok (lower, upper) ∧ lower ≤ value ∧ value ≤ upper

theorem check_bounds_ok {value : Int} {param name : Bytes} {bounds : Except Bytes (Int × Int)}
    (h : check_bounds value param name bounds = .ok ()) : InBounds bounds value := by
  unfold check_bounds at h
  split at h
  · cases h
  next lower upper =>
  split at h
  · cases h
  next hr => exact ⟨lower, upper, rfl, by omega, by omega⟩

theorem int_max_bound_ok {value : Int} {name : Bytes} (h : int_max_bound value name = .ok ()) :
    0 ≤ value ∧ value ≤ int_max := by
  unfold int_max_bound at h
  split at h
  · cases h
  · omega

/-- The window logs a build admits, zero for libzstd's own choice. -/
def ConfLib.WindowOk (Z : ConfLib) (window_log : Int) : Prop :=
  window_log = 0 ∨ 0 < window_log ∧ window_log ≤ int_max ∧ InBounds Z.window_log_bounds window_log

theorem check_num_int_max_ok {np : Int} (h : check_num_int_max Z np = .ok ()) : Z.WindowOk np := by
  obtain ⟨⟨⟩, hmax, h⟩ := bind_ok h
  have hrange := int_max_bound_ok hmax
  by_cases h0 : np = 0
  · exact .inl h0
  · rw [if_pos h0] at h
    exact .inr ⟨by omega, hrange.2, check_bounds_ok h⟩

/-- The block sizes a build admits, zero for none. -/
def ConfLib.CblockOk (Z : ConfLib) (size : Int) : Prop :=
  size = 0 ∨ 0 < size ∧ size ≤ int_max ∧ (Z.build ≥ 10506 → InBounds Z.target_cblock_size_bounds size)

theorem check_size_int_max_ok {sp : Int} (h : check_size_int_max Z zmcf sp = .ok zmcf') :
    Z.CblockOk sp ∧ (zmcf' = zmcf ∧ sp = 0 ∨ zmcf' = { zmcf with any_target_cblock_size := true } ∧ 0 < sp) := by
  obtain ⟨⟨⟩, hmax, h⟩ := bind_ok h
  have hrange := int_max_bound_ok hmax
  split at h
  · next hle =>
    cases h
    exact ⟨.inl (by omega), .inl ⟨rfl, by omega⟩⟩
  next hpos =>
  have h0 : 0 < sp := by omega
  split at h
  · next hbuild =>
    obtain ⟨⟨⟩, hb, h⟩ := bind_ok h
    cases h
    exact ⟨.inr ⟨h0, hrange.2, fun _ => check_bounds_ok hb⟩, .inr ⟨rfl, h0⟩⟩
  · next hbuild =>
    cases h
    exact ⟨.inr ⟨h0, hrange.2, fun hb => absurd hb hbuild⟩, .inr ⟨rfl, h0⟩⟩

theorem set_bufs_slot_ok (hK : K.Parses A) {field bufs : RawBufs} {num size : Bytes}
    (h : set_bufs_slot A K field num size = .ok bufs) :
    field.num = 0 ∧ 0 < bufs.num ∧ 0 < bufs.size ∧ bufs.size < 2 ^ (A.size_bits - 1) := by
  obtain ⟨bufs', hb, h⟩ := bind_ok h
  obtain ⟨notice, -, h⟩ := bind_ok h
  cases h
  unfold conf_set_bufs_slot at hb
  split at hb
  · cases hb
  next hf =>
  split at hb
  · cases hb
  next hn =>
  split at hb
  · cases hb
  next hs =>
  cases hb
  have h1 := hK.atoi num
  have h2 := hK.parse_size size
  exact ⟨not_not.1 hf, by dsimp only; omega, by dsimp only; omega, by dsimp only; omega⟩

/-- A pair the check at merge time accepts: its product is a `size_t` as it stands, and
above the cap only with the acknowledgement. -/
structure RawBufs.Accepted (A : Abi) (bufs : RawBufs) (bufs_unsafe_flag : Bool) : Prop where
  fits : bufs.num * bufs.size ≤ A.size_max
  cap : bufs_unsafe_flag = false → bufs.num * bufs.size ≤ bufs_hard_cap_bytes

theorem check_bufs_product_ok {bufs : RawBufs} {bufs_unsafe_flag : Bool} {ctx : Bytes} {notice : Option BufsNotice}
    (hn : 0 < bufs.num) (hs : 0 < bufs.size)
    (h : check_bufs_product A bufs bufs_unsafe_flag ctx true = .ok notice) : bufs.Accepted A bufs_unsafe_flag := by
  unfold check_bufs_product at h
  rw [if_neg (by omega)] at h
  split at h
  · cases h
  next hover =>
  rw [if_neg (by simp)] at h
  dsimp only at h
  -- the division test bounds the product itself, so the multiplication does not wrap
  have hfit : bufs.num.toNat * bufs.size.toNat ≤ A.size_max := by
    refine (Nat.le_div_iff_mul_le (by omega)).1 (not_lt.1 hover)
  have hmod : (bufs.num.toNat * bufs.size.toNat) % 2 ^ A.size_bits = bufs.num.toNat * bufs.size.toNat := by
    apply Nat.mod_eq_of_lt
    have := Nat.two_pow_pos A.size_bits
    unfold Abi.size_max at hfit
    omega
  have hcast : bufs.num * bufs.size = ((bufs.num.toNat * bufs.size.toNat : Nat) : Int) := by
    rw [Nat.cast_mul, Int.toNat_of_nonneg hn.le, Int.toNat_of_nonneg hs.le]
  rw [hmod] at h
  refine ⟨by rw [hcast]; exact_mod_cast hfit, fun hu => ?_⟩
  rw [hu] at h
  split at h
  · cases h
  next hcap =>
  rw [hcast]
  exact_mod_cast not_lt.1 hcap

end

end NginxZstd
