import NginxZstd.Conf
/-!
# The ring key

A cached context serves one profile: compression level, long mode and window.
The three are packed into one 64-bit key, each into a bit range of its own, so
that two profiles match exactly when they are the same.
-/

namespace NginxZstd

def profile_level_bias : Int := 131072

def profile_level_bits : Nat := 18

def profile_wlog_bits : Nat := 6

def profile_level_max : Nat := (1 <<< profile_level_bits) - 1

def profile_wlog_max : Nat := (1 <<< profile_wlog_bits) - 1

/-- `NGX_HTTP_ZSTD_PROFILE_INVALID`. -/
def profile_invalid : Nat := 1 <<< 63

/-- `ngx_http_zstd_profile_pack`. The casts to `uint64_t` come after the tests for
a negative value, so they keep the value. -/
def profile_pack (level : Int) (long_mode : Bool) (window_log : Int) : Nat :=
  if level < -profile_level_bias then profile_invalid
  else
    let biased := (level + profile_level_bias).toNat
    if biased > profile_level_max then profile_invalid
    else if window_log < 0 then profile_invalid
    else
      let wlog := window_log.toNat
      if wlog > profile_wlog_max then profile_invalid
      else
        biased ||| (wlog <<< profile_level_bits) |||
          ((if long_mode then 1 else 0) <<< (profile_level_bits + profile_wlog_bits))

/-- The level, the long mode and the window in a key. -/
structure Profile where
  level : Int
  long_mode : Bool
  window_log : Int
deriving DecidableEq

/-- `ngx_http_zstd_profile_unpack`. -/
def profile_unpack (key : Nat) : Profile where
  level := (key &&& profile_level_max : Nat) - profile_level_bias
  window_log := ((key >>> profile_level_bits) &&& profile_wlog_max : Nat)
  long_mode := (key >>> (profile_level_bits + profile_wlog_bits)) &&& 1 ≠ 0

/-- `ngx_http_zstd_cctx_profile_from_conf_wlog`. -/
def cctx_profile_from_conf_wlog (zlcf : LocConf) (window_log : Int) : Nat :=
  profile_pack zlcf.level zlcf.long_mode window_log

/-- The parameters that fit the key's fields. What config load admits lies inside:
levels from `ZSTD_minCLevel()`, which is `-131072`, to `ZSTD_maxCLevel()`, windows
`0` or within libzstd's bounds, and the dcz windows `10` to `23`. -/
def Profile.Admitted (p : Profile) : Prop :=
  -131072 ≤ p.level ∧ p.level ≤ 131071 ∧ 0 ≤ p.window_log ∧ p.window_log ≤ 63

def Profile.key (p : Profile) : Nat := profile_pack p.level p.long_mode p.window_log

theorem profile_consts : profile_level_bias = 131072 ∧ profile_level_max = 262143 ∧ profile_wlog_max = 63 ∧
    profile_invalid = 2 ^ 63 := by decide

/-- An admitted key is a sum of its three fields. -/
theorem Profile.key_eq {p : Profile} (h : p.Admitted) :
    p.key = (p.level + 131072).toNat + 2 ^ 18 * p.window_log.toNat + 2 ^ 24 * p.long_mode.toNat := by
  obtain ⟨h1, h2, h3, h4⟩ := h
  obtain ⟨hbias, hlevel, hwlog, -⟩ := profile_consts
  unfold Profile.key profile_pack
  rw [if_neg (by omega)]
  dsimp only
  rw [if_neg (by omega), if_neg (by omega), if_neg (by omega), hbias]
  have hb : (p.level + 131072).toNat < 2 ^ 18 := by omega
  have hw : p.window_log.toNat < 2 ^ 6 := by omega
  generalize (p.level + 131072).toNat = b at *
  generalize p.window_log.toNat = w at *
  have hl : (if p.long_mode then 1 else 0 : Nat) = p.long_mode.toNat := by cases p.long_mode <;> rfl
  have h18 : b ||| w <<< 18 = w <<< 18 + b := by
    rw [Nat.or_comm, ← Nat.shiftLeft_add_eq_or_of_lt hb]
  have h24 : (w <<< 18 + b) ||| p.long_mode.toNat <<< 24 = p.long_mode.toNat <<< 24 + (w <<< 18 + b) := by
    rw [Nat.or_comm, ← Nat.shiftLeft_add_eq_or_of_lt (by rw [Nat.shiftLeft_eq]; omega)]
  simp only [profile_level_bits, profile_wlog_bits, hl]
  rw [h18, h24]
  simp only [Nat.shiftLeft_eq]
  omega

/-- The key refuses exactly the parameters that do not fit. -/
theorem Profile.key_ne_invalid_iff (p : Profile) : p.key ≠ profile_invalid ↔ p.Admitted := by
  obtain ⟨hbias, hlevel, hwlog, hinv⟩ := profile_consts
  constructor
  · intro h
    unfold Profile.key profile_pack at h
    split at h
    · exact absurd rfl h
    dsimp only at h
    split at h
    · exact absurd rfl h
    split at h
    · exact absurd rfl h
    split at h
    · exact absurd rfl h
    next h1 h2 h3 h4 => exact ⟨by omega, by omega, by omega, by omega⟩
  · intro h
    rw [Profile.key_eq h, hinv]
    obtain ⟨h1, h2, h3, h4⟩ := h
    have hl : p.long_mode.toNat ≤ 1 := Bool.toNat_le _
    omega

/-- `profile_unpack` recovers what was packed. -/
theorem profile_unpack_key {p : Profile} (h : p.Admitted) : profile_unpack p.key = p := by
  have hlow : ∀ m k : Nat, m &&& (1 <<< k - 1) = m % 2 ^ k := fun m k => by
    rw [Nat.one_shiftLeft, Nat.and_two_pow_sub_one_eq_mod]
  have hone : ∀ m : Nat, m &&& 1 = m % 2 := fun m => Nat.and_one_is_mod m
  have hl : p.long_mode.toNat ≤ 1 := Bool.toNat_le _
  obtain ⟨h1, h2, h3, h4⟩ := h
  have hb : p.key % 2 ^ 18 = (p.level + 131072).toNat := by
    rw [Profile.key_eq ⟨h1, h2, h3, h4⟩]; omega
  have hw : p.key / 2 ^ 18 % 2 ^ 6 = p.window_log.toNat := by
    rw [Profile.key_eq ⟨h1, h2, h3, h4⟩]; omega
  have hm : p.key / 2 ^ 24 % 2 = p.long_mode.toNat := by
    rw [Profile.key_eq ⟨h1, h2, h3, h4⟩]; omega
  have hbit : decide (p.long_mode.toNat ≠ 0) = p.long_mode := by cases p.long_mode <;> rfl
  have hlevel : profile_unpack p.key = ⟨(p.key % 2 ^ 18 : Nat) - 131072, decide (p.key / 2 ^ 24 % 2 ≠ 0),
      (p.key / 2 ^ 18 % 2 ^ 6 : Nat)⟩ := by
    simp only [profile_unpack, profile_level_max, profile_wlog_max, hlow, hone, Nat.shiftRight_eq_div_pow,
      profile_level_bits, profile_wlog_bits, profile_level_bias]
  rw [hlevel, hb, hw, hm, hbit, Int.toNat_of_nonneg (by omega), Int.toNat_of_nonneg h3, Int.add_sub_cancel]

/-- Distinct admitted parameters have distinct keys. -/
theorem Profile.key_injective {p q : Profile} (hp : p.Admitted) (hq : q.Admitted) (h : p.key = q.key) : p = q := by
  rw [← profile_unpack_key hp, h, profile_unpack_key hq]

example : (⟨-131072, true, 31⟩ : Profile).key = 0x17c0000 ∧ profile_unpack 0x17c0000 = ⟨-131072, true, 31⟩ := by
  decide

end NginxZstd
