import Mathlib.Data.Nat.Log
import Mathlib.Tactic.Linarith
/-!
# The dcz window

`dcz_window_log` is evaluated twice for one response: at config load, where
`dcz_cdict_window_range` feeds it two special body lengths to bound what any
request can ask for, and at request time, where it decides the CCtx ring key
and the `ZSTD_c_windowLog` of the frame. Everything below rests on one closed
form, `dcz_window_log_eq`: the window is a rounded-up logarithm of a
mathematical sum, clamped to the RFC 9842 range and then by the two operator
ceilings. No intermediate cast or sum appears in it.
-/

namespace NginxZstd

/-- The integer widths a build fixes, in bits: `size_t` (and `ngx_int_t`) and
`off_t`. The two differ on ILP32 with large-file support. -/
structure Abi where
  size_bits : Nat
  off_bits : Nat
  size_ok : size_bits = 32 ∨ size_bits = 64
  off_ok : off_bits = 32 ∨ off_bits = 64

namespace Abi

def size_max (A : Abi) : Nat := 2 ^ A.size_bits - 1

/-- The values of `size_t`. -/
def IsSize (A : Abi) (x : Nat) : Prop := x < 2 ^ A.size_bits

/-- The values of `off_t`. -/
def IsOff (A : Abi) (p : Int) : Prop := -(2 ^ (A.off_bits - 1) : Int) ≤ p ∧ p < 2 ^ (A.off_bits - 1)

theorem two_pow_ge (A : Abi) : 2 ^ 32 ≤ 2 ^ A.size_bits := by
  rcases A.size_ok with h | h
  · rw [h]
  · rw [h]; decide

end Abi

/-! ## `ceil_log2` -/

/-- `ngx_http_zstd_ceil_log2`, the build with `__builtin_clzll`. -/
def ceil_log2 (x : Nat) : Nat :=
  if x ≤ 1024 then 10
  else if x > 1 <<< 23 then 23
  else
    let ull := BitVec.ofNat 64 x
    let wlog := 64 - ull.clz.toNat
    if ull &&& (ull - 1) = 0 then wlog - 1 else wlog

/-- What both builds compute: `⌈log₂ x⌉`, kept in `[10, 23]`. -/
def windowOf (x : Nat) : Nat := max 10 (min 23 (Nat.clog 2 x))

theorem windowOf_bounds (x : Nat) : 10 ≤ windowOf x ∧ windowOf x ≤ 23 := by
  unfold windowOf; omega

/-- Between the two clamps, `windowOf` is pinned by its two powers of two. -/
theorem windowOf_eq {x k : Nat} (hk : 10 < k) (hk' : k ≤ 23) (hlo : 2 ^ (k - 1) < x) (hhi : x ≤ 2 ^ k) :
    windowOf x = k := by
  have h1 : Nat.clog 2 x ≤ k := (Nat.clog_le_iff_le_pow (by decide)).2 hhi
  have h2 : ¬ Nat.clog 2 x ≤ k - 1 := fun h => absurd ((Nat.clog_le_iff_le_pow (by decide)).1 h) (by omega)
  unfold windowOf; omega

theorem windowOf_low {x : Nat} (h : x ≤ 1024) : windowOf x = 10 := by
  have : Nat.clog 2 x ≤ 10 := (Nat.clog_le_iff_le_pow (by decide)).2 h
  unfold windowOf; omega

theorem windowOf_high {x : Nat} (h : 1 <<< 23 < x) : windowOf x = 23 := by
  have : ¬ Nat.clog 2 x ≤ 23 := fun h' => absurd ((Nat.clog_le_iff_le_pow (by decide)).1 h') (by omega)
  unfold windowOf; omega

/-- The bit length `64 - clz` brackets a nonzero 64-bit value. -/
theorem bitlen_bracket {x : Nat} (h0 : x ≠ 0) (h : x < 2 ^ 64) :
    2 ^ (64 - (BitVec.ofNat 64 x).clz.toNat - 1) ≤ x ∧ x < 2 ^ (64 - (BitVec.ofNat 64 x).clz.toNat) := by
  have hx : (BitVec.ofNat 64 x).toNat = x := by rw [BitVec.toNat_ofNat]; exact Nat.mod_eq_of_lt h
  have hne : BitVec.ofNat 64 x ≠ 0#64 := fun h' => h0 (by rw [← hx, h']; rfl)
  have hlo := BitVec.two_pow_sub_clz_le_toNat_of_ne_zero (by decide) hne
  have hhi := BitVec.toNat_lt_two_pow_sub_clz (x := BitVec.ofNat 64 x)
  rw [hx] at hlo hhi
  exact ⟨by rwa [Nat.sub_right_comm] at hlo, hhi⟩

theorem and_pred_eq_zero {x : Nat} (h0 : x ≠ 0) (h : x < 2 ^ 64) :
    BitVec.ofNat 64 x &&& (BitVec.ofNat 64 x - 1) = 0 ↔ x.isPowerOfTwo := by
  rw [← Nat.and_sub_one_eq_zero_iff_isPowerOfTwo h0, ← BitVec.toNat_inj]
  have h1 : (BitVec.ofNat 64 x - 1).toNat = x - 1 := by
    rw [BitVec.toNat_sub_of_le (by rw [BitVec.le_def]; simp; omega)]
    simp only [BitVec.toNat_ofNat, Nat.mod_eq_of_lt h]
    rfl
  rw [BitVec.toNat_and, h1, BitVec.toNat_ofNat, Nat.mod_eq_of_lt h]
  rfl

theorem ceil_log2_eq (x : Nat) : ceil_log2 x = windowOf x := by
  unfold ceil_log2
  split
  · next h => exact (windowOf_low h).symm
  split
  · next h => exact (windowOf_high h).symm
  next hlo hhi =>
  have hhi' : x ≤ 2 ^ 23 := by simpa using hhi
  have h0 : x ≠ 0 := by omega
  have h64 : x < 2 ^ 64 := by omega
  obtain ⟨hb, hb'⟩ := bitlen_bracket h0 h64
  set n := 64 - (BitVec.ofNat 64 x).clz.toNat with hn
  have hn10 : 10 < n := by
    by_contra hc
    have : 2 ^ n ≤ 2 ^ 10 := Nat.pow_le_pow_right (by decide) (by omega)
    omega
  have hn24 : n ≤ 24 := by
    by_contra hc
    have : 2 ^ 24 ≤ 2 ^ (n - 1) := Nat.pow_le_pow_right (by decide) (by omega)
    omega
  simp only [and_pred_eq_zero h0 h64]
  split
  · -- an exact power of two: the bit length is one too many
    next hp =>
    obtain ⟨k, rfl⟩ := hp
    have hk1 : n - 1 ≤ k := (Nat.pow_le_pow_iff_right (by decide)).1 hb
    have hk2 : k < n := (Nat.pow_lt_pow_iff_right (by decide)).1 hb'
    have hkn : k = n - 1 := by omega
    have hk10 : 10 < k := (Nat.pow_lt_pow_iff_right (a := 2) (by decide)).1 (by simpa using hlo)
    have hk23 : k ≤ 23 := (Nat.pow_le_pow_iff_right (a := 2) (by decide)).1 hhi'
    rw [← hkn]
    exact (windowOf_eq hk10 hk23 (Nat.pow_lt_pow_right (by decide) (by omega)) le_rfl).symm
  · next hp =>
    have hne : x ≠ 2 ^ (n - 1) := fun h => hp ⟨n - 1, h⟩
    have hn23 : n ≤ 23 := by
      by_contra hc
      have h24 : n = 24 := by omega
      rw [h24] at hb hne
      omega
    exact (windowOf_eq hn10 hn23 (by omega) (by omega)).symm

/-- `NGX_HTTP_ZSTD_UNKNOWN_SIZE_GUESS`. -/
def unknown_size_guess : Nat := 1024 * 1024

/-- The body's share of the window, as a `size_t`: the guess for an unknown
length, `SIZE_MAX` where a cast down would truncate. -/
def pledged_contribution (A : Abi) (pledged_size : Int) : Nat :=
  if pledged_size < 0 then unknown_size_guess
  else if A.off_bits > A.size_bits ∧ pledged_size.toNat > A.size_max then A.size_max
  else pledged_size.toNat % 2 ^ A.size_bits

/-- The saturating `dict_len + pledged_contribution`. -/
def required (A : Abi) (dict_len : Nat) (pledged_size : Int) : Nat :=
  let required := (dict_len + pledged_contribution A pledged_size) % 2 ^ A.size_bits
  if required < dict_len then A.size_max else required

/-- `ngx_http_zstd_dcz_window_log`. -/
def dcz_window_log (A : Abi) (dict_len : Nat) (pledged_size conf_window_log budget_window_cap : Int) : Int :=
  let wlog : Int := ceil_log2 (required A dict_len pledged_size)
  let wlog := if conf_window_log > 0 ∧ conf_window_log < wlog then conf_window_log else wlog
  let wlog := if budget_window_cap > 0 ∧ budget_window_cap < wlog then budget_window_cap else wlog
  if wlog < 10 then 10 else wlog

/-- `ngx_http_zstd_dcz_cdict_window_range`: the windows of a zero-length body and
of one as long as the RFC cap. -/
def dcz_cdict_window_range (A : Abi) (dict_len : Nat) (conf_window_log budget_window_cap : Int) : Int × Int :=
  (dcz_window_log A dict_len 0 conf_window_log budget_window_cap,
    dcz_window_log A dict_len (1 <<< 23 : Nat) conf_window_log budget_window_cap)

/-- The body length the window is sized for, as a mathematical integer. -/
def content (pledged_size : Int) : Nat :=
  if pledged_size < 0 then unknown_size_guess else pledged_size.toNat

theorem pledged_contribution_eq (A : Abi) {p : Int} (hp : A.IsOff p) :
    pledged_contribution A p = min A.size_max (content p) := by
  have hbig := A.two_pow_ge
  unfold pledged_contribution content Abi.size_max
  split
  · unfold unknown_size_guess; omega
  · next h0 =>
    split
    · next h => rw [Nat.min_eq_left (by omega)]
    · next h =>
      -- an `off_t` no wider than `size_t` has one value bit less than it
      have hlt : p.toNat < 2 ^ A.size_bits := by
        by_cases hw : A.off_bits > A.size_bits
        · omega
        · have h1 : p.toNat < 2 ^ (A.off_bits - 1) := by
            have := hp.2
            have e : ((2 ^ (A.off_bits - 1) : Nat) : Int) = 2 ^ (A.off_bits - 1) := by push_cast; rfl
            omega
          have h2 : 2 ^ (A.off_bits - 1) ≤ 2 ^ A.size_bits := Nat.pow_le_pow_right (by decide) (by omega)
          omega
      rw [Nat.mod_eq_of_lt hlt]; omega

/-- The sum saturates instead of wrapping. -/
theorem required_eq (A : Abi) {d : Nat} {p : Int} (hd : A.IsSize d) (hp : A.IsOff p) :
    required A d p = min A.size_max (d + content p) := by
  have hbig := A.two_pow_ge
  unfold required
  rw [pledged_contribution_eq A hp]
  unfold Abi.IsSize at hd
  generalize content p = c
  generalize hs : A.size_bits = s at *
  simp only [Abi.size_max, hs]
  by_cases hsum : d + min (2 ^ s - 1) c < 2 ^ s
  · rw [Nat.mod_eq_of_lt hsum]
    split <;> omega
  · have : (d + min (2 ^ s - 1) c) % 2 ^ s = d + min (2 ^ s - 1) c - 2 ^ s := by
      rw [Nat.mod_eq_sub_mod (by omega), Nat.mod_eq_of_lt (by omega)]
    rw [this]
    split <;> omega

/-- Saturation is invisible past the RFC cap. -/
theorem windowOf_saturate (A : Abi) (n : Nat) : windowOf (min A.size_max n) = windowOf n := by
  have hbig := A.two_pow_ge
  by_cases h : n ≤ A.size_max
  · rw [Nat.min_eq_right h]
  · have hm : 1 <<< 23 < A.size_max := by unfold Abi.size_max; simp; omega
    rw [Nat.min_eq_left (by omega), windowOf_high hm, windowOf_high (by omega)]

/-- One operator ceiling: `0` means none. -/
def ceiling (c wlog : Int) : Int := if c > 0 then min c wlog else wlog

/-- The closed form of `dcz_window_log`. -/
theorem dcz_window_log_eq (A : Abi) {d : Nat} {p conf cap : Int} (hd : A.IsSize d) (hp : A.IsOff p) :
    dcz_window_log A d p conf cap = max 10 (ceiling cap (ceiling conf (windowOf (d + content p)))) := by
  unfold dcz_window_log ceiling
  rw [ceil_log2_eq, required_eq A hd hp, windowOf_saturate]
  grind

theorem ceiling_le (c w : Int) : ceiling c w ≤ w := by
  unfold ceiling; split <;> omega

theorem dcz_window_log_bounds (A : Abi) {d : Nat} {p conf cap : Int} (hd : A.IsSize d) (hp : A.IsOff p) :
    10 ≤ dcz_window_log A d p conf cap ∧ dcz_window_log A d p conf cap ≤ 23 := by
  rw [dcz_window_log_eq A hd hp]
  have hw := windowOf_bounds (d + content p)
  have h1 := ceiling_le conf (windowOf (d + content p))
  have h2 := ceiling_le cap (ceiling conf (windowOf (d + content p)))
  omega

end NginxZstd
