import Mathlib.Order.Bounds.Basic
import NginxZstd.Conf
import NginxZstd.Window
/-!
# The memory budget

`zstd_max_cctx_memory` is checked once, at config load, against libzstd's estimate
for the location's own window. A dcz response derives a window of its own from
its dictionary and its body; the largest window that fits the budget is
searched for at config load and `dcz_window_log` stays below it.
-/

namespace NginxZstd

open Lib

/-! ## The estimate -/

/-- The `ZSTD_cParameter`s the estimate sets. -/
inductive CParam where
  | window_log
  | enable_long_distance_matching
  | ldm_hash_log
  | ldm_min_match
  | ldm_bucket_size_log
  | ldm_hash_rate_log
  | target_cblock_size
deriving DecidableEq

/-- libzstd's parameter objects and its estimate. `create` says whether the `n`-th
`ZSTD_createCCtxParams` gives an object, `fresh` what is in it; errors carry
`ZSTD_getErrorName`. -/
structure EstimateLib (P : Type) where
  create : Nat → Bool
  fresh : P
  init : P → (level : Int) → Except Bytes P
  set_parameter : P → CParam → Int → Except Bytes P
  estimate_cstream_size : P → Except Bytes Nat
  ldm_hashlog_min : Int
  ldm_hashlog_max : Int
  have_target_cblock_size : Bool
  /-- Built with the memory-estimation API. -/
  have_estimator : Bool

inductive BudgetError where
  | create_failed
  | init_failed (level : Int) (name : Bytes)
  | window_failed (window_log : Int) (name : Bytes)
  | ldm_enable_failed (name : Bytes)
  | ldm_failed (name : Bytes)
  | ldm_zero_rate (window_log : Int)
  | target_failed (size : Int) (name : Bytes)
  | estimate_failed (name : Bytes)
  | over_budget (est : Nat) (max_cctx_memory level : Int)
  | no_estimator

def ldm_windowlog : Int := 27
def ldm_minmatch : Int := 64
def ldm_hashlog_offset : Int := 7
def ldm_bucketsizelog : Int := 3

section
variable {P : Type} (Z : EstimateLib P) (conf : LocConf)

/-- The long-distance parameters, derived from the window. -/
def set_ldm (cp : P) (window_log : Int) : Except BudgetError P := do
  let cp ← (Z.set_parameter cp .enable_long_distance_matching 1).mapError .ldm_enable_failed
  let ldm_wlog := if window_log > 0 then window_log else ldm_windowlog
  let ldm_hlog := min Z.ldm_hashlog_max (max Z.ldm_hashlog_min (ldm_wlog - ldm_hashlog_offset))
  let ldm_rlog := max 0 (ldm_wlog - ldm_hlog)
  let cp ← (do
    let cp ← Z.set_parameter cp .window_log ldm_wlog
    let cp ← Z.set_parameter cp .ldm_hash_log ldm_hlog
    let cp ← Z.set_parameter cp .ldm_min_match ldm_minmatch
    let cp ← Z.set_parameter cp .ldm_bucket_size_log ldm_bucketsizelog
    Z.set_parameter cp .ldm_hash_rate_log ldm_rlog).mapError .ldm_failed
  if ldm_rlog ≤ 0 then throw (.ldm_zero_rate ldm_wlog)
  return cp

/-- What `ngx_http_zstd_estimate_cctx_memory` does once it has its object. -/
def cctx_estimate (window_log : Int) : Except BudgetError Nat := do
  let cp ← (Z.init Z.fresh conf.level).mapError (.init_failed conf.level)
  let cp ← if window_log > 0 then (Z.set_parameter cp .window_log window_log).mapError (.window_failed window_log)
    else pure cp
  let cp ← if conf.long_mode then set_ldm Z cp window_log else pure cp
  let cp ← if Z.have_target_cblock_size ∧ conf.target_cblock_size > 0 then
      (Z.set_parameter cp .target_cblock_size conf.target_cblock_size).mapError (.target_failed conf.target_cblock_size)
    else pure cp
  (Z.estimate_cstream_size cp).mapError .estimate_failed

/-- `ngx_http_zstd_estimate_cctx_memory`, the `n`-th call of a merge. -/
def estimate_cctx_memory (n : Nat) (window_log : Int) : Except BudgetError Nat :=
  if Z.create n then cctx_estimate Z conf window_log else .error .create_failed

/-! ## The search and the gate -/

def dcz_max_window_log : Int := 23

def dcz_min_window_log : Int := 10

/-- `for (wlog = 23; wlog >= 10; wlog--)`, with `left` windows left to try: the
window it stops at, one below the floor where none fits. -/
def cap_search (max_cctx_memory : Int) : (left : Nat) → Except BudgetError Int
  | 0 => .ok (dcz_min_window_log - 1)
  | left + 1 => do
    let wlog : Int := dcz_min_window_log + left
    let est ← estimate_cctx_memory Z conf (14 - left) wlog
    if est ≤ max_cctx_memory.toNat then return wlog
    cap_search max_cctx_memory left

/-- `ngx_http_zstd_dcz_window_cap`. -/
def dcz_window_cap (max_cctx_memory : Int) : Except BudgetError Int := do
  if max_cctx_memory = conf_unset ∨ max_cctx_memory ≤ 0 then return 0
  let wlog ← cap_search Z conf max_cctx_memory 14
  -- the pin to the floor
  if wlog < dcz_min_window_log then return dcz_min_window_log
  return wlog

/-- `NGX_HTTP_ZSTD_CCTX_ADVISORY_BYTES`. -/
def cctx_advisory_bytes : Nat := 32 * 1024 * 1024

/-- The memory policy of `ngx_http_zstd_merge_loc_conf`, for a conf with merged
values: the conf with its cap, and the estimate an advisory prints. -/
def merge_budget (max_cctx_memory : Int) : Except BudgetError (LocConf × Option Nat) := do
  -- the hard gate
  if conf.enable ∧ max_cctx_memory ≠ conf_unset ∧ max_cctx_memory > 0 then
    if ¬Z.have_estimator then throw .no_estimator
    let est ← estimate_cctx_memory Z conf 0 conf.window_log
    if est > max_cctx_memory.toNat then throw (.over_budget est max_cctx_memory conf.level)
    let cap ← dcz_window_cap Z conf max_cctx_memory
    return ({ conf with dcz_window_cap := cap }, none)
  -- without a budget a large estimate is only reported
  if conf.enable ∧ max_cctx_memory = conf_unset ∧ Z.have_estimator then
    let est ← estimate_cctx_memory Z conf 0 conf.window_log
    if est > cctx_advisory_bytes then return (conf, some est)
  return (conf, none)

end

/-! ## What the search finds -/

section
variable {P : Type} {Z : EstimateLib P} {conf : LocConf}

/-- libzstd's estimate for the location's parameters is `est` over the dcz windows: it
does not decrease there, and is at the floor no more than for the location's own
window. -/
structure Estimates (Z : EstimateLib P) (conf : LocConf) (est : Int → Nat) : Prop where
  value : ∀ w, 10 ≤ w → w ≤ 23 → cctx_estimate Z conf w = .ok (est w)
  mono : ∀ w w', 10 ≤ w → w ≤ w' → w' ≤ 23 → est w ≤ est w'
  own : ∀ e, cctx_estimate Z conf conf.window_log = .ok e → est 10 ≤ e

theorem estimate_cctx_memory_ok {n : Nat} {window_log : Int} {e : Nat}
    (h : estimate_cctx_memory Z conf n window_log = .ok e) : cctx_estimate Z conf window_log = .ok e := by
  unfold estimate_cctx_memory at h
  split at h
  · exact h
  · cases h

/-- The search stops at the largest window that fits, below the floor where none
does. -/
theorem cap_search_spec {est : Int → Nat} (hest : Estimates Z conf est) {max_cctx_memory : Int} :
    ∀ {left : Nat} {wlog : Int}, left ≤ 14 → cap_search Z conf max_cctx_memory left = .ok wlog →
      (∀ w, wlog < w → 10 ≤ w → w < 10 + left → max_cctx_memory.toNat < est w) ∧
        (wlog = 9 ∨ 10 ≤ wlog ∧ wlog < 10 + left ∧ est wlog ≤ max_cctx_memory.toNat) := by
  intro left
  induction left with
  | zero =>
    intro wlog _ h
    cases h
    exact ⟨fun w _ h1 h2 => by omega, .inl rfl⟩
  | succ left ih =>
    intro wlog hleft h
    simp only [cap_search, dcz_min_window_log] at h
    obtain ⟨e, he, h⟩ := bind_ok h
    -- the window tried is the largest of those left
    have hval := hest.value (10 + left) (by omega) (by omega)
    rw [estimate_cctx_memory_ok he] at hval
    cases hval
    split at h
    · next hfit =>
      cases h
      exact ⟨fun w h1 _ h2 => by omega, .inr ⟨by omega, by omega, hfit⟩⟩
    · next hover =>
      obtain ⟨habove, hat⟩ := ih (by omega) h
      refine ⟨fun w h1 h2 h3 => ?_, ?_⟩
      · by_cases hw : w = 10 + left
        · rw [hw]
          omega
        · exact habove w h1 h2 (by omega)
      · rcases hat with h9 | ⟨h1, h2, h3⟩
        · exact .inl h9
        · exact .inr ⟨h1, by omega, h3⟩

/-- A merge that passes the gate has searched for the cap. -/
theorem merge_budget_ok {conf' : LocConf} {max_cctx_memory : Int} {advisory : Option Nat}
    (h : merge_budget Z conf max_cctx_memory = .ok (conf', advisory)) (he : conf.enable) (hm : 0 < max_cctx_memory) :
    ∃ est cap, cctx_estimate Z conf conf.window_log = .ok est ∧ est ≤ max_cctx_memory.toNat ∧
      dcz_window_cap Z conf max_cctx_memory = .ok cap ∧ conf' = { conf with dcz_window_cap := cap } := by
  have hunset : max_cctx_memory ≠ conf_unset := by
    unfold conf_unset
    omega
  unfold merge_budget at h
  rw [if_pos ⟨he, hunset, hm⟩] at h
  split at h
  · cases h
  obtain ⟨est, hest, h⟩ := bind_ok h
  split at h
  · cases h
  next hfit =>
  obtain ⟨cap, hcap, h⟩ := bind_ok h
  cases h
  exact ⟨est, cap, estimate_cctx_memory_ok hest, by omega, hcap, rfl⟩

/-- Where the gate passes the search does not fall below the floor. -/
theorem cap_search_floor {est : Int → Nat} (hest : Estimates Z conf est) {max_cctx_memory wlog : Int} {own : Nat}
    (hown : cctx_estimate Z conf conf.window_log = .ok own) (hgate : own ≤ max_cctx_memory.toNat)
    (h : cap_search Z conf max_cctx_memory 14 = .ok wlog) : dcz_min_window_log ≤ wlog := by
  obtain ⟨habove, hat⟩ := cap_search_spec hest le_rfl h
  rcases hat with rfl | ⟨hfloor, -, -⟩
  · -- below the floor the estimate at 10 would exceed what the gate let pass
    have hfits := hest.own own hown
    have hover := habove 10 (by decide) le_rfl (by decide)
    omega
  · exact hfloor

end

/-- For every enabled location that merges with a budget, and an estimate that does
not decrease over the dcz windows: the window of every dcz response fits the
budget, the cap is the largest window that does, and the search never needs its
pin to the floor. -/
theorem merge_budget_binds (A : Abi) {P : Type} {Z : EstimateLib P} {conf conf' : LocConf} {max_cctx_memory : Int}
    {advisory : Option Nat} {est : Int → Nat} (hest : Estimates Z conf est) (henable : conf.enable)
    (hbudget : 0 < max_cctx_memory) (h : merge_budget Z conf max_cctx_memory = .ok (conf', advisory)) :
    (∀ dicts, conf'.dcz_dicts = some dicts → ∀ dict ∈ dicts, A.IsSize dict.bytes.length → ∀ p, A.IsOff p →
      est (dcz_window_log A dict.bytes.length p conf'.window_log conf'.dcz_window_cap) ≤ max_cctx_memory.toNat) ∧
    IsGreatest {w | dcz_min_window_log ≤ w ∧ w ≤ dcz_max_window_log ∧ est w ≤ max_cctx_memory.toNat}
      conf'.dcz_window_cap ∧
    ∀ wlog, cap_search Z conf max_cctx_memory 14 = .ok wlog → ¬wlog < dcz_min_window_log := by
  obtain ⟨own, cap, hown, hgate, hcap, rfl⟩ := merge_budget_ok h henable hbudget
  have hfloor : ∀ wlog, cap_search Z conf max_cctx_memory 14 = .ok wlog → ¬wlog < dcz_min_window_log :=
    fun wlog hw => not_lt.2 (cap_search_floor hest hown hgate hw)
  -- the search's own result is the cap
  have hsearch : cap_search Z conf max_cctx_memory 14 = .ok cap := by
    unfold dcz_window_cap at hcap
    rw [if_neg (by unfold conf_unset; omega)] at hcap
    obtain ⟨wlog, hw, hcap⟩ := bind_ok hcap
    rw [if_neg (hfloor wlog hw)] at hcap
    cases hcap
    exact hw
  obtain ⟨habove, hat⟩ := cap_search_spec hest le_rfl hsearch
  have hten : 10 ≤ cap := cap_search_floor hest hown hgate hsearch
  obtain ⟨hle, hfits⟩ : cap ≤ 23 ∧ est cap ≤ max_cctx_memory.toNat := by
    rcases hat with rfl | ⟨-, hlt, hfits⟩
    · omega
    · exact ⟨by omega, hfits⟩
  refine ⟨fun dicts _ dict _ hsize p hp => ?_, ⟨⟨hten, hle, hfits⟩, fun w hw => ?_⟩, hfloor⟩
  · have hlow := (@dcz_window_log_bounds A dict.bytes.length p conf.window_log cap hsize hp).1
    have hcapped : dcz_window_log A dict.bytes.length p conf.window_log cap ≤ cap := by
      rw [dcz_window_log_eq A hsize hp, ceiling, if_pos (by omega)]
      omega
    exact le_trans (hest.mono _ _ hlow hcapped hle) hfits
  · obtain ⟨hw1, hw2, hw3⟩ := hw
    show w ≤ cap
    by_contra hc
    have := habove w (by omega) hw1 (by unfold dcz_max_window_log at hw2; omega)
    omega

/-! ### Level 3, as measured -/

/-- The estimate for level 3, whose default window is 21: 3 663 393 bytes there and
9 954 849 at the largest dcz window. -/
def level3_estimate (window_log : Int) : Nat :=
  1566241 + 2 ^ (if window_log > 0 then window_log.toNat else 21)

/-- A libzstd that estimates so; its parameter object holds the window. -/
def level3_lib : EstimateLib Int where
  create _ := true
  fresh := 0
  init cp _ := .ok cp
  set_parameter cp
    | .window_log, w => .ok w
    | _, _ => .ok cp
  estimate_cstream_size cp := .ok (level3_estimate cp)
  ldm_hashlog_min := 6
  ldm_hashlog_max := 30
  have_target_cblock_size := true
  have_estimator := true

/-- A location at level 3 with one dictionary. -/
def level3_conf (enable : Bool) : LocConf where
  enable := enable
  level := 3
  min_length := 1024
  max_length := none
  target_cblock_size := 0
  window_log := 0
  long_mode := false
  dcz_window_cap := 0
  bypass := none
  bypass_vary := none
  types := none
  bufs := ⟨2, 131591⟩
  dict := none
  dcz_dicts := some [⟨str "/d", str "dict", zeroDigest, none, []⟩]
  dcz_assume_secure := true

theorem level3_estimates (enable : Bool) : Estimates level3_lib (level3_conf enable) level3_estimate where
  value w h _ := by
    have hset : w > 0 := by omega
    simp only [cctx_estimate, level3_lib, level3_conf, hset, if_true]
    rfl
  mono w w' h h1 h2 := by
    simp only [level3_estimate]
    rw [if_pos (by omega), if_pos (by omega)]
    have : 2 ^ w.toNat ≤ 2 ^ w'.toNat := Nat.pow_le_pow_right (by decide) (by omega)
    omega
  own e h := by
    cases h
    decide

/-- With four million bytes the window stays at 21, also for a body of 8 MB. -/
theorem merge_budget_binds_level3 :
    let A : Abi := ⟨64, 64, .inr rfl, .inr rfl⟩
    level3_estimate (dcz_window_log A 4 (2 ^ 23) 0 21) ≤ 4000000 ∧
      IsGreatest {w | dcz_min_window_log ≤ w ∧ w ≤ dcz_max_window_log ∧ level3_estimate w ≤ 4000000} 21 := by
  intro A
  obtain ⟨hfits, hcap, -⟩ := merge_budget_binds A (level3_estimates true) rfl (by decide : (0 : Int) < 4000000)
    (rfl : merge_budget level3_lib (level3_conf true) 4000000 = .ok (_, none))
  refine ⟨hfits _ rfl _ List.mem_cons_self ?_ (2 ^ 23) ?_, hcap⟩
  · simp [Abi.IsSize, A, str]
  · simp [Abi.IsOff, A]

/-- A location that is switched off merges without a look at the budget: its cap is
unset and the window for a body of 8 MB costs more than twice the budget. -/
theorem merge_budget_disabled :
    let A : Abi := ⟨64, 64, .inr rfl, .inr rfl⟩
    ∃ conf', merge_budget level3_lib (level3_conf false) 4000000 = .ok (conf', none) ∧
      Estimates level3_lib (level3_conf false) level3_estimate ∧ A.IsSize 4 ∧ A.IsOff (2 ^ 23) ∧
      (∃ dict, conf'.dcz_dicts = some [dict] ∧ dict.bytes.length = 4) ∧
      8000000 < level3_estimate (dcz_window_log A 4 (2 ^ 23) conf'.window_log conf'.dcz_window_cap) ∧
      ¬IsGreatest {w | dcz_min_window_log ≤ w ∧ w ≤ dcz_max_window_log ∧ level3_estimate w ≤ 4000000}
        conf'.dcz_window_cap := by
  intro A
  refine ⟨_, rfl, level3_estimates false, ?_, ?_, ⟨_, rfl, rfl⟩, by decide +kernel, ?_⟩
  · simp [Abi.IsSize, A]
  · simp [Abi.IsOff, A]
  · rintro ⟨⟨hfloor, -, -⟩, -⟩
    exact absurd hfloor (by decide)

end NginxZstd
