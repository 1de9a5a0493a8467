import Mathlib.Tactic.Linarith
import Mathlib.Tactic.Ring
/-!
# The ratio split

`$zstd_ratio` is printed from an integer part and three decimals that are found digit
by digit. Where ten times the remainder does not fit in 64 bits, the digit is
counted by adding the remainder and taking the divisor off again, and the sum may
wrap. The result is exact for all totals.
-/

namespace NginxZstd

/-! ## The source -/

/-- One turn of the inner loop, on `acc` and `digit`. -/
def peel_step (bytes_out remainder : UInt64) (s : UInt64 × UInt64) : UInt64 × UInt64 :=
  let acc := s.1 + remainder
  if acc ≥ bytes_out ∨ acc < remainder then (acc - bytes_out, s.2 + 1) else (acc, s.2)

/-- `k` turns of the inner loop. -/
def peel (bytes_out remainder : UInt64) : (k : Nat) → UInt64 × UInt64
  | 0 => (remainder, 0)
  | k + 1 => peel_step bytes_out remainder (peel bytes_out remainder k)

/-- One turn of the outer loop, on `remainder` and `frac`. -/
def ratio_digit (bytes_out : UInt64) (s : UInt64 × UInt64) : UInt64 × UInt64 :=
  if s.1 ≤ UInt64.ofNat (2 ^ 64 - 1) / 10 then
    let remainder := s.1 * 10
    (remainder % bytes_out, s.2 * 10 + remainder / bytes_out)
  else
    let p := peel bytes_out s.1 9
    (p.1, s.2 * 10 + p.2)

/-- `ngx_http_zstd_ratio_parts`: `*ratio_int` and `*ratio_frac`. -/
def ratio_parts (bytes_in bytes_out : UInt64) : UInt64 × UInt64 :=
  let s := (List.range 3).foldl (fun s _ => ratio_digit bytes_out s) (bytes_in % bytes_out, 0)
  (bytes_in / bytes_out, s.2)

/-! ## The same over the integers -/

/-- A value that has to fit in 64 bits. -/
def fits64 (n : Nat) : Option Nat := if n < 2 ^ 64 then some n else none

/-- The inner loop with the sum as it is: only what is left of it has to fit. -/
def peel_exact (bytes_out remainder : Nat) : (k : Nat) → Option (Nat × Nat)
  | 0 => some (remainder, 0)
  | k + 1 => do
    let (acc, digit) ← peel_exact bytes_out remainder k
    if acc + remainder ≥ bytes_out then
      return (← fits64 (acc + remainder - bytes_out), ← fits64 (digit + 1))
    else return (← fits64 (acc + remainder), digit)

def ratio_digit_exact (bytes_out : Nat) (s : Nat × Nat) : Option (Nat × Nat) := do
  let tenfold ← fits64 (s.2 * 10)
  if s.1 ≤ (2 ^ 64 - 1) / 10 then
    let remainder ← fits64 (s.1 * 10)
    return (remainder % bytes_out, ← fits64 (tenfold + remainder / bytes_out))
  else
    let (acc, digit) ← peel_exact bytes_out s.1 9
    return (acc, ← fits64 (tenfold + digit))

/-- `ratio_parts` in integers of any size, where every value that is stored has to
fit. -/
def ratio_parts_exact (bytes_in bytes_out : Nat) : Option (Nat × Nat) := do
  let s ← (List.range 3).foldlM (fun s _ => ratio_digit_exact bytes_out s) (bytes_in % bytes_out, 0)
  return (bytes_in / bytes_out, s.2)

/-! ## The inner loop -/

def toNats (s : UInt64 × UInt64) : Nat × Nat := (s.1.toNat, s.2.toNat)

theorem fits64_eq {n : Nat} (h : n < 2 ^ 64) : fits64 n = some n := if_pos h

/-- A sum of two values below the divisor is taken off the divisor exactly when it
reaches it, also where it wraps. -/
theorem peel_step_toNat {bytes_out remainder acc digit : UInt64} (hr : remainder < bytes_out) (ha : acc < bytes_out)
    (hd : digit.toNat < 9) :
    toNats (peel_step bytes_out remainder (acc, digit)) =
      if acc.toNat + remainder.toNat ≥ bytes_out.toNat then
        (acc.toNat + remainder.toNat - bytes_out.toNat, digit.toNat + 1)
      else (acc.toNat + remainder.toNat, digit.toNat) := by
  have hr := UInt64.lt_iff_toNat_lt.1 hr
  have ha := UInt64.lt_iff_toNat_lt.1 ha
  have hout := bytes_out.toNat_lt
  have hsum : (acc + remainder).toNat = (acc.toNat + remainder.toNat) % 2 ^ 64 := UInt64.toNat_add ..
  have hiff : acc + remainder ≥ bytes_out ∨ acc + remainder < remainder ↔
      acc.toNat + remainder.toNat ≥ bytes_out.toNat := by
    rw [ge_iff_le, UInt64.le_iff_toNat_le, UInt64.lt_iff_toNat_lt, hsum]
    omega
  unfold peel_step
  by_cases h : acc.toNat + remainder.toNat ≥ bytes_out.toNat
  · rw [if_pos h]
    dsimp only
    rw [if_pos (hiff.2 h), toNats, UInt64.toNat_sub, hsum, UInt64.toNat_add, show (1 : UInt64).toNat = 1 from rfl]
    refine Prod.ext ?_ ?_
    · show _ = _ - _
      omega
    · show _ = _ + _
      omega
  · rw [if_neg h]
    dsimp only
    rw [if_neg (mt hiff.1 h), toNats, hsum]
    refine Prod.ext ?_ rfl
    show _ = _ + _
    omega

/-- The digit times the divisor and what is left make up the multiple so far. -/
theorem peel_spec {bytes_out remainder : UInt64} (hr : remainder < bytes_out) {k : Nat} (hk : k ≤ 9) :
    let p := toNats (peel bytes_out remainder k)
    p.1 < bytes_out.toNat ∧ p.2 ≤ k ∧ p.2 * bytes_out.toNat + p.1 = (k + 1) * remainder.toNat ∧
      peel_exact bytes_out.toNat remainder.toNat k = some p := by
  induction k with
  | zero =>
    refine ⟨UInt64.lt_iff_toNat_lt.1 hr, Nat.le_refl _, ?_, rfl⟩
    simp [toNats, peel]
  | succ k ih =>
    obtain ⟨hacc, hdigit, hsum, hexact⟩ := ih (by omega)
    have hstep := peel_step_toNat hr (UInt64.lt_iff_toNat_lt.2 hacc) (Nat.lt_of_le_of_lt hdigit (by omega))
    have hr' := UInt64.lt_iff_toNat_lt.1 hr
    have hout := bytes_out.toNat_lt
    simp only [toNats] at hacc hdigit hsum hexact
    rw [peel, ← Prod.mk.eta (p := peel bytes_out remainder k), hstep, peel_exact, hexact]
    generalize (peel bytes_out remainder k).1.toNat = acc at *
    generalize (peel bytes_out remainder k).2.toNat = digit at *
    have hmul : (digit + 1) * bytes_out.toNat = digit * bytes_out.toNat + bytes_out.toNat := Nat.succ_mul ..
    have hnext : (k + 1 + 1) * remainder.toNat = (k + 1) * remainder.toNat + remainder.toNat := Nat.succ_mul ..
    simp only [Option.bind_eq_bind, Option.bind_some]
    by_cases h : acc + remainder.toNat ≥ bytes_out.toNat
    · simp only [if_pos h, fits64_eq (show acc + remainder.toNat - bytes_out.toNat < 2 ^ 64 by omega),
        fits64_eq (show digit + 1 < 2 ^ 64 by omega), Option.bind_some]
      exact ⟨by omega, by omega, by omega, rfl⟩
    · simp only [if_neg h, fits64_eq (show acc + remainder.toNat < 2 ^ 64 by omega), Option.bind_some]
      exact ⟨by omega, by omega, by omega, rfl⟩

/-! ## The outer loop -/

/-- The decimals so far and the remainder make up the tenfold of those before. -/
theorem ratio_digit_spec {bytes_out : UInt64} {s : UInt64 × UInt64} (hr : s.1 < bytes_out) (hf : s.2.toNat < 100) :
    let s' := toNats (ratio_digit bytes_out s)
    s'.1 < bytes_out.toNat ∧ s'.2 ≤ 10 * s.2.toNat + 9 ∧
      s'.2 * bytes_out.toNat + s'.1 = 10 * (s.2.toNat * bytes_out.toNat + s.1.toNat) ∧
      ratio_digit_exact bytes_out.toNat (toNats s) = some s' := by
  have hr' := UInt64.lt_iff_toNat_lt.1 hr
  have hmax : (UInt64.ofNat (2 ^ 64 - 1) / 10).toNat = (2 ^ 64 - 1) / 10 := by decide
  have hten : ∀ x : UInt64, (x * 10).toNat = x.toNat * 10 % 2 ^ 64 := fun x => UInt64.toNat_mul ..
  -- a digit below ten does not let the decimals wrap
  have hfrac : ∀ digit : UInt64, digit.toNat ≤ 9 → (s.2 * 10 + digit).toNat = s.2.toNat * 10 + digit.toNat := by
    intro digit hdigit
    rw [UInt64.toNat_add, hten]
    omega
  have hword : fits64 (s.2.toNat * 10) = some (s.2.toNat * 10) := fits64_eq (by omega)
  unfold ratio_digit ratio_digit_exact
  by_cases hsmall : s.1.toNat ≤ (2 ^ 64 - 1) / 10
  · have hfits : s.1.toNat * 10 < 2 ^ 64 := by omega
    have hdigit : s.1.toNat * 10 / bytes_out.toNat ≤ 9 := by
      have : s.1.toNat * 10 / bytes_out.toNat < 10 := Nat.div_lt_of_lt_mul (by omega)
      omega
    have hdivNat : (s.1 * 10 / bytes_out).toNat = s.1.toNat * 10 / bytes_out.toNat := by
      rw [UInt64.toNat_div, hten, Nat.mod_eq_of_lt hfits]
    have hmodNat : (s.1 * 10 % bytes_out).toNat = s.1.toNat * 10 % bytes_out.toNat := by
      rw [UInt64.toNat_mod, hten, Nat.mod_eq_of_lt hfits]
    have hquot : (s.1 * 10 / bytes_out).toNat ≤ 9 := by rwa [hdivNat]
    have hcond : s.1 ≤ UInt64.ofNat (2 ^ 64 - 1) / 10 := by rwa [UInt64.le_iff_toNat_le, hmax]
    rw [if_pos hcond]
    simp only [toNats, hword, if_pos hsmall, fits64_eq hfits,
      fits64_eq (show s.2.toNat * 10 + s.1.toNat * 10 / bytes_out.toNat < 2 ^ 64 by omega),
      hfrac _ hquot, hdivNat, hmodNat, Option.bind_eq_bind, Option.bind_some]
    refine ⟨Nat.mod_lt _ (by omega), by omega, ?_, rfl⟩
    have hdm := Nat.div_add_mod (s.1.toNat * 10) bytes_out.toNat
    calc (s.2.toNat * 10 + s.1.toNat * 10 / bytes_out.toNat) * bytes_out.toNat + s.1.toNat * 10 % bytes_out.toNat
        = 10 * (s.2.toNat * bytes_out.toNat) +
          (bytes_out.toNat * (s.1.toNat * 10 / bytes_out.toNat) + s.1.toNat * 10 % bytes_out.toNat) := by ring
      _ = 10 * (s.2.toNat * bytes_out.toNat + s.1.toNat) := by rw [hdm]; ring
  · have hcond : ¬s.1 ≤ UInt64.ofNat (2 ^ 64 - 1) / 10 := by rwa [UInt64.le_iff_toNat_le, hmax]
    obtain ⟨hacc, hdigit, hsum, hexact⟩ := peel_spec hr (Nat.le_refl 9)
    simp only [toNats] at hacc hdigit hsum hexact
    rw [if_neg hcond]
    simp only [toNats, hword, if_neg hsmall, hexact,
      fits64_eq (show s.2.toNat * 10 + (peel bytes_out s.1 9).2.toNat < 2 ^ 64 by omega), hfrac _ hdigit, Option.bind_eq_bind,
      Option.bind_some]
    refine ⟨hacc, by omega, ?_, rfl⟩
    calc (s.2.toNat * 10 + (peel bytes_out s.1 9).2.toNat) * bytes_out.toNat + (peel bytes_out s.1 9).1.toNat
        = 10 * (s.2.toNat * bytes_out.toNat) +
          ((peel bytes_out s.1 9).2.toNat * bytes_out.toNat + (peel bytes_out s.1 9).1.toNat) := by ring
      _ = 10 * (s.2.toNat * bytes_out.toNat + s.1.toNat) := by rw [hsum]; ring

/-- The first `i` decimals and the remainder behind them. -/
theorem ratio_digits_spec {bytes_in bytes_out : UInt64} (h : 0 < bytes_out) {i : Nat} (hi : i ≤ 3) :
    let s := toNats ((List.range i).foldl (fun s _ => ratio_digit bytes_out s) (bytes_in % bytes_out, 0))
    s.1 < bytes_out.toNat ∧ s.2 < 10 ^ i ∧
      s.2 * bytes_out.toNat + s.1 = 10 ^ i * (bytes_in.toNat % bytes_out.toNat) ∧
      (List.range i).foldlM (fun s _ => ratio_digit_exact bytes_out.toNat s) (bytes_in.toNat % bytes_out.toNat, 0) =
        some s := by
  have hpos := UInt64.lt_iff_toNat_lt.1 h
  induction i with
  | zero =>
    have hmod : (bytes_in % bytes_out).toNat = bytes_in.toNat % bytes_out.toNat := UInt64.toNat_mod ..
    refine ⟨?_, show 0 < 1 by decide, ?_, ?_⟩
    · show (bytes_in % bytes_out).toNat < _
      rw [hmod]
      exact Nat.mod_lt _ hpos
    · simp [toNats]
    · simp [toNats, pure]
  | succ i ih =>
    obtain ⟨hrem, hfrac, hsum, hexact⟩ := ih (by omega)
    rw [List.range_succ, List.foldl_append, List.foldlM_append, hexact, List.foldl_cons, List.foldl_nil]
    generalize (List.range i).foldl (fun s _ => ratio_digit bytes_out s) (bytes_in % bytes_out, 0) = s at *
    have hpow : 10 ^ i ≤ 10 ^ 2 := Nat.pow_le_pow_right (by decide) (by omega)
    simp only [toNats] at hrem hfrac hsum
    obtain ⟨h1, h2, h3, h4⟩ := ratio_digit_spec (UInt64.lt_iff_toNat_lt.2 hrem) (show s.2.toNat < 100 by omega)
    refine ⟨h1, by rw [Nat.pow_succ]; omega, ?_, ?_⟩
    · rw [h3, hsum]
      ring
    · simp only [Option.bind_eq_bind, Option.bind_some, List.foldlM_cons, List.foldlM_nil, h4]
      rfl

/-- The split is exact for all totals: three decimals, which with the integer part are
the thousandfold of the quotient over the integers. Every value fits in 64 bits, but
for the sum that the divisor is taken off again. -/
theorem ratio_parts_floor (bytes_in bytes_out : UInt64) (h : 0 < bytes_out) :
    (ratio_parts bytes_in bytes_out).2.toNat < 1000 ∧
      (ratio_parts bytes_in bytes_out).1.toNat * 1000 + (ratio_parts bytes_in bytes_out).2.toNat =
        bytes_in.toNat * 1000 / bytes_out.toNat ∧
      ratio_parts_exact bytes_in.toNat bytes_out.toNat = some (toNats (ratio_parts bytes_in bytes_out)) := by
  have hpos := UInt64.lt_iff_toNat_lt.1 h
  obtain ⟨hrem, hfrac, hsum, hexact⟩ := @ratio_digits_spec bytes_in bytes_out h 3 (Nat.le_refl 3)
  have hint : (bytes_in / bytes_out).toNat = bytes_in.toNat / bytes_out.toNat := UInt64.toNat_div ..
  simp only [toNats] at hrem hfrac hsum hexact
  refine ⟨hfrac, ?_, ?_⟩
  · show (bytes_in / bytes_out).toNat * 1000 + _ = _
    have hdm := Nat.div_add_mod bytes_in.toNat bytes_out.toNat
    have hfrac : (ratio_parts bytes_in bytes_out).2.toNat * bytes_out.toNat + _ = _ := hsum
    rw [hint]
    generalize (ratio_parts bytes_in bytes_out).2.toNat = frac at *
    have hmul : (bytes_in.toNat / bytes_out.toNat * 1000 + frac) * bytes_out.toNat =
        1000 * (bytes_out.toNat * (bytes_in.toNat / bytes_out.toNat)) + frac * bytes_out.toNat := by ring
    have hnext : (bytes_in.toNat / bytes_out.toNat * 1000 + frac + 1) * bytes_out.toNat =
        (bytes_in.toNat / bytes_out.toNat * 1000 + frac) * bytes_out.toNat + bytes_out.toNat := Nat.succ_mul ..
    refine (Nat.div_eq_of_lt_le ?_ ?_).symm
    · rw [hmul]
      omega
    · rw [hnext, hmul]
      omega
  · rw [ratio_parts_exact, hexact]
    simp only [Option.bind_eq_bind, Option.bind_some, ratio_parts, toNats, hint]
    rfl

/-- The largest totals there are: 0.999, through the loop that wraps. -/
theorem ratio_parts_floor_max :
    ratio_parts_exact (2 ^ 64 - 2) (2 ^ 64 - 1) = some (0, 999) ∧
      (ratio_parts (UInt64.ofNat (2 ^ 64 - 2)) (UInt64.ofNat (2 ^ 64 - 1))).2.toNat = 999 := by
  obtain ⟨-, hfloor, hexact⟩ := ratio_parts_floor (UInt64.ofNat (2 ^ 64 - 2)) (UInt64.ofNat (2 ^ 64 - 1)) (by decide)
  have hint : (ratio_parts (UInt64.ofNat (2 ^ 64 - 2)) (UInt64.ofNat (2 ^ 64 - 1))).1.toNat = 0 := by decide
  have hfrac : (ratio_parts (UInt64.ofNat (2 ^ 64 - 2)) (UInt64.ofNat (2 ^ 64 - 1))).2.toNat = 999 := by
    rw [hint, Nat.zero_mul, Nat.zero_add] at hfloor
    exact hfloor.trans (by decide)
  rw [toNats, hint, hfrac] at hexact
  exact ⟨hexact, hfrac⟩

end NginxZstd
