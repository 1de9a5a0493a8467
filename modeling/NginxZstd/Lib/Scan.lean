import Mathlib.Data.List.TakeWhile
import NginxZstd.Lib.Bytes
/-!
# Quote-aware scanning

A cursor into a byte string is the suffix it points at. `skipUntil` moves one to
the next stop byte outside quoted-strings (`DQUOTE *( qdtext / quoted-pair )
DQUOTE`), and `closes` says a scan of a whole string ends outside them. The
point of both is locality: on a string that closes, what stands behind a stop
byte does not change what a scanner does before it.
-/

namespace NginxZstd.Lib

def dquote : UInt8 := 0x22

def backslash : UInt8 := 0x5c

/-- From just past an opening quote to just past the closing one, or to the end
of an unterminated string. -/
def quotedRest : Bytes → Bytes
  | [] => []
  | c :: s =>
    if c = dquote then s
    else if c = backslash then
      match s with
      | [] => []
      | _ :: s => quotedRest s
    else quotedRest s

@[simp] theorem quotedRest_dquote (s : Bytes) : quotedRest (dquote :: s) = s := by
  rw [quotedRest.eq_def]; exact if_pos rfl

@[simp] theorem quotedRest_pair (d : UInt8) (s : Bytes) : quotedRest (backslash :: d :: s) = quotedRest s := by
  rw [quotedRest.eq_def]; rfl

theorem quotedRest_byte {c : UInt8} (hq : c ≠ dquote) (hb : c ≠ backslash) (s : Bytes) :
    quotedRest (c :: s) = quotedRest s := by
  rw [quotedRest.eq_def]; simp only [if_neg hq, if_neg hb]

theorem quotedRest_length_le (s : Bytes) : (quotedRest s).length ≤ s.length := by
  fun_induction quotedRest s <;> simp_all <;> omega

/-- The next byte that satisfies `stop`, quoted-strings stepped over. -/
def skipUntil (stop : UInt8 → Bool) (s : Bytes) : Bytes :=
  match s with
  | [] => []
  | c :: s =>
    if stop c then c :: s
    else if c = dquote then skipUntil stop (quotedRest s)
    else skipUntil stop s
termination_by s.length
decreasing_by
  · have := quotedRest_length_le s; simp only [List.length_cons]; omega
  · simp

/-- A scan that starts outside (inside) a quoted-string ends outside one. -/
def closes : (inside : Bool) → Bytes → Bool
  | inside, [] => !inside
  | false, c :: s => closes (c == dquote) s
  | true, [c] => c == dquote
  | true, c :: d :: s =>
    if c = dquote then closes false (d :: s) else if c = backslash then closes true s else closes true (d :: s)

@[simp] theorem closes_dquote (s : Bytes) : closes true (dquote :: s) = closes false s := by
  cases s with
  | nil => rfl
  | cons d s => exact if_pos rfl

/-! ## Predicates a scan keeps -/

/-- A predicate on cursors that survives every step a scan takes outside stop
bytes: over a plain byte, and over a whole quoted-string. -/
structure Kept (stop : UInt8 → Bool) (P : Bytes → Prop) : Prop where
  byte : ∀ {c s}, stop c = false → c ≠ dquote → P (c :: s) → P s
  quoted : ∀ {s}, P (dquote :: s) → P (quotedRest s)

theorem Kept.dropWhile {stop : UInt8 → Bool} {P : Bytes → Prop} (hk : Kept stop P) {p : UInt8 → Bool} {s : Bytes}
    (hp : ∀ c ∈ s.takeWhile p, stop c = false ∧ c ≠ dquote) (h : P s) : P (s.dropWhile p) := by
  induction s with
  | nil => exact h
  | cons c s ih =>
    rw [List.takeWhile_cons] at hp
    rw [List.dropWhile_cons]
    split
    · next hc =>
      rw [if_pos hc] at hp
      obtain ⟨hstop, hq⟩ := hp c List.mem_cons_self
      exact ih (fun d hd => hp d (List.mem_cons_of_mem _ hd)) (hk.byte hstop hq h)
    · exact h

theorem Kept.skipUntil {stop stop' : UInt8 → Bool} {P : Bytes → Prop} (hk : Kept stop P)
    (hs : ∀ c, stop c = true → stop' c = true) {s : Bytes} (h : P s) : P (skipUntil stop' s) := by
  fun_induction Lib.skipUntil stop' s with
  | case1 => exact h
  | case2 => exact h
  | case3 s hc ih => exact ih (hk.quoted h)
  | case4 c s hc hq ih =>
    have : stop c = false := by
      cases hsc : stop c with
      | false => rfl
      | true => exact absurd (hs c hsc) hc
    exact ih (hk.byte this hq h)

theorem closes_quotedRest {s : Bytes} (h : closes true s = true) : closes false (quotedRest s) = true := by
  fun_induction quotedRest s with
  | case1 => cases h
  | case2 s =>
    cases s with
    | nil => rfl
    | cons d s => simpa [closes] using h
  | case3 => cases h
  | case4 d s _ ih => exact ih (by simpa [closes, show backslash ≠ dquote by decide] using h)
  | case5 c s hq hb ih =>
    cases s with
    | nil => simp [closes, hq] at h
    | cons d s => exact ih (by simpa [closes, hq, hb] using h)

/-- Any scan keeps a closing string closing. -/
theorem closes_kept (stop : UInt8 → Bool) : Kept stop fun s => closes false s = true where
  byte {c s} _ hq h := by
    rw [closes, beq_eq_false_iff_ne.2 hq] at h
    exact h
  quoted {s} h := closes_quotedRest (by simpa [closes] using h)

/-- Where the next stop byte is does not change while a scan steps over plain bytes
and whole quoted-strings. -/
theorem next_stop_kept {stop : UInt8 → Bool} (hd : stop dquote = false) (t : Bytes) :
    Kept stop fun s => skipUntil stop s = t where
  byte {c s} hc hq h := by rwa [skipUntil, if_neg (by simp [hc]), if_neg hq] at h
  quoted {s} h := by rwa [skipUntil, if_neg (by simp [hd]), if_pos rfl] at h

/-! ## Locality -/

theorem dropWhile_head {p : UInt8 → Bool} {s t : Bytes} {c : UInt8} (h : s.dropWhile p = c :: t) : p c = false := by
  have := List.head_dropWhile_not p (l := s) (by rw [h]; simp)
  simpa [h] using this

theorem dropWhile_append_stop {p : UInt8 → Bool} {c : UInt8} (hc : p c = false) (s t : Bytes) :
    (s ++ c :: t).dropWhile p = s.dropWhile p ++ c :: t := by
  induction s with
  | nil => simp [hc]
  | cons d s ih =>
    rw [List.cons_append, List.dropWhile_cons, List.dropWhile_cons]
    split
    · exact ih
    · rfl

theorem takeWhile_append_stop {p : UInt8 → Bool} {c : UInt8} (hc : p c = false) (s t : Bytes) :
    (s ++ c :: t).takeWhile p = s.takeWhile p := by
  induction s with
  | nil => simp [hc]
  | cons d s ih =>
    rw [List.cons_append, List.takeWhile_cons, List.takeWhile_cons, ih]

theorem quotedRest_append {s : Bytes} (h : closes true s = true) (t : Bytes) :
    quotedRest (s ++ t) = quotedRest s ++ t := by
  fun_induction quotedRest s with
  | case1 => cases h
  | case2 s => exact quotedRest_dquote (s ++ t)
  | case3 => cases h
  | case4 d s _ ih =>
    rw [List.cons_append, List.cons_append, quotedRest_pair]
    exact ih (by simpa [closes, show backslash ≠ dquote by decide] using h)
  | case5 c s hq hb ih =>
    rw [List.cons_append, quotedRest_byte hq hb]
    cases s with
    | nil => simp [closes, hq] at h
    | cons d s => exact ih (by simpa [closes, hq, hb] using h)

theorem skipUntil_append {stop : UInt8 → Bool} {c : UInt8} (hc : stop c = true) {s : Bytes}
    (h : closes false s = true) (t : Bytes) : skipUntil stop (s ++ c :: t) = skipUntil stop s ++ c :: t := by
  fun_induction skipUntil stop s with
  | case1 => rw [List.nil_append, skipUntil, if_pos hc]
  | case2 d s hd => rw [List.cons_append, skipUntil, if_pos hd]
  | case3 s hd ih =>
    have hq : closes true s = true := by simpa [closes] using h
    rw [List.cons_append, skipUntil, if_neg hd, if_pos rfl, quotedRest_append hq]
    exact ih (closes_quotedRest hq)
  | case4 d s hd hq ih =>
    rw [List.cons_append, skipUntil, if_neg hd, if_neg hq]
    exact ih ((closes_kept stop).byte (by simpa using hd) hq h)

theorem closes_append {s : Bytes} {inside : Bool} (h : closes inside s = true) (t : Bytes) :
    closes inside (s ++ t) = closes false t := by
  fun_induction closes inside s with
  | case1 inside => simp only [Bool.not_eq_true'] at h; rw [h]; rfl
  | case2 c s ih => rw [List.cons_append, closes]; exact ih h
  | case3 c =>
    rw [beq_iff_eq] at h
    subst h
    exact closes_dquote t
  | case4 d s ih =>
    rw [List.cons_append, List.cons_append, closes, if_pos rfl]
    exact ih h
  | case5 d s hq ih =>
    rw [List.cons_append, List.cons_append, closes, if_neg hq, if_pos rfl]
    exact ih h
  | case6 c d s hq hb ih =>
    rw [List.cons_append, List.cons_append, closes, if_neg hq, if_neg hb]
    exact ih h

/-- From a quote-closed text the scan of what follows starts afresh. -/
theorem skipUntil_append_nil {stop : UInt8 → Bool} {s : Bytes} (hc : closes false s = true)
    (hs : skipUntil stop s = []) (r : Bytes) : skipUntil stop (s ++ r) = skipUntil stop r := by
  fun_induction skipUntil stop s with
  | case1 => rfl
  | case2 => cases hs
  | case3 s h ih =>
    have hq : closes true s = true := by simpa [closes] using hc
    rw [List.cons_append, skipUntil, if_neg h, if_pos rfl, quotedRest_append hq]
    exact ih (closes_quotedRest hq) hs
  | case4 c s h hq ih =>
    rw [List.cons_append, skipUntil, if_neg h, if_neg hq]
    exact ih ((closes_kept stop).byte (by simpa using h) hq hc) hs

/-- A quoted-string that something stands behind is terminated. -/
theorem quotedRest_split {s : Bytes} (h : quotedRest s ≠ []) :
    ∃ q, s = q ++ quotedRest s ∧ closes true q = true ∧ quotedRest q = [] := by
  fun_induction quotedRest s with
  | case1 => exact absurd rfl h
  | case2 s => exact ⟨[dquote], rfl, rfl, quotedRest_dquote []⟩
  | case3 => exact absurd rfl h
  | case4 d s _ ih =>
    obtain ⟨q, hs, hc, hq⟩ := ih h
    refine ⟨backslash :: d :: q, congrArg (backslash :: d :: ·) hs, ?_, (quotedRest_pair d q).trans hq⟩
    simpa [closes, show backslash ≠ dquote by decide] using hc
  | case5 c s hne hb ih =>
    obtain ⟨q, hs, hc, hq⟩ := ih h
    refine ⟨c :: q, congrArg (c :: ·) hs, ?_, (quotedRest_byte hne hb q).trans hq⟩
    cases q with
    | nil => cases hc
    | cons d q => simpa [closes, hne, hb] using hc

/-- Where a scan stops it splits the text: what it stepped over is closed and has no
stop byte of its own. -/
theorem skipUntil_split {stop : UInt8 → Bool} {s t : Bytes} {c : UInt8} (h : skipUntil stop s = c :: t) :
    ∃ u, s = u ++ c :: t ∧ stop c = true ∧ closes false u = true ∧ skipUntil stop u = [] := by
  fun_induction skipUntil stop s with
  | case1 => cases h
  | case2 d s hd =>
    cases h
    exact ⟨[], rfl, hd, rfl, by rw [skipUntil]⟩
  | case3 s hd ih =>
    obtain ⟨u, hu, hc, hclosed, hnone⟩ := ih h
    obtain ⟨q, hq, hqc, hqn⟩ := quotedRest_split (s := s) (by rw [hu]; simp)
    refine ⟨dquote :: (q ++ u), ?_, hc, ?_, ?_⟩
    · rw [List.cons_append, List.append_assoc, ← hu, ← hq]
    · show closes true (q ++ u) = true
      rw [closes_append hqc]
      exact hclosed
    · rw [skipUntil, if_neg hd, if_pos rfl, quotedRest_append hqc, hqn]
      exact hnone
  | case4 d s hd hq ih =>
    obtain ⟨u, hu, hc, hclosed, hnone⟩ := ih h
    refine ⟨d :: u, by rw [List.cons_append, hu], hc, ?_, ?_⟩
    · rw [closes, beq_eq_false_iff_ne.2 hq]
      exact hclosed
    · rw [skipUntil, if_neg hd, if_neg hq]
      exact hnone

/-- A scan that has stopped already does not see what is appended. -/
theorem skipUntil_append_stopped {stop : UInt8 → Bool} {s : Bytes} (h : skipUntil stop s ≠ []) (t : Bytes) :
    skipUntil stop (s ++ t) = skipUntil stop s ++ t := by
  cases hs : skipUntil stop s with
  | nil => exact absurd hs h
  | cons c r =>
    obtain ⟨u, rfl, hc, hclosed, hnone⟩ := skipUntil_split hs
    rw [List.append_assoc, List.cons_append, skipUntil_append hc hclosed, hnone]
    rfl

theorem skipUntil_length_le (stop : UInt8 → Bool) (s : Bytes) : (skipUntil stop s).length ≤ s.length := by
  fun_induction skipUntil stop s with
  | case1 => exact Nat.le_refl _
  | case2 => exact Nat.le_refl _
  | case3 s hc ih => have := quotedRest_length_le s; simp only [List.length_cons]; omega
  | case4 c s hc hq ih => simp only [List.length_cons]; omega

end NginxZstd.Lib
