import Mathlib.Data.List.Induction
import NginxZstd.AcceptEncoding.Grammar
/-!
# Reading one parameter

A rendered parameter behind its `;` either brings the walk to the next boundary
with the state the grammar gives it, or stops it as malformed
(`eval_parameter_render`). The qvalue reader is sound and complete for the
qvalue grammar, which is what makes ungrammatical text malformed.
-/

namespace NginxZstd

open Lib

/-! ## Bytes of the grammar -/

theorem tchar_facts {c : UInt8} (h : is_tchar c = true) :
    is_name c = true ∧ is_coding_name c = true ∧ is_list_sep c = false ∧ is_ows c = false ∧
      is_param_end c = false ∧ Plain c ∧ c ≠ equals ∧ c ≠ 0 := by
  have key : ∀ n : Fin 256, is_tchar (UInt8.ofNat n) = true →
      is_name (UInt8.ofNat n) = true ∧ is_coding_name (UInt8.ofNat n) = true ∧
        is_list_sep (UInt8.ofNat n) = false ∧ is_ows (UInt8.ofNat n) = false ∧
        is_param_end (UInt8.ofNat n) = false ∧ Plain (UInt8.ofNat n) ∧ UInt8.ofNat n ≠ equals ∧
        UInt8.ofNat n ≠ 0 := by decide +kernel
  simpa using key ⟨c.toNat, UInt8.toNat_lt c⟩ (by simpa using h)

theorem mem_ows {w : Ows} {c : UInt8} (h : c ∈ ows w) : is_ows c = true := by
  simp only [ows, List.mem_map] at h
  obtain ⟨b, -, rfl⟩ := h
  cases b <;> decide

/-- Where a scan over a rendering may stop: the end, or the next `;`. -/
def Boundary (r : Bytes) : Prop := r = [] ∨ ∃ s, r = semicolon :: s

/-- The first byte, if any, fails `p`. -/
def Stops (p : UInt8 → Bool) (r : Bytes) : Prop := ∀ c s, r = c :: s → p c = false

theorem Boundary.stops {r : Bytes} (h : Boundary r) {p : UInt8 → Bool} (hp : p semicolon = false) : Stops p r := by
  rintro c s rfl
  rcases h with h | ⟨s', h⟩
  · cases h
  · cases h; exact hp

theorem dropWhile_through {p : UInt8 → Bool} {s r : Bytes} (hs : ∀ c ∈ s, p c = true) (hr : Stops p r) :
    (s ++ r).dropWhile p = r := by
  induction s with
  | nil =>
    cases r with
    | nil => rfl
    | cons c r => simp [hr c r rfl]
  | cons c s ih =>
    rw [List.cons_append, List.dropWhile_cons, if_pos (hs c List.mem_cons_self)]
    exact ih fun d hd => hs d (List.mem_cons_of_mem _ hd)

theorem takeWhile_through {p : UInt8 → Bool} {s r : Bytes} (hs : ∀ c ∈ s, p c = true) (hr : Stops p r) :
    (s ++ r).takeWhile p = s := by
  induction s with
  | nil =>
    cases r with
    | nil => rfl
    | cons c r => simp [hr c r rfl]
  | cons c s ih =>
    rw [List.cons_append, List.takeWhile_cons, if_pos (hs c List.mem_cons_self)]
    rw [ih fun d hd => hs d (List.mem_cons_of_mem _ hd)]

theorem skip_ows_through {w : Ows} {r : Bytes} (hr : Stops is_ows r) : skip_ows (ows w ++ r) = r :=
  dropWhile_through (fun _ hc => mem_ows hc) hr

theorem stops_cons {p : UInt8 → Bool} {c : UInt8} (h : p c = false) (s : Bytes) : Stops p (c :: s) := by
  intro d u hd; cases hd; exact h

/-- A scan for a byte the whitespace is not steps over it and stops alike. -/
theorem stops_ows {p : UInt8 → Bool} (hp : ∀ c, is_ows c = true → p c = false) {w : Ows} {r : Bytes}
    (hr : Stops p r) : Stops p (ows w ++ r) := by
  intro c s h
  cases hw : ows w with
  | nil => rw [hw] at h; exact hr c s h
  | cons d u =>
    rw [hw] at h
    cases h
    exact hp c (mem_ows (w := w) (by rw [hw]; exact List.mem_cons_self))

/-! ## Scans over plain and quoted text -/

theorem skipUntil_plain {stop : UInt8 → Bool} {s r : Bytes} (hs : ∀ c ∈ s, stop c = false ∧ c ≠ dquote) :
    skipUntil stop (s ++ r) = skipUntil stop r := by
  induction s with
  | nil => rfl
  | cons c s ih =>
    obtain ⟨h1, h2⟩ := hs c List.mem_cons_self
    rw [List.cons_append, skipUntil, if_neg (by simp [h1]), if_neg h2]
    exact ih fun d hd => hs d (List.mem_cons_of_mem _ hd)

theorem quotedRest_render (s : List QChar) (r : Bytes) :
    quotedRest (s.flatMap QChar.render ++ dquote :: r) = r := by
  induction s with
  | nil => exact quotedRest_dquote r
  | cons c s ih =>
    rw [List.flatMap_cons, List.append_assoc]
    cases c with
    | qdtext c h => exact (quotedRest_byte h.1 h.2 _).trans ih
    | quoted_pair c => exact (quotedRest_pair c _).trans ih

theorem skipUntil_value {stop : UInt8 → Bool} (hd : stop dquote = false)
    (ht : ∀ c, is_tchar c = true → stop c = false) (v : Value) (r : Bytes) :
    skipUntil stop (v.render ++ r) = skipUntil stop r := by
  cases v with
  | token t => exact skipUntil_plain fun c hc => ⟨ht c (t.tchars c hc), (tchar_facts (t.tchars c hc)).2.2.2.2.2.1.2⟩
  | quoted s =>
    rw [Value.render, List.cons_append, skipUntil, if_neg (by simp [hd]), if_pos rfl, List.append_assoc]
    exact congrArg _ (quotedRest_render s r)

/-! ## Qvalues -/

theorem digit_byte (d : Fin 10) :
    is_digit (0x30 + UInt8.ofNat d.1) = true ∧ (0x30 + UInt8.ofNat d.1).toNat - 0x30 = d.1 := by
  revert d; decide

theorem byte_digit {c : UInt8} (h : is_digit c = true) : ∃ d : Fin 10, c = 0x30 + UInt8.ofNat d.1 := by
  have key : ∀ n : Fin 256, is_digit (UInt8.ofNat n) = true →
      ∃ d : Fin 10, UInt8.ofNat n = 0x30 + UInt8.ofNat d.1 := by decide +kernel
  simpa using key ⟨c.toNat, UInt8.toNat_lt c⟩ (by simpa using h)

theorem q_digits_render : ∀ (ws : List Nat) (ds : List (Fin 10)) (r : Bytes), ds.length ≤ ws.length →
    Stops is_digit r →
    q_digits ws (ds.map (fun d => 0x30 + UInt8.ofNat d.1) ++ r) =
      ((List.zipWith (fun (d : Fin 10) w => d.1 * w) ds ws).sum, r)
  | ws, [], r, _, hr => by
    cases ws with
    | nil => cases r <;> simp [q_digits]
    | cons w ws =>
      cases r with
      | nil => simp [q_digits]
      | cons c r => simp [q_digits, hr c r rfl]
  | [], d :: ds, r, h, _ => by simp at h
  | w :: ws, d :: ds, r, h, hr => by
    have ih := q_digits_render ws ds r (by simpa using h) hr
    obtain ⟨h1, h2⟩ := digit_byte d
    simp only [List.map_cons, List.cons_append, q_digits, if_pos h1, ih, h2, List.zipWith_cons_cons,
      List.sum_cons]

theorem skip_zeros_render : ∀ (n k : Nat) (r : Bytes), k ≤ n → Stops (· == 0x30) r →
    skip_zeros n (List.replicate k 0x30 ++ r) = r
  | n, 0, r, _, hr => by
    cases n with
    | zero => cases r <;> rfl
    | succ n =>
      cases r with
      | nil => rfl
      | cons c r => have := hr c r rfl; simp only [beq_eq_false_iff_ne] at this; simp [skip_zeros, this]
  | 0, k + 1, r, h, _ => by omega
  | n + 1, k + 1, r, h, hr => by
    rw [List.replicate_succ, List.cons_append, skip_zeros, if_pos rfl]
    exact skip_zeros_render n k r (by omega) hr

/-- What may follow a qvalue. -/
def QEnd (r : Bytes) : Prop := ∀ c s, r = c :: s → (is_ows c || c == semicolon || c == comma) = true

theorem QEnd.stops {r : Bytes} (h : QEnd r) {p : UInt8 → Bool}
    (hp : ∀ c, (is_ows c || c == semicolon || c == comma) = true → p c = false) : Stops p r :=
  fun c s hr => hp c (h c s hr)

theorem q_end_ok {q : Int} {r : Bytes} (h : QEnd r) : q_end q r = .ok (q, true, r) := by
  cases r with
  | nil => rfl
  | cons c r => rw [q_end, if_pos (h c r rfl)]

theorem qend_byte {c : UInt8} (h : (is_ows c || c == semicolon || c == comma) = true) :
    is_digit c = false ∧ (c == 0x30) = false ∧ c ≠ 0x2e := by
  simp only [is_ows, Bool.or_eq_true, beq_iff_eq] at h
  rcases h with ((rfl | rfl) | rfl) | rfl <;> decide

/-- A rendered qvalue is read as its weight. -/
theorem q_value_render (v : QValue) {r : Bytes} (hr : QEnd r) :
    q_value (v.render ++ r) = .ok ((v.weight : Int), true, r) := by
  have hdot : ∀ c s, r = c :: s → c ≠ 0x2e := fun c s h => (qend_byte (hr c s h)).2.2
  have hdig : Stops is_digit r := hr.stops fun c hc => (qend_byte hc).1
  have hzero : Stops (· == 0x30) r := hr.stops fun c hc => (qend_byte hc).2.1
  match v with
  | .zero none =>
    cases r with
    | nil => rfl
    | cons c r =>
      simp only [QValue.render, List.cons_append, List.nil_append, q_value, if_true, if_neg (hdot c r rfl)]
      exact q_end_ok hr
  | .zero (some ds) =>
    have h := q_digits_render [100, 10, 1] ds.1 r ds.2 hdig
    simp only [QValue.render, List.cons_append, q_value, if_true, parse_q_fraction, h]
    exact q_end_ok hr
  | .one none =>
    cases r with
    | nil => rfl
    | cons c r =>
      simp only [QValue.render, List.cons_append, List.nil_append, q_value, if_true, if_neg (hdot c r rfl),
        if_neg (show (0x31 : UInt8) ≠ 0x30 by decide)]
      exact q_end_ok hr
  | .one (some n) =>
    have h := skip_zeros_render 3 n r (by omega) hzero
    simp only [QValue.render, List.cons_append, q_value, if_true, h,
      if_neg (show (0x31 : UInt8) ≠ 0x30 by decide)]
    exact q_end_ok hr

theorem q_digits_split : ∀ (ws : List Nat) (p : Bytes), ∃ ds : List (Fin 10), ds.length ≤ ws.length ∧
    p = ds.map (fun d => 0x30 + UInt8.ofNat d.1) ++ (q_digits ws p).2
  | [], p => ⟨[], by simp, by cases p <;> simp [q_digits]⟩
  | w :: ws, [] => ⟨[], by simp, by simp [q_digits]⟩
  | w :: ws, c :: p => by
    by_cases hc : is_digit c = true
    · obtain ⟨ds, hlen, hp⟩ := q_digits_split ws p
      obtain ⟨d, rfl⟩ := byte_digit hc
      refine ⟨d :: ds, by simpa using hlen, ?_⟩
      simp only [q_digits, if_pos hc, List.map_cons, List.cons_append]
      rw [← hp]
    · exact ⟨[], by simp, by simp [q_digits, hc]⟩

theorem skip_zeros_split : ∀ (n : Nat) (p : Bytes), ∃ k ≤ n, p = List.replicate k 0x30 ++ skip_zeros n p
  | 0, p => ⟨0, by omega, by cases p <;> simp [skip_zeros]⟩
  | n + 1, [] => ⟨0, by omega, by simp [skip_zeros]⟩
  | n + 1, c :: p => by
    by_cases hc : c = 0x30
    · obtain ⟨k, hk, hp⟩ := skip_zeros_split n p
      refine ⟨k + 1, by omega, ?_⟩
      rw [skip_zeros, if_pos hc, List.replicate_succ, List.cons_append, ← hp, hc]
    · exact ⟨0, by omega, by simp [skip_zeros, hc]⟩

theorem q_end_rest {q q' : Int} {seen : Bool} {p r : Bytes} (h : q_end q p = .ok (q', seen, r)) : r = p := by
  have := q_end_cursor q p
  rw [h] at this
  exact this

/-- What is read as a qvalue is one. -/
theorem q_value_split {p r : Bytes} {q : Int} {seen : Bool} (h : q_value p = .ok (q, seen, r)) :
    ∃ v : QValue, p = v.render ++ r := by
  unfold q_value at h
  split at h
  · cases h
  next c p =>
  split at h
  · next hc =>
    subst hc
    split at h
    · exact ⟨.zero none, by rw [q_end_rest h]; rfl⟩
    next d p =>
    split at h
    · next hd =>
      subst hd
      obtain ⟨ds, hlen, hp⟩ := q_digits_split [100, 10, 1] p
      refine ⟨.zero (some ⟨ds, hlen⟩), ?_⟩
      rw [q_end_rest h]
      simp only [QValue.render, List.cons_append, parse_q_fraction]
      rw [← hp]
    · exact ⟨.zero none, by rw [q_end_rest h]; rfl⟩
  split at h
  · next hc =>
    subst hc
    split at h
    · exact ⟨.one none, by rw [q_end_rest h]; rfl⟩
    next d p =>
    split at h
    · next hd =>
      subst hd
      obtain ⟨k, hk, hp⟩ := skip_zeros_split 3 p
      refine ⟨.one (some ⟨k, by omega⟩), ?_⟩
      rw [q_end_rest h]
      simp only [QValue.render, List.cons_append]
      rw [← hp]
    · exact ⟨.one none, by rw [q_end_rest h]; rfl⟩
  · cases h

/-! ## What may follow a parameter -/

section Tail

variable {r : Bytes} (hr : Boundary r) (w : Ows)
include hr

theorem tail_skip : skip_ows (ows w ++ r) = r := skip_ows_through (hr.stops (by decide))

theorem tail_qend : QEnd (ows w ++ r) := by
  intro c s h
  cases hw : ows w with
  | nil =>
    rw [hw, List.nil_append] at h
    rcases hr with rfl | ⟨s', rfl⟩
    · cases h
    · cases h; decide
  | cons d u =>
    rw [hw] at h
    cases h
    have := mem_ows (w := w) (c := c) (by rw [hw]; exact List.mem_cons_self)
    simp [this]

theorem tail_until : skipUntil is_param_end (ows w ++ r) = r := by
  rw [skipUntil_plain fun c hc => ?_]
  · rcases hr with rfl | ⟨s, rfl⟩
    · rw [skipUntil]
    · rw [skipUntil, if_pos (by decide)]
  · have := mem_ows hc
    simp only [is_ows, Bool.or_eq_true, beq_iff_eq] at this
    rcases this with rfl | rfl <;> decide

theorem tail_name : Stops is_name (ows w ++ r) :=
  stops_ows (fun c hc => by simp [is_name, hc]) (hr.stops (by decide))

theorem tail_end (q : Int) (seen : Bool) : param_end q seen r = .ok (q, seen, r) := by
  rcases hr with rfl | ⟨s, rfl⟩
  · rfl
  · rw [param_end, if_pos (by decide)]

theorem tail_value (q : Int) (seen : Bool) : after_value (.ok (q, seen, ows w ++ r)) = .ok (q, seen, r) := by
  rw [after_value, tail_skip hr, tail_end hr]

end Tail

/-- Reading the name of a rendered parameter. -/
theorem param_name_render (lead : Ows) {name x : Bytes} (hn : ∀ c ∈ name, is_name c = true) (hx : Stops is_name x)
    (ho : Stops is_ows (name ++ x)) :
    param_name (ows lead ++ (name ++ x)) = name ∧ param_rest (ows lead ++ (name ++ x)) = x := by
  rw [param_name, param_rest, skip_ows_through ho]
  exact ⟨takeWhile_through hn hx, dropWhile_through hn hx⟩

theorem token_stops (t : Token) (x : Bytes) {p : UInt8 → Bool} (hp : ∀ c, is_tchar c = true → p c = false) :
    Stops p (t.bytes ++ x) := by
  intro c s h
  cases hb : t.bytes with
  | nil => exact absurd hb t.nonempty
  | cons d u =>
    rw [hb] at h
    cases h
    exact hp c (t.tchars c (by rw [hb]; exact List.mem_cons_self))

theorem eval_parameter_named (t : Token) (lead : Ows) {x : Bytes} (hx : Stops is_name x) (q : Int) (seen : Bool) :
    (param_name (ows lead ++ (t.bytes ++ x))).contains dquote = false ∧
    eval_parameter q seen (ows lead ++ (t.bytes ++ x)) = after_value (eval_value (is_q t.bytes) q seen (skip_ows x)) := by
  obtain ⟨hn, hr⟩ := param_name_render lead (fun c hc => (tchar_facts (t.tchars c hc)).1) hx
    (token_stops t x fun c hc => (tchar_facts hc).2.2.2.1)
  constructor
  · rw [hn, List.contains_eq_mem, decide_eq_false_iff_not]
    exact fun h => (tchar_facts (t.tchars _ h)).2.2.2.2.2.1.2 rfl
  · rw [eval_parameter, hn, hr, if_neg t.nonempty]

/-- The same where the name is missing. -/
theorem eval_parameter_unnamed (lead : Ows) {x : Bytes} (hx : Stops is_name (skip_ows x)) (q : Int) (seen : Bool) :
    param_name (ows lead ++ x) = [] ∧ ∃ p, eval_parameter q seen (ows lead ++ x) = .error p := by
  have hs : ∀ w : Ows, skip_ows (ows w ++ x) = skip_ows x := by
    intro w
    induction w with
    | nil => rfl
    | cons b w ih =>
      rw [ows, List.map_cons, List.cons_append, skip_ows, List.dropWhile_cons, if_pos (by cases b <;> decide)]
      exact ih
  have hn : param_name (ows lead ++ x) = [] := by
    rw [param_name, hs]
    exact takeWhile_through (s := []) (by simp) hx
  exact ⟨hn, _, by rw [eval_parameter, hn, if_pos rfl]⟩

/-! ## Ungrammatical qvalues -/

theorem ows_of_all {s : Bytes} (h : ∀ c ∈ s, is_ows c = true) : ∃ w, s = ows w := by
  induction s with
  | nil => exact ⟨[], rfl⟩
  | cons c s ih =>
    obtain ⟨w, rfl⟩ := ih fun d hd => h d (List.mem_cons_of_mem _ hd)
    have := h c List.mem_cons_self
    simp only [is_ows, Bool.or_eq_true, beq_iff_eq] at this
    rcases this with rfl | rfl
    · exact ⟨false :: w, rfl⟩
    · exact ⟨true :: w, rfl⟩

theorem skip_ows_split (p : Bytes) : ∃ w, p = ows w ++ skip_ows p := by
  obtain ⟨w, hw⟩ := ows_of_all fun c hc => List.mem_takeWhile_imp (p := is_ows) (l := p) hc
  exact ⟨w, by rw [← hw, skip_ows, List.takeWhile_append_dropWhile]⟩

theorem qvalue_bytes (v : QValue) : ∀ c ∈ v.render, is_ows c = false ∧ is_param_end c = false ∧ Plain c := by
  have hdig : ∀ d : Fin 10, is_ows (0x30 + UInt8.ofNat d.1) = false ∧ is_param_end (0x30 + UInt8.ofNat d.1) = false ∧
      Plain (0x30 + UInt8.ofNat d.1) := by decide
  intro c hc
  match v with
  | .zero none => simp only [QValue.render, List.mem_singleton] at hc; subst hc; decide
  | .zero (some ds) =>
    simp only [QValue.render, List.mem_cons, List.mem_map] at hc
    rcases hc with rfl | rfl | ⟨d, -, rfl⟩
    · decide
    · decide
    · exact hdig d
  | .one none => simp only [QValue.render, List.mem_singleton] at hc; subst hc; decide
  | .one (some n) =>
    simp only [QValue.render, List.mem_cons, List.mem_replicate] at hc
    rcases hc with rfl | rfl | ⟨-, rfl⟩ <;> decide

theorem qvalue_ne_nil (v : QValue) : v.render ≠ [] := by
  match v with
  | .zero none | .zero (some _) | .one none | .one (some _) => simp [QValue.render]

/-- Whitespace behind a qvalue can be taken apart anywhere. -/
theorem strip_trail {text : Bytes} {w w' trail : Ows} {v : QValue}
    (h : text ++ ows trail = ows w ++ v.render ++ ows w') : ∃ w'', text = ows w ++ v.render ++ ows w'' := by
  rcases List.append_eq_append_iff.1 h with ⟨a, hx, ha⟩ | ⟨c, ht, hc⟩
  · -- `text` would end inside the qvalue, in front of whitespace only
    cases a using List.reverseRecOn with
    | nil => exact ⟨[], by simpa [ows] using hx.symm⟩
    | append_singleton u c =>
      have hlast := congrArg List.getLast? hx
      rw [List.getLast?_append_of_ne_nil _ (qvalue_ne_nil v), ← List.append_assoc, List.getLast?_concat] at hlast
      have h1 := (qvalue_bytes v c (List.mem_of_getLast? hlast)).1
      have h2 : is_ows c = true := mem_ows (w := trail) (by rw [ha]; simp)
      rw [h1] at h2
      cases h2
  · obtain ⟨w'', rfl⟩ := ows_of_all (s := c) fun d hd => mem_ows (w := w') (by rw [hc]; exact List.mem_append_left _ hd)
    exact ⟨w'', ht⟩

/-- Ungrammatical text behind `q=` is malformed, whatever follows it. -/
theorem bad_q_malformed (v : BadQValue) {r : Bytes} (hr : Boundary r) (trail : Ows) {q : Int} {seen : Bool}
    {p : Bytes} (h : q_value (skip_ows (v.text ++ (ows trail ++ r))) = .ok (q, seen, p)) :
    ∃ p', param_end q seen (skip_ows p) = .error p' := by
  by_contra hcon
  obtain ⟨qv, hqv⟩ := q_value_split h
  obtain ⟨w, hw⟩ := skip_ows_split (v.text ++ (ows trail ++ r))
  obtain ⟨w', hw'⟩ := skip_ows_split p
  have hplain : ∀ c ∈ ows w ++ qv.render ++ ows w', is_param_end c = false ∧ c ≠ dquote := by
    intro c hc
    have hows : ∀ u : Ows, c ∈ ows u → is_param_end c = false ∧ c ≠ dquote := by
      intro u hu
      have := mem_ows hu
      simp only [is_ows, Bool.or_eq_true, beq_iff_eq] at this
      rcases this with rfl | rfl <;> decide
    rcases List.mem_append.1 hc with hc | hc
    · rcases List.mem_append.1 hc with hc | hc
      · exact hows w hc
      · exact ⟨(qvalue_bytes qv c hc).2.1, (qvalue_bytes qv c hc).2.2.2⟩
    · exact hows w' hc
  have htext : v.text ++ (ows trail ++ r) = (ows w ++ qv.render ++ ows w') ++ skip_ows p := by
    rw [hw, hqv]
    conv_lhs => rw [hw']
    simp only [List.append_assoc]
  -- both sides reach their first `;` or `,` at the same place
  have hrest : r = skip_ows p := by
    have h1 : skipUntil is_param_end (v.text ++ (ows trail ++ r)) = r := by
      rw [skipUntil_append_nil v.closed v.inside, tail_until hr]
    rw [htext, skipUntil_plain hplain] at h1
    rw [← h1]
    cases hp : skip_ows p with
    | nil => rw [skipUntil]
    | cons c s =>
      by_cases hc : is_param_end c = true
      · rw [skipUntil, if_pos hc]
      · exact absurd ⟨_, by rw [hp, param_end, if_neg hc]⟩ hcon
  rw [← hrest, ← List.append_assoc] at htext
  obtain ⟨w'', hbad⟩ := strip_trail (List.append_cancel_right htext)
  exact v.bad w qv w'' hbad

/-! ## One parameter -/

/-- What a parameter does to `q` and `q_seen`; `none` is malformed. -/
def Body.step (q : Int) (seen : Bool) : Body → Option (Int × Bool)
  | .q _ _ _ v => if seen then none else some (v.weight, true)
  | .flag .. | .other .. => some (q, seen)
  | .q_missing _ | .q_bad .. | .unnamed | .unnamed_value .. => none

def q_token (upper : Bool) : Token where
  bytes := Body.q_name upper
  nonempty := by cases upper <;> decide
  tchars := by cases upper <;> decide +kernel

theorem is_q_token (upper : Bool) : is_q (q_token upper).bytes = true := by cases upper <;> rfl

/-- A named parameter up to its `=`. -/
theorem eval_parameter_equals (t : Token) (lead gap : Ows) (x : Bytes) (q : Int) (seen : Bool) :
    (param_name (ows lead ++ (t.bytes ++ (ows gap ++ equals :: x)))).contains dquote = false ∧
    eval_parameter q seen (ows lead ++ (t.bytes ++ (ows gap ++ equals :: x))) =
      after_value (eval_value (is_q t.bytes) q seen (equals :: x)) := by
  have hname : ∀ c, is_ows c = true → is_name c = false := fun c hc => by simp [is_name, hc]
  have hx : Stops is_name (ows gap ++ equals :: x) := stops_ows hname (stops_cons (by decide) x)
  obtain ⟨hq, he⟩ := eval_parameter_named t lead hx q seen
  rw [skip_ows_through (stops_cons (by decide) x)] at he
  exact ⟨hq, he⟩

theorem qvalue_stops (v : QValue) (x : Bytes) : Stops is_ows (v.render ++ x) := by
  intro c s h
  cases hb : v.render with
  | nil => exact absurd hb (qvalue_ne_nil v)
  | cons d u =>
    rw [hb] at h
    cases h
    exact (qvalue_bytes v c (by rw [hb]; exact List.mem_cons_self)).1

theorem value_stops (v : Value) (x : Bytes) : Stops is_ows (v.render ++ x) := by
  cases v with
  | token t => exact token_stops t _ fun c hc => (tchar_facts hc).2.2.2.1
  | quoted s => exact stops_cons (by decide) _

/-- The walk over one rendered parameter: it reaches the boundary behind it with
the state the grammar gives it, or stops as malformed. -/
theorem eval_parameter_render (p : Param) {r : Bytes} (hr : Boundary r) (q : Int) (seen : Bool) :
    (param_name (ows p.lead ++ (p.body.render ++ (ows p.trail ++ r)))).contains dquote = false ∧
    match p.body.step q seen with
    | some (q', seen') =>
      eval_parameter q seen (ows p.lead ++ (p.body.render ++ (ows p.trail ++ r))) = .ok (q', seen', r)
    | none => ∃ c, eval_parameter q seen (ows p.lead ++ (p.body.render ++ (ows p.trail ++ r))) = .error c := by
  obtain ⟨lead, body, trail⟩ := p
  simp only
  cases body with
  | q upper gap gap' v =>
    obtain ⟨hq, he⟩ :=
      eval_parameter_equals (q_token upper) lead gap (ows gap' ++ (v.render ++ (ows trail ++ r))) q seen
    rw [is_q_token, eval_value, if_pos rfl, if_pos rfl, skip_ows_through (qvalue_stops v _),
      q_value_render v (tail_qend hr trail)] at he
    simp only [Body.render, Body.step, List.append_assoc, List.cons_append]
    refine ⟨hq, ?_⟩
    cases seen with
    | true => exact ⟨_, he⟩
    | false =>
      refine he.trans ?_
      simp only [Bool.false_eq_true, if_false]
      exact tail_value hr trail _ _
  | q_missing upper =>
    obtain ⟨hq, he⟩ := eval_parameter_named (q_token upper) lead (tail_name hr trail) q seen
    refine ⟨hq, ?_⟩
    rw [is_q_token, tail_skip hr] at he
    rcases hr with rfl | ⟨s, rfl⟩
    · exact ⟨_, he⟩
    · exact ⟨_, he⟩
  | q_bad upper gap v =>
    obtain ⟨hq, he⟩ := eval_parameter_equals (q_token upper) lead gap (v.text ++ (ows trail ++ r)) q seen
    rw [is_q_token, eval_value, if_pos rfl, if_pos rfl] at he
    simp only [Body.render, Body.step, List.append_assoc, List.cons_append]
    refine ⟨hq, ?_⟩
    cases seen with
    | true => exact ⟨_, he⟩
    | false =>
      cases hqv : q_value (skip_ows (v.text ++ (ows trail ++ r))) with
      | error c =>
        simp only [Bool.false_eq_true, if_false, hqv] at he
        exact ⟨c, he⟩
      | ok out =>
        obtain ⟨q', seen', p'⟩ := out
        obtain ⟨c, hc⟩ := bad_q_malformed v hr trail hqv
        simp only [Bool.false_eq_true, if_false, hqv] at he
        exact ⟨c, he.trans hc⟩
  | flag name hn =>
    obtain ⟨hq, he⟩ := eval_parameter_named name lead (tail_name hr trail) q seen
    refine ⟨hq, ?_⟩
    rw [hn, tail_skip hr] at he
    have hv : eval_value false q seen r = .ok (q, seen, r) := by
      rcases hr with rfl | ⟨s, rfl⟩ <;> rfl
    rw [hv] at he
    exact he.trans (tail_value hr [] q seen)
  | other name hn gap gap' v =>
    obtain ⟨hq, he⟩ := eval_parameter_equals name lead gap (ows gap' ++ (v.render ++ (ows trail ++ r))) q seen
    have hskip : skipUntil is_param_end (v.render ++ (ows trail ++ r)) = r := by
      rw [skipUntil_value (by decide) (fun c hc => (tchar_facts hc).2.2.2.2.1), tail_until hr]
    rw [hn, eval_value, if_pos rfl, if_neg (by decide), skip_ows_through (value_stops v _), hskip] at he
    simp only [Body.render, Body.step, List.append_assoc, List.cons_append]
    exact ⟨hq, he.trans (tail_value hr [] q seen)⟩
  | unnamed =>
    obtain ⟨hn, he⟩ := eval_parameter_unnamed lead (x := ows trail ++ r)
      (by rw [tail_skip hr]; exact hr.stops (by decide)) q seen
    exact ⟨by rw [Body.render, List.nil_append, hn]; rfl, he⟩
  | unnamed_value gap gap' v =>
    obtain ⟨hn, he⟩ := eval_parameter_unnamed lead
      (x := ows gap ++ equals :: (ows gap' ++ (v.render ++ (ows trail ++ r))))
      (by rw [skip_ows_through (stops_cons (by decide) _)]; exact stops_cons (by decide) _) q seen
    simp only [Body.render, List.append_assoc, List.cons_append]
    exact ⟨by rw [hn]; rfl, he⟩

end NginxZstd
