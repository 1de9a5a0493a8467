import NginxZstd.Lib.Scan
import NginxZstd.Nginx
/-!
# The Accept-Encoding parser

Three nested cursors share one pointer: the walk over the list elements, the walk
over the parameters of one element, and the skip over a quoted-string. A cursor
is the rest of the value it points at, so every `p < end` test is a match on it,
and the malformed exits return the cursor they stopped on.
-/

namespace NginxZstd

open Lib

def skip_ows (p : Bytes) : Bytes := p.dropWhile is_ows

/-- `ngx_http_zstd_skip_quoted`. The loops that route through it are `skipUntil`. -/
def skip_quoted : Bytes → Bytes
  | [] => []
  | c :: p => if c = dquote then quotedRest p else c :: p

/-! ## One qvalue -/

def is_digit (c : UInt8) : Bool := 0x30 ≤ c && c ≤ 0x39

/-- One guarded step for each literal weight. -/
def q_digits : List Nat → Bytes → Nat × Bytes
  | w :: ws, c :: p =>
    if is_digit c then ((c.toNat - 0x30) * w + (q_digits ws p).1, (q_digits ws p).2) else (0, c :: p)
  | _, p => (0, p)

/-- `ngx_http_zstd_parse_q_fraction`. -/
def parse_q_fraction (p : Bytes) : Nat × Bytes := q_digits [100, 10, 1] p

/-- `while (p < end && *p == '0' && i < 3)`. -/
def skip_zeros : Nat → Bytes → Bytes
  | n + 1, c :: p => if c = 0x30 then skip_zeros n p else c :: p
  | _, p => p

/-- What a stretch of the parameter walk leaves: the cursor it stopped on when
malformed, else `q`, `q_seen` and the cursor. -/
abbrev Walked := Except Bytes (Int × Bool × Bytes)

/-- Only OWS, `;`, `,` or the end may follow a qvalue. -/
def q_end (q : Int) : Bytes → Walked
  | [] => .ok (q, true, [])
  | c :: p => if is_ows c || c == semicolon || c == comma then .ok (q, true, c :: p) else .error (c :: p)

/-- The strict qvalue grammar, from the first byte of the value. -/
def q_value : Bytes → Walked
  | [] => .error []
  | c :: p =>
    if c = 0x30 then
      match p with
      | [] => q_end 0 []
      | d :: p => if d = 0x2e then q_end (parse_q_fraction p).1 (parse_q_fraction p).2 else q_end 0 (d :: p)
    else if c = 0x31 then
      match p with
      | [] => q_end 1000 []
      | d :: p => if d = 0x2e then q_end 1000 (skip_zeros 3 p) else q_end 1000 (d :: p)
    else .error (c :: p)

/-! ## The parameters of one element -/

/-- The bytes the parameter name scan steps over. -/
def is_name (c : UInt8) : Bool := !(c == equals || c == semicolon || c == comma || is_ows c)

/-- A parameter ends at `;` or `,`. -/
def is_param_end (c : UInt8) : Bool := c == semicolon || c == comma

/-- The name of the parameter behind a `;`. -/
def param_name (p : Bytes) : Bytes := (skip_ows p).takeWhile is_name

/-- The cursor behind that name. -/
def param_rest (p : Bytes) : Bytes := (skip_ows p).dropWhile is_name

/-- The name is `q` or `Q`. -/
def is_q (name : Bytes) : Bool := name == [0x71] || name == [0x51]

/-- From the byte behind a parameter name to the end of its value. -/
def eval_value (q_name : Bool) (q : Int) (q_seen : Bool) : Bytes → Walked
  | [] => if q_name then .error [] else .ok (q, q_seen, [])
  | c :: p =>
    if c = equals then
      if q_name then (if q_seen then .error (skip_ows p) else q_value (skip_ows p))
      else .ok (q, q_seen, skipUntil is_param_end (skip_ows p))
    else if q_name then .error (c :: p) else .ok (q, q_seen, c :: p)

/-- The trailing-junk check behind every parameter. -/
def param_end (q : Int) (q_seen : Bool) : Bytes → Walked
  | [] => .ok (q, q_seen, [])
  | c :: p => if is_param_end c then .ok (q, q_seen, c :: p) else .error (c :: p)

/-- The OWS and the check behind a value. -/
def after_value : Walked → Walked
  | .error p => .error p
  | .ok (q, q_seen, p) => param_end q q_seen (skip_ows p)

/-- One pass of the parameter loop, from just past the `;`. -/
def eval_parameter (q : Int) (q_seen : Bool) (p : Bytes) : Walked :=
  if param_name p = [] then .error (param_rest p)
  else after_value (eval_value (is_q (param_name p)) q q_seen (skip_ows (param_rest p)))

/-- Where the cursor stands, malformed or not. -/
def Walked.cursor : Walked → Bytes
  | .error p => p
  | .ok (_, _, p) => p

theorem skip_ows_length_le (p : Bytes) : (skip_ows p).length ≤ p.length := (List.dropWhile_sublist _).length_le

theorem q_digits_length_le : ∀ (ws : List Nat) (p : Bytes), (q_digits ws p).2.length ≤ p.length
  | [], p => by simp [q_digits]
  | w :: ws, [] => by simp [q_digits]
  | w :: ws, c :: p => by
    have := q_digits_length_le ws p
    simp only [q_digits]
    split <;> simp only [List.length_cons] <;> omega

theorem skip_zeros_length_le : ∀ (n : Nat) (p : Bytes), (skip_zeros n p).length ≤ p.length
  | 0, p => by simp [skip_zeros]
  | n + 1, [] => by simp [skip_zeros]
  | n + 1, c :: p => by
    have := skip_zeros_length_le n p
    simp only [skip_zeros]
    split <;> simp only [List.length_cons] <;> omega

theorem q_end_cursor (q : Int) (p : Bytes) : (q_end q p).cursor = p := by
  cases p with
  | nil => rfl
  | cons c p => simp only [q_end]; split <;> rfl

theorem param_end_cursor (q : Int) (q_seen : Bool) (p : Bytes) : (param_end q q_seen p).cursor = p := by
  cases p with
  | nil => rfl
  | cons c p => simp only [param_end]; split <;> rfl

theorem q_value_length_le (p : Bytes) : (q_value p).cursor.length ≤ p.length := by
  unfold q_value
  split
  · exact Nat.le_refl _
  next c p =>
  split
  · split
    · simp [q_end_cursor]
    next d p =>
    have := q_digits_length_le [100, 10, 1] p
    split <;> rw [q_end_cursor] <;> simp only [List.length_cons, parse_q_fraction] <;> omega
  split
  · split
    · simp [q_end_cursor]
    next d p =>
    have := skip_zeros_length_le 3 p
    split <;> rw [q_end_cursor] <;> simp only [List.length_cons] <;> omega
  · exact Nat.le_refl _

theorem eval_value_length_le (q_name : Bool) (q : Int) (q_seen : Bool) (p : Bytes) :
    (eval_value q_name q q_seen p).cursor.length ≤ p.length := by
  unfold eval_value
  split
  · split <;> exact Nat.le_refl _
  next c p =>
  have h1 := skip_ows_length_le p
  have h2 := q_value_length_le (skip_ows p)
  have h3 := skipUntil_length_le is_param_end (skip_ows p)
  split
  · split
    · split
      · simp only [Walked.cursor, List.length_cons]; omega
      · simp only [List.length_cons]; omega
    · simp only [Walked.cursor, List.length_cons]; omega
  · split <;> exact Nat.le_refl _

theorem after_value_length_le (w : Walked) : (after_value w).cursor.length ≤ w.cursor.length := by
  rcases w with p | ⟨q, q_seen, p⟩
  · exact Nat.le_refl _
  · rw [after_value, param_end_cursor]
    exact skip_ows_length_le p

theorem param_rest_length_le (p : Bytes) : (param_rest p).length ≤ p.length :=
  le_trans ((List.dropWhile_sublist _).length_le) (skip_ows_length_le p)

theorem eval_parameter_length_le (q : Int) (q_seen : Bool) (p : Bytes) :
    (eval_parameter q q_seen p).cursor.length ≤ p.length := by
  have h1 := param_rest_length_le p
  have h2 := skip_ows_length_le (param_rest p)
  unfold eval_parameter
  split
  · exact h1
  have h3 := eval_value_length_le (is_q (param_name p)) q q_seen (skip_ows (param_rest p))
  exact le_trans (after_value_length_le _) (by omega)

/-- A weight that is set is one. -/
theorem q_value_nonneg {p p' : Bytes} {q : Int} {q_seen : Bool} (h : q_value p = .ok (q, q_seen, p')) : 0 ≤ q := by
  have hend : ∀ {q' : Int} {r : Bytes}, 0 ≤ q' → q_end q' r = .ok (q, q_seen, p') → 0 ≤ q := by
    intro q' r h0 he
    cases r with
    | nil =>
      cases he
      exact h0
    | cons c r =>
      rw [q_end] at he
      split at he
      · cases he
        exact h0
      · cases he
  unfold q_value at h
  split at h
  · cases h
  split at h
  · split at h
    · exact hend (by simp) h
    · split at h
      · exact hend (by simp) h
      · exact hend (by simp) h
  split at h
  · split at h
    · exact hend (by simp) h
    · split at h
      · exact hend (by simp) h
      · exact hend (by simp) h
  · cases h

theorem eval_parameter_nonneg {p p' : Bytes} {q q' : Int} {q_seen q_seen' : Bool} (hq : 0 ≤ q)
    (h : eval_parameter q q_seen p = .ok (q', q_seen', p')) : 0 ≤ q' := by
  have hvalue : ∀ {name : Bool} {s r : Bytes} {q1 : Int} {seen1 : Bool},
      eval_value name q q_seen s = .ok (q1, seen1, r) → 0 ≤ q1 := by
    intro name s r q1 seen1 hv
    unfold eval_value at hv
    split at hv
    · split at hv
      · cases hv
      · cases hv
        exact hq
    split at hv
    · split at hv
      · split at hv
        · cases hv
        · exact q_value_nonneg hv
      · cases hv
        exact hq
    · split at hv
      · cases hv
      · cases hv
        exact hq
  unfold eval_parameter at h
  split at h
  · cases h
  cases hv : eval_value (is_q (param_name p)) q q_seen (skip_ows (param_rest p)) with
  | error r =>
    rw [hv] at h
    cases h
  | ok w =>
    obtain ⟨q1, seen1, r⟩ := w
    have h0 := hvalue hv
    rw [hv, after_value] at h
    cases hr : skip_ows r with
    | nil =>
      rw [hr] at h
      cases h
      exact h0
    | cons c r' =>
      rw [hr, param_end] at h
      split at h
      · cases h
        exact h0
      · cases h

/-- `while (p < end && *p == ';')`: the weight, whether a name held a DQUOTE, and
the cursor. -/
def eval_params (q : Int) (q_seen quoted_name : Bool) (p : Bytes) : Int × Bool × Bytes :=
  match p with
  | [] => (q, quoted_name, [])
  | c :: p =>
    if c = semicolon then
      let quoted_name := quoted_name || (param_name p).contains dquote
      match h : eval_parameter q q_seen p with
      | .error p' => (-1, quoted_name, p')
      | .ok (q', q_seen', p') => eval_params q' q_seen' quoted_name p'
    else (q, quoted_name, c :: p)
termination_by p.length
decreasing_by
  have := eval_parameter_length_le q q_seen p
  rw [h] at this
  simp only [Walked.cursor] at this
  simp only [List.length_cons]; omega

theorem eval_params_ok {q q' : Int} {q_seen q_seen' : Bool} {p p' : Bytes}
    (h : eval_parameter q q_seen p = .ok (q', q_seen', p')) (quoted_name : Bool) :
    eval_params q q_seen quoted_name (semicolon :: p) =
      eval_params q' q_seen' (quoted_name || (param_name p).contains dquote) p' := by
  rw [eval_params, if_pos rfl]
  split
  · next h' => rw [h] at h'; cases h'
  · next h' => rw [h] at h'; cases h'; rfl

theorem eval_params_error {q : Int} {q_seen : Bool} {p p' : Bytes} (h : eval_parameter q q_seen p = .error p')
    (quoted_name : Bool) :
    eval_params q q_seen quoted_name (semicolon :: p) =
      (-1, quoted_name || (param_name p).contains dquote, p') := by
  rw [eval_params, if_pos rfl]
  split
  · next h' => rw [h] at h'; cases h'; rfl
  · next h' => rw [h] at h'; cases h'

/-- `ngx_http_zstd_eval_qvalue`: a DQUOTE in a parameter name leaves the cursor at
the `;`. -/
def eval_qvalue (p : Bytes) : Int × Bool × Bytes :=
  let (q, quoted_name, rest) := eval_params 1000 false false p
  (q, quoted_name, if quoted_name then p else rest)

end NginxZstd
