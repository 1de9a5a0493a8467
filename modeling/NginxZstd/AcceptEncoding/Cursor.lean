import NginxZstd.AcceptEncoding.Locality
import NginxZstd.Lib.Cursor
/-!
# The parser's cursor

`ngx_http_zstd_eval_qvalue` leaves its cursor where it stopped, and the element walk
goes on from there. Here the parser is written once more as the source has it, on
indices into the value, where a read at or past the end is a fault. It reads in
bounds and does what the parser on rests does; and from the cursor the parameter
walk leaves, the skip to the next comma ends where it does from the `;`.
-/

namespace NginxZstd

open Lib

/-! ## The parser on indices -/

/-- The loop of `ngx_http_zstd_skip_quoted`. -/
def quoted_at (buf : Bytes) (p : Nat) : Option Nat :=
  match _h : holdsAt (· != dquote) buf p with
  | none => none
  | some false => some p
  | some true =>
    match deref buf p with
    | none => none
    | some c => if c = backslash ∧ p + 1 < buf.length then quoted_at buf (p + 2) else quoted_at buf (p + 1)
termination_by buf.length - p
decreasing_by
  all_goals
    have := lt_of_holdsAt _h
    omega

/-- `ngx_http_zstd_skip_quoted`. -/
def skip_quoted_at (buf : Bytes) (p : Nat) : Option Nat := do
  if ← holdsAt (· == dquote) buf p then
    let p ← quoted_at buf (p + 1)
    return if p < buf.length then p + 1 else p
  else return p

/-- `while (p < end && *p is no stop)`, over quoted-strings. -/
def skip_until_at (stop : UInt8 → Bool) (buf : Bytes) : (fuel : Nat) → Nat → Option Nat
  | 0, _ => none
  | fuel + 1, p => do
    if ← holdsAt (fun c => !stop c) buf p then
      let c ← deref buf p
      let p ← if c = dquote then skip_quoted_at buf p else some (p + 1)
      skip_until_at stop buf fuel p
    else return p

/-- `ngx_http_zstd_parse_q_fraction`, for the weights that are left. -/
def q_digits_at (buf : Bytes) : List Nat → Nat → Option (Nat × Nat)
  | [], p => some (0, p)
  | w :: ws, p => do
    if ← holdsAt is_digit buf p then
      let c ← deref buf p
      let (frac, p) ← q_digits_at buf ws (p + 1)
      return ((c.toNat - 0x30) * w + frac, p)
    else return (0, p)

def skip_zeros_at (buf : Bytes) : Nat → Nat → Option Nat
  | 0, p => some p
  | n + 1, p => do
    if ← holdsAt (· == 0x30) buf p then skip_zeros_at buf n (p + 1) else return p

/-- `Walked` with the cursor as an index. -/
abbrev WalkedAt := Except Nat (Int × Bool × Nat)

def q_end_at (buf : Bytes) (q : Int) (p : Nat) : Option WalkedAt := do
  if ← holdsAt (fun c => !(is_ows c || c == semicolon || c == comma)) buf p then return .error p
  else return .ok (q, true, p)

def q_value_at (buf : Bytes) (p : Nat) : Option WalkedAt := do
  if p ≥ buf.length then return .error p
  let c ← deref buf p
  if c = 0x30 then
    if ← holdsAt (· == 0x2e) buf (p + 1) then
      let (frac, p) ← q_digits_at buf [100, 10, 1] (p + 2)
      q_end_at buf frac p
    else q_end_at buf 0 (p + 1)
  else if c = 0x31 then
    if ← holdsAt (· == 0x2e) buf (p + 1) then
      let p ← skip_zeros_at buf 3 (p + 2)
      q_end_at buf 1000 p
    else q_end_at buf 1000 (p + 1)
  else return .error p

/-- The parameter name scan, which notes a DQUOTE on its way. -/
def name_at (buf : Bytes) (quoted_name : Bool) (p : Nat) : Option (Bool × Nat) :=
  match _h : holdsAt is_name buf p with
  | none => none
  | some false => some (quoted_name, p)
  | some true =>
    match deref buf p with
    | none => none
    | some c => name_at buf (quoted_name || c == dquote) (p + 1)
termination_by buf.length - p
decreasing_by
  have := lt_of_holdsAt _h
  omega

/-- `nend - nstart == 1 && (nstart[0] == 'q' || nstart[0] == 'Q')`. -/
def is_q_at (buf : Bytes) (nstart nend : Nat) : Option Bool :=
  if nend - nstart = 1 then (deref buf nstart).map fun c => c == 0x71 || c == 0x51 else some false

def eval_value_at (buf : Bytes) (q_name : Bool) (q : Int) (q_seen : Bool) (p : Nat) : Option WalkedAt := do
  if ← holdsAt (· == equals) buf p then
    let p ← scanWhile is_ows buf (p + 1)
    if q_name then
      if q_seen then return .error p
      q_value_at buf p
    else
      let p ← skip_until_at is_param_end buf (buf.length + 1) p
      return .ok (q, q_seen, p)
  else if q_name then return .error p
  else return .ok (q, q_seen, p)

/-- One pass of the parameter loop, from just past the `;`. -/
def eval_parameter_at (buf : Bytes) (q : Int) (q_seen quoted_name : Bool) (p : Nat) : Option (Bool × WalkedAt) := do
  let nstart ← scanWhile is_ows buf p
  let (quoted_name, nend) ← name_at buf quoted_name nstart
  if nend = nstart then return (quoted_name, .error nend)
  let q_name ← is_q_at buf nstart nend
  let p ← scanWhile is_ows buf nend
  match ← eval_value_at buf q_name q q_seen p with
  | .error p => return (quoted_name, .error p)
  | .ok (q, q_seen, p) =>
    let p ← scanWhile is_ows buf p
    if ← holdsAt (fun c => !is_param_end c) buf p then return (quoted_name, .error p)
    return (quoted_name, .ok (q, q_seen, p))

def eval_params_at (buf : Bytes) : (fuel : Nat) → Int → Bool → Bool → Nat → Option (Int × Bool × Nat)
  | 0, _, _, _, _ => none
  | fuel + 1, q, q_seen, quoted_name, p => do
    if ← holdsAt (· == semicolon) buf p then
      match ← eval_parameter_at buf q q_seen quoted_name (p + 1) with
      | (quoted_name, .error p) => return (-1, quoted_name, p)
      | (quoted_name, .ok (q, q_seen, p)) => eval_params_at buf fuel q q_seen quoted_name p
    else return (q, quoted_name, p)

/-- `ngx_http_zstd_eval_qvalue`: the weight, whether a parameter name held a DQUOTE,
and `*pp`. -/
def eval_qvalue_at (buf : Bytes) (p : Nat) : Option (Int × Bool × Nat) := do
  let (q, quoted_name, p') ← eval_params_at buf (buf.length + 1) 1000 false false p
  return (q, quoted_name, if quoted_name then p else p')

/-- `ngx_strncasecmp` of the bytes from `tok` on with a literal. -/
def strncasecmp_at (buf : Bytes) : Nat → Bytes → Option Int
  | _, [] => some 0
  | tok, c2 :: s2 => do
    let c1 := lower (← deref buf tok)
    let c2 := lower c2
    if c1 = c2 then
      if c1 ≠ 0 then strncasecmp_at buf (tok + 1) s2 else return 0
    else return (c1.toNat : Int) - c2.toNat

/-- The skip to the next top-level comma. -/
def skip_to_comma_at (buf : Bytes) (p : Nat) : Option Nat := skip_until_at is_comma buf (buf.length + 1) p

/-- `(size_t) (name_end - tok) == coding_len && ngx_strncasecmp(tok, coding, coding_len) == 0`. -/
def is_coding_at (buf coding : Bytes) (tok name_end : Nat) : Option Bool :=
  if name_end - tok = coding.length then (strncasecmp_at buf tok coding).map (· == 0) else some false

/-- `name_end - tok == 1 && tok[0] == '*'`. -/
def is_star_at (buf : Bytes) (tok name_end : Nat) : Option Bool :=
  if name_end - tok = 1 then (deref buf tok).map (· == 0x2a) else some false

/-- The weight of an element, from behind its name. -/
def eval_element_at (buf : Bytes) (p : Nat) : Option (Int × Nat) := do
  if ← holdsAt (· == semicolon) buf p then
    let (q, _, p) ← eval_qvalue_at buf p
    return (q, p)
  else return (1000, p)

/-- One turn of the element walk, with `coding_q` and `star_q`; the inner `none` is the
`break` at the end of the value. -/
def element_at (buf coding : Bytes) (acc : Int × Int) (p : Nat) : Option (Option ((Int × Int) × Nat)) := do
  let tok ← scanWhile is_list_sep buf p
  if tok ≥ buf.length then return none
  let name_end ← scanWhile is_coding_name buf tok
  let is_coding ← is_coding_at buf coding tok name_end
  let is_star ← is_star_at buf tok name_end
  let p ← scanWhile is_ows buf name_end
  let junk ← holdsAt (fun c => !is_param_end c) buf p
  let (q, p) ← eval_element_at buf p
  let acc := if q ≥ 0 then
      if is_coding && !junk then (q, acc.2) else if is_star && !junk then (acc.1, q) else acc
    else acc
  let p ← skip_to_comma_at buf p
  return some (acc, p)

/-- `while (p < end)`. -/
def weigh_at (buf coding : Bytes) : (fuel : Nat) → Int × Int → Nat → Option (Int × Int)
  | 0, _, _ => none
  | fuel + 1, acc, p => do
    if p < buf.length then
      match ← element_at buf coding acc p with
      | none => return acc
      | some (acc, p) => weigh_at buf coding fuel acc p
    else return acc

/-- `ngx_http_zstd_coding_weight_ex`. -/
def coding_weight_ex_at (ae coding : Bytes) (allow_wildcard : Bool) : Option (Int × Int × Int) := do
  let (coding_q, star_q) ← weigh_at ae coding (ae.length + 1) (-1, -1) 0
  return (precedence allow_wildcard coding_q star_q, coding_q, star_q)

/-! ## It reads in bounds -/

theorem quoted_at_eq (buf : Bytes) (p : Nat) :
    quoted_at buf p = (holdsAt (· != dquote) buf p).bind fun b =>
      if b then (deref buf p).bind fun c =>
        if c = backslash ∧ p + 1 < buf.length then quoted_at buf (p + 2) else quoted_at buf (p + 1)
      else some p := by
  rw [quoted_at]
  split
  · next h => simp [h]
  · next h => simp [h]
  · next h =>
    rw [h]
    simp only [Option.bind_some, if_true]
    split
    · next hd => simp [hd]
    · next hd => simp [hd]

theorem quoted_at_spec {buf : Bytes} {p : Nat} {s : Bytes} (h : At buf p s) :
    ∃ p', quoted_at buf p = some p' ∧ At buf (if p' < buf.length then p' + 1 else p') (quotedRest s) := by
  fun_induction quotedRest s generalizing p with
  | case1 =>
    refine ⟨p, ?_, ?_⟩
    · rw [quoted_at_eq, h.holds]
      rfl
    · rw [if_neg (by simp [h.eq_length])]
      exact h
  | case2 s =>
    refine ⟨p, ?_, ?_⟩
    · rw [quoted_at_eq, h.holds]
      rfl
    · rw [if_pos h.lt]
      exact h.next
  | case3 =>
    -- a backslash at the end of the value escapes nothing
    have hend := h.next.eq_length
    refine ⟨p + 1, ?_, ?_⟩
    · have hstop : quoted_at buf (p + 1) = some (p + 1) := by
        rw [quoted_at_eq, h.next.holds]
        rfl
      rw [quoted_at_eq, h.holds, h.read]
      rw [hend] at hstop
      simpa [hend, show backslash ≠ dquote by decide] using hstop
    · rw [if_neg (by omega)]
      exact h.next
  | case4 d s _ ih =>
    obtain ⟨p', h1, h2⟩ := ih h.next.next
    refine ⟨p', ?_, h2⟩
    rw [quoted_at_eq, h.holds, h.read]
    simpa [h.next.lt, show backslash ≠ dquote by decide] using h1
  | case5 c s hq hb ih =>
    obtain ⟨p', h1, h2⟩ := ih h.next
    refine ⟨p', ?_, h2⟩
    rw [quoted_at_eq, h.holds, h.read]
    simpa [hq, hb] using h1

theorem skip_quoted_at_spec {buf : Bytes} {p : Nat} {s : Bytes} (h : At buf p s) :
    ∃ p', skip_quoted_at buf p = some p' ∧ At buf p' (skip_quoted s) := by
  cases s with
  | nil => exact ⟨p, by simp [skip_quoted_at, h.holds], h⟩
  | cons c s =>
    by_cases hc : c = dquote
    · obtain ⟨p', h1, h2⟩ := quoted_at_spec h.next
      rw [skip_quoted, if_pos hc]
      refine ⟨_, ?_, h2⟩
      simp [skip_quoted_at, h.holds, hc, h1]
    · rw [skip_quoted, if_neg hc]
      exact ⟨p, by simp [skip_quoted_at, h.holds, hc], h⟩

theorem skip_until_at_spec {buf : Bytes} {p : Nat} {s : Bytes} (h : At buf p s) (stop : UInt8 → Bool) (fuel : Nat)
    (hf : s.length < fuel) : ∃ p', skip_until_at stop buf fuel p = some p' ∧ At buf p' (skipUntil stop s) := by
  fun_induction skipUntil stop s generalizing p fuel with
  | case1 =>
    obtain ⟨fuel, rfl⟩ := Nat.exists_eq_add_of_lt hf
    refine ⟨p, ?_, h⟩
    simp [skip_until_at, h.holds]
  | case2 c s hc =>
    obtain ⟨fuel, rfl⟩ := Nat.exists_eq_add_of_lt hf
    refine ⟨p, ?_, h⟩
    simp [skip_until_at, h.holds, hc]
  | case3 s hc ih =>
    obtain ⟨fuel, rfl⟩ := Nat.exists_eq_add_of_lt hf
    obtain ⟨p1, h1, h2⟩ := skip_quoted_at_spec h
    rw [skip_quoted, if_pos rfl] at h2
    have := quotedRest_length_le s
    obtain ⟨p', h3, h4⟩ := ih h2 ((dquote :: s).length + fuel) (by simp only [List.length_cons]; omega)
    refine ⟨p', ?_, h4⟩
    simp [skip_until_at, h.holds, hc, h.read, h1, ← h3]
  | case4 c s hc hq ih =>
    obtain ⟨fuel, rfl⟩ := Nat.exists_eq_add_of_lt hf
    obtain ⟨p', h3, h4⟩ := ih h.next ((c :: s).length + fuel) (by simp only [List.length_cons]; omega)
    refine ⟨p', ?_, h4⟩
    simp [skip_until_at, h.holds, hc, hq, h.read, ← h3]

theorem q_digits_at_spec {buf : Bytes} : ∀ (ws : List Nat) {p : Nat} {s : Bytes}, At buf p s →
    ∃ p', q_digits_at buf ws p = some ((q_digits ws s).1, p') ∧ At buf p' (q_digits ws s).2
  | [], p, s, h => ⟨p, by cases s <;> rfl, by cases s <;> exact h⟩
  | w :: ws, p, [], h => ⟨p, by simp [q_digits_at, h.holds, q_digits], h⟩
  | w :: ws, p, c :: s, h => by
    by_cases hc : is_digit c = true
    · obtain ⟨p', h1, h2⟩ := q_digits_at_spec ws h.next
      refine ⟨p', ?_, ?_⟩
      · simp [q_digits_at, h.holds, hc, h.read, h1, q_digits]
      · simpa [q_digits, hc] using h2
    · exact ⟨p, by simp [q_digits_at, h.holds, hc, q_digits], by simpa [q_digits, hc] using h⟩

theorem skip_zeros_at_spec {buf : Bytes} : ∀ (n : Nat) {p : Nat} {s : Bytes}, At buf p s →
    ∃ p', skip_zeros_at buf n p = some p' ∧ At buf p' (skip_zeros n s)
  | 0, p, s, h => ⟨p, rfl, by cases s <;> exact h⟩
  | n + 1, p, [], h => ⟨p, by simp [skip_zeros_at, h.holds], h⟩
  | n + 1, p, c :: s, h => by
    by_cases hc : c = 0x30
    · obtain ⟨p', h1, h2⟩ := skip_zeros_at_spec n h.next
      exact ⟨p', by simp [skip_zeros_at, h.holds, hc, h1], by simpa [skip_zeros, hc] using h2⟩
    · exact ⟨p, by simp [skip_zeros_at, h.holds, hc], by simpa [skip_zeros, hc] using h⟩

/-- The same outcome, with the cursor as an index. -/
def WalkedAt.Follows (buf : Bytes) : WalkedAt → Walked → Prop
  | .error p, .error s => At buf p s
  | .ok (q, seen, p), .ok (q', seen', s) => q = q' ∧ seen = seen' ∧ At buf p s
  | _, _ => False

theorem q_end_at_spec {buf : Bytes} {p : Nat} {s : Bytes} (h : At buf p s) (q : Int) :
    ∃ w, q_end_at buf q p = some w ∧ w.Follows buf (q_end q s) := by
  cases s with
  | nil => exact ⟨.ok (q, true, p), by simp [q_end_at, h.holds], rfl, rfl, h⟩
  | cons c s =>
    have hhold := h.holds fun c => !(is_ows c || c == semicolon || c == comma)
    rw [List.head?_cons, Option.any_some] at hhold
    rw [q_end]
    cases hc : is_ows c || c == semicolon || c == comma with
    | true =>
      rw [hc] at hhold
      exact ⟨.ok (q, true, p), by rw [q_end_at, hhold]; rfl, rfl, rfl, h⟩
    | false =>
      rw [hc] at hhold
      exact ⟨.error p, by rw [q_end_at, hhold]; rfl, h⟩

theorem q_value_at_spec {buf : Bytes} {p : Nat} {s : Bytes} (h : At buf p s) :
    ∃ w, q_value_at buf p = some w ∧ w.Follows buf (q_value s) := by
  cases s with
  | nil => exact ⟨.error p, by simp [q_value_at, h.eq_length], h⟩
  | cons c s =>
    have hlt : ¬ p ≥ buf.length := Nat.not_le.2 h.lt
    by_cases h0 : c = 0x30
    · subst h0
      cases s with
      | nil =>
        obtain ⟨w, h1, h2⟩ := q_end_at_spec h.next 0
        exact ⟨w, by simp [q_value_at, hlt, h.read, h.next.holds, h1], h2⟩
      | cons d s =>
        by_cases hd : d = 0x2e
        · obtain ⟨p', h1, h2⟩ := q_digits_at_spec [100, 10, 1] h.next.next
          obtain ⟨w, h3, h4⟩ := q_end_at_spec h2 (q_digits [100, 10, 1] s).1
          refine ⟨w, ?_, by simpa [q_value, hd, parse_q_fraction] using h4⟩
          simp [q_value_at, hlt, h.read, h.next.holds, hd, h1, h3]
        · obtain ⟨w, h1, h2⟩ := q_end_at_spec h.next 0
          refine ⟨w, ?_, by simpa [q_value, hd] using h2⟩
          simp [q_value_at, hlt, h.read, h.next.holds, hd, h1]
    by_cases h1 : c = 0x31
    · subst h1
      cases s with
      | nil =>
        obtain ⟨w, h1, h2⟩ := q_end_at_spec h.next 1000
        exact ⟨w, by simp [q_value_at, hlt, h.read, h.next.holds, h1], h2⟩
      | cons d s =>
        by_cases hd : d = 0x2e
        · obtain ⟨p', h1, h2⟩ := skip_zeros_at_spec 3 h.next.next
          obtain ⟨w, h3, h4⟩ := q_end_at_spec h2 1000
          refine ⟨w, ?_, by simpa [q_value, hd] using h4⟩
          simp [q_value_at, hlt, h.read, h.next.holds, hd, h1, h3]
        · obtain ⟨w, h1, h2⟩ := q_end_at_spec h.next 1000
          refine ⟨w, ?_, by simpa [q_value, hd] using h2⟩
          simp [q_value_at, hlt, h.read, h.next.holds, hd, h1]
    · refine ⟨.error p, by simp [q_value_at, hlt, h.read, h0, h1], ?_⟩
      have hq : q_value (c :: s) = .error (c :: s) := by simp [q_value, h0, h1]
      rw [hq]
      exact h

theorem eval_value_at_spec {buf : Bytes} {p : Nat} {s : Bytes} (h : At buf p s) (q_name : Bool) (q : Int) (seen : Bool) :
    ∃ w, eval_value_at buf q_name q seen p = some w ∧ w.Follows buf (eval_value q_name q seen s) := by
  cases s with
  | nil =>
    cases q_name with
    | true => exact ⟨.error p, by simp [eval_value_at, h.holds], h⟩
    | false => exact ⟨.ok (q, seen, p), by simp [eval_value_at, h.holds], rfl, rfl, h⟩
  | cons c s =>
    by_cases hc : c = equals
    · obtain ⟨p1, h1, h2, -⟩ := h.next.scan is_ows
      rw [eval_value, if_pos hc]
      cases q_name with
      | true =>
        cases seen with
        | true => exact ⟨.error p1, by simp [eval_value_at, h.holds, hc, h1], h2⟩
        | false =>
          obtain ⟨w, h3, h4⟩ := q_value_at_spec h2
          exact ⟨w, by simp [eval_value_at, h.holds, hc, h1, h3], h4⟩
      | false =>
        have hle := h2.length
        obtain ⟨p2, h3, h4⟩ := skip_until_at_spec h2 is_param_end (buf.length + 1) (by omega)
        exact ⟨.ok (q, seen, p2), by simp [eval_value_at, h.holds, hc, h1, h3], rfl, rfl, h4⟩
    · rw [eval_value, if_neg hc]
      cases q_name with
      | true => exact ⟨.error p, by simp [eval_value_at, h.holds, hc], h⟩
      | false => exact ⟨.ok (q, seen, p), by simp [eval_value_at, h.holds, hc], rfl, rfl, h⟩

theorem name_at_eq (buf : Bytes) (quoted_name : Bool) (p : Nat) :
    name_at buf quoted_name p = (holdsAt is_name buf p).bind fun b =>
      if b then (deref buf p).bind fun c => name_at buf (quoted_name || c == dquote) (p + 1)
      else some (quoted_name, p) := by
  rw [name_at]
  split
  · next h => simp [h]
  · next h => simp [h]
  · next h =>
    rw [h]
    simp only [Option.bind_some, if_true]
    split
    · next hd => simp [hd]
    · next hd => simp [hd]

theorem name_at_spec {buf s : Bytes} {p : Nat} (h : At buf p s) (quoted_name : Bool) :
    ∃ p', name_at buf quoted_name p = some (quoted_name || (s.takeWhile is_name).contains dquote, p') ∧
      At buf p' (s.dropWhile is_name) ∧ p' = p + (s.takeWhile is_name).length := by
  induction s generalizing p quoted_name with
  | nil =>
    refine ⟨p, ?_, h, rfl⟩
    rw [name_at_eq, h.holds]
    simp
  | cons c s ih =>
    rw [name_at_eq, h.holds, h.read, List.dropWhile_cons, List.takeWhile_cons]
    cases hc : is_name c with
    | true =>
      obtain ⟨p', h1, h2, h3⟩ := ih h.next (quoted_name || c == dquote)
      refine ⟨p', ?_, h2, ?_⟩
      · simp only [List.head?_cons, Option.any_some, hc, Option.bind_some, if_true, h1]
        rw [List.contains_cons, Bool.or_assoc, BEq.comm]
      · rw [if_pos rfl, h3, List.length_cons]
        omega
    | false => exact ⟨p, by simp [hc], h, rfl⟩

/-- The length of the name and its first byte tell a `q`. -/
theorem is_q_at_spec {buf name rest : Bytes} {p : Nat} (h : At buf p (name ++ rest)) :
    is_q_at buf p (p + name.length) = some (is_q name) := by
  unfold is_q_at is_q
  rw [Nat.add_sub_cancel_left]
  match name, h with
  | [], h => rfl
  | [c], h => simp [show deref buf p = some c from h.read]
  | c :: d :: name, h => simp

theorem eval_parameter_at_spec {buf : Bytes} {p : Nat} {s : Bytes} (h : At buf p s) (q : Int) (seen quoted_name : Bool) :
    ∃ w, eval_parameter_at buf q seen quoted_name p = some (quoted_name || (param_name s).contains dquote, w) ∧
      w.Follows buf (eval_parameter q seen s) := by
  obtain ⟨nstart, h1, hs1, -⟩ := h.scan is_ows
  obtain ⟨nend, h2, hs2, hlen⟩ := name_at_spec hs1 quoted_name
  change name_at buf quoted_name nstart = some (quoted_name || (param_name s).contains dquote, nend) at h2
  change At buf nend (param_rest s) at hs2
  change nend = nstart + (param_name s).length at hlen
  have hname : At buf nstart (param_name s ++ param_rest s) := by
    rw [param_name, param_rest, List.takeWhile_append_dropWhile]
    exact hs1
  by_cases hnil : param_name s = []
  · refine ⟨.error nend, ?_, ?_⟩
    · have hsame : nend = nstart := by simpa [hnil] using hlen
      simp [eval_parameter_at, h1, h2, hsame]
    · rw [eval_parameter, if_pos hnil]
      exact hs2
  have hne : nend ≠ nstart := fun he => hnil (List.eq_nil_of_length_eq_zero (by omega))
  have hq := is_q_at_spec hname
  rw [← hlen] at hq
  obtain ⟨p1, h3, hs3, -⟩ := hs2.scan is_ows
  obtain ⟨w, h4, hw⟩ := eval_value_at_spec hs3 (is_q (param_name s)) q seen
  rw [eval_parameter, if_neg hnil]
  change w.Follows buf (eval_value (is_q (param_name s)) q seen (skip_ows (param_rest s))) at hw
  revert hw
  generalize eval_value (is_q (param_name s)) q seen (skip_ows (param_rest s)) = v
  intro hw
  cases w with
  | error p2 =>
    cases v with
    | error s2 => exact ⟨.error p2, by simp [eval_parameter_at, h1, h2, hne, hq, h3, h4], hw⟩
    | ok v => exact hw.elim
  | ok w =>
    cases v with
    | error s2 => exact hw.elim
    | ok v =>
      obtain ⟨q', seen', p2⟩ := w
      obtain ⟨q2, seen2, s2⟩ := v
      obtain ⟨rfl, rfl, hw⟩ := hw
      obtain ⟨p3, h5, hs5, -⟩ := hw.scan is_ows
      change At buf p3 (skip_ows s2) at hs5
      rw [after_value]
      cases hr : skip_ows s2 with
      | nil =>
        rw [hr] at hs5
        refine ⟨.ok (q', seen', p3), ?_, rfl, rfl, hs5⟩
        simp [eval_parameter_at, h1, h2, hne, hq, h3, h4, h5, hs5.holds]
      | cons c s3 =>
        rw [hr] at hs5
        rw [param_end]
        by_cases hc : is_param_end c = true
        · refine ⟨.ok (q', seen', p3), ?_, ?_⟩
          · simp [eval_parameter_at, h1, h2, hne, hq, h3, h4, h5, hs5.holds, hc]
          · rw [if_pos hc]
            exact ⟨rfl, rfl, hs5⟩
        · refine ⟨.error p3, ?_, ?_⟩
          · simp [eval_parameter_at, h1, h2, hne, hq, h3, h4, h5, hs5.holds, hc]
          · rw [if_neg hc]
            exact hs5

theorem eval_params_at_spec {buf : Bytes} {p : Nat} {s : Bytes} (h : At buf p s) (q : Int) (seen quoted_name : Bool)
    (fuel : Nat) (hf : s.length < fuel) :
    ∃ p', eval_params_at buf fuel q seen quoted_name p =
        some ((eval_params q seen quoted_name s).1, (eval_params q seen quoted_name s).2.1, p') ∧
      At buf p' (eval_params q seen quoted_name s).2.2 := by
  induction fuel generalizing p s q seen quoted_name with
  | zero => omega
  | succ fuel ih =>
    cases s with
    | nil => exact ⟨p, by simp [eval_params_at, h.holds, eval_params], by simpa [eval_params] using h⟩
    | cons c s =>
      rw [eval_params]
      by_cases hc : c = semicolon
      · rw [if_pos hc]
        obtain ⟨w, h1, hw⟩ := eval_parameter_at_spec h.next q seen quoted_name
        have hle := eval_parameter_length_le q seen s
        split
        · next s' he =>
          rw [he] at hw
          cases w with
          | error p' => exact ⟨p', by simp [eval_params_at, h.holds, hc, h1], hw⟩
          | ok w => exact hw.elim
        · next q' seen' s' he =>
          rw [he] at hw hle
          cases w with
          | error p' => exact hw.elim
          | ok w =>
            obtain ⟨q1, seen1, p1⟩ := w
            obtain ⟨rfl, rfl, hw⟩ := hw
            simp only [Walked.cursor] at hle
            obtain ⟨p', h2, h3⟩ := ih hw q1 seen1 (quoted_name || (param_name s).contains dquote)
              (by simp only [List.length_cons] at hf; omega)
            refine ⟨p', ?_, h3⟩
            rw [← h2]
            simp [eval_params_at, h.holds, hc, h1]
      · rw [if_neg hc]
        exact ⟨p, by simp [eval_params_at, h.holds, hc], h⟩

theorem eval_qvalue_at_spec {buf : Bytes} {p : Nat} {s : Bytes} (h : At buf p s) :
    ∃ p', eval_qvalue_at buf p = some ((eval_qvalue s).1, (eval_qvalue s).2.1, p') ∧ At buf p' (eval_qvalue s).2.2 := by
  have hle := h.length
  obtain ⟨p', h1, h2⟩ := eval_params_at_spec h 1000 false false (buf.length + 1) (by omega)
  cases hq : (eval_params 1000 false false s).2.1 with
  | true => exact ⟨p, by simp [eval_qvalue_at, h1, eval_qvalue, hq], by simpa [eval_qvalue, hq] using h⟩
  | false => exact ⟨p', by simp [eval_qvalue_at, h1, eval_qvalue, hq], by simpa [eval_qvalue, hq] using h2⟩

theorem skip_to_comma_at_spec {buf : Bytes} {p : Nat} {s : Bytes} (h : At buf p s) :
    ∃ p', skip_to_comma_at buf p = some p' ∧ At buf p' (skipUntil is_comma s) := by
  have hle := h.length
  exact skip_until_at_spec h is_comma (buf.length + 1) (by omega)

theorem strncasecmp_at_spec {buf : Bytes} : ∀ (coding : Bytes) {name rest : Bytes} {p : Nat}, At buf p (name ++ rest) →
    name.length = coding.length → strncasecmp_at buf p coding = some (strncasecmp name coding coding.length)
  | [], name, rest, p, _, _ => by cases name <;> rfl
  | c2 :: coding, [], rest, p, _, hlen => by simp at hlen
  | c2 :: coding, c1 :: name, rest, p, h, hlen => by
    have hread : deref buf p = some c1 := h.read
    have ih := strncasecmp_at_spec coding h.next (by simpa using hlen)
    simp only [strncasecmp_at, hread, List.length_cons, strncasecmp, ih]
    by_cases heq : lower c1 = lower c2
    · by_cases h0 : lower c2 = 0
      · simp [heq, h0]
      · simp [heq, h0]
    · simp [heq]

/-- The two name tests: the length first, then the bytes. -/
theorem names_at_spec {buf name rest : Bytes} {p : Nat} (h : At buf p (name ++ rest)) (coding : Bytes) :
    is_coding_at buf coding p (p + name.length) = some (equals_nocase name coding) ∧
      is_star_at buf p (p + name.length) = some (name == [0x2a]) := by
  unfold is_coding_at is_star_at equals_nocase
  rw [Nat.add_sub_cancel_left]
  constructor
  · by_cases hlen : name.length = coding.length
    · rw [if_pos hlen, strncasecmp_at_spec coding h hlen]
      simp [hlen]
    · rw [if_neg hlen]
      simp [hlen]
  · match name, h with
    | [], h => rfl
    | [c], h => simp [show deref buf p = some c from h.read]
    | c :: d :: name, h => simp

theorem eval_element_at_spec {buf : Bytes} {p : Nat} {s : Bytes} (h : At buf p s) :
    ∃ p', eval_element_at buf p = some ((eval_element s).1, p') ∧ At buf p' (eval_element s).2.2 := by
  cases s with
  | nil => exact ⟨p, by simp [eval_element_at, h.holds, eval_element], h⟩
  | cons c s =>
    by_cases hc : c = semicolon
    · obtain ⟨p', h1, h2⟩ := eval_qvalue_at_spec h
      exact ⟨p', by simp [eval_element_at, h.holds, hc, h1, eval_element], by simpa [eval_element, hc] using h2⟩
    · exact ⟨p, by simp [eval_element_at, h.holds, hc, eval_element], by simpa [eval_element, hc] using h⟩

theorem element_at_spec {buf s : Bytes} {p : Nat} (coding : Bytes) (h : At buf p s) (acc : Int × Int) :
    match s.dropWhile is_list_sep with
    | [] => element_at buf coding acc p = some none
    | c :: u => ∃ p', element_at buf coding acc p = some (some (note coding acc (scan_element (c :: u)), p')) ∧
        At buf p' (element_rest (c :: u)) := by
  obtain ⟨tok, h1, hs1, -⟩ := h.scan is_list_sep
  generalize s.dropWhile is_list_sep = t at hs1 ⊢
  cases t with
  | nil =>
    have hge : tok ≥ buf.length := by simp [hs1.eq_length]
    rw [element_at, h1]
    exact if_pos hge
  | cons c u =>
    have hlt : ¬ tok ≥ buf.length := Nat.not_le.2 hs1.lt
    obtain ⟨nend, h2, hs2, hlen⟩ := hs1.scan is_coding_name
    have hname : At buf tok ((c :: u).takeWhile is_coding_name ++ (c :: u).dropWhile is_coding_name) := by
      rw [List.takeWhile_append_dropWhile]
      exact hs1
    obtain ⟨hcoding, hstar⟩ := names_at_spec hname coding
    rw [← hlen] at hcoding hstar
    obtain ⟨p1, h3, hs3, -⟩ := hs2.scan is_ows
    change At buf p1 (name_end (c :: u)) at hs3
    have hjunk : holdsAt (fun c => !is_param_end c) buf p1 = some (!at_param_end (name_end (c :: u))) := by
      rw [hs3.holds]
      cases name_end (c :: u) <;> simp [at_param_end]
    obtain ⟨p2, h4, hs4⟩ := eval_element_at_spec hs3
    obtain ⟨p3, h5, hs5⟩ := skip_to_comma_at_spec hs4
    refine ⟨p3, ?_, hs5⟩
    -- the early return is dealt with first, before `simp` can copy the rest of the body into both branches
    rw [element_at, h1, Option.bind_eq_bind, Option.bind_some, if_neg hlt]
    simp only [h2, hcoding, hstar, h3, hjunk, h4, h5, Option.bind_eq_bind, Option.bind_some, Bool.not_not, note,
      scan_element, Bool.and_comm]
    rfl

theorem weigh_at_spec {buf s : Bytes} {p : Nat} (coding : Bytes) (h : At buf p s) (acc : Int × Int) {fuel : Nat}
    (hf : s.length < fuel) : weigh_at buf coding fuel acc p = some (weigh coding acc s) := by
  induction fuel generalizing p s acc with
  | zero => omega
  | succ fuel ih =>
    have hturn := element_at_spec coding h acc
    rw [weigh]
    by_cases hlt : p < buf.length
    · split
      · next hd =>
        rw [hd] at hturn
        simp [weigh_at, hlt, hturn]
      · next c u hd =>
        rw [hd] at hturn
        obtain ⟨p', h1, h2⟩ := hturn
        have hshort := element_rest_lt (s := u) (dropWhile_head hd)
        have hle := List.length_dropWhile_le is_list_sep s
        rw [hd] at hle
        have hrun := ih h2 (note coding acc (scan_element (c :: u))) (by omega)
        simp [weigh_at, hlt, h1, hrun]
    · have hnil : s = [] := List.eq_nil_of_length_eq_zero (by have := h.length; omega)
      subst hnil
      simp [weigh_at, hlt]

/-- The parser on indices answers, and answers what the parser on rests does. -/
theorem coding_weight_ex_at_eq (ae coding : Bytes) (allow_wildcard : Bool) :
    coding_weight_ex_at ae coding allow_wildcard = some (coding_weight_ex ae coding allow_wildcard) := by
  have h := weigh_at_spec coding (.start ae) (-1, -1) (Nat.lt_succ_self _)
  simp [coding_weight_ex_at, h, coding_weight_ex]

/-! ## The cursor the parameter walk leaves -/

/-- A parameter that is not malformed ends at a `;`, a `,` or the end. -/
theorem eval_parameter_ends {q q' : Int} {seen seen' : Bool} {p p' : Bytes}
    (h : eval_parameter q seen p = .ok (q', seen', p')) : at_param_end p' = true := by
  have hafter : ∀ w, after_value w = .ok (q', seen', p') → at_param_end p' = true := by
    intro w hw
    match w with
    | .error r => cases hw
    | .ok (q1, seen1, r) =>
      rw [after_value] at hw
      cases hr : skip_ows r with
      | nil =>
        rw [hr] at hw
        cases hw
        rfl
      | cons c r' =>
        rw [hr, param_end] at hw
        split at hw
        · next hc =>
          cases hw
          exact hc
        · cases hw
  unfold eval_parameter at h
  split at h
  · cases h
  · exact hafter _ h

/-- With a weight the walk has come to a comma or to the end. -/
theorem eval_params_ends {q : Int} {seen quoted_name : Bool} {p : Bytes} (hp : at_param_end p = true)
    (hw : 0 ≤ (eval_params q seen quoted_name p).1) : (eval_params q seen quoted_name p).2.2.head?.all is_comma := by
  fun_induction eval_params q seen quoted_name p with
  | case1 => rfl
  | case2 => simp at hw
  | case3 q seen qn p qn' q' seen' p' he ih => exact ih (eval_parameter_ends he) hw
  | case4 q seen qn c p hc =>
    simp only [at_param_end, is_param_end, Bool.or_eq_true, beq_iff_eq] at hp
    rcases hp with hp | hp
    · exact absurd hp hc
    · simp [is_comma, hp]

/-- From the cursor `ngx_http_zstd_eval_qvalue` leaves, the skip to the next comma ends
where it ends from the `;` it was called on; with a weight, and no DQUOTE in a
parameter name, the cursor is at that comma or at the end. On every value the whole
walk reads in bounds and answers, and each of its turns advances. -/
theorem single_pass_cursor (ae : Bytes) :
    (∀ p, ae[p]? = some semicolon →
      ∃ q quoted_name p' k, eval_qvalue_at ae p = some (q, quoted_name, p') ∧ skip_to_comma_at ae p' = some k ∧
        skip_to_comma_at ae p = some k ∧
        (0 ≤ q → quoted_name = false → p' = ae.length ∨ ae[p']? = some comma)) ∧
    (∀ coding allow_wildcard, ∃ answer, coding_weight_ex_at ae coding allow_wildcard = some answer) ∧
    ∀ coding acc i, i < ae.length → element_at ae coding acc i = some none ∨
      ∃ acc' i', element_at ae coding acc i = some (some (acc', i')) ∧ i < i' ∧ i' ≤ ae.length := by
  refine ⟨fun p hp => ?_, fun coding aw => ⟨_, coding_weight_ex_at_eq ae coding aw⟩, fun coding acc i hi => ?_⟩
  · have hlt : p < ae.length := (List.getElem?_eq_some_iff.1 hp).1
    obtain ⟨s, hat⟩ : ∃ s, At ae p (semicolon :: s) := by
      refine ⟨ae.drop (p + 1), ?_⟩
      have hdrop := At.of_le (Nat.le_of_lt hlt)
      rwa [List.drop_eq_getElem_cons hlt, (List.getElem?_eq_some_iff.1 hp).2] at hdrop
    obtain ⟨p', h1, hs1⟩ := eval_qvalue_at_spec hat
    obtain ⟨k, h2, hs2⟩ := skip_to_comma_at_spec hs1
    obtain ⟨k', h3, hs3⟩ := skip_to_comma_at_spec hat
    rw [eval_qvalue_next_comma] at hs2
    obtain rfl : k = k' := hs2.unique hs3
    refine ⟨_, _, p', k, h1, h2, h3, fun hq hname => ?_⟩
    have hends := eval_params_ends (p := semicolon :: s) rfl hq
    simp only [eval_qvalue] at hname hs1
    rw [hname, if_neg (by simp)] at hs1
    generalize (eval_params 1000 false false (semicolon :: s)).2.2 = r at hs1 hends
    cases r with
    | nil => exact .inl hs1.eq_length
    | cons c r =>
      obtain rfl : c = comma := by simpa [is_comma] using hends
      exact .inr hs1.read
  · have hturn := element_at_spec coding (.of_le (Nat.le_of_lt hi)) acc
    split at hturn
    · exact .inl hturn
    · next c u hd =>
      obtain ⟨i', h1, h2⟩ := hturn
      refine .inr ⟨_, i', h1, ?_, h2.le⟩
      have hshort := element_rest_lt (s := u) (dropWhile_head hd)
      have hle := List.length_dropWhile_le is_list_sep (ae.drop i)
      rw [hd, List.length_drop] at hle
      have := h2.length
      omega

/-- A malformed weight behind a quoted comma. -/
theorem single_pass_cursor_malformed : ∃ q quoted_name p' k,
    eval_qvalue_at (str "gzip;x=\"a,\";q=2, zstd") 4 = some (q, quoted_name, p') ∧
      skip_to_comma_at (str "gzip;x=\"a,\";q=2, zstd") p' = some k ∧
      skip_to_comma_at (str "gzip;x=\"a,\";q=2, zstd") 4 = some k := by
  obtain ⟨q, quoted_name, p', k, h1, h2, h3, -⟩ :=
    (single_pass_cursor (str "gzip;x=\"a,\";q=2, zstd")).1 4 (by decide)
  exact ⟨q, quoted_name, p', k, h1, h2, h3⟩

end NginxZstd
