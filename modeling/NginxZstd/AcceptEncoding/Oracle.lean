import Mathlib.Data.List.DropRight
import NginxZstd.AcceptEncoding.Locality
/-!
# The fuzz oracle

The fuzz target carries a second decision procedure, written independently of the
parser: a splitter that gives up (`-1`) on whatever it is not sure of. Where it does
answer, the parser is shown to answer the same, for every byte string.
-/

namespace NginxZstd

open Lib

/-- `ngx_http_zstd_accept_encoding`: true is `NGX_OK`, false `NGX_DECLINED`. -/
def accept_encoding (ae : Bytes) : Bool := coding_weight ae (str "zstd") true > 0

/-! ## The reference -/

/-- The bytes of a token name: letters, digits, `*`, `-` and `_`. -/
def is_ref_name (c : UInt8) : Bool :=
  (0x41 ≤ c && c ≤ 0x5a) || (0x61 ≤ c && c ≤ 0x7a) || is_digit c || c == 0x2a || c == 0x2d || c == 0x5f

/-- A parameter name of the reference stops at a DQUOTE too. -/
def is_ref_param_name (c : UInt8) : Bool := is_name c && c != dquote

/-- The bytes of a bare token value. -/
def is_ref_value (c : UInt8) : Bool := !(c == semicolon || c == comma || is_ows c || c == dquote)

/-- From behind an opening DQUOTE to behind the closing one; an escape or a missing
DQUOTE is `none`. -/
def ref_quoted : Bytes → Option Bytes
  | [] => none
  | c :: p => if c = dquote then some p else if c = backslash then none else ref_quoted p

theorem ref_quoted_length_le {p r : Bytes} (h : ref_quoted p = some r) : r.length ≤ p.length := by
  induction p with
  | nil => cases h
  | cons c p ih =>
    rw [ref_quoted] at h
    split at h
    · cases h
      simp
    split at h
    · cases h
    · have := ih h
      simp only [List.length_cons]
      omega

/-- The rest of an element that starts with a DQUOTE, up to its comma. -/
def ref_skip_quoted_name (p : Bytes) : Option Bytes :=
  match p with
  | [] => some []
  | c :: p =>
    if c = comma then some (c :: p)
    else if c = dquote then
      match _h : ref_quoted p with
      | none => none
      | some r => ref_skip_quoted_name r
    else ref_skip_quoted_name p
termination_by p.length
decreasing_by
  · have := ref_quoted_length_le _h
    simp only [List.length_cons]
    omega
  · simp

/-- The rest of an element behind whose name stands neither `;` nor `,`. -/
def ref_skip_junk : (inq : Bool) → Bytes → Option Bytes
  | inq, [] => if inq then none else some []
  | inq, c :: p =>
    if c = comma ∧ inq = false then some (c :: p)
    else if c = backslash ∧ inq = true then
      match p with
      | [] => none
      | _ :: p => ref_skip_junk inq p
    else ref_skip_junk (if c = dquote then !inq else inq) p

/-- `while (i < n && d[i] >= '0' && d[i] <= '9' && scale > 0)`. -/
def ref_fraction (scale : Nat) : Bytes → Nat × Bytes
  | [] => (0, [])
  | c :: p =>
    if is_digit c && scale > 0 then
      ((c.toNat - 0x30) * scale + (ref_fraction (scale / 10) p).1, (ref_fraction (scale / 10) p).2)
    else (0, c :: p)

/-- The weight and the cursor behind it. -/
def ref_qvalue : Bytes → Option (Int × Bytes)
  | [] => none
  | c :: p =>
    if c = 0x30 then
      match p with
      | [] => some (0, [])
      | d :: p => if d = 0x2e then some ((ref_fraction 100 p).1, (ref_fraction 100 p).2) else some (0, d :: p)
    else if c = 0x31 then
      match p with
      | [] => some (1000, [])
      | d :: p => if d = 0x2e then some (1000, skip_zeros 3 p) else some (1000, d :: p)
    else none

/-- The value behind `=` and its OWS. -/
def ref_value (is_qp : Bool) (q : Int) (q_seen : Bool) (p : Bytes) : Option (Int × Bool × Bytes) :=
  if is_qp then
    if q_seen then none else (ref_qvalue p).map fun (q, p) => (q, true, p)
  else if p.head? = some dquote then (ref_quoted p.tail).map fun p => (q, q_seen, p)
  else some (q, q_seen, p.dropWhile is_ref_value)

/-- The OWS behind a value, then `;`, `,` or the end. -/
def ref_value_end : Int × Bool × Bytes → Option (Int × Bool × Bytes)
  | (q, q_seen, p) => if at_param_end (skip_ows p) then some (q, q_seen, skip_ows p) else none

/-- From behind the name of a parameter and its OWS. Behind a parameter without a value
nothing is checked here. -/
def ref_param_value (is_qp : Bool) (q : Int) (q_seen : Bool) : Bytes → Option (Int × Bool × Bytes)
  | [] => if is_qp then none else some (q, q_seen, [])
  | c :: p =>
    if c = equals then (ref_value is_qp q q_seen (skip_ows p)).bind ref_value_end
    else if is_qp then none
    else some (q, q_seen, c :: p)

def ref_param_name (p : Bytes) : Bytes := (skip_ows p).takeWhile is_ref_param_name

def ref_param_rest (p : Bytes) : Bytes := (skip_ows p).dropWhile is_ref_param_name

/-- One parameter, from behind its `;`. -/
def ref_param (q : Int) (q_seen : Bool) (p : Bytes) : Option (Int × Bool × Bytes) :=
  if ref_param_name p = [] then none
  else ref_param_value (is_q (ref_param_name p)) q q_seen (skip_ows (ref_param_rest p))

theorem ref_fraction_length_le (scale : Nat) (p : Bytes) : (ref_fraction scale p).2.length ≤ p.length := by
  induction p generalizing scale with
  | nil => simp [ref_fraction]
  | cons c p ih =>
    rw [ref_fraction]
    split
    · have := ih (scale / 10)
      simp only [List.length_cons]
      omega
    · exact Nat.le_refl _

theorem ref_qvalue_length_le {p r : Bytes} {q : Int} (h : ref_qvalue p = some (q, r)) : r.length ≤ p.length := by
  unfold ref_qvalue at h
  split at h
  · cases h
  next c p =>
  split at h
  · split at h
    · cases h
      simp
    next d p =>
    have := ref_fraction_length_le 100 p
    split at h <;> cases h <;> simp only [List.length_cons] <;> omega
  split at h
  · split at h
    · cases h
      simp
    next d p =>
    have := skip_zeros_length_le 3 p
    split at h <;> cases h <;> simp only [List.length_cons] <;> omega
  · cases h

theorem ref_value_length_le {is_qp q_seen q_seen' : Bool} {q q' : Int} {p r : Bytes}
    (h : ref_value is_qp q q_seen p = some (q', q_seen', r)) : r.length ≤ p.length := by
  unfold ref_value at h
  split at h
  · split at h
    · cases h
    · obtain ⟨⟨q1, r1⟩, h1, h2⟩ := Option.map_eq_some_iff.1 h
      cases h2
      exact ref_qvalue_length_le h1
  split at h
  · obtain ⟨r1, h1, h2⟩ := Option.map_eq_some_iff.1 h
    cases h2
    have := ref_quoted_length_le h1
    simp only [List.length_tail] at this
    omega
  · cases h
    exact List.length_dropWhile_le _ _

theorem ref_param_length_le {q_seen q_seen' : Bool} {q q' : Int} {p r : Bytes}
    (h : ref_param q q_seen p = some (q', q_seen', r)) : r.length ≤ p.length := by
  have hvalue : ∀ {is_qp : Bool} {s : Bytes}, ref_param_value is_qp q q_seen s = some (q', q_seen', r) →
      r.length ≤ s.length := by
    intro is_qp s hs
    unfold ref_param_value at hs
    split at hs
    · split at hs <;> cases hs
      exact Nat.le_refl _
    next c s =>
    split at hs
    · obtain ⟨⟨q1, seen1, r1⟩, h1, h2⟩ := Option.bind_eq_some_iff.1 hs
      have h3 := ref_value_length_le h1
      have h4 := skip_ows_length_le s
      have h5 := skip_ows_length_le r1
      rw [ref_value_end] at h2
      split at h2 <;> cases h2
      simp only [List.length_cons]
      omega
    split at hs <;> cases hs
    exact Nat.le_refl _
  have h1 := skip_ows_length_le p
  have h2 : (ref_param_rest p).length ≤ (skip_ows p).length := List.length_dropWhile_le _ _
  have h3 := skip_ows_length_le (ref_param_rest p)
  unfold ref_param at h
  split at h
  · cases h
  · have h4 := hvalue h
    omega

/-- `while (i < n && d[i] == ';')`. -/
def ref_params (q : Int) (q_seen : Bool) (p : Bytes) : Option (Int × Bytes) :=
  match p with
  | [] => some (q, [])
  | c :: p =>
    if c = semicolon then
      match _h : ref_param q q_seen p with
      | none => none
      | some (q', q_seen', p') => ref_params q' q_seen' p'
    else some (q, c :: p)
termination_by p.length
decreasing_by
  have := ref_param_length_le _h
  simp only [List.length_cons]
  omega

/-- `(d | 0x20)` compared byte by byte. -/
def is_zstd (name : Bytes) : Bool := name.map (· ||| 0x20) == str "zstd"

/-- The two weights behind an element. -/
def ref_note (name : Bytes) (q : Int) (acc : Int × Int) : Int × Int :=
  if is_zstd name then (q, acc.2) else if name == [0x2a] then (acc.1, q) else acc

/-- One element: the two weights and the cursor at its comma or at the end. -/
def ref_element (acc : Int × Int) (p : Bytes) : Option ((Int × Int) × Bytes) :=
  if p.head? = some dquote then (ref_skip_quoted_name p).map fun r => (acc, r)
  else
    let name := p.takeWhile is_ref_name
    let rest := skip_ows (p.dropWhile is_ref_name)
    if name = [] then none
    else if !at_param_end rest then (ref_skip_junk false rest).map fun r => (acc, r)
    else
      match ref_params 1000 false rest with
      | none => none
      | some (q, r) => if r.head?.all is_comma then some (ref_note name q acc, r) else none

theorem ref_skip_quoted_name_length_le {p r : Bytes} (h : ref_skip_quoted_name p = some r) :
    r.length ≤ p.length := by
  fun_induction ref_skip_quoted_name p with
  | case1 => cases h; exact Nat.le_refl _
  | case2 => cases h; exact Nat.le_refl _
  | case3 => cases h
  | case4 p s hs hc ih =>
    have h1 := ih h
    have h2 := ref_quoted_length_le hs
    simp only [List.length_cons]
    omega
  | case5 c p hc hq ih =>
    have h1 := ih h
    simp only [List.length_cons]
    omega

theorem ref_skip_junk_length_le {inq : Bool} {p r : Bytes} (h : ref_skip_junk inq p = some r) :
    r.length ≤ p.length := by
  fun_induction ref_skip_junk inq p with
  | case1 => cases h
  | case2 => cases h; exact Nat.le_refl _
  | case3 => cases h; exact Nat.le_refl _
  | case4 => cases h
  | case5 inq c _ _ d p ih =>
    have h1 := ih h
    simp only [List.length_cons]
    omega
  | case6 inq c p _ _ ih =>
    have h1 := ih h
    simp only [List.length_cons]
    omega

theorem ref_params_length_le {q q' : Int} {q_seen : Bool} {p r : Bytes} (h : ref_params q q_seen p = some (q', r)) :
    r.length ≤ p.length := by
  fun_induction ref_params q q_seen p with
  | case1 => cases h; exact Nat.le_refl _
  | case2 => cases h
  | case3 q seen p q1 seen1 p1 h1 ih =>
    have h2 := ih h
    have h3 := ref_param_length_le h1
    simp only [List.length_cons]
    omega
  | case4 => cases h; exact Nat.le_refl _

theorem ref_element_length_le {acc acc' : Int × Int} {p r : Bytes} (h : ref_element acc p = some (acc', r)) :
    r.length ≤ p.length := by
  have h1 := List.length_dropWhile_le is_ref_name p
  have h2 := skip_ows_length_le (p.dropWhile is_ref_name)
  simp only [ref_element] at h
  split at h
  · obtain ⟨r', h3, h4⟩ := Option.map_eq_some_iff.1 h
    cases h4
    exact ref_skip_quoted_name_length_le h3
  split at h
  · cases h
  split at h
  · obtain ⟨r', h3, h4⟩ := Option.map_eq_some_iff.1 h
    cases h4
    have h5 := ref_skip_junk_length_le h3
    omega
  split at h
  · cases h
  · next h3 =>
    have h4 := ref_params_length_le h3
    split at h <;> cases h
    omega

/-- `while (i < n)`: `none` where the reference is unsure. -/
def ref_walk (acc : Int × Int) (p : Bytes) : Option (Int × Int) :=
  match _h : p.dropWhile is_list_sep with
  | [] => some acc
  | c :: s =>
    match _h' : ref_element acc (c :: s) with
    | none => none
    | some (acc', r) => ref_walk acc' (r.drop 1)
termination_by p.length
decreasing_by
  have h1 := ref_element_length_le _h'
  have h2 := List.length_dropWhile_le is_list_sep p
  rw [_h] at h2
  simp only [List.length_cons, List.length_drop] at h1 h2 ⊢
  omega

/-- `1` where a weight is there and positive. -/
def ref_decision (zstd_q star_q : Int) : Int :=
  if zstd_q ≥ 0 then (if zstd_q > 0 then 1 else 0)
  else if star_q ≥ 0 then (if star_q > 0 then 1 else 0)
  else 0

/-- `ref_accepts`: 1 accept, 0 decline, -1 unsure. -/
def ref_accepts (d : Bytes) : Int :=
  match ref_walk (-1, -1) d with
  | none => -1
  | some (zstd_q, star_q) => ref_decision zstd_q star_q

/-! ## Skips -/

theorem quotedRest_ref {p r : Bytes} (h : ref_quoted p = some r) : quotedRest p = r := by
  induction p with
  | nil => cases h
  | cons c p ih =>
    rw [ref_quoted] at h
    split at h
    · next hc =>
      cases h
      rw [hc, quotedRest_dquote]
    split at h
    · cases h
    · next hc hb => rw [quotedRest_byte hc hb, ih h]

theorem ref_skip_quoted_name_eq {p r : Bytes} (h : ref_skip_quoted_name p = some r) : skipUntil is_comma p = r := by
  fun_induction ref_skip_quoted_name p with
  | case1 => cases h; rw [skipUntil]
  | case2 => cases h; rw [skipUntil, if_pos (by decide)]
  | case3 => cases h
  | case4 p s hs hc ih => rw [skipUntil, if_neg (by decide), if_pos rfl, quotedRest_ref hs, ih h]
  | case5 c p hc hq ih => rw [skipUntil, if_neg (by simpa [is_comma] using hc), if_neg hq, ih h]

/-- The toggle and the nested skip go through the same quoted-strings. -/
theorem ref_skip_junk_eq {inq : Bool} {p r : Bytes} (h : ref_skip_junk inq p = some r) :
    skipUntil is_comma (if inq then quotedRest p else p) = r := by
  fun_induction ref_skip_junk inq p with
  | case1 => cases h
  | case2 inq hq => cases h; rw [if_neg hq, skipUntil]
  | case3 inq c p hc =>
    cases h
    rw [hc.1, hc.2, if_neg (by decide), skipUntil, if_pos (by decide)]
  | case4 => cases h
  | case5 inq c hc hb d p ih =>
    have := ih h
    rw [hb.2] at this
    rw [hb.1, hb.2]
    simpa using this
  | case6 inq c p hc hb ih =>
    have := ih h
    cases inq with
    | false =>
      have hcomma : ¬ is_comma c = true := by simpa [is_comma] using hc
      by_cases hd : c = dquote
      · subst hd
        simpa [skipUntil, hcomma] using this
      · simpa [skipUntil, hcomma, hd] using this
    | true =>
      by_cases hd : c = dquote
      · subst hd
        simpa using this
      · rw [if_pos rfl, quotedRest_byte hd (by simpa using hb)]
        simpa [hd] using this

/-! ## Values -/

theorem skipUntil_ows {r : Bytes} (h : at_param_end (skip_ows r) = true) : skipUntil is_param_end r = skip_ows r := by
  induction r with
  | nil => rw [skipUntil, skip_ows, List.dropWhile_nil]
  | cons c r ih =>
    rw [skip_ows, List.dropWhile_cons] at h ⊢
    split
    · next hc =>
      rw [if_pos hc] at h
      have hplain := is_ows_plain hc
      have hend : ¬ is_param_end c = true := by
        intro he
        simp only [is_param_end, Bool.or_eq_true, beq_iff_eq] at he
        rcases he with rfl | rfl <;> exact absurd hc (by decide)
      rw [skipUntil, if_neg hend, if_neg hplain.2]
      exact ih h
    · next hc =>
      rw [if_neg hc] at h
      rw [skipUntil]
      exact if_pos h

theorem q_end_of_ows (q : Int) {r : Bytes} (h : at_param_end (skip_ows r) = true) : q_end q r = .ok (q, true, r) := by
  cases r with
  | nil => rfl
  | cons c r =>
    refine if_pos ?_
    by_cases hc : is_ows c = true
    · simp [hc]
    · rw [skip_ows, List.dropWhile_cons, if_neg hc] at h
      simpa [at_param_end, is_param_end, hc] using h

theorem param_end_ok (q : Int) (q_seen : Bool) {p : Bytes} (h : at_param_end p = true) :
    param_end q q_seen p = .ok (q, q_seen, p) := by
  cases p with
  | nil => rfl
  | cons c p => exact if_pos h

theorem ref_fraction_step (scale : Nat) {ws : List Nat} (hs : 0 < scale)
    (h : ∀ p, ref_fraction (scale / 10) p = q_digits ws p) (p : Bytes) :
    ref_fraction scale p = q_digits (scale :: ws) p := by
  cases p with
  | nil => rfl
  | cons c p => simp only [ref_fraction, q_digits, h, Bool.and_eq_true, decide_eq_true hs, and_true]

theorem ref_fraction_eq (p : Bytes) : ref_fraction 100 p = parse_q_fraction p := by
  have h0 : ∀ p, ref_fraction 0 p = q_digits [] p := by
    intro p
    cases p with
    | nil => rfl
    | cons c p => simp [ref_fraction, q_digits]
  have h1 := ref_fraction_step 1 (by decide) h0
  have h2 := ref_fraction_step 10 (by decide) h1
  exact ref_fraction_step 100 (by decide) h2 p

theorem ref_qvalue_eq {p r : Bytes} {q : Int} (h : ref_qvalue p = some (q, r)) : q_value p = q_end q r := by
  unfold ref_qvalue at h
  split at h
  · cases h
  next c p =>
  split at h
  · next hc =>
    subst hc
    cases p with
    | nil => cases h; rfl
    | cons d p =>
      simp only [ref_fraction_eq] at h
      simp only [q_value, if_true]
      split at h
      · next hd => cases h; rw [if_pos hd]
      · next hd => cases h; rw [if_neg hd]
  split at h
  · next hc =>
    subst hc
    cases p with
    | nil => cases h; rfl
    | cons d p =>
      simp only at h
      simp only [q_value, if_neg (show (0x31 : UInt8) ≠ 0x30 by decide), if_true]
      split at h
      · next hd => cases h; rw [if_pos hd]
      · next hd => cases h; rw [if_neg hd]
  · cases h

/-- What the reference takes for a value the parser takes for one. -/
theorem ref_value_eq {is_qp q_seen q_seen' : Bool} {q q' : Int} {p r : Bytes}
    (h : ref_value is_qp q q_seen (skip_ows p) = some (q', q_seen', r)) (hr : at_param_end (skip_ows r) = true) :
    after_value (eval_value is_qp q q_seen (equals :: p)) = .ok (q', q_seen', skip_ows r) := by
  rw [eval_value, if_pos rfl]
  generalize skip_ows p = s at h
  unfold ref_value at h
  cases is_qp with
  | true =>
    cases q_seen with
    | true => cases h
    | false =>
      obtain ⟨⟨q1, r1⟩, h1, h2⟩ := Option.map_eq_some_iff.1 h
      cases h2
      rw [if_pos rfl, if_neg (by decide), ref_qvalue_eq h1, q_end_of_ows q' hr]
      exact param_end_ok _ _ hr
  | false =>
    have hskip : q' = q ∧ q_seen' = q_seen ∧ skipUntil is_param_end s = skipUntil is_param_end r := by
      rw [if_neg (by decide)] at h
      split at h
      · next hd =>
        obtain ⟨r1, h1, h2⟩ := Option.map_eq_some_iff.1 h
        cases h2
        cases s with
        | nil => cases hd
        | cons c s =>
          cases hd
          refine ⟨rfl, rfl, ?_⟩
          rw [List.tail_cons] at h1
          rw [skipUntil, if_neg (by decide), if_pos rfl, quotedRest_ref h1]
      · cases h
        refine ⟨rfl, rfl, Eq.symm ?_⟩
        refine (next_stop_kept (by decide) _).dropWhile (fun c hc => ?_) rfl
        have hc' := List.mem_takeWhile_imp hc
        simp only [is_ref_value, Bool.not_eq_true', Bool.or_eq_false_iff] at hc'
        exact ⟨by simp [is_param_end, hc'.1.1.1, hc'.1.1.2], by simpa using hc'.2⟩
    obtain ⟨rfl, rfl, hs⟩ := hskip
    have hidem : skip_ows (skip_ows r) = skip_ows r := List.dropWhile_idempotent ..
    rw [if_neg (by decide), hs, skipUntil_ows hr, after_value, hidem]
    exact param_end_ok _ _ hr

/-! ## Names -/

/-- A narrower scan that stops where the wider one would is the wider one. -/
theorem scan_agrees {f g : UInt8 → Bool} (hgf : ∀ c, g c = true → f c = true) {s : Bytes}
    (hstop : ∀ c u, s.dropWhile g = c :: u → f c = false) :
    s.takeWhile f = s.takeWhile g ∧ s.dropWhile f = s.dropWhile g := by
  induction s with
  | nil => exact ⟨rfl, rfl⟩
  | cons c s ih =>
    by_cases hg : g c = true
    · simp only [List.dropWhile_cons, List.takeWhile_cons, if_pos hg, if_pos (hgf c hg)] at hstop ⊢
      obtain ⟨h1, h2⟩ := ih hstop
      exact ⟨congrArg _ h1, h2⟩
    · simp only [List.dropWhile_cons, List.takeWhile_cons, if_neg hg] at hstop ⊢
      have hf : ¬ f c = true := by simp [hstop c s rfl]
      exact ⟨if_neg hf, if_neg hf⟩

/-- Otherwise the wider one goes through the byte the narrower one stopped on. -/
theorem mem_takeWhile_wider {f g : UInt8 → Bool} (hgf : ∀ c, g c = true → f c = true) {s u : Bytes} {c : UInt8}
    (hs : s.dropWhile g = c :: u) (hc : f c = true) : c ∈ s.takeWhile f := by
  induction s with
  | nil => cases hs
  | cons d s ih =>
    rw [List.dropWhile_cons] at hs
    rw [List.takeWhile_cons]
    split at hs
    · next hd =>
      rw [if_pos (hgf d hd)]
      exact List.mem_cons_of_mem _ (ih hs)
    · cases hs
      rw [if_pos hc]
      exact List.mem_cons_self

/-- A byte of the reference's names is one of the coding's name, and plain. -/
theorem is_ref_name_facts {c : UInt8} (h : is_ref_name c = true) : is_coding_name c = true ∧ Plain c := by
  have key : ∀ n : Fin 256, is_ref_name (UInt8.ofNat n) = true →
      is_coding_name (UInt8.ofNat n) = true ∧ Plain (UInt8.ofNat n) := by decide +kernel
  simpa using key ⟨c.toNat, UInt8.toNat_lt c⟩ (by simpa using h)

/-- Both ways of folding agree on the letters of the coding. -/
theorem fold_zstd {c t : UInt8} (ht : t ∈ str "zstd") :
    (lower c = t ↔ c ||| 0x20 = t) ∧ (lower c = t → is_ref_name c = true) := by
  have key : ∀ t ∈ str "zstd", ∀ n : Fin 256,
      (lower (UInt8.ofNat n) = t ↔ UInt8.ofNat n ||| 0x20 = t) ∧
        (lower (UInt8.ofNat n) = t → is_ref_name (UInt8.ofNat n) = true) := by decide +kernel
  simpa using key t ht ⟨c.toNat, UInt8.toNat_lt c⟩

theorem map_eq_iff {f g : UInt8 → UInt8} {s t : Bytes} (h : ∀ d ∈ t, ∀ c, f c = d ↔ g c = d) :
    s.map f = t ↔ s.map g = t := by
  induction t generalizing s with
  | nil => simp
  | cons d t ih =>
    cases s with
    | nil => simp
    | cons c s =>
      rw [List.map_cons, List.map_cons, List.cons.injEq, List.cons.injEq, h d List.mem_cons_self c,
        ih fun e he => h e (List.mem_cons_of_mem _ he)]

theorem equals_zstd_iff (name : Bytes) : equals_nocase name (str "zstd") = true ↔ foldCase name = str "zstd" :=
  equals_nocase_iff (by decide)

theorem is_zstd_eq (name : Bytes) : is_zstd name = equals_nocase name (str "zstd") := by
  rw [Bool.eq_iff_iff, equals_zstd_iff, is_zstd, beq_iff_eq]
  exact (map_eq_iff fun t ht c => (fold_zstd ht).1).symm

/-! ## Parameters -/

theorem ref_param_names {q q' : Int} {q_seen q_seen' : Bool} {p r : Bytes}
    (h : ref_param q q_seen p = some (q', q_seen', r)) (hr : at_param_end r = true) :
    param_name p = ref_param_name p ∧ param_rest p = ref_param_rest p := by
  have hgf : ∀ c, is_ref_param_name c = true → is_name c = true := fun c hc => (Bool.and_eq_true_iff.1 hc).1
  refine scan_agrees hgf fun c u hc => ?_
  have hnot := dropWhile_head hc
  rw [is_ref_param_name, Bool.and_eq_false_iff] at hnot
  refine hnot.resolve_right fun hd => ?_
  -- the reference has stopped on a DQUOTE, which ends no parameter
  obtain rfl : c = dquote := by simpa using hd
  have hrest : skip_ows (ref_param_rest p) = dquote :: u := by
    rw [ref_param_rest, hc]
    rfl
  rw [ref_param, hrest] at h
  split at h
  · cases h
  rw [ref_param_value, if_neg (by decide)] at h
  split at h <;> cases h
  cases hr

/-- A parameter the reference is sure of is the parser's. -/
theorem ref_param_eq {q q' : Int} {q_seen q_seen' : Bool} {p r : Bytes}
    (h : ref_param q q_seen p = some (q', q_seen', r)) (hr : at_param_end r = true) :
    eval_parameter q q_seen p = .ok (q', q_seen', r) ∧ (param_name p).contains dquote = false := by
  obtain ⟨hname, hrest⟩ := ref_param_names h hr
  constructor
  · rw [eval_parameter, hname, hrest]
    unfold ref_param at h
    split at h
    · cases h
    next hne =>
    rw [if_neg hne]
    have hidem : skip_ows (skip_ows (ref_param_rest p)) = skip_ows (ref_param_rest p) :=
      List.dropWhile_idempotent ..
    unfold ref_param_value at h
    split at h
    · split at h
      · cases h
      · next hnil hq =>
        cases h
        rw [hnil, eval_value, if_neg hq]
        rfl
    · next c s hcons =>
      rw [hcons] at hidem
      split at h
      · next hc =>
        obtain ⟨⟨q1, seen1, r1⟩, h1, h2⟩ := Option.bind_eq_some_iff.1 h
        rw [ref_value_end] at h2
        split at h2 <;> cases h2
        rw [hcons, hc]
        exact ref_value_eq h1 hr
      split at h
      · cases h
      · next hc hq =>
        cases h
        rw [hcons, eval_value, if_neg hc, if_neg hq, after_value, hidem]
        exact param_end_ok _ _ hr
  · rw [hname, List.contains_eq_mem, decide_eq_false_iff_not]
    intro hd
    exact absurd (List.mem_takeWhile_imp hd) (by decide)

/-- The loop over the parameters. -/
theorem ref_params_eq {q q' : Int} {q_seen : Bool} {p r : Bytes} (h : ref_params q q_seen p = some (q', r))
    (hr : at_param_end r = true) (hq : 0 ≤ q) : eval_params q q_seen false p = (q', false, r) ∧ 0 ≤ q' := by
  fun_induction ref_params q q_seen p with
  | case1 =>
    cases h
    exact ⟨by rw [eval_params], hq⟩
  | case2 => cases h
  | case3 q seen p q1 seen1 p1 h1 ih =>
    have hp1 : at_param_end p1 = true := by
      cases p1 with
      | nil => rfl
      | cons d u =>
        rw [ref_params] at h
        split at h
        · next hd => rw [hd]; rfl
        · cases h; exact hr
    obtain ⟨hparam, hname⟩ := ref_param_eq h1 hp1
    rw [eval_params_ok hparam, hname]
    exact ih h (eval_parameter_nonneg hq hparam)
  | case4 q seen c p hc =>
    cases h
    exact ⟨by rw [eval_params, if_neg hc], hq⟩

/-! ## Elements -/

theorem ref_element_params {p r : Bytes} {q : Int} (hp : at_param_end p = true)
    (h : ref_params 1000 false p = some (q, r)) (hr : r.head?.all is_comma = true) :
    eval_element p = (q, false, r) ∧ 0 ≤ q := by
  have hend : at_param_end r = true := by
    cases r with
    | nil => rfl
    | cons c r =>
      obtain rfl : c = comma := by simpa [is_comma] using hr
      rfl
  obtain ⟨heval, hq⟩ := ref_params_eq h hend (by decide)
  refine ⟨?_, hq⟩
  cases p with
  | nil =>
    rw [eval_params] at heval
    cases heval
    rfl
  | cons c p =>
    rw [eval_element]
    split
    · rw [eval_qvalue, heval]
      rfl
    · next hc =>
      rw [eval_params, if_neg hc] at heval
      exact heval

/-- Where the reference finds no `;`, `,` or end behind a name, the parser finds no
coding of interest. -/
theorem note_junk (acc : Int × Int) {p : Bytes} (hp : at_param_end (skip_ows (p.dropWhile is_ref_name)) = false) :
    note (str "zstd") acc (scan_element p) = acc := by
  have hgf : ∀ c, is_ref_name c = true → is_coding_name c = true := fun c hc => (is_ref_name_facts hc).1
  have hneither : (scan_element p).token = true →
      equals_nocase (scan_element p).name (str "zstd") = false ∧ ((scan_element p).name == [0x2a]) = false := by
    intro htoken
    by_cases hstop : ∀ c u, p.dropWhile is_ref_name = c :: u → is_coding_name c = false
    · -- the names agree, so the parser sees the junk too
      have hrest := (scan_agrees hgf hstop).2
      simp only [scan_element, name_end, hrest, hp] at htoken
      cases htoken
    · simp only [not_forall, Bool.not_eq_false] at hstop
      obtain ⟨c, u, hcu, hc⟩ := hstop
      have hmem : c ∈ (scan_element p).name := mem_takeWhile_wider hgf hcu hc
      have hnot := dropWhile_head hcu
      rw [← Bool.not_eq_true, ← Bool.not_eq_true, equals_zstd_iff, beq_iff_eq]
      constructor
      · intro heq
        have hfold : lower c ∈ str "zstd" := heq ▸ List.mem_map_of_mem hmem
        rw [(fold_zstd hfold).2 rfl] at hnot
        cases hnot
      · intro heq
        rw [heq, List.mem_singleton] at hmem
        rw [hmem] at hnot
        cases hnot
  unfold note
  cases htoken : (scan_element p).token with
  | false => simp
  | true =>
    obtain ⟨h1, h2⟩ := hneither htoken
    simp [h1, h2]

/-- Otherwise both find the same name and the same cursor behind it. -/
theorem ref_coding_name {p : Bytes} (hp : at_param_end (skip_ows (p.dropWhile is_ref_name)) = true) :
    p.takeWhile is_coding_name = p.takeWhile is_ref_name ∧ p.dropWhile is_coding_name = p.dropWhile is_ref_name := by
  refine scan_agrees (fun c hc => (is_ref_name_facts hc).1) fun c u hcu => ?_
  rw [hcu, skip_ows, List.dropWhile_cons] at hp
  split at hp
  · next hc => simp [is_coding_name, hc]
  · simp only [at_param_end, is_param_end, Bool.or_eq_true, beq_iff_eq] at hp
    rcases hp with rfl | rfl <;> decide

/-- One element: the parser notes what the reference notes and goes on from the same
comma. -/
theorem ref_element_eq {acc acc' : Int × Int} {p r : Bytes} (h : ref_element acc p = some (acc', r)) :
    note (str "zstd") acc (scan_element p) = acc' ∧ element_rest p = r := by
  simp only [ref_element] at h
  split at h
  · next hd =>
    obtain ⟨r', h1, h2⟩ := Option.map_eq_some_iff.1 h
    cases h2
    refine ⟨?_, (element_rest_eq p).trans (ref_skip_quoted_name_eq h1)⟩
    cases p with
    | nil => cases hd
    | cons c p =>
      cases hd
      have hname : (scan_element (dquote :: p)).name = [] := rfl
      have hcoding : equals_nocase [] (str "zstd") = false := by decide
      simp [note, hname, hcoding]
  split at h
  · cases h
  split at h
  · next hjunk =>
    obtain ⟨r', h1, h2⟩ := Option.map_eq_some_iff.1 h
    cases h2
    refine ⟨note_junk acc (by simpa using hjunk), ?_⟩
    have hkept : Kept is_comma fun s => skipUntil is_comma s = skipUntil is_comma p := next_stop_kept (by decide) _
    have hname := hkept.dropWhile (fun c hc => (is_ref_name_facts (List.mem_takeWhile_imp hc)).2) rfl
    rw [element_rest_eq, ← skip_ows_kept hkept hname]
    exact ref_skip_junk_eq h1
  split at h
  · cases h
  next hend _ q r' hparams =>
  split at h <;> cases h
  next hcomma =>
  have hend' : at_param_end (skip_ows (p.dropWhile is_ref_name)) = true := by simpa using hend
  obtain ⟨hname, hrest⟩ := ref_coding_name hend'
  obtain ⟨heval, hq⟩ := ref_element_params hend' hparams hcomma
  have hne : name_end p = skip_ows (p.dropWhile is_ref_name) := by rw [name_end, hrest]
  constructor
  · simp only [note, scan_element, hne, heval, hend', hname, ref_note, is_zstd_eq, if_pos hq, Bool.true_and]
  · rw [element_rest, element_cursor, hne, heval]
    cases r with
    | nil => rw [skipUntil]
    | cons c r =>
      rw [skipUntil]
      exact if_pos hcomma

/-! ## The walk -/

/-- Behind the comma or at it, the walk finds the same elements. -/
theorem weigh_drop_comma (coding : Bytes) (acc : Int × Int) {r : Bytes} (hr : r.head?.all is_comma = true) :
    weigh coding acc r = weigh coding acc (r.drop 1) := by
  cases r with
  | nil => rfl
  | cons c r =>
    obtain rfl : c = comma := by simpa [is_comma] using hr
    rw [weigh_eq, weigh_eq]
    exact congrArg _ (elements_congr rfl)

theorem skipUntil_head_comma (p : Bytes) : (skipUntil is_comma p).head?.all is_comma = true := by
  cases h : skipUntil is_comma p with
  | nil => rfl
  | cons c t =>
    obtain ⟨-, -, hc, -⟩ := skipUntil_split h
    simpa using hc

/-- The two walks step from element to element together. -/
theorem ref_walk_eq {acc r : Int × Int} {p : Bytes} (h : ref_walk acc p = some r) : weigh (str "zstd") acc p = r := by
  fun_induction ref_walk acc p with
  | case1 acc p hd =>
    cases h
    rw [weigh_eq, elements_nil hd]
    rfl
  | case2 => cases h
  | case3 acc p c s hd acc' t he ih =>
    obtain ⟨hnote, hrest⟩ := ref_element_eq he
    have hcomma : t.head?.all is_comma = true := by
      rw [← hrest, element_rest_eq]
      exact skipUntil_head_comma _
    rw [weigh_eq, elements_cons hd, List.foldl_cons, hnote, hrest, ← weigh_eq, weigh_drop_comma _ _ hcomma]
    exact ih h

/-- Wherever the oracle of the fuzz target is sure, the parser answers as it does. -/
theorem accept_encoding_oracle (d : Bytes) (h : ref_accepts d = 0 ∨ ref_accepts d = 1) :
    accept_encoding d = true ↔ ref_accepts d = 1 := by
  cases hw : ref_walk (-1, -1) d with
  | none =>
    rw [ref_accepts, hw] at h
    simp at h
  | some acc =>
    obtain ⟨zstd_q, star_q⟩ := acc
    rw [ref_accepts, hw, accept_encoding, coding_weight, coding_weight_ex, ref_walk_eq hw, decide_eq_true_iff]
    simp only [precedence, ref_decision, true_and]
    split
    · split <;> simp_all
    · split
      · split <;> simp_all
      · simp

/-- A quoted comma, a refused wildcard and a late duplicate. -/
theorem accept_encoding_oracle_sample :
    ref_accepts (str "gzip;x=\"a, zstd\";q=1, *;q=0, ZSTD;Q = 0.5") = 1 ∧
      accept_encoding (str "gzip;x=\"a, zstd\";q=1, *;q=0, ZSTD;Q = 0.5") = true := by
  have h : ref_accepts (str "gzip;x=\"a, zstd\";q=1, *;q=0, ZSTD;Q = 0.5") = 1 := by decide +kernel
  exact ⟨h, (accept_encoding_oracle _ (.inr h)).2 h⟩

end NginxZstd
