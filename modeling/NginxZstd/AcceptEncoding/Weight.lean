import NginxZstd.AcceptEncoding.Parser
/-!
# Weights

`coding_weight_ex` walks the elements of one field value, `chain_coding_weight`
and `request_coding_weight` the lines of one field. Everything about them rests
on `elements_append`: the elements of a joined value are those of its parts, as
long as the first part ends outside a quoted-string and no DQUOTE stands in a
parameter name.
-/

namespace NginxZstd

open Lib

/-! ## The element walk -/

/-- The bytes the coding name scan steps over. -/
def is_coding_name (c : UInt8) : Bool := !(is_ows c || c == semicolon || c == comma || c == dquote)

/-- OWS and the commas around empty list elements. -/
def is_list_sep (c : UInt8) : Bool := is_ows c || c == comma

def is_comma (c : UInt8) : Bool := c == comma

/-- What the walk learns of one element: its name, whether only `;`, `,` or the end
follows it, its weight, and whether a parameter name held a DQUOTE. -/
structure Scanned where
  name : Bytes
  token : Bool
  q : Int
  quoted_name : Bool
deriving DecidableEq

/-- The cursor behind a coding name and the OWS after it. -/
def name_end (p : Bytes) : Bytes := skip_ows (p.dropWhile is_coding_name)

def at_param_end : Bytes → Bool
  | [] => true
  | c :: _ => is_param_end c

/-- The parameters, where there are any. -/
def eval_element : Bytes → Int × Bool × Bytes
  | [] => (1000, false, [])
  | c :: p => if c = semicolon then eval_qvalue (c :: p) else (1000, false, c :: p)

/-- The cursor where the skip to the next element starts. -/
def element_cursor (p : Bytes) : Bytes := (eval_element (name_end p)).2.2

def scan_element (p : Bytes) : Scanned where
  name := p.takeWhile is_coding_name
  token := at_param_end (name_end p)
  q := (eval_element (name_end p)).1
  quoted_name := (eval_element (name_end p)).2.1

/-- The skip to the next top-level comma. -/
def element_rest (p : Bytes) : Bytes := skipUntil is_comma (element_cursor p)

theorem eval_params_length_le (q : Int) (q_seen quoted_name : Bool) (p : Bytes) :
    (eval_params q q_seen quoted_name p).2.2.length ≤ p.length := by
  fun_induction eval_params q q_seen quoted_name p with
  | case1 => exact Nat.le_refl _
  | case2 q q_seen qn p qn' p' h =>
    have := eval_parameter_length_le q q_seen p
    rw [h] at this
    simp only [Walked.cursor] at this
    simp only [List.length_cons]; omega
  | case3 q q_seen qn p qn' q' seen' p' h ih =>
    have := eval_parameter_length_le q q_seen p
    rw [h] at this
    simp only [Walked.cursor] at this
    simp only [List.length_cons]; omega
  | case4 => exact Nat.le_refl _

/-- Behind a `;` the parameter walk makes progress. -/
theorem eval_params_progress (q : Int) (q_seen quoted_name : Bool) (p : Bytes) :
    (eval_params q q_seen quoted_name (semicolon :: p)).2.2.length ≤ p.length := by
  have h := eval_parameter_length_le q q_seen p
  rw [eval_params, if_pos rfl]
  split
  · next he => rw [he] at h; exact h
  · next he => rw [he] at h; exact le_trans (eval_params_length_le _ _ _ _) h

theorem skipUntil_progress {stop : UInt8 → Bool} {c : UInt8} (hc : stop c = false) (s : Bytes) :
    (skipUntil stop (c :: s)).length ≤ s.length := by
  rw [skipUntil, if_neg (by simp [hc])]
  split
  · exact le_trans (skipUntil_length_le _ _) (quotedRest_length_le s)
  · exact skipUntil_length_le _ _

theorem element_rest_lt {c : UInt8} {s : Bytes} (hc : is_list_sep c = false) :
    (element_rest (c :: s)).length < (c :: s).length := by
  have hcomma : is_comma c = false := by
    simp only [is_list_sep, Bool.or_eq_false_iff] at hc; exact hc.2
  have hows : is_ows c = false := by
    simp only [is_list_sep, Bool.or_eq_false_iff] at hc; exact hc.1
  -- the cursor of the final skip has either moved or still stands on `c`
  have key : element_cursor (c :: s) = c :: s ∨ (element_cursor (c :: s)).length ≤ s.length := by
    unfold element_cursor
    by_cases hn : is_coding_name c = true
    · have hle : (name_end (c :: s)).length ≤ s.length := by
        rw [name_end, List.dropWhile_cons, if_pos hn]
        exact le_trans (skip_ows_length_le _) (List.length_dropWhile_le _ _)
      refine Or.inr (le_trans ?_ hle)
      cases hne : name_end (c :: s) with
      | nil => simp [eval_element]
      | cons d u =>
        simp only [eval_element]
        split
        · next hd =>
          subst hd
          simp only [eval_qvalue]
          split
          · exact Nat.le_refl _
          · exact eval_params_length_le _ _ _ _
        · exact Nat.le_refl _
    · have hne : name_end (c :: s) = c :: s := by
        rw [name_end, List.dropWhile_cons, if_neg hn, skip_ows, List.dropWhile_cons, if_neg (by simp [hows])]
      rw [hne]
      simp only [eval_element]
      split
      · next hd =>
        subst hd
        simp only [eval_qvalue]
        split
        · exact Or.inl rfl
        · exact Or.inr (eval_params_progress _ _ _ _)
      · exact Or.inl rfl
  unfold element_rest
  rcases key with h | h
  · rw [h]
    have := skipUntil_progress hcomma s
    simp only [List.length_cons]; omega
  · have := skipUntil_length_le is_comma (element_cursor (c :: s))
    simp only [List.length_cons]; omega

/-- The explicit and the `*` weight after one more element. -/
def note (coding : Bytes) (acc : Int × Int) (e : Scanned) : Int × Int :=
  if e.q ≥ 0 then
    if e.token && equals_nocase e.name coding then (e.q, acc.2)
    else if e.token && e.name == [0x2a] then (acc.1, e.q)
    else acc
  else acc

/-- `while (p < end)` of the element walk, with `coding_q` and `star_q`. -/
def weigh (coding : Bytes) (acc : Int × Int) (p : Bytes) : Int × Int :=
  match _h : p.dropWhile is_list_sep with
  | [] => acc
  | c :: s => weigh coding (note coding acc (scan_element (c :: s))) (element_rest (c :: s))
termination_by p.length
decreasing_by
  have h1 := element_rest_lt (s := s) (dropWhile_head _h)
  have h2 := List.length_dropWhile_le is_list_sep p
  rw [_h] at h2
  omega

/-- The elements the walk goes through. -/
def elements (p : Bytes) : List Scanned :=
  match _h : p.dropWhile is_list_sep with
  | [] => []
  | c :: s => scan_element (c :: s) :: elements (element_rest (c :: s))
termination_by p.length
decreasing_by
  have h1 := element_rest_lt (s := s) (dropWhile_head _h)
  have h2 := List.length_dropWhile_le is_list_sep p
  rw [_h] at h2
  omega

/-- The precedence rule: an explicit token decides, then a permitted `*`. -/
def precedence (allow_wildcard : Bool) (coding_q star_q : Int) : Int :=
  if coding_q ≥ 0 then coding_q else if allow_wildcard ∧ star_q ≥ 0 then star_q else -1

/-- `ngx_http_zstd_coding_weight_ex`: the answer, `*explicit_q` and `*star_q_out`. -/
def coding_weight_ex (ae coding : Bytes) (allow_wildcard : Bool) : Int × Int × Int :=
  let (coding_q, star_q) := weigh coding (-1, -1) ae
  (precedence allow_wildcard coding_q star_q, coding_q, star_q)

/-- `ngx_http_zstd_coding_weight`. -/
def coding_weight (ae coding : Bytes) (allow_wildcard : Bool) : Int := (coding_weight_ex ae coding allow_wildcard).1

theorem weigh_eq (coding : Bytes) (acc : Int × Int) (p : Bytes) :
    weigh coding acc p = (elements p).foldl (note coding) acc := by
  fun_induction weigh coding acc p with
  | case1 acc p h => rw [elements]; split <;> simp_all
  | case2 acc p c s h ih =>
    rw [elements]
    split
    · next h' => rw [h] at h'; cases h'
    · next h' => rw [h] at h'; cases h'; exact ih

end NginxZstd
