import NginxZstd.AcceptEncoding.Weight
/-!
# Elements are local

Each scanner of the parser stops at a top-level comma, and every one of them is
shown to commute with appending `,t` to its cursor. The one that need not is the
skip over a parameter's value, which runs on when its text ends within a
quoted-string (`openParams`); in a text that closes its quoted-strings this takes a
DQUOTE in a parameter name. The malformed exits are included: they stop on
different bytes, all of them in step with a plain quote-aware scan.
-/

namespace NginxZstd

open Lib

/-- The same outcome with more bytes behind the cursor. -/
def Walked.append (t : Bytes) : Walked → Walked
  | .error p => .error (p ++ t)
  | .ok (q, q_seen, p) => .ok (q, q_seen, p ++ t)

/-! ## What the scanners keep -/

/-- A byte that is neither a comma nor a DQUOTE. -/
def Plain (c : UInt8) : Prop := is_comma c = false ∧ c ≠ dquote

instance (c : UInt8) : Decidable (Plain c) := inferInstanceAs (Decidable (_ ∧ _))

theorem is_ows_plain {c : UInt8} (h : is_ows c = true) : Plain c := by
  simp only [is_ows, Bool.or_eq_true, beq_iff_eq] at h
  rcases h with rfl | rfl <;> decide

theorem is_digit_plain {c : UInt8} (h : is_digit c = true) : Plain c := by
  constructor
  · cases hc : is_comma c with
    | false => rfl
    | true => rw [is_comma, beq_iff_eq] at hc; subst hc; exact absurd h (by decide)
  · rintro rfl; exact absurd h (by decide)

theorem is_name_plain {c : UInt8} (h : is_name c = true) (hq : c ≠ dquote) : Plain c := by
  refine ⟨?_, hq⟩
  cases hc : is_comma c with
  | false => rfl
  | true => rw [is_comma, beq_iff_eq] at hc; subst hc; exact absurd h (by decide)

section Keep

variable {P : Bytes → Prop} (hk : Kept is_comma P)
include hk

theorem plain_kept {c : UInt8} {p : Bytes} (hc : Plain c) (h : P (c :: p)) : P p := hk.byte hc.1 hc.2 h

theorem skip_ows_kept {p : Bytes} (h : P p) : P (skip_ows p) :=
  hk.dropWhile (fun _ hc => is_ows_plain (List.mem_takeWhile_imp hc)) h

theorem q_digits_kept : ∀ (ws : List Nat) {p : Bytes}, P p → P (q_digits ws p).2
  | [], p, h => by cases p <;> exact h
  | w :: ws, [], h => h
  | w :: ws, c :: p, h => by
    simp only [q_digits]
    split
    · next hc => exact q_digits_kept ws (plain_kept hk (is_digit_plain hc) h)
    · exact h

theorem skip_zeros_kept : ∀ (n : Nat) {p : Bytes}, P p → P (skip_zeros n p)
  | 0, p, h => by cases p <;> exact h
  | n + 1, [], h => h
  | n + 1, c :: p, h => by
    simp only [skip_zeros]
    split
    · next hc => exact skip_zeros_kept n (plain_kept hk (by subst hc; decide) h)
    · exact h

theorem q_value_kept {p : Bytes} (h : P p) : P (q_value p).cursor := by
  unfold q_value
  split
  · exact h
  next c p =>
  split
  · next hc =>
    have hp := plain_kept hk (by subst hc; decide) h
    split
    · rw [q_end_cursor]; exact hp
    next d p =>
    split <;> rw [q_end_cursor]
    · next hd => exact q_digits_kept hk _ (plain_kept hk (by subst hd; decide) hp)
    · exact hp
  split
  · next hc =>
    have hp := plain_kept hk (by subst hc; decide) h
    split
    · rw [q_end_cursor]; exact hp
    next d p =>
    split <;> rw [q_end_cursor]
    · next hd => exact skip_zeros_kept hk _ (plain_kept hk (by subst hd; decide) hp)
    · exact hp
  · exact h

theorem eval_value_kept (q_name : Bool) (q : Int) (q_seen : Bool) {p : Bytes} (h : P p) :
    P (eval_value q_name q q_seen p).cursor := by
  unfold eval_value
  split
  · split <;> exact h
  next c p =>
  split
  · next hc =>
    have hp := skip_ows_kept hk (plain_kept hk (by subst hc; decide) h)
    split
    · split
      · exact hp
      · exact q_value_kept hk hp
    · refine hk.skipUntil (fun c hc => ?_) hp
      simp only [is_comma, beq_iff_eq] at hc
      subst hc; decide
  · split <;> exact h

theorem param_rest_kept {p : Bytes} (hn : (param_name p).contains dquote = false) (h : P p) : P (param_rest p) := by
  refine hk.dropWhile (fun c hc => ?_) (skip_ows_kept hk h)
  refine is_name_plain (List.mem_takeWhile_imp hc) ?_
  rintro rfl
  rw [List.contains_eq_mem, decide_eq_false_iff_not] at hn
  exact hn hc

theorem eval_parameter_kept (q : Int) (q_seen : Bool) {p : Bytes}
    (hn : (param_name p).contains dquote = false) (h : P p) : P (eval_parameter q q_seen p).cursor := by
  have hr := param_rest_kept hk hn h
  unfold eval_parameter
  split
  · exact hr
  have hv := eval_value_kept hk (is_q (param_name p)) q q_seen (skip_ows_kept hk hr)
  generalize eval_value (is_q (param_name p)) q q_seen (skip_ows (param_rest p)) = w at hv ⊢
  rcases w with p' | ⟨q', q_seen', p'⟩
  · exact hv
  · rw [after_value, param_end_cursor]
    exact skip_ows_kept hk hv

end Keep

theorem eval_params_quoted {q : Int} {q_seen quoted_name : Bool} {p : Bytes}
    (h : (eval_params q q_seen quoted_name p).2.1 = false) : quoted_name = false := by
  fun_induction eval_params q q_seen quoted_name p with
  | case1 => exact h
  | case2 => exact (Bool.or_eq_false_iff.1 h).1
  | case3 q q_seen qn p qn' q' seen' p' he ih => exact (Bool.or_eq_false_iff.1 (ih h)).1
  | case4 => exact h

/-! ## Values that run on -/

/-- The text behind a parameter name is a value that ends within a quoted-string. -/
def openText (q_name : Bool) : Bytes → Bool
  | [] => false
  | c :: v =>
    c == equals && !q_name && (skipUntil is_param_end (skip_ows v)).isEmpty && !closes false (skip_ows v)

/-- So does the value of the parameter behind a `;`. -/
def openValue (p : Bytes) : Bool :=
  !(param_name p).isEmpty && openText (is_q (param_name p)) (skip_ows (param_rest p))

/-- The parameter walk ends within a quoted-string. -/
def openParams (q : Int) (q_seen : Bool) (p : Bytes) : Bool :=
  match p with
  | [] => false
  | c :: p =>
    if c = semicolon then
      match _h : eval_parameter q q_seen p with
      | .error _ => false
      | .ok (q', q_seen', p') => openValue p || openParams q' q_seen' p'
    else false
termination_by p.length
decreasing_by
  have := eval_parameter_length_le q q_seen p
  rw [_h] at this
  simp only [Walked.cursor] at this
  simp only [List.length_cons]; omega

/-- Such a value is taken as it is, to the end of the text. -/
theorem eval_parameter_open {p : Bytes} (h : openValue p = true) (q : Int) (q_seen : Bool) :
    eval_parameter q q_seen p = .ok (q, q_seen, []) := by
  simp only [openValue, Bool.and_eq_true, Bool.not_eq_true', List.isEmpty_eq_false_iff] at h
  obtain ⟨hn, ht⟩ := h
  rw [eval_parameter, if_neg hn]
  cases hr : skip_ows (param_rest p) with
  | nil => simp [hr, openText] at ht
  | cons c v =>
    rw [hr] at ht
    simp only [openText, Bool.and_eq_true, beq_iff_eq, Bool.not_eq_true', List.isEmpty_iff] at ht
    obtain ⟨⟨⟨rfl, hq⟩, hv⟩, -⟩ := ht
    rw [eval_value, if_pos rfl, hq, hv]
    rfl

theorem openValue_of_error {q : Int} {q_seen : Bool} {p p' : Bytes} (h : eval_parameter q q_seen p = .error p') :
    openValue p = false := by
  rw [← Bool.not_eq_true]
  intro ho
  rw [eval_parameter_open ho] at h
  cases h

theorem openParams_next {q q' : Int} {q_seen q_seen' : Bool} {p p' : Bytes}
    (he : eval_parameter q q_seen p = .ok (q', q_seen', p')) (h : openParams q q_seen (semicolon :: p) = false) :
    openValue p = false ∧ openParams q' q_seen' p' = false := by
  rw [openParams, if_pos rfl] at h
  split at h
  · next he' => rw [he] at he'; cases he'
  · next he' =>
    rw [he] at he'
    cases he'
    exact Bool.or_eq_false_iff.1 h

/-- A text that closes its quoted-strings, with no DQUOTE in a parameter name, is not
left within one. -/
theorem openParams_of_closes {q : Int} {q_seen quoted_name : Bool} {p : Bytes} (hp : closes false p = true)
    (h : (eval_params q q_seen quoted_name p).2.1 = false) : openParams q q_seen p = false := by
  have hk := closes_kept is_comma
  have hvalue : ∀ {p : Bytes}, closes false p = true → (param_name p).contains dquote = false → openValue p = false := by
    intro p hp hn
    have hr : closes false (skip_ows (param_rest p)) = true := skip_ows_kept hk (param_rest_kept hk hn hp)
    unfold openValue
    cases hs : skip_ows (param_rest p) with
    | nil => simp [openText]
    | cons c v =>
      rw [hs] at hr
      by_cases hc : c = equals
      · have hv : closes false (skip_ows v) = true := skip_ows_kept hk (plain_kept hk (by subst hc; decide) hr)
        simp [openText, hv]
      · simp [openText, hc]
  fun_induction openParams q q_seen p generalizing quoted_name with
  | case1 => rfl
  | case2 => rfl
  | case3 q seen p q' seen' p' he ih =>
    rw [eval_params_ok he] at h
    have hn := (Bool.or_eq_false_iff.1 (eval_params_quoted h)).2
    have hp' := plain_kept hk (c := semicolon) (by decide) hp
    have hkept := eval_parameter_kept hk q seen hn hp'
    rw [he] at hkept
    rw [hvalue hp' hn, ih hkept h]
    rfl
  | case4 => rfl

/-! ## Appending behind a comma -/

section Append

variable (t : Bytes)

theorem skip_ows_append (p : Bytes) : skip_ows (p ++ comma :: t) = skip_ows p ++ comma :: t :=
  dropWhile_append_stop (by decide) p t

theorem q_digits_append : ∀ (ws : List Nat) (p : Bytes),
    q_digits ws (p ++ comma :: t) = ((q_digits ws p).1, (q_digits ws p).2 ++ comma :: t)
  | [], p => by cases p <;> simp [q_digits]
  | w :: ws, [] => by simp [q_digits, show is_digit comma = false by decide]
  | w :: ws, c :: p => by
    have ih := q_digits_append ws p
    simp only [List.cons_append, q_digits, ih]
    split <;> rfl

theorem skip_zeros_append : ∀ (n : Nat) (p : Bytes),
    skip_zeros n (p ++ comma :: t) = skip_zeros n p ++ comma :: t
  | 0, p => by cases p <;> simp [skip_zeros]
  | n + 1, [] => by simp [skip_zeros, show comma ≠ 0x30 by decide]
  | n + 1, c :: p => by
    have ih := skip_zeros_append n p
    simp only [List.cons_append, skip_zeros, ih]
    split <;> rfl

theorem q_end_append (q : Int) (p : Bytes) : q_end q (p ++ comma :: t) = (q_end q p).append (comma :: t) := by
  cases p with
  | nil => simp [q_end, Walked.append]
  | cons c p =>
    simp only [List.cons_append, q_end]
    split <;> rfl

theorem param_end_append (q : Int) (q_seen : Bool) (p : Bytes) :
    param_end q q_seen (p ++ comma :: t) = (param_end q q_seen p).append (comma :: t) := by
  cases p with
  | nil => simp [param_end, Walked.append, show is_param_end comma = true by decide]
  | cons c p =>
    simp only [List.cons_append, param_end]
    split <;> rfl

theorem q_value_append (p : Bytes) : q_value (p ++ comma :: t) = (q_value p).append (comma :: t) := by
  cases p with
  | nil => rfl
  | cons c p =>
    by_cases h0 : c = 0x30
    · subst h0
      cases p with
      | nil => simpa [q_value, show comma ≠ 0x2e by decide] using q_end_append t 0 []
      | cons d p =>
        simp only [List.cons_append, q_value, if_true]
        split
        · simp only [parse_q_fraction, q_digits_append, q_end_append]
        · exact q_end_append t 0 (d :: p)
    by_cases h1 : c = 0x31
    · subst h1
      cases p with
      | nil => simpa [q_value, show comma ≠ 0x2e by decide] using q_end_append t 1000 []
      | cons d p =>
        simp only [List.cons_append, q_value, if_neg h0, if_true]
        split
        · rw [skip_zeros_append, q_end_append]
        · exact q_end_append t 1000 (d :: p)
    · simp only [List.cons_append, q_value, if_neg h0, if_neg h1]
      rfl

theorem eval_value_append (q_name : Bool) (q : Int) (q_seen : Bool) {p : Bytes} (hp : openText q_name p = false) :
    eval_value q_name q q_seen (p ++ comma :: t) = (eval_value q_name q q_seen p).append (comma :: t) := by
  cases p with
  | nil =>
    simp only [List.nil_append, eval_value, if_neg (show comma ≠ equals by decide)]
    split <;> rfl
  | cons c p =>
    simp only [List.cons_append, eval_value]
    split
    · next hc =>
      rw [skip_ows_append]
      cases q_name with
      | true =>
        simp only [if_true]
        split
        · rfl
        · exact q_value_append t _
      | false =>
        have hskip : skipUntil is_param_end (skip_ows p ++ comma :: t) =
            skipUntil is_param_end (skip_ows p) ++ comma :: t := by
          by_cases hn : skipUntil is_param_end (skip_ows p) = []
          · exact skipUntil_append (by decide) (by simpa [openText, hc, hn] using hp) t
          · exact skipUntil_append_stopped hn _
        rw [hskip]
        rfl
    · split <;> rfl

theorem param_name_append (p : Bytes) : param_name (p ++ comma :: t) = param_name p := by
  rw [param_name, skip_ows_append]
  exact takeWhile_append_stop (by decide) _ _

theorem param_rest_append (p : Bytes) : param_rest (p ++ comma :: t) = param_rest p ++ comma :: t := by
  rw [param_rest, skip_ows_append]
  exact dropWhile_append_stop (by decide) _ _

theorem eval_parameter_append (q : Int) (q_seen : Bool) {p : Bytes} (hp : openValue p = false) :
    eval_parameter q q_seen (p ++ comma :: t) = (eval_parameter q q_seen p).append (comma :: t) := by
  simp only [eval_parameter, param_name_append, param_rest_append, skip_ows_append]
  split
  · rfl
  next hn =>
  have hopen : openText (is_q (param_name p)) (skip_ows (param_rest p)) = false := by simpa [openValue, hn] using hp
  rw [eval_value_append t _ _ _ hopen]
  cases eval_value (is_q (param_name p)) q q_seen (skip_ows (param_rest p)) with
  | error p' => rfl
  | ok w =>
    obtain ⟨q', q_seen', p'⟩ := w
    simp only [Walked.append, after_value, skip_ows_append, param_end_append]

/-- The parameters of an element are read alike whatever follows its comma. -/
theorem eval_params_append {q : Int} {q_seen quoted_name : Bool} {p : Bytes} (h : openParams q q_seen p = false) :
    eval_params q q_seen quoted_name (p ++ comma :: t) =
      ((eval_params q q_seen quoted_name p).1, (eval_params q q_seen quoted_name p).2.1,
        (eval_params q q_seen quoted_name p).2.2 ++ comma :: t) := by
  fun_induction eval_params q q_seen quoted_name p with
  | case1 q seen qn => rw [List.nil_append, eval_params, if_neg (by decide)]
  | case2 q seen qn p qn' p' he =>
    have happ := eval_parameter_append t q seen (openValue_of_error he)
    rw [he] at happ
    rw [List.cons_append, eval_params_error happ, param_name_append]
  | case3 q seen qn p qn' q' seen' p' he ih =>
    obtain ⟨hval, hrest⟩ := openParams_next he h
    have happ := eval_parameter_append t q seen hval
    rw [he] at happ
    rw [List.cons_append, eval_params_ok happ, param_name_append]
    exact ih hrest
  | case4 q seen qn c p hc => rw [List.cons_append, eval_params, if_neg hc]

theorem eval_params_kept {P : Bytes → Prop} (hk : Kept is_comma P) {q : Int} {q_seen quoted_name : Bool} {p : Bytes}
    (hp : P p) (h : (eval_params q q_seen quoted_name p).2.1 = false) :
    P (eval_params q q_seen quoted_name p).2.2 := by
  fun_induction eval_params q q_seen quoted_name p with
  | case1 => exact hp
  | case2 q seen qn p qn' p' he =>
    have := eval_parameter_kept hk q seen (Bool.or_eq_false_iff.1 h).2 (plain_kept hk (by decide) hp)
    rw [he] at this
    exact this
  | case3 q seen qn p qn' q' seen' p' he ih =>
    have hqn := Bool.or_eq_false_iff.1 (eval_params_quoted h)
    have := eval_parameter_kept hk q seen hqn.2 (plain_kept hk (by decide) hp)
    rw [he] at this
    exact ih this h
  | case4 => exact hp

theorem eval_element_append {p : Bytes} (h : openParams 1000 false p = false) :
    eval_element (p ++ comma :: t) = ((eval_element p).1, (eval_element p).2.1, (eval_element p).2.2 ++ comma :: t) := by
  cases p with
  | nil => rfl
  | cons c p =>
    rw [List.cons_append]
    simp only [eval_element]
    split
    · simp only [eval_qvalue]
      rw [← List.cons_append, eval_params_append t h]
      split <;> rfl
    · rfl

theorem name_end_append (p : Bytes) : name_end (p ++ comma :: t) = name_end p ++ comma :: t := by
  rw [name_end, dropWhile_append_stop (by decide), skip_ows_append, name_end]

theorem name_end_kept {P : Bytes → Prop} (hk : Kept is_comma P) {p : Bytes} (hp : P p) : P (name_end p) := by
  refine skip_ows_kept hk (hk.dropWhile (fun c hc => ?_) hp)
  have := List.mem_takeWhile_imp hc
  simp only [is_coding_name, Bool.not_eq_true', Bool.or_eq_false_iff] at this
  exact ⟨this.1.2, by simpa using this.2⟩

theorem at_param_end_append (p : Bytes) : at_param_end (p ++ comma :: t) = at_param_end p := by
  cases p <;> rfl

theorem scan_element_append {p : Bytes} (h : openParams 1000 false (name_end p) = false) :
    scan_element (p ++ comma :: t) = scan_element p := by
  simp only [scan_element]
  rw [name_end_append, eval_element_append t h, at_param_end_append, takeWhile_append_stop (by decide)]

end Append

/-! ## The next comma -/

/-- From behind the parameters the next comma is where it is from their `;`. -/
theorem eval_qvalue_next_comma (p : Bytes) : skipUntil is_comma (eval_qvalue p).2.2 = skipUntil is_comma p := by
  simp only [eval_qvalue]
  cases hq : (eval_params 1000 false false p).2.1 with
  | true => simp
  | false => simpa using eval_params_kept (next_stop_kept (by decide) _) rfl hq

/-- An element ends at the next comma outside quoted-strings, whatever is in it. -/
theorem element_rest_eq (p : Bytes) : element_rest p = skipUntil is_comma p := by
  have hname : skipUntil is_comma (name_end p) = skipUntil is_comma p := name_end_kept (next_stop_kept (by decide) _) rfl
  rw [element_rest, element_cursor, ← hname]
  cases name_end p with
  | nil => rfl
  | cons c r =>
    simp only [eval_element]
    split
    · exact eval_qvalue_next_comma _
    · rfl

theorem element_rest_append {p : Bytes} (hp : closes false p = true) (t : Bytes) :
    element_rest (p ++ comma :: t) = element_rest p ++ comma :: t := by
  rw [element_rest_eq, element_rest_eq]
  exact skipUntil_append (by decide) hp t

theorem element_rest_kept {P : Bytes → Prop} (hk : Kept is_comma P) {p : Bytes} (hp : P p) : P (element_rest p) := by
  rw [element_rest_eq]
  exact hk.skipUntil (fun _ hc => hc) hp

/-! ## The elements of a joined value -/

/-- No parameter name the parser reads holds a DQUOTE. -/
def NoQuotedName (p : Bytes) : Prop := ∀ e ∈ elements p, e.quoted_name = false

instance (p : Bytes) : Decidable (NoQuotedName p) := inferInstanceAs (Decidable (∀ e ∈ elements p, _))

theorem elements_nil {p : Bytes} (h : p.dropWhile is_list_sep = []) : elements p = [] := by
  rw [elements]
  split
  · rfl
  · next h' => rw [h] at h'; cases h'

theorem elements_cons {p s : Bytes} {c : UInt8} (h : p.dropWhile is_list_sep = c :: s) :
    elements p = scan_element (c :: s) :: elements (element_rest (c :: s)) := by
  rw [elements]
  split
  · next h' => rw [h] at h'; cases h'
  · next h' => rw [h] at h'; cases h'; rfl

/-- Leading separators do not matter. -/
theorem elements_congr {p p' : Bytes} (h : p.dropWhile is_list_sep = p'.dropWhile is_list_sep) :
    elements p = elements p' := by
  cases hp : p.dropWhile is_list_sep with
  | nil => rw [elements_nil hp, elements_nil (h ▸ hp)]
  | cons c s => rw [elements_cons hp, elements_cons (p := p') (h ▸ hp)]

theorem dropWhile_sep_append (p t : Bytes) :
    (p ++ comma :: t).dropWhile is_list_sep =
      if p.dropWhile is_list_sep = [] then t.dropWhile is_list_sep else p.dropWhile is_list_sep ++ comma :: t := by
  induction p with
  | nil => simp [show is_list_sep comma = true by decide]
  | cons c p ih =>
    rw [List.cons_append, List.dropWhile_cons, List.dropWhile_cons]
    split
    · exact ih
    · simp

theorem sep_kept {P : Bytes → Prop} (hk : Kept (fun _ => false) P) {p : Bytes} (h : P p) :
    P (p.dropWhile is_list_sep) := by
  refine hk.dropWhile (fun c hc => ⟨rfl, ?_⟩) h
  rintro rfl
  exact absurd (List.mem_takeWhile_imp hc) (by decide)

/-- The elements of `p,t` are those of `p` and those of `t`. -/
theorem elements_append (p t : Bytes) (hp : closes false p = true) (hn : NoQuotedName p) :
    elements (p ++ comma :: t) = elements p ++ elements t := by
  -- on the length of `p`: one element is taken off its front
  induction hlen : p.length using Nat.strong_induction_on generalizing p with
  | _ n ih =>
    cases hd : p.dropWhile is_list_sep with
    | nil =>
      rw [elements_nil hd, List.nil_append]
      exact elements_congr (by rw [dropWhile_sep_append, if_pos hd])
    | cons c s =>
      have hcs : closes false (c :: s) = true := by
        have := sep_kept (closes_kept fun _ => false) hp
        rwa [hd] at this
      have happ : (p ++ comma :: t).dropWhile is_list_sep = c :: (s ++ comma :: t) := by
        rw [dropWhile_sep_append, hd]; rfl
      rw [NoQuotedName, elements_cons hd] at hn
      have hq := hn _ List.mem_cons_self
      have hopen : openParams 1000 false (name_end (c :: s)) = false := by
        have hclosed := name_end_kept (closes_kept is_comma) hcs
        simp only [scan_element] at hq
        cases hne : name_end (c :: s) with
        | nil => rw [openParams]
        | cons d r =>
          rw [hne] at hclosed hq
          by_cases hd' : d = semicolon
          · rw [eval_element, if_pos hd'] at hq
            exact openParams_of_closes hclosed hq
          · rw [openParams, if_neg hd']
      rw [elements_cons hd, elements_cons happ, ← List.cons_append, scan_element_append t hopen,
        element_rest_append hcs t, List.cons_append]
      congr 1
      have h1 := element_rest_lt (s := s) (dropWhile_head hd)
      have h2 := List.length_dropWhile_le is_list_sep p
      rw [hd] at h2
      exact ih _ (by omega) _ (element_rest_kept (closes_kept is_comma) hcs)
        (fun e he => hn e (List.mem_cons_of_mem _ he)) rfl

end NginxZstd
