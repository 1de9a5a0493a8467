import NginxZstd.AcceptEncoding.Meaning
/-!
# Elements in isolation

The commas outside quoted-strings cut a value into pieces, and the element walk
stops at exactly these commas. The weight of an element is another matter: a DQUOTE
in a parameter name opens a quoted-string for the skip to the next element but not
for the parameter walk, so a later value may run over the comma. It does so when the
piece, read alone, leaves the walk within a quoted-string, and never otherwise.
-/

namespace NginxZstd

open Lib

/-! ## Pieces -/

/-- The value cut at the commas outside quoted-strings. -/
def pieces (p : Bytes) : List Bytes :=
  match _h : skipUntil is_comma p with
  | [] => [p]
  | _ :: t => p.take (p.length - (t.length + 1)) :: pieces t
termination_by p.length
decreasing_by
  have := skipUntil_length_le is_comma p
  rw [_h] at this
  simp only [List.length_cons] at this
  omega

theorem pieces_single {p : Bytes} (h : skipUntil is_comma p = []) : pieces p = [p] := by
  rw [pieces]
  split
  · rfl
  · next h' => rw [h] at h'; cases h'

theorem pieces_cons {s : Bytes} (hs : Inert s) (t : Bytes) : pieces (s ++ comma :: t) = s :: pieces t := by
  have hskip : skipUntil is_comma (s ++ comma :: t) = comma :: t := by
    rw [skipUntil_append (by decide) hs.1, hs.2]
    rfl
  rw [pieces]
  split
  · next h => rw [hskip] at h; cases h
  · next h =>
    rw [hskip] at h
    cases h
    have hlen : (s ++ comma :: t).length - (t.length + 1) = s.length := by simp
    rw [hlen, List.take_left']
    rfl

/-- A value is one piece, or a piece, a comma and a value. -/
theorem piece_cases (p : Bytes) :
    skipUntil is_comma p = [] ∨ ∃ s t, p = s ++ comma :: t ∧ Inert s := by
  cases h : skipUntil is_comma p with
  | nil => exact .inl rfl
  | cons c t =>
    obtain ⟨u, hp, hc, hclosed, hsingle⟩ := skipUntil_split h
    obtain rfl : c = comma := by simpa [is_comma] using hc
    exact .inr ⟨u, t, hp, hclosed, hsingle⟩

theorem pieces_ne_nil (p : Bytes) : pieces p ≠ [] := by
  rw [pieces]
  split <;> simp

/-! ## One piece and what follows -/

theorem inert_kept : Kept (fun _ => false) Inert where
  byte {c s} _ hq h := by
    refine ⟨(closes_kept fun _ => false).byte rfl hq h.1, ?_⟩
    have hrest := h.2
    rw [skipUntil] at hrest
    split at hrest
    · cases hrest
    · exact hrest
  quoted {s} h := by
    refine ⟨(closes_kept fun _ => false).quoted h.1, ?_⟩
    have hrest := h.2
    rwa [skipUntil, if_neg (by decide), if_pos rfl] at hrest

/-- The element of the piece leaves the parameter walk within a quoted-string. -/
def openEnd (s : Bytes) : Bool := openParams 1000 false (name_end (s.dropWhile is_list_sep))

/-- A piece has one element at most, and behind its comma the walk goes on. -/
theorem elements_piece {s u : Bytes} {c : UInt8} (hs : Inert s) (hd : s.dropWhile is_list_sep = c :: u) (t : Bytes) :
    elements s = [scan_element (c :: u)] ∧
      elements (s ++ comma :: t) = scan_element (c :: u ++ comma :: t) :: elements t := by
  have hcu : Inert (c :: u) := hd ▸ sep_kept inert_kept hs
  have hrest : element_rest (c :: u) = [] := by
    rw [element_rest_eq]
    exact hcu.2
  have happ : (s ++ comma :: t).dropWhile is_list_sep = c :: (u ++ comma :: t) := by
    rw [dropWhile_sep_append, hd]
    rfl
  constructor
  · rw [elements_cons hd, hrest, elements_nil rfl]
  · rw [elements_cons happ, ← List.cons_append, element_rest_append hcu.1 t, hrest]
    exact congrArg (_ :: ·) (elements_congr rfl)

/-- A piece that does not run on is read alike in front of everything. -/
theorem elements_piece_append {s : Bytes} (hs : Inert s) (ho : openEnd s = false) (t : Bytes) :
    elements (s ++ comma :: t) = elements s ++ elements t := by
  cases hd : s.dropWhile is_list_sep with
  | nil =>
    rw [elements_nil hd]
    exact elements_congr (by rw [dropWhile_sep_append, if_pos hd])
  | cons c u =>
    obtain ⟨h1, h2⟩ := elements_piece hs hd t
    rw [openEnd, hd] at ho
    rw [h1, h2, scan_element_append t ho]
    rfl

/-! ## A piece that runs on -/

/-- From within a quoted-string of a text that does not close: either that string ends
and something behind it is left open, or the quote behind the comma ends it. -/
theorem quotedRest_open {s : Bytes} (h : closes true s = false) :
    (closes false (quotedRest s) = false ∧ ∀ t, quotedRest (s ++ t) = quotedRest s ++ t) ∨
      ∀ t, quotedRest (s ++ comma :: dquote :: t) = t := by
  fun_induction quotedRest s with
  | case1 =>
    right
    intro t
    rw [List.nil_append, quotedRest_byte (by decide) (by decide), quotedRest_dquote]
  | case2 s =>
    left
    rw [closes_dquote] at h
    exact ⟨h, fun t => quotedRest_dquote (s ++ t)⟩
  | case3 =>
    -- the comma is the escaped octet
    right
    intro t
    rw [List.cons_append, List.nil_append, quotedRest_pair, quotedRest_dquote]
  | case4 d s _ ih =>
    rcases ih (by simpa [closes, show backslash ≠ dquote by decide] using h) with ⟨h1, h2⟩ | h1
    · refine .inl ⟨h1, fun t => ?_⟩
      rw [List.cons_append, List.cons_append, quotedRest_pair]
      exact h2 t
    · refine .inr fun t => ?_
      rw [List.cons_append, List.cons_append, quotedRest_pair]
      exact h1 t
  | case5 c s hq hb ih =>
    have hs : closes true s = false := by
      cases s with
      | nil => rfl
      | cons d s => simpa [closes, hq, hb] using h
    rcases ih hs with ⟨h1, h2⟩ | h1
    · refine .inl ⟨h1, fun t => ?_⟩
      rw [List.cons_append, quotedRest_byte hq hb]
      exact h2 t
    · refine .inr fun t => ?_
      rw [List.cons_append, quotedRest_byte hq hb]
      exact h1 t

/-- A scan that ended within a quoted-string goes on behind the comma. -/
theorem skipUntil_open {stop : UInt8 → Bool} {s : Bytes} (hc : closes false s = false) (hs : skipUntil stop s = [])
    (t : Bytes) : skipUntil stop (s ++ comma :: dquote :: t) = skipUntil stop t := by
  fun_induction skipUntil stop s with
  | case1 => cases hc
  | case2 => cases hs
  | case3 s hd ih =>
    rw [List.cons_append, skipUntil, if_neg hd, if_pos rfl]
    rcases quotedRest_open (s := s) (by simpa [closes] using hc) with ⟨h1, h2⟩ | h1
    · rw [h2]
      exact ih h1 hs
    · rw [h1]
  | case4 c s hd hq ih =>
    rw [List.cons_append, skipUntil, if_neg hd, if_neg hq]
    rw [closes, beq_eq_false_iff_ne.2 hq] at hc
    exact ih hc hs

/-- The walk takes its value up to the `;` behind that quote. -/
theorem eval_parameter_runs_on {p : Bytes} (h : openValue p = true) (q : Int) (q_seen : Bool) :
    eval_parameter q q_seen (p ++ [comma, dquote, semicolon]) = .ok (q, q_seen, [semicolon]) := by
  simp only [openValue, Bool.and_eq_true, Bool.not_eq_true', List.isEmpty_eq_false_iff] at h
  obtain ⟨hn, ht⟩ := h
  rw [eval_parameter, param_name_append, if_neg hn, param_rest_append, skip_ows_append]
  cases hr : skip_ows (param_rest p) with
  | nil => simp [hr, openText] at ht
  | cons c v =>
    rw [hr] at ht
    simp only [openText, Bool.and_eq_true, beq_iff_eq, Bool.not_eq_true', List.isEmpty_iff] at ht
    obtain ⟨⟨⟨rfl, hq⟩, hv⟩, hopen⟩ := ht
    have hstop : skipUntil is_param_end [semicolon] = [semicolon] := by rw [skipUntil, if_pos (by decide)]
    rw [List.cons_append, eval_value, if_pos rfl, hq, skip_ows_append, skipUntil_open hopen hv, hstop]
    rfl

/-- Read alone such an element has a weight; behind its comma there is something that
makes it malformed. -/
theorem eval_params_runs_on {q : Int} {q_seen : Bool} {p : Bytes} (quoted_name : Bool) (hq : 0 ≤ q)
    (h : openParams q q_seen p = true) :
    0 ≤ (eval_params q q_seen quoted_name p).1 ∧
      (eval_params q q_seen quoted_name (p ++ [comma, dquote, semicolon])).1 = -1 := by
  fun_induction openParams q q_seen p generalizing quoted_name with
  | case1 => cases h
  | case2 => cases h
  | case3 q seen p q' seen' p' he ih =>
    have hq' := eval_parameter_nonneg hq he
    rw [List.cons_append, eval_params_ok he]
    cases ho : openValue p with
    | true =>
      rw [eval_parameter_open ho] at he
      cases he
      -- the `;` behind the quote has no parameter
      have hempty : eval_parameter q seen [] = .error [] := rfl
      rw [eval_params_ok (eval_parameter_runs_on ho q seen), eval_params_error hempty, eval_params]
      exact ⟨hq, rfl⟩
    | false =>
      rw [ho, Bool.false_or] at h
      have happ := eval_parameter_append [dquote, semicolon] q seen ho
      rw [he] at happ
      rw [eval_params_ok happ, param_name_append]
      exact ih _ hq' h
  | case4 => cases h

/-- The weights of the elements of a value. -/
def weights (p : Bytes) : List Int := (elements p).map Scanned.q

/-- What runs on changes weight with what is put behind its comma. -/
theorem weights_runs_on {s : Bytes} (hs : Inert s) (ho : openEnd s = true) :
    weights (s ++ comma :: [dquote, semicolon]) ≠ weights s ++ weights [dquote, semicolon] := by
  rw [openEnd] at ho
  cases hd : s.dropWhile is_list_sep with
  | nil =>
    rw [hd] at ho
    simp [name_end, skip_ows, openParams] at ho
  | cons c u =>
    rw [hd] at ho
    obtain ⟨h1, h2⟩ := elements_piece hs hd [dquote, semicolon]
    have hq : 0 ≤ (scan_element (c :: u)).q ∧ (scan_element (c :: u ++ [comma, dquote, semicolon])).q = -1 := by
      simp only [scan_element]
      rw [name_end_append]
      cases hne : name_end (c :: u) with
      | nil => simp [hne, openParams] at ho
      | cons d r =>
        rw [hne] at ho
        obtain rfl : d = semicolon := by
          rw [openParams] at ho
          split at ho
          · assumption
          · cases ho
        exact eval_params_runs_on false (by decide) ho
    rw [weights, weights, h1, h2]
    intro heq
    have hhead : (scan_element (c :: u ++ [comma, dquote, semicolon])).q = (scan_element (c :: u)).q :=
      (List.cons.inj heq).1
    omega

/-! ## Whole values -/

theorem closes_behind {u v : Bytes} (hu : Inert u) (h : closes false (u ++ comma :: v) = true) :
    closes false v = true := by
  rw [closes_append hu.1] at h
  exact (closes_kept fun _ => false).byte rfl (by decide) h

theorem pieces_append {s : Bytes} (hs : closes false s = true) (t : Bytes) :
    pieces (s ++ comma :: t) = pieces s ++ pieces t := by
  induction hlen : s.length using Nat.strong_induction_on generalizing s with
  | _ n ih =>
    rcases piece_cases s with hsingle | ⟨u, v, rfl, hu⟩
    · rw [pieces_cons ⟨hs, hsingle⟩, pieces_single hsingle]
      rfl
    · have hv := closes_behind hu hs
      simp only [List.length_append, List.length_cons] at hlen
      rw [List.append_assoc, List.cons_append, pieces_cons hu, pieces_cons hu, ih v.length (by omega) hv rfl]
      rfl

/-- Pieces that do not run on leave their elements to themselves. -/
theorem elements_pieces_append {s : Bytes} (hs : closes false s = true) (ho : ∀ u ∈ pieces s, openEnd u = false)
    (t : Bytes) : elements (s ++ comma :: t) = elements s ++ elements t := by
  induction hlen : s.length using Nat.strong_induction_on generalizing s with
  | _ n ih =>
    rcases piece_cases s with hsingle | ⟨u, v, rfl, hu⟩
    · rw [pieces_single hsingle] at ho
      exact elements_piece_append ⟨hs, hsingle⟩ (ho s List.mem_cons_self) t
    · have hv := closes_behind hu hs
      rw [pieces_cons hu] at ho
      have hou := ho u List.mem_cons_self
      have ihv := ih v.length (by simp only [List.length_append, List.length_cons] at hlen; omega) hv
        (fun w hw => ho w (List.mem_cons_of_mem _ hw)) rfl
      rw [List.append_assoc, List.cons_append, elements_piece_append hu hou, ihv, elements_piece_append hu hou,
        List.append_assoc]

/-- No piece in front of a comma, read alone, leaves the parameter walk within a
quoted-string. -/
def ClosedPieces (ae : Bytes) : Prop := ∀ s ∈ (pieces ae).dropLast, openEnd s = false

instance (ae : Bytes) : Decidable (ClosedPieces ae) := inferInstanceAs (Decidable (∀ s ∈ (pieces ae).dropLast, _))

/-- No element's weight depends on bytes behind the comma that ends it: whatever
replaces them. -/
def Isolated (ae : Bytes) : Prop :=
  ∀ s t, ae = s ++ comma :: t → closes false s = true → ∀ t', weights (s ++ comma :: t') = weights s ++ weights t'

theorem closedPieces_append {s : Bytes} (hs : closes false s = true) (t : Bytes) :
    ClosedPieces (s ++ comma :: t) ↔ (∀ u ∈ pieces s, openEnd u = false) ∧ ClosedPieces t := by
  rw [ClosedPieces, pieces_append hs, List.dropLast_append_of_ne_nil (pieces_ne_nil t)]
  simp only [List.mem_append, or_imp, forall_and]
  rfl

theorem elements_pieces {ae : Bytes} (h : ClosedPieces ae) : elements ae = (pieces ae).flatMap elements := by
  induction hlen : ae.length using Nat.strong_induction_on generalizing ae with
  | _ n ih =>
    rcases piece_cases ae with hsingle | ⟨u, v, rfl, hu⟩
    · rw [pieces_single hsingle]
      simp
    · obtain ⟨hou, hv⟩ := (closedPieces_append hu.1 v).1 h
      rw [pieces_single hu.2] at hou
      rw [pieces_cons hu, elements_piece_append hu (hou u List.mem_cons_self), List.flatMap_cons,
        ih v.length (by simp only [List.length_append, List.length_cons] at hlen; omega) hv rfl]

theorem isolated_iff (ae : Bytes) : Isolated ae ↔ ClosedPieces ae := by
  constructor
  · intro h
    induction hlen : ae.length using Nat.strong_induction_on generalizing ae with
    | _ n ih =>
      rcases piece_cases ae with hsingle | ⟨u, v, rfl, hu⟩
      · rw [ClosedPieces, pieces_single hsingle]
        exact fun s hs => by cases hs
      have hou : openEnd u = false := by
        rw [← Bool.not_eq_true]
        exact fun ho => weights_runs_on hu ho (h u v rfl hu.1 _)
      refine (closedPieces_append hu.1 v).2 ⟨by rw [pieces_single hu.2]; simpa using hou, ?_⟩
      refine ih v.length (by simp only [List.length_append, List.length_cons] at hlen; omega) v ?_ rfl
      -- the elements of `u` stand in front of both sides
      intro s t hv hs t'
      have hclosed : closes false (u ++ comma :: s) = true := by
        rw [closes_append hu.1]
        exact hs
      have hboth := h (u ++ comma :: s) t (by rw [hv]; simp) hclosed t'
      rw [List.append_assoc, List.cons_append] at hboth
      simp only [weights, elements_piece_append hu hou, List.map_append, List.append_assoc] at hboth ⊢
      exact List.append_cancel_left hboth
  · rintro h s t rfl hs t'
    rw [weights, elements_pieces_append hs ((closedPieces_append hs t).1 h).1, List.map_append]
    rfl

/-! ## The weight from the pieces -/

/-- The latest explicit and `*` weight after one more piece, read alone. -/
def notePiece (coding : Bytes) (allow_wildcard : Bool) (acc : Int × Int) (piece : Bytes) : Int × Int :=
  let alone := coding_weight_ex piece coding allow_wildcard
  (if alone.2.1 ≥ 0 then alone.2.1 else acc.1, if alone.2.2 ≥ 0 then alone.2.2 else acc.2)

/-- The weight of a coding where each piece is read alone and the last one wins. -/
def isolatedWeight (ae coding : Bytes) (allow_wildcard : Bool) : Int :=
  let acc := (pieces ae).foldl (notePiece coding allow_wildcard) (-1, -1)
  precedence allow_wildcard acc.1 acc.2

theorem foldl_notePiece (coding : Bytes) (allow_wildcard : Bool) (ps : List Bytes) (acc : Int × Int) :
    ps.foldl (notePiece coding allow_wildcard) acc = (ps.flatMap elements).foldl (note coding) acc := by
  induction ps generalizing acc with
  | nil => rfl
  | cons p ps ih =>
    rw [List.flatMap_cons, List.foldl_append, List.foldl_cons, ih, foldl_note coding (elements p) acc]
    simp only [notePiece, coding_weight_ex, weigh_eq]

/-- Elements are isolated, and the weight of every coding is the one its pieces give
alone, exactly when no piece in front of a comma runs on. -/
theorem element_isolation (ae : Bytes) :
    (Isolated ae ∧ ∀ coding allow_wildcard, coding_weight ae coding allow_wildcard =
      isolatedWeight ae coding allow_wildcard) ↔ ClosedPieces ae := by
  rw [isolated_iff]
  refine ⟨fun h => h.1, fun h => ⟨h, fun coding allow_wildcard => ?_⟩⟩
  simp only [coding_weight, coding_weight_ex, isolatedWeight, weigh_eq, foldl_notePiece, elements_pieces h]

/-- A DQUOTE in a parameter name: `q=0` is read from behind the comma. -/
theorem element_isolation_quoted_name :
    ¬ ∀ ae coding allow_wildcard, coding_weight ae coding allow_wildcard = isolatedWeight ae coding allow_wildcard := by
  intro h
  have hae := h (str "zstd;a\"b;x=\"y,gzip\";q=0") (str "zstd") false
  revert hae
  decide +kernel

end NginxZstd
