import NginxZstd.AcceptEncoding.Cursor
import NginxZstd.CacheControl
import NginxZstd.Lib.Quote
/-!
# What no-transform detection decides

The scan of a Cache-Control value, written once more on indices as the source has
it, and what it is meant to find: a directive of that name among the pieces between
the commas outside quoted-strings. The scan reads in bounds, comes to an end, and
finds exactly that.
-/

namespace NginxZstd

open Lib

/-! ## The scan on indices -/

/-- `ngx_http_zstd_cache_control_directive_end`: `*name_end` and the end. `name_end` is
`none` until `cut_seen`. -/
def directive_end_at (buf : Bytes) : (fuel : Nat) → (name_end : Option Nat) → Nat → Option (Nat × Nat)
  | 0, _, _ => none
  | fuel + 1, name_end, p => do
    if p < buf.length then
      let c ← deref buf p
      if c = dquote then
        let p ← quoted_at buf (p + 1)
        directive_end_at buf fuel name_end (if p < buf.length then p + 1 else p)
      else if c = comma then return (name_end.getD p, p)
      else if name_end.isNone ∧ (c = semicolon ∨ c = equals) then directive_end_at buf fuel (some p) (p + 1)
      else directive_end_at buf fuel name_end (p + 1)
    else return (name_end.getD p, p)

/-- `while (end > start && (end[-1] == ' ' || end[-1] == '\t')) end--`. -/
def trim_end_at (buf : Bytes) (start : Nat) : Nat → Option Nat
  | 0 => some 0
  | e + 1 =>
    if start < e + 1 then do
      if is_ows (← deref buf e) then trim_end_at buf start e else return e + 1
    else some (e + 1)

/-- The loop of `ngx_http_zstd_cache_control_value_no_transform`. -/
def no_transform_from (buf : Bytes) : (fuel : Nat) → Nat → Option Bool
  | 0, _ => none
  | fuel + 1, p => do
    if p < buf.length then
      let start ← scanWhile is_ows buf p
      let (name_end, directive_end) ← directive_end_at buf (buf.length + 1) none start
      let e ← trim_end_at buf start name_end
      if ← is_coding_at buf (str "no-transform") start e then return true
      no_transform_from buf fuel (if directive_end < buf.length then directive_end + 1 else directive_end)
    else return false

/-- `ngx_http_zstd_cache_control_value_no_transform`. -/
def value_no_transform_at (buf : Bytes) : Option Bool :=
  if buf.length = 0 then some false else no_transform_from buf (buf.length + 1) 0

/-! ## What it is meant to find -/

def is_cut (c : UInt8) : Bool := c == semicolon || c == equals

/-- The name of a directive: up to the first `;` or `=`, without the whitespace
around it. -/
def directiveName (segment : Bytes) : Bytes := (upTo is_cut .outside (segment.dropWhile is_ows)).rdropWhile is_ows

/-- One of the directives is named no-transform. -/
def ForbidsTransform (value : Bytes) : Prop :=
  ∃ segment ∈ splitOutside is_comma .outside value, foldCase (directiveName segment) = foldCase (str "no-transform")

instance (value : Bytes) : Decidable (ForbidsTransform value) := inferInstanceAs (Decidable (∃ segment ∈ _, _))

/-- A line that is not deleted, is named Cache-Control and has the directive. -/
def ForbiddingLine (h : TableElt) : Prop :=
  h.hash ≠ 0 ∧ foldCase h.key = foldCase (str "Cache-Control") ∧ ForbidsTransform h.value

instance (h : TableElt) : Decidable (ForbiddingLine h) := inferInstanceAs (Decidable (_ ∧ _))

/-! ## One scan and two -/

theorem directive_end_snd (name_end : Option Bytes) (p : Bytes) :
    (directive_end name_end p).2 = skipUntil is_comma p := by
  fun_induction directive_end name_end p with
  | case1 => rw [skipUntil]
  | case2 name_end s ih => rw [ih, skipUntil, if_neg (by decide), if_pos rfl]
  | case3 name_end s hq => rw [skipUntil, if_pos (by decide)]
  | case4 name_end c s hq hc hcut ih => rw [ih, skipUntil, if_neg (by simpa [is_comma] using hc), if_neg hq]
  | case5 name_end c s hq hc hcut ih => rw [ih, skipUntil, if_neg (by simpa [is_comma] using hc), if_neg hq]

/-- Once the cut has been seen it stays. -/
theorem directive_end_seen (n p : Bytes) : (directive_end (some n) p).1 = n := by
  generalize hn : some n = name_end
  fun_induction directive_end name_end p with
  | case1 => subst hn; rfl
  | case2 name_end s ih => exact ih hn
  | case3 => subst hn; rfl
  | case4 name_end c s hq hc hcut => subst hn; simp at hcut
  | case5 name_end c s hq hc hcut ih => exact ih hn

theorem directive_end_fst (p : Bytes) :
    (directive_end none p).1 = skipUntil (fun c => is_cut c || is_comma c) p := by
  generalize hn : (none : Option Bytes) = name_end
  fun_induction directive_end name_end p with
  | case1 => subst hn; rw [skipUntil]; rfl
  | case2 name_end s ih => rw [ih hn, skipUntil, if_neg (by decide), if_pos rfl]
  | case3 => subst hn; rw [skipUntil, if_pos (by decide)]; rfl
  | case4 name_end c s hq hc hcut =>
    have hstop : (is_cut c || is_comma c) = true := by
      rcases hcut.2 with rfl | rfl
      · decide
      · decide
    rw [directive_end_seen, skipUntil, if_pos hstop]
  | case5 name_end c s hq hc hcut ih =>
    have hstop : ¬(is_cut c || is_comma c) = true := by
      subst hn
      simpa [is_cut, is_comma, hc] using hcut
    rw [ih hn, skipUntil, if_neg hstop, if_neg hq]

/-- The name the one scan cuts is the one a second scan cuts from the segment. -/
theorem directive_name_eq (start : Bytes) :
    directive_name start = (upTo is_cut .outside (upTo is_comma .outside start)).rdropWhile is_ows := by
  rw [directive_name, directive_end_fst, take_upTo, upTo_upTo]

/-! ## The directives of a value -/

theorem skipUntil_comma_ows (s : Bytes) : skipUntil is_comma (s.dropWhile is_ows) = skipUntil is_comma s :=
  (next_stop_kept (by decide) (skipUntil is_comma s)).dropWhile
    (fun _ hc => is_ows_plain (List.mem_takeWhile_imp hc)) rfl

theorem directiveName_upTo (p : Bytes) : directiveName (upTo is_comma .outside p) = directive_name (p.dropWhile is_ows) := by
  rw [directiveName, dropWhile_upTo fun _ hc => is_ows_plain hc, directive_name_eq]

theorem not_forbidsTransform_nil : ¬ForbidsTransform [] := by decide

/-- The first directive, and those behind the comma. -/
theorem forbidsTransform_iff (p : Bytes) :
    ForbidsTransform p ↔ equals_nocase (directive_name (p.dropWhile is_ows)) (str "no-transform") = true ∨
      ForbidsTransform (skipUntil is_comma p).tail := by
  rw [equals_nocase_iff (by decide), ← directiveName_upTo, ForbidsTransform, splitOutside_outside, List.exists_mem_cons_iff]
  refine or_congr Iff.rfl ?_
  cases skipUntil is_comma p with
  | nil => simp [not_forbidsTransform_nil]
  | cons c t => exact Iff.rfl

theorem value_no_transform_eq (p : Bytes) : value_no_transform p = decide (ForbidsTransform p) := by
  rw [Bool.eq_iff_iff, decide_eq_true_iff]
  fun_induction value_no_transform p with
  | case1 => simp [not_forbidsTransform_nil]
  | case2 c s start heq => exact iff_of_true rfl ((forbidsTransform_iff (c :: s)).2 (.inl heq))
  | case3 c s start heq ih =>
    have hskip : skipUntil is_comma start = skipUntil is_comma (c :: s) := skipUntil_comma_ows (c :: s)
    rw [ih, forbidsTransform_iff (c :: s), directive_end_snd, hskip]
    exact (or_iff_right heq).symm

/-! ## The lines of a response -/

theorem forbiddingLine_iff (h : TableElt) :
    ForbiddingLine h ↔ h.hash ≠ 0 ∧ equals_nocase h.key (str "Cache-Control") = true ∧ value_no_transform h.value = true := by
  rw [ForbiddingLine, equals_nocase_iff (by decide), value_no_transform_eq, decide_eq_true_iff]

theorem note_cache_control_eq (h : TableElt) :
    note_cache_control () h = if ForbiddingLine h then .error () else .ok () := by
  simp only [forbiddingLine_iff, note_cache_control, equals_nocase]
  by_cases hh : h.hash = 0
  · simp [hh]
  by_cases hl : h.key.length = (str "Cache-Control").length
  · simp [hh, hl]
  · simp [hh, hl]

theorem foldlM_note_cache_control (hs : List TableElt) :
    hs.foldlM note_cache_control () = if ∃ h ∈ hs, ForbiddingLine h then .error () else .ok () := by
  induction hs with
  | nil => rfl
  | cons h hs ih =>
    rw [List.foldlM_cons, note_cache_control_eq]
    by_cases hh : ForbiddingLine h
    · simp only [if_pos hh, if_pos (show ∃ e ∈ h :: hs, ForbiddingLine e from ⟨h, List.mem_cons_self, hh⟩)]
      rfl
    · have hiff : (∃ e ∈ h :: hs, ForbiddingLine e) ↔ ∃ e ∈ hs, ForbiddingLine e := by
        rw [List.exists_mem_cons_iff]
        exact or_iff_right hh
      simp only [if_neg hh, hiff, ← ih]
      rfl

/-- Any list: what the walk reaches decides, and it reads past a part where nothing
there makes it return. -/
theorem cache_control_no_transform_any (resp : Response) :
    cache_control_no_transform resp =
      if ∃ h ∈ resp.headers.reached, ForbiddingLine h then .ok true
      else if resp.headers.WellFormed then .ok false else .error .fault := by
  unfold cache_control_no_transform
  rw [PartList.walk_reached, foldlM_note_cache_control]
  by_cases h : ∃ h ∈ resp.headers.reached, ForbiddingLine h
  · simp only [if_pos h]
    rfl
  · simp only [if_neg h]
    by_cases hw : resp.headers.WellFormed
    · simp only [if_pos hw]
      rfl
    · simp only [if_neg hw]
      rfl

/-! ## The scan reads in bounds -/

/-- The cut, as an index and as a rest. -/
def CutAt (buf : Bytes) : Option Nat → Option Bytes → Prop
  | none, none => True
  | some n, some r => At buf n r
  | _, _ => False

theorem CutAt.getD {buf s : Bytes} {p : Nat} {n : Option Nat} {r : Option Bytes} (hc : CutAt buf n r) (h : At buf p s) :
    At buf (n.getD p) (r.getD s) := by
  cases n with
  | none =>
    cases r with
    | none => exact h
    | some r => exact hc.elim
  | some n =>
    cases r with
    | none => exact hc.elim
    | some r => exact hc

theorem CutAt.isNone {buf : Bytes} {n : Option Nat} {r : Option Bytes} (hc : CutAt buf n r) : n.isNone = r.isNone := by
  cases n with
  | none =>
    cases r with
    | none => rfl
    | some r => exact hc.elim
  | some n =>
    cases r with
    | none => exact hc.elim
    | some r => rfl

theorem directive_end_at_spec {buf s : Bytes} {name_end : Option Bytes} {p : Nat} {n : Option Nat} (h : At buf p s)
    (hc : CutAt buf n name_end) (fuel : Nat) (hf : s.length < fuel) :
    ∃ n' e, directive_end_at buf fuel n p = some (n', e) ∧ At buf n' (directive_end name_end s).1 ∧
      At buf e (directive_end name_end s).2 := by
  obtain ⟨fuel, rfl⟩ := Nat.exists_eq_add_one_of_ne_zero (Nat.ne_of_gt (Nat.zero_lt_of_lt hf))
  fun_induction directive_end name_end s generalizing p n fuel with
  | case1 name_end =>
    refine ⟨n.getD p, p, ?_, hc.getD h, h⟩
    simp [directive_end_at, h.eq_length]
  | case2 name_end s ih =>
    obtain ⟨q, hq, hrest⟩ := quoted_at_spec h.next
    have := quotedRest_length_le s
    simp only [List.length_cons] at hf
    obtain ⟨fuel, rfl⟩ := Nat.exists_eq_add_one_of_ne_zero (show fuel ≠ 0 by omega)
    obtain ⟨n', e, heq, hn, he⟩ := ih hrest hc fuel (by omega)
    refine ⟨n', e, ?_, hn, he⟩
    rw [directive_end_at]
    simp [h.lt, h.read, hq, heq]
  | case3 name_end s hq =>
    refine ⟨n.getD p, p, ?_, hc.getD h, h⟩
    rw [directive_end_at]
    simp [h.lt, h.read, hq]
  | case4 name_end c s hq hcomma hcut ih =>
    simp only [List.length_cons] at hf
    obtain ⟨fuel, rfl⟩ := Nat.exists_eq_add_one_of_ne_zero (show fuel ≠ 0 by omega)
    obtain ⟨n', e, heq, hn, he⟩ := ih h.next (show CutAt buf (some p) (some (c :: s)) from h) fuel (by omega)
    refine ⟨n', e, ?_, hn, he⟩
    rw [directive_end_at]
    simp [h.lt, h.read, hq, hcomma, hc.isNone, hcut, heq]
  | case5 name_end c s hq hcomma hcut ih =>
    simp only [List.length_cons] at hf
    obtain ⟨fuel, rfl⟩ := Nat.exists_eq_add_one_of_ne_zero (show fuel ≠ 0 by omega)
    obtain ⟨n', e, heq, hn, he⟩ := ih h.next hc fuel (by omega)
    refine ⟨n', e, ?_, hn, he⟩
    rw [directive_end_at]
    simp only [h.lt, h.read, Option.bind_eq_bind, Option.bind_some, hq, hcomma, hc.isNone, hcut, heq, if_true, if_false]

theorem trim_end_at_spec {buf rest name : Bytes} {start : Nat} (h : At buf start (name ++ rest)) :
    trim_end_at buf start (start + name.length) = some (start + (name.rdropWhile is_ows).length) := by
  induction name using List.reverseRecOn generalizing rest with
  | nil =>
    cases start with
    | zero => rfl
    | succ start => simp [trim_end_at]
  | append_singleton name c ih =>
    rw [List.append_assoc] at h
    have hread : deref buf (start + name.length) = some c := h.past.read
    rw [List.length_append, List.length_singleton, ← Nat.add_assoc, trim_end_at, if_pos (by omega), hread,
      List.rdropWhile_concat]
    cases hc : is_ows c with
    | true => simpa [hc] using ih h
    | false => simp [hc, Nat.add_assoc]

/-- One turn of the loop, up to the comparison. -/
theorem directive_at_spec {buf s : Bytes} {p : Nat} (h : At buf p s) :
    ∃ start name_end e directive_end, scanWhile is_ows buf p = some start ∧
      directive_end_at buf (buf.length + 1) none start = some (name_end, directive_end) ∧
      trim_end_at buf start name_end = some e ∧
      is_coding_at buf (str "no-transform") start e =
        some (equals_nocase (directive_name (s.dropWhile is_ows)) (str "no-transform")) ∧
      At buf directive_end (skipUntil is_comma s) := by
  obtain ⟨start, hscan, hs, -⟩ := h.scan is_ows
  generalize hrest : s.dropWhile is_ows = rest at hs
  have hlen := hs.length
  obtain ⟨n, e, hend, hn, he⟩ := directive_end_at_spec hs (show CutAt buf none none from trivial) (buf.length + 1) (by omega)
  rw [directive_end_snd, ← hrest, skipUntil_comma_ows] at he
  -- the name stands between the start and the cut
  have hsplit := upTo_append_skipUntil (fun c => is_cut c || is_comma c) rest
  rw [← directive_end_fst] at hsplit
  rw [← hsplit] at hs
  have hcut : n = start + (upTo (fun c => is_cut c || is_comma c) .outside rest).length := hn.unique hs.past
  have hname : (upTo (fun c => is_cut c || is_comma c) .outside rest).rdropWhile is_ows = directive_name rest := by
    rw [directive_name, directive_end_fst, take_upTo]
  have htrim := trim_end_at_spec hs
  rw [← hcut, hname] at htrim
  refine ⟨start, n, _, e, hscan, hend, htrim, ?_, he⟩
  obtain ⟨ows, hows⟩ := List.rdropWhile_prefix is_ows (l := upTo (fun c => is_cut c || is_comma c) .outside rest)
  rw [hname] at hows
  rw [← hows, List.append_assoc] at hs
  exact (names_at_spec hs _).1

theorem value_no_transform_cons (c : UInt8) (s : Bytes) :
    value_no_transform (c :: s) = (equals_nocase (directive_name ((c :: s).dropWhile is_ows)) (str "no-transform") ||
      value_no_transform (skipUntil is_comma (c :: s)).tail) := by
  rw [Bool.eq_iff_iff, Bool.or_eq_true, value_no_transform_eq, value_no_transform_eq, decide_eq_true_iff,
    decide_eq_true_iff]
  exact forbidsTransform_iff (c :: s)

theorem no_transform_from_spec {buf s : Bytes} {p : Nat} (h : At buf p s) (fuel : Nat) (hf : s.length < fuel) :
    no_transform_from buf fuel p = some (value_no_transform s) := by
  induction fuel generalizing p s with
  | zero => omega
  | succ fuel ih =>
    cases s with
    | nil => simp [no_transform_from, h.eq_length, value_no_transform]
    | cons c s =>
      obtain ⟨start, n, e, d, hscan, hend, htrim, hname, hd⟩ := directive_at_spec h
      rw [value_no_transform_cons]
      cases heq : equals_nocase (directive_name ((c :: s).dropWhile is_ows)) (str "no-transform") with
      | true =>
        rw [heq] at hname
        simp [no_transform_from, h.lt, hscan, hend, htrim, hname]
      | false =>
        rw [heq] at hname
        have hnext : At buf (if d < buf.length then d + 1 else d) (skipUntil is_comma (c :: s)).tail := by
          cases hs : skipUntil is_comma (c :: s) with
          | nil =>
            rw [hs] at hd
            rw [if_neg (by rw [hd.eq_length]; omega)]
            exact hd
          | cons b t =>
            rw [hs] at hd
            rw [if_pos hd.lt]
            exact hd.next
        have hshort := skipUntil_length_le is_comma (c :: s)
        simp only [List.length_cons] at hf hshort
        have hrest := ih hnext (by rw [List.length_tail]; omega)
        simp [no_transform_from, h.lt, hscan, hend, htrim, hname, hrest]

theorem value_no_transform_at_eq (buf : Bytes) : value_no_transform_at buf = some (decide (ForbidsTransform buf)) := by
  unfold value_no_transform_at
  by_cases hbuf : buf.length = 0
  · rw [if_pos hbuf, List.length_eq_zero_iff.1 hbuf]
    rfl
  · rw [if_neg hbuf, no_transform_from_spec (.start buf) _ (Nat.lt_succ_self _), value_no_transform_eq]

/-- The one scan, from any cursor: the segment that ends at the comma outside quotes,
and in it the name that ends at the `;` or `=` outside quotes. -/
theorem directive_end_at_eq (buf : Bytes) (p : Nat) :
    directive_end_at buf (buf.length + 1) none p =
      some (p + (upTo is_cut .outside (upTo is_comma .outside (buf.drop p))).length,
        p + (upTo is_comma .outside (buf.drop p)).length) := by
  by_cases hp : p ≤ buf.length
  · have hrest : ∀ {q : Nat} {stop : UInt8 → Bool}, At buf q (skipUntil stop (buf.drop p)) →
        q = p + (upTo stop .outside (buf.drop p)).length := by
      intro q stop hq
      have hstart : At buf p (upTo stop .outside (buf.drop p) ++ skipUntil stop (buf.drop p)) := by
        rw [upTo_append_skipUntil]
        exact .of_le hp
      exact hq.unique hstart.past
    obtain ⟨n, e, heq, hn, he⟩ := directive_end_at_spec (.of_le hp) (show CutAt buf none none from trivial)
      (buf.length + 1) (by rw [List.length_drop]; omega)
    rw [directive_end_fst] at hn
    rw [directive_end_snd] at he
    rw [heq, hrest hn, hrest he, upTo_upTo]
  · have hnil : buf.drop p = [] := List.drop_eq_nil_of_le (Nat.le_of_not_le hp)
    have hlt : ¬p < buf.length := fun h => hp (Nat.le_of_lt h)
    rw [hnil, directive_end_at, if_neg hlt]
    rfl

/-- No-transform is found in exactly those responses that have it: on a live
Cache-Control line, as the name of a directive between the commas outside quotes.
The one scan ends the segment and the name where two scans do; on any value
the reads are in bounds and the loops come to an end. -/
theorem no_transform_exact (resp : Response) (value : Bytes) (p : Nat) :
    (cache_control_no_transform resp = .ok true ↔ ∃ h ∈ resp.headers.reached, ForbiddingLine h) ∧
    (resp.headers.WellFormed →
      cache_control_no_transform resp = .ok (decide (∃ h ∈ resp.headers.toList, ForbiddingLine h))) ∧
    directive_end_at value (value.length + 1) none p =
      some (p + (upTo is_cut .outside (upTo is_comma .outside (value.drop p))).length,
        p + (upTo is_comma .outside (value.drop p)).length) ∧
    value_no_transform_at value = some (decide (ForbidsTransform value)) ∧
    value_no_transform value = decide (ForbidsTransform value) := by
  refine ⟨?_, fun hw => ?_, directive_end_at_eq value p, value_no_transform_at_eq value, value_no_transform_eq value⟩
  · rw [cache_control_no_transform_any]
    by_cases h : ∃ h ∈ resp.headers.reached, ForbiddingLine h
    · rw [if_pos h]
      exact iff_of_true rfl h
    · rw [if_neg h]
      refine iff_of_false ?_ h
      split <;> exact nofun
  · rw [cache_control_no_transform_any, PartList.reached_eq hw, if_pos hw]
    by_cases h : ∃ h ∈ resp.headers.toList, ForbiddingLine h
    · rw [if_pos h, decide_eq_true h]
    · rw [if_neg h, decide_eq_false h]

/-- A deleted line, a quoted text, and the directive behind an empty one with an
argument it does not take, over two parts. -/
def forbiddingResponse : Response :=
  { sampleResponse with
    headers := ⟨2, [⟨0, str "Cache-Control", str "no-transform", none⟩,
        ⟨1, str "Cache-Control", str "ext=\"a\\\", no-transform", none⟩],
      [[⟨1, str "cache-control", str "ext=\"a\\\", \", , No-Transform =1", none⟩]]⟩ }

theorem no_transform_exact_parts :
    cache_control_no_transform forbiddingResponse = .ok true ∧
      value_no_transform_at (str "ext=\"a\\\", no-transform") = some false := by
  obtain ⟨-, hlist, -, hvalue, -⟩ := no_transform_exact forbiddingResponse (str "ext=\"a\\\", no-transform") 0
  refine ⟨(hlist (by decide)).trans ?_, hvalue.trans ?_⟩
  · exact congrArg _ (decide_eq_true (by decide))
  · exact congrArg _ (decide_eq_false (by decide))

end NginxZstd
