import NginxZstd.AcceptEncoding.Params
/-!
# The parser computes the meaning

The proof follows the rendering: the parameters of an element give its weight,
the text of an element is inert to its neighbours, and over the list the last
well-formed element of a name wins.
-/

namespace NginxZstd

open Lib

/-! ## All parameters of an element -/

/-- The weight the parameters leave, `-1` when malformed. -/
def paramsWeight (q : Int) (seen : Bool) : List Param → Int
  | [] => q
  | p :: ps =>
    match p.body.step q seen with
    | some (q', seen') => paramsWeight q' seen' ps
    | none => -1

theorem params_boundary (ps : List Param) : Boundary (ps.flatMap Param.render) := by
  cases ps with
  | nil => exact Or.inl rfl
  | cons p ps => exact Or.inr ⟨_, rfl⟩

theorem eval_params_render (ps : List Param) : ∀ (q : Int) (seen : Bool),
    (eval_params q seen false (ps.flatMap Param.render)).1 = paramsWeight q seen ps ∧
    (eval_params q seen false (ps.flatMap Param.render)).2.1 = false := by
  induction ps with
  | nil => intro q seen; rw [List.flatMap_nil, eval_params]; exact ⟨rfl, rfl⟩
  | cons p ps ih =>
    intro q seen
    obtain ⟨hn, hstep⟩ := eval_parameter_render p (params_boundary ps) q seen
    have htext : (p :: ps).flatMap Param.render =
        semicolon :: (ows p.lead ++ (p.body.render ++ (ows p.trail ++ ps.flatMap Param.render))) := by
      simp [List.flatMap_cons, Param.render]
    rw [htext, paramsWeight]
    cases hs : p.body.step q seen with
    | none =>
      simp only [hs] at hstep
      obtain ⟨c, hc⟩ := hstep
      rw [eval_params_error hc, hn]
      exact ⟨rfl, rfl⟩
    | some st =>
      obtain ⟨q', seen'⟩ := st
      simp only [hs] at hstep
      rw [eval_params_ok hstep, hn]
      exact ih q' seen'

/-- The recursion in closed form. -/
theorem paramsWeight_eq (ps : List Param) : ∀ (q : Int) (seen : Bool),
    paramsWeight q seen ps =
      if ps.all (fun p => p.body.good) ∧ (ps.filterMap fun p => p.body.qvalue).length + seen.toNat ≤ 1 then
        match ps.filterMap fun p => p.body.qvalue with
        | [] => q
        | v :: _ => v.weight
      else -1 := by
  induction ps with
  | nil => intro q seen; cases seen <;> simp [paramsWeight]
  | cons p ps ih =>
    intro q seen
    obtain ⟨lead, body, trail⟩ := p
    cases body with
    | q upper gap gap' v =>
      cases seen with
      | true => simp [paramsWeight, Body.step, Body.qvalue]
      | false =>
        have h1 : paramsWeight q false (⟨lead, .q upper gap gap' v, trail⟩ :: ps) = paramsWeight v.weight true ps := rfl
        have h2 : (⟨lead, .q upper gap gap' v, trail⟩ :: ps : List Param).filterMap (fun p => p.body.qvalue) =
            v :: ps.filterMap fun p => p.body.qvalue := rfl
        have h3 : (⟨lead, .q upper gap gap' v, trail⟩ :: ps : List Param).all (fun p => p.body.good) =
            ps.all fun p => p.body.good := rfl
        rw [h1, h2, h3, ih]
        simp only [List.length_cons, Bool.toNat_true, Bool.toNat_false, Nat.add_zero]
        split
        · next h =>
          have hnil : ps.filterMap (fun p => p.body.qvalue) = [] := List.length_eq_zero_iff.1 (by omega)
          rw [hnil]
        · rfl
    | flag name hn => simp [paramsWeight, Body.step, ih, Body.good, Body.qvalue]
    | other name hn gap gap' v => simp [paramsWeight, Body.step, ih, Body.good, Body.qvalue]
    | q_missing upper => simp [paramsWeight, Body.step, Body.good]
    | q_bad upper gap v => simp [paramsWeight, Body.step, Body.good]
    | unnamed => simp [paramsWeight, Body.step, Body.good]
    | unnamed_value gap gap' v => simp [paramsWeight, Body.step, Body.good]

/-! ## Rendered text is inert -/

/-- Text that closes its quoted-strings and has no comma outside them. -/
def Inert (s : Bytes) : Prop := closes false s = true ∧ skipUntil is_comma s = []

theorem inert_append {s t : Bytes} (hs : Inert s) (ht : Inert t) : Inert (s ++ t) :=
  ⟨by rw [closes_append hs.1]; exact ht.1, by rw [skipUntil_append_nil hs.1 hs.2]; exact ht.2⟩

theorem inert_plain {s : Bytes} (h : ∀ c ∈ s, Plain c) : Inert s := by
  induction s with
  | nil => exact ⟨rfl, by rw [skipUntil]⟩
  | cons c s ih =>
    have hc := h c List.mem_cons_self
    obtain ⟨h1, h2⟩ := ih fun d hd => h d (List.mem_cons_of_mem _ hd)
    refine ⟨?_, ?_⟩
    · rw [closes, beq_eq_false_iff_ne.2 hc.2]; exact h1
    · rw [skipUntil, if_neg (by simp [hc.1]), if_neg hc.2]; exact h2

theorem inert_cons {c : UInt8} {s : Bytes} (hc : Plain c) (hs : Inert s) : Inert (c :: s) :=
  inert_append (inert_plain (s := [c]) (by simpa using hc)) hs

theorem inert_ows (w : Ows) : Inert (ows w) := inert_plain fun _ hc => is_ows_plain (mem_ows hc)

theorem inert_token (t : Token) : Inert t.bytes :=
  inert_plain fun c hc => (tchar_facts (t.tchars c hc)).2.2.2.2.2.1

theorem closes_quoted (s : List QChar) (r : Bytes) :
    closes true (s.flatMap QChar.render ++ dquote :: r) = closes false r := by
  induction s with
  | nil => exact closes_dquote r
  | cons c s ih =>
    rw [List.flatMap_cons, List.append_assoc]
    cases c with
    | qdtext c h =>
      obtain ⟨d, u, hdu⟩ : ∃ d u, s.flatMap QChar.render ++ dquote :: r = d :: u := by
        cases s.flatMap QChar.render with
        | nil => exact ⟨_, _, rfl⟩
        | cons d u => exact ⟨_, _, rfl⟩
      rw [QChar.render, List.cons_append, List.nil_append, hdu, closes, if_neg h.1, if_neg h.2, ← hdu, ih]
    | quoted_pair c =>
      rw [QChar.render, List.cons_append, List.cons_append, List.nil_append, closes,
        if_neg (by decide), if_pos rfl, ih]

theorem inert_value (v : Value) : Inert v.render := by
  cases v with
  | token t => exact inert_token t
  | quoted s =>
    refine ⟨?_, ?_⟩
    · rw [Value.render, closes]
      exact closes_quoted s []
    · rw [Value.render, skipUntil, if_neg (by decide), if_pos rfl, quotedRest_render, skipUntil]

theorem inert_bad (v : BadQValue) : Inert v.text := by
  have key : ∀ s : Bytes, skipUntil is_param_end s = [] → skipUntil is_comma s = [] := by
    intro s h
    fun_induction skipUntil is_param_end s with
    | case1 => rw [skipUntil]
    | case2 => cases h
    | case3 s hc ih => rw [skipUntil, if_neg (by decide), if_pos rfl]; exact ih h
    | case4 c s hc hq ih =>
      have : ¬ is_comma c = true := fun h' => hc (by simp only [is_comma] at h'; simp [is_param_end, h'])
      rw [skipUntil, if_neg this, if_neg hq]
      exact ih h
  exact ⟨v.closed, key _ v.inside⟩

theorem inert_body (b : Body) : Inert b.render := by
  have heq : Plain equals := by decide
  cases b with
  | q upper gap gap' v =>
    refine inert_append (inert_append (inert_token (q_token upper)) (inert_ows gap)) (inert_cons heq ?_)
    exact inert_append (inert_ows gap') (inert_plain fun c hc => (qvalue_bytes v c hc).2.2)
  | q_missing upper => exact inert_token (q_token upper)
  | q_bad upper gap v =>
    exact inert_append (inert_append (inert_token (q_token upper)) (inert_ows gap)) (inert_cons heq (inert_bad v))
  | flag name hn => exact inert_token name
  | other name hn gap gap' v =>
    refine inert_append (inert_append (inert_token name) (inert_ows gap)) (inert_cons heq ?_)
    exact inert_append (inert_ows gap') (inert_value v)
  | unnamed => exact inert_plain (by simp [Body.render])
  | unnamed_value gap gap' v =>
    exact inert_append (inert_ows gap) (inert_cons heq (inert_append (inert_ows gap') (inert_value v)))

theorem inert_params (ps : List Param) : Inert (ps.flatMap Param.render) := by
  induction ps with
  | nil => exact inert_plain (by simp)
  | cons p ps ih =>
    rw [List.flatMap_cons]
    refine inert_append (inert_cons (by decide) ?_) ih
    exact inert_append (inert_ows p.lead) (inert_append (inert_body p.body) (inert_ows p.trail))

theorem inert_element (e : Element) : Inert e.render :=
  inert_append (inert_token e.name) (inert_append (inert_ows e.gap) (inert_params e.params))

theorem inert_item (i : Item) : Inert i.render := by
  refine inert_append (inert_ows i.lead) ?_
  cases i.element with
  | none => exact inert_plain (by simp)
  | some e => exact inert_element e

/-! ## Elements and the list -/

/-- What the walk learns of a rendered element. -/
def Element.scanned (e : Element) : Scanned := ⟨e.name.bytes, true, if e.wellFormed then e.weight else -1, false⟩

theorem scan_element_render (e : Element) :
    scan_element e.render = e.scanned ∧ element_rest e.render = [] := by
  have hb := params_boundary e.params
  have hcn : ∀ c ∈ e.name.bytes, is_coding_name c = true := fun c hc => (tchar_facts (e.name.tchars c hc)).2.1
  have hstop : Stops is_coding_name (ows e.gap ++ e.params.flatMap Param.render) :=
    stops_ows (fun c hc => by simp [is_coding_name, hc]) (hb.stops (by decide))
  have hname : name_end e.render = e.params.flatMap Param.render := by
    rw [name_end, Element.render, dropWhile_through hcn hstop, tail_skip hb]
  have htok : at_param_end (e.params.flatMap Param.render) = true := by
    rcases hb with h | ⟨s, h⟩ <;> rw [h] <;> rfl
  -- the parameters give the weight
  obtain ⟨hw, hq⟩ := eval_params_render e.params 1000 false
  have heval : (eval_element (e.params.flatMap Param.render)).1 = paramsWeight 1000 false e.params ∧
      (eval_element (e.params.flatMap Param.render)).2.1 = false := by
    cases hp : e.params with
    | nil => exact ⟨rfl, rfl⟩
    | cons p ps =>
      rw [hp] at hw hq
      rw [List.flatMap_cons] at hw hq ⊢
      simp only [Param.render, List.cons_append, eval_element, if_true, eval_qvalue] at hw hq ⊢
      exact ⟨hw, hq⟩
  have hweight : paramsWeight 1000 false e.params = e.scanned.q := by
    have hwf : e.wellFormed = true ↔ e.params.all (fun p => p.body.good) = true ∧
        (e.params.filterMap fun p => p.body.qvalue).length + false.toNat ≤ 1 := by
      rw [Element.wellFormed, Bool.and_eq_true, decide_eq_true_iff]
      rfl
    rw [paramsWeight_eq]
    simp only [Element.scanned, ← hwf]
    by_cases h : e.wellFormed = true
    · rw [if_pos h, if_pos h, Element.weight, Element.qvalues]
      cases e.params.filterMap (fun p => p.body.qvalue) <;> rfl
    · rw [if_neg h, if_neg h]
  constructor
  · simp only [scan_element, hname, htok, heval.1, heval.2, hweight]
    rw [Element.render, takeWhile_through hcn hstop]
    rfl
  · rw [element_rest_eq]
    exact (inert_element e).2

/-- The elements of one rendered item. -/
theorem elements_item (i : Item) : elements i.render = (i.element.map Element.scanned).toList := by
  have hsep : ∀ c ∈ ows i.lead, is_list_sep c = true := fun c hc => by simp [is_list_sep, mem_ows hc]
  cases he : i.element with
  | none =>
    refine elements_nil ?_
    rw [Item.render, he]
    exact dropWhile_through (r := []) hsep (fun c s h => by cases h)
  | some e =>
    have hstop : Stops is_list_sep e.render := token_stops e.name _ fun c hc => (tchar_facts hc).2.2.1
    have hd : i.render.dropWhile is_list_sep = e.render := by
      rw [Item.render, he]
      exact dropWhile_through hsep hstop
    obtain ⟨c, s, hcs⟩ : ∃ c s, e.render = c :: s := by
      cases hr : e.render with
      | nil => exact absurd (List.append_eq_nil_iff.1 hr).1 e.name.nonempty
      | cons c s => exact ⟨c, s, rfl⟩
    obtain ⟨h1, h2⟩ := scan_element_render e
    rw [elements_cons (hd.trans hcs), ← hcs, h1, h2, elements_nil rfl]
    rfl

theorem elements_render (items : List Item) :
    elements (render items) = (items.filterMap Item.element).map Element.scanned := by
  rw [render, elements_joined _ fun l hl => ?_]
  · induction items with
    | nil => rfl
    | cons i items ih =>
      rw [List.map_cons, List.flatMap_cons, ih, elements_item, List.filterMap_cons]
      cases i.element <;> rfl
  · obtain ⟨i, -, rfl⟩ := List.mem_map.1 hl
    refine ⟨(inert_item i).1, fun e he => ?_⟩
    rw [elements_item, Option.mem_toList, Option.map_eq_some_iff] at he
    obtain ⟨e', -, rfl⟩ := he
    rfl

/-! ## Last wins -/

theorem lastWeight_concat (p : Bytes → Bool) (es : List Element) (e : Element) :
    lastWeight p (es ++ [e]) =
      if e.wellFormed && p e.name.bytes then some e.weight else lastWeight p es := by
  rw [lastWeight, List.filter_append, List.filter_cons, List.filter_nil]
  split
  · rw [List.getLast?_concat]; rfl
  · rw [List.append_nil]; rfl

theorem lower_star {c : UInt8} (h : lower c = 0x2a) : c = 0x2a := by
  have key : ∀ n : Fin 256, lower (UInt8.ofNat n) = 0x2a → UInt8.ofNat n = 0x2a := by decide +kernel
  simpa using key ⟨c.toNat, UInt8.toNat_lt c⟩ (by simpa using h)

theorem foldCase_star {s : Bytes} (h : foldCase s = [0x2a]) : s = [0x2a] := by
  cases s with
  | nil => cases h
  | cons c s =>
    obtain ⟨hc, hs⟩ := List.cons.inj h
    rw [lower_star hc, List.map_eq_nil_iff.1 hs]

/-- The two accumulators hold the last explicit and the last `*` weight. -/
theorem foldl_note_elements {coding : Bytes} (hz : 0 ∉ coding) (hs : coding ≠ [0x2a]) (es : List Element) :
    (es.map Element.scanned).foldl (note coding) (-1, -1) =
      (((lastWeight (fun name => foldCase name == foldCase coding) es).map Int.ofNat).getD (-1),
        ((lastWeight (fun name => name == [0x2a]) es).map Int.ofNat).getD (-1)) := by
  induction es using List.reverseRecOn with
  | nil => rfl
  | append_singleton es e ih =>
    rw [List.map_append, List.foldl_append, ih]
    simp only [List.map_cons, List.map_nil, List.foldl_cons, List.foldl_nil, lastWeight_concat, note]
    have hname : equals_nocase e.scanned.name coding = (foldCase e.name.bytes == foldCase coding) :=
      Bool.eq_iff_iff.2 (by rw [equals_nocase_iff hz, beq_iff_eq]; rfl)
    rw [hname]
    simp only [Element.scanned, Bool.true_and]
    cases hwf : e.wellFormed with
    | false => simp
    | true =>
      simp only [if_true, Bool.true_and, if_pos (Int.natCast_nonneg e.weight)]
      by_cases hc : (foldCase e.name.bytes == foldCase coding) = true
      · have hstar : (e.name.bytes == [0x2a]) = false := by
          rw [beq_eq_false_iff_ne]
          intro h
          rw [h, beq_iff_eq] at hc
          exact hs (foldCase_star hc.symm)
        simp [hc, hstar]
      · by_cases hst : (e.name.bytes == [0x2a]) = true
        · simp [hc, hst]
        · simp [hc, hst]

/-- `coding_weight` of any rendering is the meaning of the list: the weight of the
last well-formed element named like the coding, else of the last well-formed `*`
where the caller admits it, else `-1`. -/
theorem coding_weight_render (items : List Item) (coding : Token) (hs : coding.bytes ≠ str "*")
    (allow_wildcard : Bool) :
    coding_weight (render items) coding.bytes allow_wildcard = meaning items coding.bytes allow_wildcard := by
  have hz : (0 : UInt8) ∉ coding.bytes := fun h => (tchar_facts (coding.tchars 0 h)).2.2.2.2.2.2.2 rfl
  simp only [coding_weight, coding_weight_ex, weigh_eq, elements_render, foldl_note_elements hz hs, meaning]
  cases lastWeight (fun name => foldCase name == foldCase coding.bytes) (items.filterMap Item.element) with
  | some w => simp [precedence]
  | none =>
    cases lastWeight (fun name => name == [0x2a]) (items.filterMap Item.element) with
    | some w => cases allow_wildcard <;> simp [precedence]
    | none => simp [precedence]

/-- A quoted comma, an upper-case `Q`, and a malformed element in between. -/
theorem coding_weight_render_sample :
    let zstd : Token := ⟨str "zstd", by decide, by decide +kernel⟩
    let x : Token := ⟨str "x", by decide, by decide +kernel⟩
    let quoted : Body := .other x (by decide) [] [] (.quoted [.qdtext comma (by decide), .quoted_pair dquote])
    let half : Body := .q true [false] [] (.zero (some ⟨[5], by decide⟩))
    let items : List Item := [⟨[], some ⟨zstd, [], [⟨[], quoted, []⟩, ⟨[true], half, []⟩]⟩⟩, ⟨[false], none⟩,
      ⟨[false], some ⟨zstd, [], [⟨[], .q_missing false, []⟩]⟩⟩]
    render items = str "zstd;x=\",\\\"\";\tQ =0.5, , zstd;q" ∧ coding_weight (render items) (str "zstd") false = 500 := by
  intro zstd x quoted half items
  refine ⟨by decide, ?_⟩
  rw [show str "zstd" = zstd.bytes from rfl, coding_weight_render items zstd (by decide) false]
  decide

end NginxZstd
