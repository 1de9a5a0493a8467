import Mathlib.Data.List.Induction
import NginxZstd.AcceptEncoding.Locality
/-!
# Duplicate field lines

nginx 1.23 and later chain the Accept-Encoding lines of a request; older ones
leave them in the header list. Both walks compose per-line answers by a rule of
their own, which is shown to be the single-value walk over the joined field.
-/

namespace NginxZstd

open Lib

/-- One line of either walk, with the latest explicit and `*` weight so far. -/
def note_line (coding : Bytes) (allow_wildcard : Bool) (acc : Int × Int) (value : Bytes) : Int × Int :=
  let line := coding_weight_ex value coding allow_wildcard
  if line.2.1 ≥ 0 then (line.2.1, acc.2)
  else if allow_wildcard ∧ line.2.2 ≥ 0 then (acc.1, line.2.2)
  else acc

/-- `ngx_http_zstd_chain_coding_weight`. -/
def chain_coding_weight (ae : List TableElt) (coding : Bytes) (allow_wildcard : Bool) : Int :=
  let acc := ae.foldl (fun acc h => note_line coding allow_wildcard acc h.value) (-1, -1)
  precedence allow_wildcard acc.1 acc.2

/-- The loop body of the walk over the whole header list. -/
def note_header (coding : Bytes) (allow_wildcard : Bool) (acc : Int × Int) (h : TableElt) :
    Except Empty (Int × Int) :=
  if equals_nocase h.key (str "Accept-Encoding") then .ok (note_line coding allow_wildcard acc h.value) else .ok acc

/-- `ngx_http_zstd_request_coding_weight`. `chained` is the build against nginx
1.23 or later; `none` is a read past an empty part. -/
def request_coding_weight (chained : Bool) (r : Request) (coding : Bytes) (allow_wildcard : Bool) : Option Int :=
  if chained then some (chain_coding_weight r.accept_encoding coding allow_wildcard)
  else
    match r.headers.walk (note_header coding allow_wildcard) (-1, -1) with
    | some (.ok acc) => some (precedence allow_wildcard acc.1 acc.2)
    | _ => none

/-- `ngx_http_zstd_accepts`. -/
def accepts (chained : Bool) (r : Request) : Except Abort Bool := do
  if !r.is_main then return false
  let weight ← or_fault (request_coding_weight chained r (str "zstd") true)
  return weight > 0

/-- The lines joined with `,`. -/
def joined (lines : List Bytes) : Bytes := [comma].intercalate lines

/-! ## Composing lines -/

/-- A walk that starts with weights in hand keeps each where it finds none. -/
theorem foldl_note (coding : Bytes) (es : List Scanned) (acc : Int × Int) :
    es.foldl (note coding) acc =
      (if (es.foldl (note coding) (-1, -1)).1 ≥ 0 then (es.foldl (note coding) (-1, -1)).1 else acc.1,
        if (es.foldl (note coding) (-1, -1)).2 ≥ 0 then (es.foldl (note coding) (-1, -1)).2 else acc.2) := by
  induction es using List.reverseRecOn with
  | nil => rfl
  | append_singleton es e ih =>
    simp only [List.foldl_append, List.foldl_cons, List.foldl_nil]
    rw [ih]
    generalize es.foldl (note coding) (-1, -1) = r
    unfold note
    split
    · split
      · simp
      split
      · simp
      · rfl
    · rfl

theorem elements_joined : ∀ (lines : List Bytes),
    (∀ l ∈ lines, closes false l = true ∧ NoQuotedName l) → elements (joined lines) = lines.flatMap elements
  | [], _ => elements_nil rfl
  | [l], _ => by simp [joined]
  | l :: l' :: lines, h => by
    have ih := elements_joined (l' :: lines) (fun x hx => h x (List.mem_cons_of_mem _ hx))
    have hj : joined (l :: l' :: lines) = l ++ comma :: joined (l' :: lines) := by
      simp [joined, List.intercalate]
    obtain ⟨hc, hn⟩ := h l List.mem_cons_self
    rw [hj, elements_append l _ hc hn, ih]
    rfl

/-- The chain walk and the element walk side by side. The `*` weights part only
once an explicit weight has made them irrelevant. -/
theorem foldl_note_line (coding : Bytes) (allow_wildcard : Bool) (lines : List Bytes) :
    ∀ (acc acc' : Int × Int), acc.1 = acc'.1 → (acc'.1 < 0 → allow_wildcard = true → acc.2 = acc'.2) →
      (lines.foldl (note_line coding allow_wildcard) acc).1 =
        ((lines.flatMap elements).foldl (note coding) acc').1 ∧
      (((lines.flatMap elements).foldl (note coding) acc').1 < 0 → allow_wildcard = true →
        (lines.foldl (note_line coding allow_wildcard) acc).2 =
          ((lines.flatMap elements).foldl (note coding) acc').2) := by
  induction lines with
  | nil => intro acc acc' h1 h2; exact ⟨h1, h2⟩
  | cons l lines ih =>
    intro acc acc' h1 h2
    rw [List.flatMap_cons, List.foldl_append, List.foldl_cons]
    refine ih _ _ ?_ ?_
    · rw [foldl_note]
      simp only [note_line, coding_weight_ex, weigh_eq]
      split
      · rfl
      · split <;> exact h1
    · rw [foldl_note]
      simp only [note_line, coding_weight_ex, weigh_eq]
      intro hneg hw
      split at hneg
      · omega
      · next hc =>
        rw [if_neg hc]
        simp only [hw, true_and]
        split
        · rfl
        · exact h2 hneg hw

theorem foldl_map_value (coding : Bytes) (allow_wildcard : Bool) (ae : List TableElt) (acc : Int × Int) :
    ae.foldl (fun acc h => note_line coding allow_wildcard acc h.value) acc =
      (ae.map TableElt.value).foldl (note_line coding allow_wildcard) acc := by
  rw [List.foldl_map]

/-- The chain walk is the single-value walk over the joined field. -/
theorem chain_coding_weight_eq {ae : List TableElt} {lines : List Bytes} (hv : ae.map TableElt.value = lines)
    (hl : ∀ l ∈ lines, closes false l = true ∧ NoQuotedName l) (coding : Bytes) (allow_wildcard : Bool) :
    chain_coding_weight ae coding allow_wildcard = coding_weight (joined lines) coding allow_wildcard := by
  obtain ⟨h1, h2⟩ := foldl_note_line coding allow_wildcard lines (-1, -1) (-1, -1) rfl (fun _ _ => rfl)
  unfold chain_coding_weight coding_weight coding_weight_ex
  rw [foldl_map_value, hv, weigh_eq, elements_joined lines hl]
  simp only [precedence, h1]
  split
  · rfl
  · next hneg =>
    by_cases hw : allow_wildcard = true
    · rw [h2 (by omega) hw]
    · simp [hw]

/-- The header list walk visits the Accept-Encoding lines and no others. -/
theorem foldlM_note_header (coding : Bytes) (allow_wildcard : Bool) (hs : List TableElt) :
    ∀ acc, hs.foldlM (note_header coding allow_wildcard) acc =
      .ok ((linesNamed (str "Accept-Encoding") hs).foldl
        (fun acc h => note_line coding allow_wildcard acc h.value) acc) := by
  induction hs with
  | nil => intro acc; rfl
  | cons h hs ih =>
    intro acc
    have hz : (0 : UInt8) ∉ str "Accept-Encoding" := by decide
    rw [List.foldlM_cons, note_header, linesNamed, List.filter_cons]
    by_cases hk : foldCase h.key = foldCase (str "Accept-Encoding")
    · rw [if_pos ((equals_nocase_iff hz).2 hk), if_pos (by simpa using hk)]
      exact ih _
    · rw [if_neg (fun h' => hk ((equals_nocase_iff hz).1 h')), if_neg (by simpa using hk)]
      exact ih _

/-- Both builds answer alike on every header list nginx can hand over. -/
theorem request_coding_weight_unchained {r : Request} (hw : r.headers.WellFormed) (coding : Bytes)
    (allow_wildcard : Bool) :
    request_coding_weight false r coding allow_wildcard =
      some (chain_coding_weight (linesNamed (str "Accept-Encoding") r.headers.toList) coding allow_wildcard) := by
  simp only [request_coding_weight, Bool.false_eq_true, if_false, PartList.walk_eq _ _ hw, foldlM_note_header]
  rfl

/-- The weight as a function of the field values alone. -/
def linesWeight (lines : List Bytes) (coding : Bytes) (allow_wildcard : Bool) : Int :=
  let acc := lines.foldl (note_line coding allow_wildcard) (-1, -1)
  precedence allow_wildcard acc.1 acc.2

/-- The weight of the last well-formed element of that name, over all lines. -/
def explicitWeight (lines : List Bytes) (coding : Bytes) : Option Int :=
  ((lines.flatMap elements).filter fun e => e.token && decide (e.q ≥ 0 ∧ foldCase e.name = foldCase coding)).getLast?.map
    Scanned.q

theorem foldl_note_explicit {coding : Bytes} (hz : 0 ∉ coding) (es : List Scanned) :
    (es.foldl (note coding) (-1, -1)).1 =
      ((es.filter fun e => e.token && decide (e.q ≥ 0 ∧ foldCase e.name = foldCase coding)).getLast?.map
        Scanned.q).getD (-1) := by
  induction es using List.reverseRecOn with
  | nil => rfl
  | append_singleton es e ih =>
    have hname := equals_nocase_iff (s := e.name) hz
    rw [List.foldl_append, List.filter_append, List.foldl_cons, List.foldl_nil, note]
    by_cases hq : e.q ≥ 0
    · by_cases ht : e.token = true ∧ foldCase e.name = foldCase coding
      · simp [hq, ht, hname.2 ht.2]
      · have hskip : ¬ (e.token && equals_nocase e.name coding) = true := by
          rw [Bool.and_eq_true, hname]; exact ht
        have hdrop : ([e].filter fun e => e.token && decide (e.q ≥ 0 ∧ foldCase e.name = foldCase coding)) = [] := by
          simpa [hq] using ht
        rw [if_pos hq, if_neg hskip, hdrop, List.append_nil, ← ih]
        split <;> rfl
    · rw [if_neg hq, ih]
      simp [hq]

/-- Without the wildcard only elements of the coding's own name count. -/
theorem linesWeight_explicit {coding : Bytes} (hz : 0 ∉ coding) (lines : List Bytes) :
    linesWeight lines coding false = (explicitWeight lines coding).getD (-1) := by
  have h := (foldl_note_line coding false lines (-1, -1) (-1, -1) rfl fun _ h => by cases h).1
  rw [foldl_note_explicit hz] at h
  simp only [linesWeight, precedence, h, explicitWeight, Bool.false_eq_true, false_and, if_false]
  cases hlast : ((lines.flatMap elements).filter fun e =>
      e.token && decide (e.q ≥ 0 ∧ foldCase e.name = foldCase coding)).getLast? with
  | none => simp
  | some e =>
    have he := (List.mem_filter.1 (List.mem_of_getLast? hlast)).2
    simp only [Bool.and_eq_true, decide_eq_true_eq] at he
    simp [he.2.1]

/-- Either build weighs the values of the Accept-Encoding lines. -/
theorem request_coding_weight_values {r : Request} (hr : r.CoreParsed) (chained : Bool) (coding : Bytes)
    (allow_wildcard : Bool) :
    request_coding_weight chained r coding allow_wildcard =
      some (linesWeight (r.values (str "Accept-Encoding")) coding allow_wildcard) := by
  have hchain : chain_coding_weight (linesNamed (str "Accept-Encoding") r.headers.toList) coding allow_wildcard =
      linesWeight (r.values (str "Accept-Encoding")) coding allow_wildcard := by
    rw [chain_coding_weight, foldl_map_value]
    rfl
  cases chained with
  | true => rw [request_coding_weight, if_pos rfl, hr.chain, hchain]
  | false => rw [request_coding_weight_unchained hr.parts, hchain]

theorem accepts_eq {r : Request} (hr : r.CoreParsed) (chained : Bool) :
    accepts chained r =
      .ok (r.is_main && decide (linesWeight (r.values (str "Accept-Encoding")) (str "zstd") true > 0)) := by
  rw [accepts, request_coding_weight_values hr]
  cases r.is_main <;> rfl

/-- For lines that each end outside a quoted-string and hold no DQUOTE in a
parameter name, both composers give the weight of the comma-joined field, and
`-1` when there is no line. -/
theorem duplicate_lines_joined {lines : List Bytes} (hl : ∀ l ∈ lines, closes false l = true ∧ NoQuotedName l)
    (coding : Bytes) (allow_wildcard : Bool) :
    (∀ ae : List TableElt, ae.map TableElt.value = lines →
      chain_coding_weight ae coding allow_wildcard =
        if lines = [] then -1 else coding_weight (joined lines) coding allow_wildcard) ∧
    ∀ r : Request, r.headers.WellFormed →
      (linesNamed (str "Accept-Encoding") r.headers.toList).map TableElt.value = lines →
      request_coding_weight false r coding allow_wildcard =
        some (if lines = [] then -1 else coding_weight (joined lines) coding allow_wildcard) := by
  have key : ∀ ae : List TableElt, ae.map TableElt.value = lines →
      chain_coding_weight ae coding allow_wildcard =
        if lines = [] then -1 else coding_weight (joined lines) coding allow_wildcard := by
    intro ae hv
    split
    · next hnil =>
      rw [hnil, List.map_eq_nil_iff] at hv
      subst hv
      simp [chain_coding_weight, precedence]
    · exact chain_coding_weight_eq hv hl coding allow_wildcard
  refine ⟨key, fun r hw hv => ?_⟩
  rw [request_coding_weight_unchained hw, key _ hv]

/-- Two lines, a refused coding first and then a reprieve. -/
theorem duplicate_lines_joined_reprieve :
    chain_coding_weight
      [⟨1, str "Accept-Encoding", str "zstd;q=0", none⟩, ⟨1, str "accept-encoding", str "ZSTD;q=0.5", none⟩]
      (str "zstd") true = 500 := by
  rw [(@duplicate_lines_joined [str "zstd;q=0", str "ZSTD;q=0.5"] (by decide +kernel)
    (str "zstd") true).1 _ rfl]
  decide +kernel

end NginxZstd
