import NginxZstd.AcceptEncoding.Lines
import NginxZstd.Vary
/-!
# The static handler

Whether a request is answered with the `.zst` file beside the one it asks for.
With `zstd_static_dict_bypass` the handler stands aside for clients that hold a
dictionary, which makes its routing depend on Available-Dictionary; only the
responses it stands aside for say so.
-/

namespace NginxZstd

open Lib

inductive StaticMode where
  | off
  | on
  | always
deriving DecidableEq

/-- `ngx_http_zstd_static_conf_t`. -/
structure StaticConf where
  enable : StaticMode
  dict_bypass : Bool

/-- What opening the `.zst` path finds: no file that can be opened, a directory,
something that is not a regular file, or a file, with the probe's verdict on it. -/
inductive Sidecar where
  | failed
  | dir
  | special
  | file (good : Bool)
deriving DecidableEq

/-- How the handler answers: `NGX_DECLINED`, `NGX_HTTP_NOT_FOUND`, or the file. -/
inductive Routing where
  | declined
  | not_found
  | served
deriving DecidableEq

/-! ## Standing aside -/

/-- The name test of the bypass scan, which folds the key itself where
`lowcase_key` is NULL. -/
def is_available_dictionary (h : TableElt) : Bool :=
  h.key.length == (str "available-dictionary").length &&
    match h.lowcase_key with
    | some lowcase => memcmp lowcase (str "available-dictionary") == 0
    | none => strncasecmp h.key (str "Available-Dictionary") (str "Available-Dictionary").length == 0

/-- The loop body of the scan, which returns 0 at the second line. -/
def count_available_dictionary (count : Nat) (h : TableElt) : Except Unit Nat :=
  if is_available_dictionary h then (if count + 1 > 1 then .error () else .ok (count + 1)) else .ok count

/-- `ngx_http_zstd_static_should_bypass`. -/
def should_bypass (chained : Bool) (r : Request) : Except Abort Bool := do
  match ← or_fault (r.headers.walk count_available_dictionary 0) with
  | .error () => return false
  | .ok avail_dict_count =>
    if avail_dict_count ≠ 1 then return false
    let weight ← or_fault (request_coding_weight chained r (str "dcz") false)
    return weight > 0

/-! ## Routing -/

/-- The tests on the request in front of the bypass. -/
def candidate (r : Request) : Bool := r.method != .other && r.uri.length != 0 && r.uri.getLast? != some 0x2f

/-- The bypass with its two guards. -/
def stands_aside (chained : Bool) (zscf : StaticConf) (r : Request) : Except Abort Bool :=
  if zscf.dict_bypass && r.is_main then should_bypass chained r else .ok false

/-- `ngx_http_zstd_static_negotiate`: `none` where the handler is done, else whether
the request accepts zstd. -/
def static_negotiate (chained : Bool) (clcf : Option CoreLocConf) (zscf : StaticConf) (r : Request)
    (resp : Response) : Except Abort (Option Bool × Response) := do
  if !candidate r then return (none, resp)
  if zscf.enable = .off then return (none, resp)
  if ← stands_aside chained zscf r then
    let resp ← vary_ae_dcz clcf true resp
    return (none, resp)
  if zscf.enable = .on then
    let accepts ← accepts chained r
    return (some accepts, resp)
  else return (some true, resp)

/-- `ngx_http_zstd_static_send`, as far as the response head goes. -/
def static_send (resp : Response) : Except Abort (Routing × Response) := do
  let resp ← push_header resp (str "Content-Encoding") (str "zstd")
  return (.served, { resp with status := 200, content_encoding := some (str "zstd") })

/-- The handler behind the probe. -/
def static_answer (clcf : Option CoreLocConf) (zscf : StaticConf) (accepts : Bool) (resp : Response) :
    Except Abort (Routing × Response) := do
  if zscf.enable = .on then
    let resp ← vary_accept_encoding clcf resp
    if !accepts then return (.declined, resp)
    static_send resp
  else static_send resp

/-- `ngx_http_zstd_static_handler`. `disk` is what opening the `.zst` of a URI finds. -/
def static_handler (chained : Bool) (clcf : Option CoreLocConf) (zscf : StaticConf) (disk : Bytes → Sidecar)
    (r : Request) (resp : Response) : Except Abort (Routing × Response) := do
  match ← static_negotiate chained clcf zscf r resp with
  | (none, resp) => return (.declined, resp)
  | (some accepts, resp) =>
    if zscf.enable ≠ .on ∧ accepts = false then return (.declined, resp)
    match disk r.uri with
    | .failed => return (.declined, resp)
    | .dir => return (.declined, resp)
    | .special => return (.not_found, resp)
    | .file false => return (.declined, resp)
    | .file true => static_answer clcf zscf accepts resp

/-! ## What the handler does -/

/-- The bypass as a function of what it reads. -/
def standsAside (zscf : StaticConf) (is_main : Bool) (ae ad : List Bytes) : Bool :=
  zscf.dict_bypass && is_main && decide (ad.length = 1 ∧ linesWeight ae (str "dcz") false > 0)

/-- The name test takes the folded key from `lowcase_key` or folds it itself. -/
theorem is_available_dictionary_eq {h : TableElt}
    (hl : h.lowcase_key = none ∨ h.lowcase_key = some (foldCase h.key)) :
    is_available_dictionary h = decide (foldCase h.key = foldCase (str "Available-Dictionary")) := by
  have hfold : foldCase (str "Available-Dictionary") = str "available-dictionary" := by decide
  have hnocase := strncasecmp_eq_zero (s := h.key) (t := str "Available-Dictionary")
  rw [is_available_dictionary]
  by_cases hlen : h.key.length = (str "available-dictionary").length
  · rcases hl with hl | hl
    · have := hnocase (hlen.trans (by decide)) (by decide)
      by_cases he : foldCase h.key = foldCase (str "Available-Dictionary")
      · simp [hl, hlen, he, this.2 he]
      · simp [hl, he, mt this.1 he]
    · have := memcmp_eq_zero (a := foldCase h.key) (b := str "available-dictionary") (by simpa using hlen)
      rw [hfold]
      by_cases he : foldCase h.key = str "available-dictionary"
      · simp only [hl, this.2 he]
        simp [hlen, he]
      · simp [hl, he, mt this.1 he]
  · have : foldCase h.key ≠ foldCase (str "Available-Dictionary") := by
      intro he
      exact hlen (by simpa [hfold] using congrArg List.length he)
    simp [hlen, this]

/-- The scan counts the lines, up to the second. -/
theorem foldlM_count (hs : List TableElt)
    (hl : ∀ h ∈ hs, h.lowcase_key = none ∨ h.lowcase_key = some (foldCase h.key)) :
    ∀ count ≤ 1, hs.foldlM count_available_dictionary count =
      if count + (linesNamed (str "Available-Dictionary") hs).length ≤ 1
      then .ok (count + (linesNamed (str "Available-Dictionary") hs).length) else .error () := by
  induction hs with
  | nil => intro count hc; simp [linesNamed, hc, pure, Except.pure]
  | cons h hs ih =>
    intro count hc
    have ih := ih fun x hx => hl x (List.mem_cons_of_mem _ hx)
    rw [List.foldlM_cons, count_available_dictionary, is_available_dictionary_eq (hl h List.mem_cons_self)]
    by_cases hk : foldCase h.key = foldCase (str "Available-Dictionary")
    · have hcons : linesNamed (str "Available-Dictionary") (h :: hs) =
          h :: linesNamed (str "Available-Dictionary") hs := by simp [linesNamed, hk]
      rw [hcons, List.length_cons, if_pos (by simpa using hk)]
      by_cases h0 : count = 0
      · subst h0
        have := ih 1 (by omega)
        rw [show 0 + ((linesNamed (str "Available-Dictionary") hs).length + 1) =
          1 + (linesNamed (str "Available-Dictionary") hs).length by omega, ← this]
        rfl
      · rw [if_pos (by omega), if_neg (by omega)]
        rfl
    · have hcons : linesNamed (str "Available-Dictionary") (h :: hs) =
          linesNamed (str "Available-Dictionary") hs := by simp [linesNamed, hk]
      rw [hcons, if_neg (by simpa using hk), ← ih count hc]
      rfl

theorem stands_aside_eq {r : Request} (hr : r.CoreParsed) (chained : Bool) (zscf : StaticConf) :
    stands_aside chained zscf r =
      .ok (standsAside zscf r.is_main (r.values (str "Accept-Encoding")) (r.values (str "Available-Dictionary"))) := by
  have hlen : (linesNamed (str "Available-Dictionary") r.headers.toList).length =
      (r.values (str "Available-Dictionary")).length := by rw [Request.values, List.length_map]
  have hb : should_bypass chained r = .ok (decide ((r.values (str "Available-Dictionary")).length = 1 ∧
      linesWeight (r.values (str "Accept-Encoding")) (str "dcz") false > 0)) := by
    unfold should_bypass
    rw [PartList.walk_eq _ _ hr.parts, foldlM_count _ (fun h hh => .inr (hr.lowcase h hh)) 0 (by omega),
      request_coding_weight_values hr, hlen, Nat.zero_add]
    generalize (r.values (str "Available-Dictionary")).length = n
    by_cases h1 : n ≤ 1
    · rw [if_pos h1]
      by_cases h2 : n = 1
      · simp [h2, or_fault, bind, Except.bind, pure, Except.pure]
      · simp [h2, or_fault, bind, Except.bind, pure, Except.pure]
    · rw [if_neg h1]
      simp [show n ≠ 1 by omega, or_fault, bind, Except.bind, pure, Except.pure]
  unfold stands_aside standsAside
  cases zscf.dict_bypass <;> cases r.is_main <;> simp [hb]

/-- The zstd test of the handler, as a function of what it reads. -/
def acceptsZstd (zscf : StaticConf) (is_main : Bool) (ae : List Bytes) : Bool :=
  zscf.enable != .on || is_main && decide (linesWeight ae (str "zstd") true > 0)

/-- The routing, by the answers to the handler's questions. -/
def route (zscf : StaticConf) (sidecar : Sidecar) (cand aside acc : Bool) : Routing :=
  if !cand || zscf.enable == .off || aside then .declined
  else
    match sidecar with
    | .failed => .declined
    | .dir => .declined
    | .special => .not_found
    | .file false => .declined
    | .file true => if acc then .served else .declined

/-- The names the handler puts on the response. -/
def varyAdded (zscf : StaticConf) (sidecar : Sidecar) (cand aside : Bool) : List Bytes :=
  if !cand || zscf.enable == .off then []
  else if aside then [str "Accept-Encoding", str "Available-Dictionary", str "Sec-Fetch-Site"]
  else if zscf.enable == .on && sidecar == .file true then [str "Accept-Encoding"]
  else []

theorem static_send_gained (clcf : Option CoreLocConf) {resp out : Response} {routing : Routing}
    (h : static_send resp = .ok (routing, out)) : routing = .served ∧ Gained clcf [] resp out := by
  obtain ⟨resp1, hpush, h⟩ := bind_ok h
  cases h
  have hg := push_header_gained clcf hpush
  rw [varyNames_content_encoding] at hg
  exact ⟨rfl, hg.trans (.of_same rfl rfl)⟩

theorem static_answer_gained {clcf : Option CoreLocConf} {zscf : StaticConf} {accepts : Bool} {resp out : Response}
    {routing : Routing} (hw : resp.headers.WellFormed) (h : static_answer clcf zscf accepts resp = .ok (routing, out)) :
    routing = (if zscf.enable != .on || accepts then .served else .declined) ∧
      Gained clcf (if zscf.enable == .on then [str "Accept-Encoding"] else []) resp out := by
  unfold static_answer at h
  split at h
  · next hon =>
    obtain ⟨resp1, h1, h⟩ := bind_ok h
    have hg := vary_accept_encoding_gained hw h1
    rw [hon]
    cases accepts with
    | false => cases h; exact ⟨rfl, hg⟩
    | true =>
      obtain ⟨hr, hg'⟩ := static_send_gained clcf h
      exact ⟨hr, hg.trans hg'⟩
  · next hon =>
    obtain ⟨hr, hg⟩ := static_send_gained clcf h
    have hne : (zscf.enable == .on) = false := by simpa using hon
    rw [bne, hne]
    exact ⟨hr, hg⟩

theorem static_negotiate_cases {chained : Bool} {clcf : Option CoreLocConf} {zscf : StaticConf} {r : Request}
    {resp resp' : Response} {ans : Option Bool} (hw : resp.headers.WellFormed) (hr : r.CoreParsed)
    (h : static_negotiate chained clcf zscf r resp = .ok (ans, resp')) :
    let aside := standsAside zscf r.is_main (r.values (str "Accept-Encoding")) (r.values (str "Available-Dictionary"))
    ((!candidate r || zscf.enable == .off || aside) = true ∧ ans = none ∧
        ∀ sidecar, Gained clcf (varyAdded zscf sidecar (candidate r) aside) resp resp') ∨
      (candidate r = true ∧ zscf.enable ≠ .off ∧ aside = false ∧ resp' = resp ∧
        ans = some (acceptsZstd zscf r.is_main (r.values (str "Accept-Encoding")))) := by
  intro aside
  unfold static_negotiate at h
  rw [stands_aside_eq hr, accepts_eq hr] at h
  cases hcand : candidate r with
  | false =>
    rw [hcand] at h
    cases h
    exact .inl ⟨rfl, rfl, fun _ => .refl clcf resp⟩
  | true =>
    rw [hcand] at h
    by_cases hoff : zscf.enable = .off
    · simp only [hoff] at h ⊢
      cases h
      exact .inl ⟨rfl, rfl, fun _ => by simp only [varyAdded, hoff]; exact .refl clcf resp⟩
    · have hoff' : (zscf.enable == StaticMode.off) = false := by simpa using hoff
      simp only [if_neg hoff] at h
      change (Except.ok aside >>= _) = _ at h
      cases haside : aside with
      | true =>
        rw [haside] at h
        obtain ⟨_, ha, h⟩ := bind_ok h
        cases ha
        obtain ⟨resp1, h1, h⟩ := bind_ok h
        cases h
        refine .inl ⟨by simp, rfl, fun _ => ?_⟩
        simp only [varyAdded, hoff']
        exact vary_ae_dcz_gained hw h1
      | false =>
        rw [haside] at h
        refine .inr ⟨rfl, hoff, rfl, ?_⟩
        by_cases hon : zscf.enable = .on
        · simp only [hon] at h
          cases h
          simp [acceptsZstd, hon]
        · change (if _ then _ else _) = _ at h
          rw [if_neg hon] at h
          cases h
          simp [acceptsZstd, hon]

/-- Everything the handler can do: how it routes, and what it puts on the head. -/
theorem static_handler_cases {chained : Bool} {clcf : Option CoreLocConf} {zscf : StaticConf} {disk : Bytes → Sidecar}
    {r : Request} {resp out : Response} {routing : Routing} (hw : resp.headers.WellFormed) (hr : r.CoreParsed)
    (h : static_handler chained clcf zscf disk r resp = .ok (routing, out)) :
    let aside := standsAside zscf r.is_main (r.values (str "Accept-Encoding")) (r.values (str "Available-Dictionary"))
    routing = route zscf (disk r.uri) (candidate r) aside
        (acceptsZstd zscf r.is_main (r.values (str "Accept-Encoding"))) ∧
      Gained clcf (varyAdded zscf (disk r.uri) (candidate r) aside) resp out := by
  intro aside
  unfold static_handler at h
  obtain ⟨⟨ans, resp1⟩, hneg, h⟩ := bind_ok h
  rcases static_negotiate_cases hw hr hneg with ⟨hdone, rfl, hg⟩ | ⟨hcand, hoff, haside, rfl, rfl⟩
  · cases h
    exact ⟨by unfold route; rw [if_pos hdone], hg _⟩
  · change aside = false at haside
    have hoff' : (zscf.enable == StaticMode.off) = false := by simpa using hoff
    have hacc : ¬(zscf.enable ≠ .on ∧ acceptsZstd zscf r.is_main (r.values (str "Accept-Encoding")) = false) := by
      rintro ⟨hon, ha⟩
      simp [acceptsZstd, hon] at ha
    simp only [if_neg hacc] at h
    simp only [route, varyAdded, hcand, hoff', haside, Bool.not_true, Bool.or_self, Bool.false_eq_true, if_false]
    cases hdisk : disk r.uri with
    | failed => rw [hdisk] at h; cases h; exact ⟨rfl, by simpa using Gained.refl clcf _⟩
    | dir => rw [hdisk] at h; cases h; exact ⟨rfl, by simpa using Gained.refl clcf _⟩
    | special => rw [hdisk] at h; cases h; exact ⟨rfl, by simpa using Gained.refl clcf _⟩
    | file good =>
      rw [hdisk] at h
      cases good with
      | false => cases h; exact ⟨rfl, by simpa using Gained.refl clcf _⟩
      | true =>
        obtain ⟨hrt, hg⟩ := static_answer_gained hw h
        refine ⟨?_, by simpa using hg⟩
        rw [hrt]
        cases hon : zscf.enable <;> simp [acceptsZstd, hon]

/-- A request the handler stands aside for is declined. -/
theorem static_handler_aside {chained : Bool} {clcf : Option CoreLocConf} {zscf : StaticConf} {disk : Bytes → Sidecar}
    {r : Request} {resp : Response} (hw : resp.headers.WellFormed) (hr : r.CoreParsed) (hcand : candidate r = true)
    (hoff : zscf.enable ≠ .off) (hp : Granting resp.pool)
    (haside : standsAside zscf r.is_main (r.values (str "Accept-Encoding")) (r.values (str "Available-Dictionary")) =
      true) :
    ∃ out, static_handler chained clcf zscf disk r resp = .ok (.declined, out) := by
  obtain ⟨out, hv, -⟩ := (vary_ae_dcz_onlyRefused clcf true hw).granted hp
  refine ⟨out, ?_⟩
  unfold static_handler static_negotiate
  rw [stands_aside_eq hr, haside, hcand, hv]
  simp only [if_neg hoff]
  rfl

/-! ## Requests that differ in one header -/

/-- The request with its lines of one name replaced by a single line. -/
def Request.withLine (r : Request) (name value : Bytes) : Request :=
  let elts := r.headers.toList.filter (fun h => foldCase h.key ≠ foldCase name) ++
    [⟨1, name, value, some (foldCase name)⟩]
  { r with headers := ⟨r.headers.nalloc, elts, []⟩, accept_encoding := linesNamed (str "Accept-Encoding") elts }

theorem Request.withLine_toList (r : Request) (name value : Bytes) :
    (r.withLine name value).headers.toList = r.headers.toList.filter (fun h => foldCase h.key ≠ foldCase name) ++
      [⟨1, name, value, some (foldCase name)⟩] := List.append_nil _

theorem Request.withLine_coreParsed {r : Request} (hr : r.CoreParsed) (name value : Bytes) :
    (r.withLine name value).CoreParsed where
  parts := by simp [withLine, PartList.WellFormed]
  lowcase := by
    intro h hm
    rw [withLine_toList, List.mem_append, List.mem_filter, List.mem_singleton] at hm
    rcases hm with ⟨hm, -⟩ | rfl
    · exact hr.lowcase h hm
    · rfl
  chain := by rw [withLine_toList]; rfl

theorem Request.values_withLine (r : Request) (name value name' : Bytes) :
    (r.withLine name value).values name' =
      if foldCase name' = foldCase name then [value] else r.values name' := by
  simp only [values, linesNamed, withLine_toList, List.filter_append, List.filter_filter, List.map_append]
  split
  · next he =>
    rw [he, List.filter_eq_nil_iff.2 (by simp)]
    simp
  · next he =>
    have hrest : ∀ h ∈ r.headers.toList, (decide (foldCase h.key = foldCase name') &&
        decide (foldCase h.key ≠ foldCase name)) = decide (foldCase h.key = foldCase name') := by
      intro h _
      by_cases hk : foldCase h.key = foldCase name'
      · simp [hk, he]
      · simp [hk]
    rw [List.filter_congr hrest]
    simp [Ne.symm he]

/-! ## Two runs -/

/-- What a response that stood in for a dictionary client's leaves unsaid: the handler
routed by Available-Dictionary, and another request that agrees on every header named
would have been routed past the file. With `zstd_static on` the response names
Accept-Encoding, so that request must already accept dcz; with `always` it names
nothing. Lines another module put on the head count as named. -/
structure Overlooks (clcf : Option CoreLocConf) (zscf : StaticConf) (disk : Bytes → Sidecar) (r : Request)
    (resp : Response) : Prop where
  bypass : zscf.dict_bypass = true
  candidate : candidate r = true
  stays : ¬((r.values (str "Available-Dictionary")).length = 1 ∧
    linesWeight (r.values (str "Accept-Encoding")) (str "dcz") false > 0)
  answers : disk r.uri = .special ∨ disk r.uri = .file true ∧ (zscf.enable = .on →
    linesWeight (r.values (str "Accept-Encoding")) (str "zstd") true > 0 ∧
      linesWeight (r.values (str "Accept-Encoding")) (str "dcz") false > 0)
  ae : Names (sentVary clcf resp) (str "Accept-Encoding") →
    linesWeight (r.values (str "Accept-Encoding")) (str "dcz") false > 0
  ad : Names (sentVary clcf resp) (str "Available-Dictionary") → (r.values (str "Available-Dictionary")).length = 1

/-- The routing depends on the named headers only: every request that agrees with `r`
on them is routed as `r` was. -/
def VaryComplete (chained : Bool) (clcf : Option CoreLocConf) (zscf : StaticConf) (disk : Bytes → Sidecar)
    (resp : Response) (r : Request) (routing : Routing) (out : Response) : Prop :=
  ∀ r2 : Request, r2.CoreParsed → r2.is_main = true → r2.method = r.method → r2.uri = r.uri →
    (∀ name ∈ sentVary clcf out, r.values name = r2.values name) →
    ∀ pool routing2 out2,
      static_handler chained clcf zscf disk r2 { resp with pool := pool } = .ok (routing2, out2) →
      routing = routing2

/-- A request that agrees with `r` on every name in `names` and on every other but
`name`, whose line is free to be `value` where it is not named. -/
theorem exists_free_line {r : Request} (hr : r.CoreParsed) (names : List Bytes) (name value : Bytes) :
    ∃ r' : Request, r'.CoreParsed ∧ (r'.is_main = r.is_main ∧ r'.method = r.method ∧ r'.uri = r.uri) ∧
      (∀ n ∈ names, r'.values n = r.values n) ∧
      (∀ n, foldCase n ≠ foldCase name → r'.values n = r.values n) ∧
      r'.values name = if Names names name then r.values name else [value] := by
  by_cases hn : Names names name
  · exact ⟨r, hr, ⟨rfl, rfl, rfl⟩, fun _ _ => rfl, fun _ _ => rfl, (if_pos hn).symm⟩
  · refine ⟨r.withLine name value, Request.withLine_coreParsed hr name value, ⟨rfl, rfl, rfl⟩, fun n hm => ?_,
      fun n hne => ?_, ?_⟩
    · rw [Request.values_withLine, if_neg fun hf => hn ⟨n, hm, hf⟩]
    · rw [Request.values_withLine, if_neg hne]
    · rw [Request.values_withLine, if_pos rfl, if_neg hn]

/-- Where Accept-Encoding or Available-Dictionary is not named, some request that
agrees on the names is one the handler stands aside for. -/
theorem exists_aside {zscf : StaticConf} {r : Request} (names : List Bytes) (hr : r.CoreParsed)
    (hmain : r.is_main = true) (hbypass : zscf.dict_bypass = true)
    (hae : Names names (str "Accept-Encoding") →
      linesWeight (r.values (str "Accept-Encoding")) (str "dcz") false > 0)
    (had : Names names (str "Available-Dictionary") → (r.values (str "Available-Dictionary")).length = 1) :
    ∃ r2 : Request, r2.CoreParsed ∧ r2.is_main = true ∧ r2.method = r.method ∧ r2.uri = r.uri ∧
      (∀ name ∈ names, r.values name = r2.values name) ∧
      standsAside zscf r2.is_main (r2.values (str "Accept-Encoding")) (r2.values (str "Available-Dictionary")) = true := by
  obtain ⟨r1, hr1, ⟨hm1, hme1, hu1⟩, hn1, ho1, hv1⟩ := exists_free_line hr names (str "Accept-Encoding") (str "dcz")
  obtain ⟨r2, hr2, ⟨hm2, hme2, hu2⟩, hn2, ho2, hv2⟩ :=
    exists_free_line hr1 names (str "Available-Dictionary") (str ":AA==:")
  refine ⟨r2, hr2, by rw [hm2, hm1, hmain], hme2.trans hme1, hu2.trans hu1, fun name hm => ?_, ?_⟩
  · rw [hn2 name hm, hn1 name hm]
  · have hweight : linesWeight (r2.values (str "Accept-Encoding")) (str "dcz") false > 0 := by
      rw [ho2 _ (by decide), hv1]
      split
      · next hn => exact hae hn
      · decide +kernel
    have hone : (r2.values (str "Available-Dictionary")).length = 1 := by
      rw [hv2, ho1 _ (by decide)]
      split
      · next hn => exact had hn
      · rfl
    simp [standsAside, hbypass, hm2, hm1, hmain, hweight, hone]

theorem names_varyAdded {zscf : StaticConf} {sidecar : Sidecar} {cand : Bool} {name : Bytes} :
    Names (varyAdded zscf sidecar cand false) name →
      foldCase (str "Accept-Encoding") = foldCase name ∧ zscf.enable = .on ∧ sidecar = .file true := by
  intro h
  unfold varyAdded at h
  split at h
  · exact absurd h names_nil
  split at h
  · next hf => cases hf
  split at h
  · next hon =>
    simp only [Bool.and_eq_true, beq_iff_eq] at hon
    rw [names_cons] at h
    exact ⟨h.resolve_right names_nil, hon⟩
  · exact absurd h names_nil

/-- What was overlooked leads another request astray. -/
theorem not_varyComplete_of_overlooks {chained : Bool} {clcf : Option CoreLocConf} {zscf : StaticConf}
    {disk : Bytes → Sidecar} {resp out : Response} {r : Request} {routing : Routing} (hw : resp.headers.WellFormed)
    (hr : r.CoreParsed) (hmain : r.is_main = true) (hoff : zscf.enable ≠ .off)
    (h : static_handler chained clcf zscf disk r resp = .ok (routing, out)) (ho : Overlooks clcf zscf disk r resp) :
    ¬VaryComplete chained clcf zscf disk resp r routing out := by
  obtain ⟨hrt, hg⟩ := static_handler_cases hw hr h
  have haside : standsAside zscf r.is_main (r.values (str "Accept-Encoding")) (r.values (str "Available-Dictionary")) =
      false := by
    simp only [standsAside, ho.bypass, hmain, Bool.and_self, Bool.true_and, decide_eq_false_iff_not]
    exact ho.stays
  rw [haside] at hrt hg
  have hne : routing ≠ .declined := by
    have hoff' : (zscf.enable == StaticMode.off) = false := by simpa using hoff
    rw [hrt]
    simp only [route, ho.candidate, hoff', Bool.not_true, Bool.or_self, Bool.false_eq_true, if_false]
    rcases ho.answers with hd | ⟨hd, hacc⟩
    · rw [hd]
      exact nofun
    · have : acceptsZstd zscf r.is_main (r.values (str "Accept-Encoding")) = true := by
        by_cases hon : zscf.enable = .on
        · simp [acceptsZstd, hmain, (hacc hon).1]
        · simp [acceptsZstd, hon]
      rw [hd, this]
      exact nofun
  intro hc
  obtain ⟨r2, hr2, hmain2, hmethod, huri, hagree, haside2⟩ := exists_aside (sentVary clcf out) hr hmain ho.bypass
    (fun hn => by
      rcases (hg.names _).1 hn with hn | hn
      · exact ho.ae hn
      · obtain ⟨-, hon, hfile⟩ := names_varyAdded hn
        rcases ho.answers with hd | ⟨-, hacc⟩
        · rw [hd] at hfile
          cases hfile
        · exact (hacc hon).2)
    (fun hn => by
      rcases (hg.names _).1 hn with hn | hn
      · exact ho.ad hn
      · exact absurd (names_varyAdded hn).1 (by decide))
  have hcand2 : candidate r2 = true := by
    rw [← ho.candidate]
    simp only [candidate, hmethod, huri]
  obtain ⟨out2, h2⟩ := @static_handler_aside chained clcf zscf disk r2 { resp with pool := [] } hw hr2 hcand2 hoff
    List.not_mem_nil
    haside2
  exact hne (hc r2 hr2 hmain2 hmethod huri hagree [] .declined out2 h2)

theorem route_ne_declined {zscf : StaticConf} {sidecar : Sidecar} {cand aside acc : Bool}
    (h : route zscf sidecar cand aside acc ≠ .declined) :
    cand = true ∧ aside = false ∧ (sidecar = .special ∨ sidecar = .file true ∧ acc = true) := by
  unfold route at h
  split at h
  · exact absurd rfl h
  · next hgo =>
    simp only [Bool.or_eq_true, not_or, Bool.not_eq_true, Bool.not_eq_false'] at hgo
    refine ⟨hgo.1.1, hgo.2, ?_⟩
    match sidecar, h with
    | .failed, h => exact absurd rfl h
    | .dir, h => exact absurd rfl h
    | .special, _ => exact .inl rfl
    | .file false, h => exact absurd rfl h
    | .file true, h =>
      refine .inr ⟨rfl, ?_⟩
      cases acc with
      | false => exact absurd rfl h
      | true => rfl

/-- Where the handler stands aside for both requests or for neither, the names it put
on the head decide the routing. -/
theorem route_agrees {clcf : Option CoreLocConf} {zscf : StaticConf} {sidecar : Sidecar} {cand aside is_main : Bool}
    {ae ae2 : List Bytes} {resp out : Response} (hg : Gained clcf (varyAdded zscf sidecar cand aside) resp out)
    (hae : Names (sentVary clcf out) (str "Accept-Encoding") → ae = ae2) :
    route zscf sidecar cand aside (acceptsZstd zscf is_main ae) =
      route zscf sidecar cand aside (acceptsZstd zscf is_main ae2) := by
  unfold route
  split
  · rfl
  · next hgo =>
    simp only [Bool.or_eq_true, not_or, Bool.not_eq_true] at hgo
    match sidecar with
    | .failed => rfl
    | .dir => rfl
    | .special => rfl
    | .file false => rfl
    | .file true =>
      by_cases hon : zscf.enable = .on
      · have hmem : str "Accept-Encoding" ∈ varyAdded zscf (.file true) cand aside := by
          simp only [varyAdded, hgo, hon]
          simp
        rw [hae (hg.gains hmem)]
      · simp [acceptsZstd, hon]

/-- A request routed otherwise, though it agrees, shows what was overlooked. -/
theorem overlooks_of_differ {chained : Bool} {clcf : Option CoreLocConf} {zscf : StaticConf} {disk : Bytes → Sidecar}
    {resp out : Response} {r : Request} {routing : Routing} (hw : resp.headers.WellFormed) (hr : r.CoreParsed)
    (hmain : r.is_main = true) (h : static_handler chained clcf zscf disk r resp = .ok (routing, out))
    (hc : ¬VaryComplete chained clcf zscf disk resp r routing out) : Overlooks clcf zscf disk r resp := by
  simp only [VaryComplete, not_forall] at hc
  obtain ⟨r2, hr2, hmain2, hmethod, huri, hagree, pool, routing2, out2, h2, hne⟩ := hc
  have hw2 : { resp with pool := pool }.headers.WellFormed := hw
  obtain ⟨hrt, hg⟩ := static_handler_cases hw hr h
  obtain ⟨hrt2, -⟩ := static_handler_cases hw2 hr2 h2
  have hnamed : ∀ name, Names (sentVary clcf out) name → r.values name = r2.values name := by
    rintro name ⟨n, hn, hf⟩
    rw [← r.values_congr hf, ← r2.values_congr hf]
    exact hagree n hn
  have hcand2 : candidate r2 = candidate r := by simp only [candidate, hmethod, huri]
  rw [hcand2, huri, hmain2] at hrt2
  rw [hmain] at hrt hg
  cases ha2 : standsAside zscf true (r2.values (str "Accept-Encoding")) (r2.values (str "Available-Dictionary")) with
  | true =>
    -- the second request was passed on, so the first was answered
    rw [ha2] at hrt2
    have hdecl : routing2 = .declined := by rw [hrt2]; simp [route]
    rw [hdecl, hrt] at hne
    obtain ⟨hcand, ha, hans⟩ := route_ne_declined hne
    simp only [standsAside, Bool.and_true, Bool.and_eq_true, decide_eq_true_eq] at ha2
    obtain ⟨hbypass, hone2, hweight2⟩ := ha2
    refine ⟨hbypass, hcand, ?_, ?_, fun hn => ?_, fun hn => ?_⟩
    · simpa [standsAside, hbypass] using ha
    · refine hans.imp id fun ⟨hfile, hacc⟩ => ⟨hfile, fun hon => ?_⟩
      have hmem : str "Accept-Encoding" ∈ varyAdded zscf (disk r.uri) (candidate r)
          (standsAside zscf true (r.values (str "Accept-Encoding")) (r.values (str "Available-Dictionary"))) := by
        simp [varyAdded, hcand, ha, hon, hfile]
      refine ⟨by simpa [acceptsZstd, hon] using hacc, ?_⟩
      rw [hnamed _ (hg.gains hmem)]
      exact hweight2
    · rw [hnamed _ (hg.keeps hn)]
      exact hweight2
    · rw [hnamed _ (hg.keeps hn)]
      exact hone2
  | false =>
    exfalso
    rw [ha2] at hrt2
    cases ha : standsAside zscf true (r.values (str "Accept-Encoding")) (r.values (str "Available-Dictionary")) with
    | false =>
      rw [ha] at hrt hg
      exact hne (by rw [hrt, hrt2, route_agrees hg (hnamed _)])
    | true =>
      -- the first request was passed on and its response names both headers
      rw [ha] at hrt hg
      by_cases hgo : (!candidate r || zscf.enable == .off) = true
      · exact hne (by rw [hrt, hrt2]; simp [route, hgo])
      · have hadded : varyAdded zscf (disk r.uri) (candidate r) true =
            [str "Accept-Encoding", str "Available-Dictionary", str "Sec-Fetch-Site"] := by
          rw [varyAdded, if_neg hgo, if_pos rfl]
        rw [hadded] at hg
        rw [hnamed (str "Accept-Encoding") (hg.gains (by simp)),
          hnamed (str "Available-Dictionary") (hg.gains (by simp)), ha2] at ha
        cases ha

/-- The routing of a request depends on the headers its response names exactly when the
handler did not answer it in place of a dictionary client. -/
theorem static_vary_complete_iff (chained : Bool) (clcf : Option CoreLocConf) (zscf : StaticConf)
    (disk : Bytes → Sidecar) (resp : Response) (hw : resp.headers.WellFormed) (hoff : zscf.enable ≠ .off)
    {r : Request} (hr : r.CoreParsed) (hmain : r.is_main = true) {routing : Routing} {out : Response}
    (h : static_handler chained clcf zscf disk r resp = .ok (routing, out)) :
    VaryComplete chained clcf zscf disk resp r routing out ↔ ¬Overlooks clcf zscf disk r resp := by
  constructor
  · exact fun hc ho => not_varyComplete_of_overlooks hw hr hmain hoff h ho hc
  · intro ho
    by_contra hc
    exact ho (overlooks_of_differ hw hr hmain h hc)

/-- With the bypass on, the response that was left to a dictionary client names all the
routing depends on, and the one that stood in for it does not. -/
theorem static_vary_complete_bypass_on :
    let zscf : StaticConf := ⟨.on, true⟩
    let run := fun r => static_handler true none zscf (fun _ => .file true) r sampleResponse
    let complete := VaryComplete true none zscf (fun _ => .file true) sampleResponse
    let r1 := requestOf [("Accept-Encoding", "zstd, dcz"), ("Available-Dictionary", ":AA==:")]
    let r2 := requestOf [("Accept-Encoding", "zstd, dcz")]
    (∃ out, run r1 = .ok (.declined, out) ∧ complete r1 .declined out) ∧
      (∃ out, run r2 = .ok (.served, out) ∧ ¬complete r2 .served out) := by
  intro zscf run complete r1 r2
  have hw : sampleResponse.headers.WellFormed := by simp [sampleResponse, PartList.WellFormed]
  have hiff : ∀ {r : Request} {routing : Routing} {out : Response}, r.CoreParsed → r.is_main = true →
      run r = .ok (routing, out) → (complete r routing out ↔ ¬Overlooks none zscf (fun _ => .file true) r sampleResponse) :=
    fun hr hmain h => static_vary_complete_iff true none zscf _ sampleResponse hw (by decide) hr hmain h
  refine ⟨?_, ?_⟩
  · have hrun : (run r1).map Prod.fst = .ok .declined := by decide +kernel
    cases h : run r1 with
    | error e => rw [h] at hrun; cases hrun
    | ok res =>
      obtain ⟨routing, out⟩ := res
      rw [h] at hrun
      cases hrun
      refine ⟨out, rfl, (hiff (requestOf_coreParsed _) rfl h).2 fun ho => ho.stays ?_⟩
      decide +kernel
  · have hrun : (run r2).map Prod.fst = .ok .served := by decide +kernel
    cases h : run r2 with
    | error e => rw [h] at hrun; cases hrun
    | ok res =>
      obtain ⟨routing, out⟩ := res
      rw [h] at hrun
      cases hrun
      refine ⟨out, rfl, fun hc => (hiff (requestOf_coreParsed _) rfl h).1 hc ?_⟩
      exact ⟨rfl, by decide +kernel, by decide +kernel, by decide +kernel, by decide +kernel, by decide +kernel⟩

/-- With the bypass on, two requests for one URI agree on the one header the first
response names, and are routed apart by the header it does not. -/
theorem static_vary_misses_dictionary :
    let zscf : StaticConf := ⟨.on, true⟩
    let run := fun r => static_handler true none zscf (fun _ => .file true) r sampleResponse
    let r1 := requestOf [("Accept-Encoding", "zstd, dcz")]
    let r2 := requestOf [("Accept-Encoding", "zstd, dcz"), ("Available-Dictionary", ":AA==:")]
    (r1.CoreParsed ∧ r2.CoreParsed ∧ r1.is_main = true ∧ r2.is_main = true ∧ r1.method = r2.method ∧ r1.uri = r2.uri) ∧
      (run r1).map (fun res => (res.1, sentVary none res.2)) = .ok (.served, [str "Accept-Encoding"]) ∧
      (∀ name ∈ [str "Accept-Encoding"], r1.values name = r2.values name) ∧
      (run r2).map Prod.fst = .ok .declined := by
  intro zscf run r1 r2
  refine ⟨⟨requestOf_coreParsed _, requestOf_coreParsed _, rfl, rfl, rfl, rfl⟩, ?_, ?_, ?_⟩
  · decide +kernel
  · decide +kernel
  · decide +kernel

end NginxZstd
