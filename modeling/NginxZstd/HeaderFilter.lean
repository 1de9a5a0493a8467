import NginxZstd.CacheControl
import NginxZstd.Dcz.Negotiate
import NginxZstd.Vary
/-!
# The header filter

The decision to encode a response, and the Vary names that go with it. A response
that stayed behind an eligibility gate was not looked at with the request in hand;
past the gates, every header the decision reads is named before it is read.
-/

namespace NginxZstd

open Lib

/-- What `ngx_http_zstd_ctx_t` holds when the header filter is done with it. -/
structure FilterCtx where
  dcz_dict : Option DczDict
  pledged_size : Int

/-- The content coding a response is sent with. -/
inductive Coding where
  | identity
  | zstd
  | dcz (dict : DczDict)
deriving DecidableEq

/-- Without a context the body filter passes the body on. -/
def coding : Option FilterCtx → Coding
  | none => .identity
  | some { dcz_dict := none, .. } => .zstd
  | some { dcz_dict := some dict, .. } => .dcz dict

/-- `NGX_HTTP_ZSTD_MAX_ELIGIBLE_STATUS`. -/
def max_eligible_status : Nat := 299

def status_eligible (status : Nat) : Bool :=
  !(status < 200 || status == 204 || status == 205 || status == 206 ||
    (status > max_eligible_status && status != 403 && status != 404 && status != 410))

/-- `ngx_http_test_content_type`. -/
def test_content_type (types : Option (List Bytes)) (resp : Response) : Bool :=
  match types with
  | none => true
  | some types =>
    if resp.content_type.length = 0 then false
    else types.contains (foldCase (resp.content_type.take resp.content_type_len))

/-- `ngx_http_test_predicates`: `NGX_OK` when every value is empty or `0`. -/
def test_predicates (r : Request) : List (Request → Option Bytes) → Bool
  | [] => true
  | p :: ps =>
    match p r with
    | none => false
    | some v => if v.length ≠ 0 ∧ (v.length ≠ 1 ∨ v.head? ≠ some 0x30) then false else test_predicates r ps

/-- The gates in front of the first Vary line. -/
def eligible (zlcf : LocConf) (is_main : Bool) (resp : Response) : Except Abort Bool := do
  if !zlcf.enable then return false
  if !is_main then return false
  if !status_eligible resp.status then return false
  if resp.content_encoding.any (·.length != 0) then return false
  if resp.content_length_n ≠ -1 ∧ resp.content_length_n < zlcf.min_length then return false
  if zlcf.max_length.any fun max => resp.content_length_n ≠ -1 ∧ resp.content_length_n > max then return false
  if resp.header_only then return false
  if !test_content_type zlcf.types resp then return false
  if ← cache_control_no_transform resp then return false
  return true

/-- The push for `zstd_bypass_vary`. -/
def push_bypass_vary (zlcf : LocConf) (resp : Response) : Except Abort Response :=
  match zlcf.bypass_vary with
  | none => .ok resp
  | some name => push_header resp (str "Vary") name.bytes

def bypassed (zlcf : LocConf) (r : Request) : Bool := zlcf.bypass.any fun ps => !test_predicates r ps

/-- Commit to an encoding: the context, Content-Encoding and the cleared length. -/
def encode (dcz : Option DczDict) (resp : Response) : Except Abort (Option FilterCtx × Response) := do
  let resp ← alloc { resp with gzip_tested := true, gzip_ok := false }
  let value := if dcz.isSome then str "dcz" else str "zstd"
  let resp ← push_header resp (str "Content-Encoding") value
  return (some { dcz_dict := dcz, pledged_size := resp.content_length_n },
    { resp with content_encoding := some value, content_length_n := -1 })

/-- The push for a location with dictionaries. -/
def push_vary_dcz (zlcf : LocConf) (resp : Response) : Except Abort Response :=
  if zlcf.dcz_dicts.getD [] ≠ [] then vary_dcz resp else .ok resp

/-- The filter behind its last Vary line. -/
def negotiate_and_encode (env : Env) (zlcf : LocConf) (r : Request) (resp : Response) :
    Except Abort (Option FilterCtx × Response) := do
  match ← dcz_negotiate env zlcf r with
  | some dcz => encode (some dcz) resp
  | none => if ← accepts env.chained r then encode none resp else return (none, resp)

/-- `ngx_http_zstd_header_filter`, up to the call of the next filter. -/
def header_filter (env : Env) (clcf : Option CoreLocConf) (zlcf : LocConf) (r : Request) (resp : Response) :
    Except Abort (Option FilterCtx × Response) := do
  if !(← eligible zlcf r.is_main resp) then return (none, resp)
  let resp ← push_bypass_vary zlcf resp
  let resp ← vary_accept_encoding clcf resp
  if bypassed zlcf r then return (none, resp)
  let resp ← push_vary_dcz zlcf resp
  negotiate_and_encode env zlcf r resp

/-! ## What the filter does -/

/-- The coding of a response past the gates and the bypass, from what the
negotiation reads. -/
def codingChoice (env : Env) (zlcf : LocConf) (is_main ssl : Bool) (ae ad sfs : List Bytes) : Coding :=
  match dczChoice env zlcf is_main ssl ae ad sfs with
  | some dict => .dcz dict
  | none => if is_main && decide (linesWeight ae (str "zstd") true > 0) then .zstd else .identity

theorem fieldNames_token (name : Token) : fieldNames name.bytes = [name.bytes] := by
  have hplain : ∀ c ∈ name.bytes, is_ows c = false ∧ c ≠ comma := by
    intro c hc
    have ht := name.tchars c hc
    constructor
    · cases ho : is_ows c with
      | false => rfl
      | true =>
        simp only [is_ows, Bool.or_eq_true, beq_iff_eq] at ho
        rcases ho with rfl | rfl <;> exact absurd ht (by decide)
    · rintro rfl
      exact absurd ht (by decide)
  have htrim : trim name.bytes = name.bytes := by
    unfold trim
    rw [List.dropWhile_eq_self_iff.2 fun hl => by simp [(hplain _ (List.getElem_mem hl)).1],
      List.rdropWhile_eq_self_iff.2 fun hl => by simp [(hplain _ (List.getLast_mem hl)).1]]
  simp [fieldNames, List.splitOn_eq_singleton fun h => (hplain _ h).2 rfl, htrim, name.nonempty]

theorem push_bypass_vary_gained (clcf : Option CoreLocConf) {zlcf : LocConf} {resp resp' : Response}
    (h : push_bypass_vary zlcf resp = .ok resp') :
    Gained clcf (zlcf.bypass_vary.toList.map Token.bytes) resp resp' := by
  unfold push_bypass_vary at h
  split at h
  · next hn =>
    cases h
    rw [hn]
    exact .refl clcf resp
  · next name hn =>
    have hg := push_vary_gained clcf h
    rw [fieldNames_token] at hg
    rw [hn]
    exact hg

/-- An encoded response has the coding it was given, and lost no name. -/
theorem encode_ok (clcf : Option CoreLocConf) {dcz : Option DczDict} {resp out : Response} {ctx : Option FilterCtx}
    (h : encode dcz resp = .ok (ctx, out)) :
    Gained clcf [] resp out ∧ coding ctx = match dcz with | some dict => .dcz dict | none => .zstd := by
  obtain ⟨resp1, halloc, h⟩ := bind_ok h
  obtain ⟨resp2, hpush, h⟩ := bind_ok h
  cases h
  have hg : Gained clcf [] resp resp1 := by
    unfold alloc at halloc
    split at halloc <;> cases halloc
    exact .of_same rfl rfl
  have hg' := push_header_gained clcf hpush
  rw [varyNames_content_encoding] at hg'
  exact ⟨(hg.trans hg').trans (.of_same rfl rfl), by cases dcz <;> rfl⟩

theorem push_vary_dcz_gained (clcf : Option CoreLocConf) {zlcf : LocConf} {resp resp' : Response}
    (hw : resp.headers.WellFormed) (h : push_vary_dcz zlcf resp = .ok resp') :
    Gained clcf (if zlcf.dcz_dicts.getD [] ≠ [] then [str "Available-Dictionary", str "Sec-Fetch-Site"] else [])
      resp resp' := by
  unfold push_vary_dcz at h
  split at h
  · next hd =>
    rw [if_pos hd]
    exact vary_dcz_gained clcf hw h
  · next hd =>
    cases h
    rw [if_neg hd]
    exact .refl clcf resp

theorem negotiate_and_encode_ok (clcf : Option CoreLocConf) {env : Env} {zlcf : LocConf} {r : Request}
    {resp out : Response} {ctx : Option FilterCtx} (hr : r.CoreParsed)
    (h : negotiate_and_encode env zlcf r resp = .ok (ctx, out)) :
    Gained clcf [] resp out ∧
      coding ctx = codingChoice env zlcf r.is_main r.ssl (r.values (str "Accept-Encoding"))
        (r.values (str "Available-Dictionary")) (r.values (str "Sec-Fetch-Site")) := by
  unfold negotiate_and_encode at h
  rw [dcz_negotiate_eq env zlcf hr, accepts_eq hr] at h
  obtain ⟨dcz, hd, h⟩ := bind_ok h
  cases hd
  unfold codingChoice
  generalize dczChoice env zlcf r.is_main r.ssl _ _ _ = dcz at h ⊢
  cases dcz with
  | some dict => exact encode_ok clcf h
  | none =>
    obtain ⟨acc, hacc, h⟩ := bind_ok h
    cases hacc
    split at h
    · next hok =>
      simp only [if_pos hok]
      exact encode_ok clcf h
    · next hok =>
      cases h
      simp only [if_neg hok]
      exact ⟨.refl clcf _, rfl⟩

/-- Everything the filter can do with a response: stop at a gate, or name what it
goes on to read and decide by that. -/
theorem header_filter_cases {env : Env} {clcf : Option CoreLocConf} {zlcf : LocConf} {r : Request}
    {resp out : Response} {ctx : Option FilterCtx} (hw : resp.headers.WellFormed) (hr : r.CoreParsed)
    (h : header_filter env clcf zlcf r resp = .ok (ctx, out)) :
    (eligible zlcf r.is_main resp = .ok false ∧ ctx = none) ∨
    (eligible zlcf r.is_main resp = .ok true ∧
      (∀ name, zlcf.bypass_vary = some name → Names (sentVary clcf out) name.bytes) ∧
      Names (sentVary clcf out) (str "Accept-Encoding") ∧
      ((bypassed zlcf r = true ∧ ctx = none) ∨
        (bypassed zlcf r = false ∧
          (zlcf.dcz_dicts.getD [] ≠ [] → Names (sentVary clcf out) (str "Available-Dictionary") ∧
            Names (sentVary clcf out) (str "Sec-Fetch-Site")) ∧
          coding ctx = codingChoice env zlcf r.is_main r.ssl (r.values (str "Accept-Encoding"))
            (r.values (str "Available-Dictionary")) (r.values (str "Sec-Fetch-Site"))))) := by
  unfold header_filter at h
  obtain ⟨el, hel, h⟩ := bind_ok h
  cases el with
  | false => cases h; exact .inl ⟨hel, rfl⟩
  | true =>
    obtain ⟨resp1, hbypass, h⟩ := bind_ok h
    obtain ⟨resp2, hae, h⟩ := bind_ok h
    have g1 := push_bypass_vary_gained clcf hbypass
    have g2 := g1.trans (vary_accept_encoding_gained (g1.parts hw) hae)
    have hnames : ∀ name, zlcf.bypass_vary = some name → Names (sentVary clcf resp2) name.bytes := fun name hn =>
      g2.gains (List.mem_append_left _ (by rw [hn]; simp))
    have haenc : Names (sentVary clcf resp2) (str "Accept-Encoding") := g2.gains (by simp)
    refine .inr ⟨hel, ?_⟩
    cases hby : bypassed zlcf r with
    | true =>
      rw [hby, if_pos rfl] at h
      cases h
      exact ⟨hnames, haenc, .inl ⟨rfl, rfl⟩⟩
    | false =>
      rw [hby, if_neg (by decide)] at h
      obtain ⟨resp3, hdcz, h⟩ := bind_ok h
      have g3 := push_vary_dcz_gained clcf (g2.parts hw) hdcz
      obtain ⟨g4, hcoding⟩ := negotiate_and_encode_ok clcf hr h
      have hkeep : ∀ name, Names (sentVary clcf resp2) name → Names (sentVary clcf out) name :=
        fun name hn => g4.keeps (g3.keeps hn)
      refine ⟨fun name hn => hkeep _ (hnames name hn), hkeep _ haenc, .inr ⟨rfl, fun hd => ?_, hcoding⟩⟩
      rw [if_pos hd] at g3
      exact ⟨g4.keeps (g3.gains (by simp)), g4.keeps (g3.gains (by simp))⟩

/-- The gates allocate nothing, and read no further than the list goes. -/
theorem eligible_total (zlcf : LocConf) (is_main : Bool) {resp : Response} (hw : resp.headers.WellFormed) :
    ∃ el, eligible zlcf is_main resp = .ok el := by
  obtain ⟨found, hcc⟩ := cache_control_no_transform_total hw
  unfold eligible
  rw [hcc]
  cases found
  all_goals
    repeat' split
    all_goals exact ⟨_, rfl⟩

theorem push_bypass_vary_onlyRefused (zlcf : LocConf) (resp : Response) :
    OnlyRefused resp.pool Response.pool (push_bypass_vary zlcf resp) := by
  unfold push_bypass_vary
  split
  · exact .of_ok id
  · exact push_header_onlyRefused _ _ _

theorem push_vary_dcz_onlyRefused (zlcf : LocConf) {resp : Response} (hw : resp.headers.WellFormed) :
    OnlyRefused resp.pool Response.pool (push_vary_dcz zlcf resp) := by
  unfold push_vary_dcz
  split
  · exact vary_dcz_onlyRefused hw
  · exact .of_ok id

theorem encode_onlyRefused (dcz : Option DczDict) (resp : Response) :
    OnlyRefused resp.pool (fun out => out.2.pool) (encode dcz resp) := by
  unfold encode
  apply (alloc_onlyRefused { resp with gzip_tested := true, gzip_ok := false }).bind
  intro resp1 _
  apply (push_header_onlyRefused resp1 _ _).bind
  intro resp2 _
  exact .of_ok id

theorem negotiate_and_encode_onlyRefused (env : Env) (zlcf : LocConf) {r : Request} (resp : Response)
    (hr : r.CoreParsed) :
    OnlyRefused resp.pool (fun out => out.2.pool) (negotiate_and_encode env zlcf r resp) := by
  unfold negotiate_and_encode
  rw [dcz_negotiate_eq env zlcf hr, accepts_eq hr, ok_then]
  split
  · exact encode_onlyRefused _ _
  · rw [ok_then]
    split
    · exact encode_onlyRefused _ _
    · exact .of_ok id

/-- On what nginx hands over, the filter fails only for want of memory. -/
theorem header_filter_onlyRefused (env : Env) (clcf : Option CoreLocConf) (zlcf : LocConf) {r : Request}
    {resp : Response} (hw : resp.headers.WellFormed) (hr : r.CoreParsed) :
    OnlyRefused resp.pool (fun out => out.2.pool) (header_filter env clcf zlcf r resp) := by
  obtain ⟨el, hel⟩ := eligible_total zlcf r.is_main hw
  unfold header_filter
  rw [hel, ok_then]
  split
  · exact .of_ok id
  apply (push_bypass_vary_onlyRefused zlcf resp).bind
  intro resp1 h1
  have hw1 := (push_bypass_vary_gained clcf h1).parts hw
  apply (vary_accept_encoding_onlyRefused clcf hw1).bind
  intro resp2 h2
  have hw2 := (vary_accept_encoding_gained hw1 h2).parts hw1
  split
  · exact .of_ok id
  apply (push_vary_dcz_onlyRefused zlcf hw2).bind
  intro resp3 _
  exact negotiate_and_encode_onlyRefused env zlcf resp3 hr

/-! ## Two runs -/

/-- Whether a request is bypassed depends on nothing but the header
`zstd_bypass_vary` names, and on nothing of the request when it names none. -/
def BypassKeyed (zlcf : LocConf) : Prop :=
  ∀ r1 r2 : Request, (∀ name, zlcf.bypass_vary = some name → r1.values name.bytes = r2.values name.bytes) →
    bypassed zlcf r1 = bypassed zlcf r2

/-- Without dictionaries the choice reads Accept-Encoding only. -/
theorem codingChoice_congr {env : Env} {zlcf : LocConf} {is_main ssl : Bool} {ae ad ad' sfs sfs' : List Bytes}
    (h : zlcf.dcz_dicts.getD [] ≠ [] → ad = ad' ∧ sfs = sfs') :
    codingChoice env zlcf is_main ssl ae ad sfs = codingChoice env zlcf is_main ssl ae ad' sfs' := by
  by_cases hd : zlcf.dcz_dicts.getD [] = []
  · simp [codingChoice, dczChoice, hd]
  · obtain ⟨rfl, rfl⟩ := h hd
    rfl

theorem coding_agrees {env : Env} {clcf : Option CoreLocConf} {zlcf : LocConf} {resp1 resp2 : Response}
    (hkeyed : BypassKeyed zlcf) {r1 r2 : Request} (hr1 : r1.CoreParsed) (hr2 : r2.CoreParsed)
    (hmain : r1.is_main = r2.is_main) (hssl : r1.ssl = r2.ssl) {ctx1 ctx2 : Option FilterCtx} {out1 out2 : Response}
    (h1 : header_filter env clcf zlcf r1 resp1 = .ok (ctx1, out1))
    (h2 : header_filter env clcf zlcf r2 resp2 = .ok (ctx2, out2))
    (hw1 : resp1.headers.WellFormed) (hw2 : resp2.headers.WellFormed)
    (hel : eligible zlcf r1.is_main resp1 = eligible zlcf r2.is_main resp2)
    (hagree : ∀ name, Names (sentVary clcf out1) name → r1.values name = r2.values name) :
    coding ctx1 = coding ctx2 := by
  rcases header_filter_cases hw1 hr1 h1 with ⟨he1, rfl⟩ | ⟨he1, hby1, hae1, hcase1⟩
  · -- a gate stopped the first response, and gates do not look at the request
    rcases header_filter_cases hw2 hr2 h2 with ⟨-, rfl⟩ | ⟨he2, -⟩
    · rfl
    · rw [← hel, he1] at he2
      cases he2
  · rcases header_filter_cases hw2 hr2 h2 with ⟨he2, -⟩ | ⟨-, -, -, hcase2⟩
    · rw [← hel, he1] at he2
      cases he2
    have hby := hkeyed r1 r2 fun name hn => hagree _ (hby1 name hn)
    rcases hcase1 with ⟨hb1, rfl⟩ | ⟨hb1, hdcz1, hc1⟩
    · rcases hcase2 with ⟨-, rfl⟩ | ⟨hb2, -⟩
      · rfl
      · rw [← hby, hb1] at hb2
        cases hb2
    · rcases hcase2 with ⟨hb2, -⟩ | ⟨-, -, hc2⟩
      · rw [← hby, hb1] at hb2
        cases hb2
      rw [hc1, hc2, hmain, hssl, hagree _ hae1]
      exact codingChoice_congr fun hd => ⟨hagree _ (hdcz1 hd).1, hagree _ (hdcz1 hd).2⟩

/-- Two requests that agree on every header the first response's Vary names get the
same content coding, unless the second is refused memory and fails for it. -/
theorem header_filter_vary_complete (env : Env) (clcf : Option CoreLocConf) (zlcf : LocConf) (resp : Response)
    (hw : resp.headers.WellFormed) (hkeyed : BypassKeyed zlcf) {r1 r2 : Request} (hr1 : r1.CoreParsed)
    (hr2 : r2.CoreParsed) (hmain : r1.is_main = r2.is_main) (hssl : r1.ssl = r2.ssl) {pool1 pool2 : List Bool}
    {ctx1 : Option FilterCtx} {out1 : Response}
    (h1 : header_filter env clcf zlcf r1 { resp with pool := pool1 } = .ok (ctx1, out1))
    (hagree : ∀ name ∈ sentVary clcf out1, r1.values name = r2.values name) :
    false ∈ pool2 ∧ header_filter env clcf zlcf r2 { resp with pool := pool2 } = .error .error ∨
      ∃ ctx2 out2, header_filter env clcf zlcf r2 { resp with pool := pool2 } = .ok (ctx2, out2) ∧
        coding ctx1 = coding ctx2 := by
  have hnamed : ∀ name, Names (sentVary clcf out1) name → r1.values name = r2.values name := by
    rintro name ⟨n, hn, hf⟩
    rw [← r1.values_congr hf, ← r2.values_congr hf]
    exact hagree n hn
  have hel : eligible zlcf r1.is_main { resp with pool := pool1 } =
      eligible zlcf r2.is_main { resp with pool := pool2 } := by
    rw [hmain]
    rfl
  cases h2 : header_filter env clcf zlcf r2 { resp with pool := pool2 } with
  | error e =>
    have hw2 : { resp with pool := pool2 }.headers.WellFormed := hw
    obtain ⟨rfl, hp⟩ := (header_filter_onlyRefused env clcf zlcf hw2 hr2).fails e h2
    exact .inl ⟨not_not.1 hp, rfl⟩
  | ok out =>
    obtain ⟨ctx2, out2⟩ := out
    exact .inr ⟨ctx2, out2, rfl, coding_agrees hkeyed hr1 hr2 hmain hssl h1 h2 hw hw hel hnamed⟩

/-- A location with one dictionary, which hashes to zeros, and the defaults elsewhere. -/
def oneDictConf : LocConf where
  enable := true
  level := 3
  min_length := 20
  max_length := none
  target_cblock_size := 0
  window_log := 0
  long_mode := false
  dcz_window_cap := 0
  bypass := none
  bypass_vary := none
  types := none
  bufs := ⟨32, 4096⟩
  dict := none
  dcz_dicts := some [⟨str "/d", [], zeroDigest, none, []⟩]
  dcz_assume_secure := false

def dictEnv : Env := ⟨true, fun _ => some (List.replicate 32 0)⟩

/-- A client that holds the dictionary. -/
def dictClient : Request :=
  requestOf [("Accept-Encoding", "zstd, dcz"),
    ("Available-Dictionary", ":AAAAAAAAAAAAAAAAAAAAAAAAAAAAAAAAAAAAAAAAAAA=:")]

/-- The same client with a header no Vary line names. -/
def dictClient' : Request :=
  requestOf [("accept-encoding", "zstd, dcz"), ("User-Agent", "x"),
    ("Available-Dictionary", ":AAAAAAAAAAAAAAAAAAAAAAAAAAAAAAAAAAAAAAAAAAA=:")]

theorem header_filter_dictClient :
    (header_filter dictEnv none oneDictConf dictClient { sampleResponse with pool := [] }).map
        (fun out => (out.1.any (·.dcz_dict.isSome), sentVary none out.2)) =
      .ok (true, [str "Accept-Encoding", str "Available-Dictionary", str "Sec-Fetch-Site"]) := by
  decide +kernel

/-- The second client is refused no memory, so it gets the first one's coding. -/
theorem header_filter_vary_complete_user_agent : ∃ ctx1 out1,
    header_filter dictEnv none oneDictConf dictClient { sampleResponse with pool := [] } = .ok (ctx1, out1) ∧
      ctx1.any (·.dcz_dict.isSome) ∧
      ∃ ctx2 out2, header_filter dictEnv none oneDictConf dictClient' { sampleResponse with pool := [true] } =
        .ok (ctx2, out2) ∧ coding ctx1 = coding ctx2 := by
  have hrun := header_filter_dictClient
  generalize h1 : header_filter dictEnv none oneDictConf dictClient { sampleResponse with pool := [] } = run at hrun
  cases run with
  | error e => cases hrun
  | ok out =>
    obtain ⟨ctx1, out1⟩ := out
    simp only [Except.map, Except.ok.injEq, Prod.mk.injEq] at hrun
    refine ⟨ctx1, out1, rfl, hrun.1, ?_⟩
    have hr1 : dictClient.CoreParsed := requestOf_coreParsed _
    have hr2 : dictClient'.CoreParsed := requestOf_coreParsed _
    have hagree : ∀ name ∈ sentVary none out1, dictClient.values name = dictClient'.values name := by
      rw [hrun.2]
      decide +kernel
    refine (@header_filter_vary_complete dictEnv none oneDictConf sampleResponse
      (by simp [sampleResponse, PartList.WellFormed]) (fun _ _ _ => rfl) _ _ hr1 hr2 rfl rfl _ [true] _ _ h1
      hagree).resolve_left ?_
    rintro ⟨hp, -⟩
    revert hp
    decide

end NginxZstd
