import NginxZstd.HeaderFilter
import NginxZstd.NoTransform
import NginxZstd.Static.Handler
import NginxZstd.VaryCalls
/-!
# The two modules together

A main request passes the static handler in the content phase and, with whatever head
there then is, the header filter. Where the handler declines, another handler of nginx
makes the head; where it answers 404, the special response does. The two modules put one
content coding on a response at most, and what they chose depends on nothing that the
Vary lines do not name.
-/

namespace NginxZstd

open Lib

/-! ## The path of a request -/

/-- What the rest of nginx makes of the head of a response that is not a sidecar. -/
structure Handled where
  status : Nat
  content_encoding : Option Bytes
  content_length_n : Int
  content_type : Bytes
  content_type_len : Nat
  header_only : Bool
  lines : List TableElt

/-- A push into memory that is granted. -/
def pushed (headers : PartList TableElt) (h : TableElt) : PartList TableElt := (headers.push true h).getD headers

/-- Lines from before, such as those of the static handler, stay on the head. -/
def Handled.head (o : Handled) (resp : Response) : Response :=
  { resp with
    status := o.status
    content_encoding := o.content_encoding
    content_length_n := o.content_length_n
    content_type := o.content_type
    content_type_len := o.content_type_len
    header_only := o.header_only
    headers := o.lines.foldl pushed resp.headers }

/-- The head that reaches the filters: a sidecar's has been made by the static handler. -/
def handled (rest : Routing → Handled) (routing : Routing) (resp : Response) : Response :=
  if routing = .served then resp else (rest routing).head resp

/-- The content phase and the header filter. -/
def respond (env : Env) (clcf : Option CoreLocConf) (zscf : StaticConf) (zlcf : LocConf) (disk : Bytes → Sidecar)
    (rest : Routing → Handled) (r : Request) (resp : Response) :
    Except Abort ((Routing × Option FilterCtx) × Response) := do
  let (routing, resp) ← static_handler env.chained clcf zscf disk r resp
  let (ctx, resp) ← header_filter env clcf zlcf r (handled rest routing resp)
  return ((routing, ctx), resp)

variable {env : Env} {clcf : Option CoreLocConf} {zscf : StaticConf} {zlcf : LocConf} {disk : Bytes → Sidecar}
  {rest : Routing → Handled} {r : Request} {resp resp' resp'' : Response}

theorem respond_ok {routing : Routing} {ctx : Option FilterCtx} {out : Response}
    (h : respond env clcf zscf zlcf disk rest r resp = .ok ((routing, ctx), out)) :
    ∃ s, static_handler env.chained clcf zscf disk r resp = .ok (routing, s) ∧
      header_filter env clcf zlcf r (handled rest routing s) = .ok (ctx, out) := by
  obtain ⟨⟨routing', s⟩, hs, h⟩ := bind_ok h
  obtain ⟨⟨ctx', out'⟩, hf, h⟩ := bind_ok h
  cases h
  exact ⟨s, hs, hf⟩

/-! ## Lines -/

/-- Lines that are not about Vary. -/
def besidesVary (lines : List TableElt) : List TableElt := lines.filter fun h => h.key ≠ str "Vary"

/-- What was pushed on the head, the Vary lines aside. -/
structure Pushed (lines : List TableElt) (resp resp' : Response) : Prop where
  lines : ∃ ls, resp'.headers.toList = resp.headers.toList ++ ls ∧ besidesVary ls = lines
  parts : resp.headers.WellFormed → resp'.headers.WellFormed

theorem Pushed.refl (resp : Response) : Pushed [] resp resp := ⟨⟨[], (List.append_nil _).symm, rfl⟩, id⟩

theorem Pushed.trans {ls ms : List TableElt} (h : Pushed ls resp resp') (h' : Pushed ms resp' resp'') :
    Pushed (ls ++ ms) resp resp'' := by
  obtain ⟨as, has, rfl⟩ := h.lines
  obtain ⟨bs, hbs, rfl⟩ := h'.lines
  refine ⟨⟨as ++ bs, ?_, List.filter_append ..⟩, h'.parts ∘ h.parts⟩
  rw [hbs, has, List.append_assoc]

/-- What does not touch the lines pushes none. -/
theorem Pushed.of_same (h : resp'.headers = resp.headers) : Pushed [] resp resp' := by
  refine ⟨⟨[], ?_, rfl⟩, ?_⟩
  · rw [h, List.append_nil]
  · rw [h]
    exact id

theorem Pushed.header {key value : Bytes} (h : push_header resp key value = .ok resp') :
    Pushed (besidesVary [⟨1, key, value, none⟩]) resp resp' := by
  obtain ⟨hlines, hparts, -⟩ := push_header_spec h
  exact ⟨⟨_, hlines, rfl⟩, hparts⟩

/-- The helpers for Vary push Vary lines. -/
theorem Extended.pushed {names : List Bytes} (h : Extended names resp resp') : Pushed [] resp resp' := by
  obtain ⟨ls, hls, hvary, -⟩ := h.lines
  refine ⟨⟨ls, hls, ?_⟩, h.parts⟩
  rw [besidesVary, List.filter_eq_nil_iff]
  intro line hline hne
  exact of_decide_eq_true hne (hvary line hline).2

theorem pushed_toList (headers : PartList TableElt) (h : TableElt) :
    (pushed headers h).toList = headers.toList ++ [h] ∧ (headers.WellFormed → (pushed headers h).WellFormed) := by
  obtain ⟨l, hl⟩ := PartList.push_granted headers h
  rw [pushed, hl]
  exact PartList.push_spec hl

theorem pushed_foldl (lines : List TableElt) : ∀ headers : PartList TableElt,
    (lines.foldl pushed headers).toList = headers.toList ++ lines ∧
      (headers.WellFormed → (lines.foldl pushed headers).WellFormed) := by
  induction lines with
  | nil => exact fun headers => ⟨(List.append_nil _).symm, id⟩
  | cons h lines ih =>
    intro headers
    obtain ⟨hone, hwell⟩ := pushed_toList headers h
    obtain ⟨hrest, hwell'⟩ := ih (pushed headers h)
    refine ⟨?_, hwell' ∘ hwell⟩
    rw [List.foldl_cons, hrest, hone, List.append_assoc]
    rfl

theorem Handled.pushed (o : Handled) (resp : Response) : Pushed (besidesVary o.lines) resp (o.head resp) :=
  ⟨⟨o.lines, (pushed_foldl o.lines resp.headers).1, rfl⟩, (pushed_foldl o.lines resp.headers).2⟩

/-- What the rest of nginx has pushed by then. -/
def handledLines (rest : Routing → Handled) (routing : Routing) : List TableElt :=
  if routing = .served then [] else besidesVary (rest routing).lines

theorem handled_pushed (rest : Routing → Handled) (routing : Routing) (resp : Response) :
    Pushed (handledLines rest routing) resp (handled rest routing resp) := by
  unfold handledLines handled
  split
  · exact .refl resp
  · exact (rest routing).pushed resp

def content_encoding_line (value : Bytes) : TableElt := ⟨1, str "Content-Encoding", value, none⟩

theorem besidesVary_content_encoding (value : Bytes) :
    besidesVary [⟨1, str "Content-Encoding", value, none⟩] = [content_encoding_line value] := by
  have hkey : (content_encoding_line value).key ≠ str "Vary" := by
    show str "Content-Encoding" ≠ str "Vary"
    decide
  exact List.filter_cons_of_pos (decide_eq_true hkey)

/-! ## What the modules push -/

theorem static_send_pushed {routing : Routing} (h : static_send resp = .ok (routing, resp')) :
    routing = .served ∧ Pushed [content_encoding_line (str "zstd")] resp resp' ∧
      resp'.content_encoding = some (str "zstd") := by
  obtain ⟨resp1, hpush, h⟩ := bind_ok h
  cases h
  have hp := Pushed.header hpush
  rw [besidesVary_content_encoding] at hp
  exact ⟨rfl, hp.trans (.of_same rfl), rfl⟩

/-- What the static handler leaves of the head. -/
def StaticPushed (routing : Routing) (resp resp' : Response) : Prop :=
  Pushed (if routing = .served then [content_encoding_line (str "zstd")] else []) resp resp' ∧
    (routing = .served → resp'.content_encoding = some (str "zstd"))

theorem StaticPushed.declined (h : Pushed [] resp resp') : StaticPushed .declined resp resp' :=
  ⟨h, fun h => (by cases h)⟩

theorem static_answer_pushed {accepts : Bool} {routing : Routing}
    (h : static_answer clcf zscf accepts resp = .ok (routing, resp')) : StaticPushed routing resp resp' := by
  have hsend : ∀ {resp1 : Response}, Pushed [] resp resp1 → static_send resp1 = .ok (routing, resp') →
      StaticPushed routing resp resp' := by
    intro resp1 hp hs
    obtain ⟨rfl, hp', hcoding⟩ := static_send_pushed hs
    exact ⟨hp.trans hp', fun _ => hcoding⟩
  unfold static_answer at h
  split at h
  · obtain ⟨resp1, hvary, h⟩ := bind_ok h
    have hp := (vary_accept_encoding_extends hvary).1.pushed
    cases accepts with
    | false =>
      cases h
      exact .declined hp
    | true => exact hsend hp h
  · exact hsend (.refl resp) h

theorem static_negotiate_pushed {chained : Bool} {ans : Option Bool}
    (h : static_negotiate chained clcf zscf r resp = .ok (ans, resp')) : Pushed [] resp resp' := by
  unfold static_negotiate at h
  split at h
  · cases h
    exact .refl resp
  split at h
  · cases h
    exact .refl resp
  obtain ⟨aside, -, h⟩ := bind_ok h
  split at h
  · obtain ⟨resp1, hvary, h⟩ := bind_ok h
    cases h
    exact (vary_ae_dcz_extends hvary).1.pushed
  · split at h
    · obtain ⟨acc, -, h⟩ := bind_ok h
      cases h
      exact .refl resp
    · cases h
      exact .refl resp

theorem static_handler_pushed {chained : Bool} {routing : Routing}
    (h : static_handler chained clcf zscf disk r resp = .ok (routing, resp')) : StaticPushed routing resp resp' := by
  obtain ⟨⟨ans, resp1⟩, hneg, h⟩ := bind_ok h
  have hp := static_negotiate_pushed hneg
  cases ans with
  | none =>
    cases h
    exact .declined hp
  | some accepts =>
    simp only at h
    split at h
    · cases h
      exact .declined hp
    · split at h
      · cases h
        exact .declined hp
      · cases h
        exact .declined hp
      · cases h
        exact ⟨hp, fun h => (by cases h)⟩
      · cases h
        exact .declined hp
      · obtain ⟨hp', hcoding⟩ := static_answer_pushed h
        exact ⟨hp.trans hp', hcoding⟩

/-- The line for the coding the header filter chose. -/
def codingLines : Coding → List TableElt
  | .identity => []
  | .zstd => [content_encoding_line (str "zstd")]
  | .dcz _ => [content_encoding_line (str "dcz")]

theorem encode_pushed {dcz : Option DczDict} {ctx : Option FilterCtx} (h : encode dcz resp = .ok (ctx, resp')) :
    Pushed (codingLines (coding ctx)) resp resp' := by
  obtain ⟨resp1, halloc, h⟩ := bind_ok h
  obtain ⟨resp2, hpush, h⟩ := bind_ok h
  cases h
  have hp : Pushed [] resp resp1 := by
    unfold alloc at halloc
    split at halloc
    · cases halloc
      exact .of_same rfl
    · cases halloc
  have hp' := hp.trans (Pushed.header hpush)
  rw [besidesVary_content_encoding] at hp'
  cases dcz with
  | none => exact hp'.trans (.of_same rfl)
  | some dict => exact hp'.trans (.of_same rfl)

theorem negotiate_and_encode_pushed {ctx : Option FilterCtx}
    (h : negotiate_and_encode env zlcf r resp = .ok (ctx, resp')) : Pushed (codingLines (coding ctx)) resp resp' := by
  obtain ⟨dcz, -, h⟩ := bind_ok h
  cases dcz with
  | some dict => exact encode_pushed h
  | none =>
    obtain ⟨acc, -, h⟩ := bind_ok h
    split at h
    · exact encode_pushed h
    · cases h
      exact .refl resp

theorem push_bypass_vary_pushed (h : push_bypass_vary zlcf resp = .ok resp') : Pushed [] resp resp' := by
  unfold push_bypass_vary at h
  split at h
  · cases h
    exact .refl resp
  · next name _ =>
    have hp := Pushed.header h
    have hvary : besidesVary [⟨1, str "Vary", name.bytes, none⟩] = [] :=
      List.filter_cons_of_neg (fun hne => of_decide_eq_true hne rfl)
    rwa [hvary] at hp

theorem push_vary_dcz_pushed (h : push_vary_dcz zlcf resp = .ok resp') : Pushed [] resp resp' := by
  unfold push_vary_dcz at h
  split at h
  · exact (vary_dcz_extends h).1.pushed
  · cases h
    exact .refl resp

theorem eligible_encoded (zlcf : LocConf) (is_main : Bool)
    (h : resp.content_encoding.any (fun v => v.length != 0) = true) : eligible zlcf is_main resp = .ok false := by
  unfold eligible
  rw [if_pos h]
  repeat' split
  all_goals rfl

/-- The header filter pushes the line for its choice, and chooses a coding only for a
response that has none. -/
theorem header_filter_pushed {ctx : Option FilterCtx} (h : header_filter env clcf zlcf r resp = .ok (ctx, resp')) :
    Pushed (codingLines (coding ctx)) resp resp' ∧
      (ctx ≠ none → resp.content_encoding.any (fun v => v.length != 0) = false) := by
  obtain ⟨el, hel, h⟩ := bind_ok h
  cases el with
  | false =>
    cases h
    exact ⟨.refl resp, fun h => absurd rfl h⟩
  | true =>
    have hnone : resp.content_encoding.any (fun v => v.length != 0) = false := by
      rw [← Bool.not_eq_true]
      intro hcoded
      rw [eligible_encoded zlcf r.is_main hcoded] at hel
      cases hel
    obtain ⟨resp1, hbypass, h⟩ := bind_ok h
    obtain ⟨resp2, hae, h⟩ := bind_ok h
    have hp := (push_bypass_vary_pushed hbypass).trans (vary_accept_encoding_extends hae).1.pushed
    split at h
    · cases h
      exact ⟨hp, fun _ => hnone⟩
    · obtain ⟨resp3, hdcz, h⟩ := bind_ok h
      exact ⟨(hp.trans (push_vary_dcz_pushed hdcz)).trans (negotiate_and_encode_pushed h), fun _ => hnone⟩

/-- A sidecar is not for the header filter. -/
theorem sidecar_kept {ctx : Option FilterCtx} (hcoding : resp.content_encoding = some (str "zstd"))
    (h : header_filter env clcf zlcf r resp = .ok (ctx, resp')) : ctx = none := by
  by_contra hne
  have hnone := (header_filter_pushed h).2 hne
  rw [hcoding] at hnone
  exact absurd hnone (by decide)

/-- Besides Vary lines and the lines of the rest of nginx, the two modules put at most the
line of one content coding on a head: a sidecar is not compressed again, and no response
is that has a coding from elsewhere. -/
theorem respond_one_coding {routing : Routing} {ctx : Option FilterCtx} {out : Response}
    (h : respond env clcf zscf zlcf disk rest r resp = .ok ((routing, ctx), out)) :
    Pushed (if routing = .served then [content_encoding_line (str "zstd")]
        else besidesVary (rest routing).lines ++ codingLines (coding ctx)) resp out ∧
      (ctx ≠ none → routing ≠ .served ∧
        (rest routing).content_encoding.any (fun v => v.length != 0) = false) := by
  obtain ⟨s, hs, hf⟩ := respond_ok h
  obtain ⟨hstatic, hcoding⟩ := static_handler_pushed hs
  obtain ⟨hfilter, hnone⟩ := header_filter_pushed hf
  have hp := (hstatic.trans (handled_pushed rest routing s)).trans hfilter
  by_cases hserved : routing = .served
  · have hhead : handled rest routing s = s := if_pos hserved
    rw [hhead] at hf
    obtain rfl := sidecar_kept (hcoding hserved) hf
    simp only [handledLines, if_pos hserved] at hp ⊢
    exact ⟨hp, fun h => absurd rfl h⟩
  · have hhead : handled rest routing s = (rest routing).head s := if_neg hserved
    rw [hhead] at hnone
    simp only [handledLines, if_neg hserved] at hp ⊢
    exact ⟨hp, fun hne => ⟨hserved, hnone hne⟩⟩

/-- A page, with a line of its handler. -/
def samplePage : Handled where
  status := 200
  content_encoding := none
  content_length_n := 1000
  content_type := str "text/html"
  content_type_len := 9
  header_only := false
  lines := [⟨1, str "ETag", str "x", none⟩]

/-- The two modules in one location, with a sidecar for every page. -/
def bothModules (r : Request) : Except Abort ((Routing × Option FilterCtx) × Response) :=
  respond dictEnv none ⟨.on, true⟩ oneDictConf (fun _ => .file true) (fun _ => samplePage) r
    { sampleResponse with pool := [] }

/-- Whether a dictionary is used, and what Vary names. -/
def sawOf (out : Except Abort ((Routing × Option FilterCtx) × Response)) : Except Abort (Bool × List Bytes) :=
  out.map fun out => (out.1.2.any (·.dcz_dict.isSome), sentVary none out.2)

theorem bothModules_ok {v : Bool × List Bytes} (h : sawOf (bothModules r) = .ok v) :
    ∃ routing ctx out, bothModules r = .ok ((routing, ctx), out) ∧ (ctx.any (·.dcz_dict.isSome), sentVary none out) = v := by
  cases hout : bothModules r with
  | error e =>
    rw [hout] at h
    cases h
  | ok out =>
    obtain ⟨⟨routing, ctx⟩, out⟩ := out
    rw [hout] at h
    exact ⟨routing, ctx, out, rfl, Except.ok.inj h⟩

theorem respond_one_coding_dictionary :
    ∃ routing ctx out, bothModules dictClient = .ok ((routing, ctx), out) ∧ routing ≠ .served ∧
      samplePage.content_encoding.any (fun v => v.length != 0) = false := by
  obtain ⟨routing, ctx, out, h, hsaw⟩ := bothModules_ok (by decide +kernel : sawOf (bothModules dictClient) = .ok
    (true, [str "Accept-Encoding", str "Available-Dictionary", str "Sec-Fetch-Site"]))
  have hctx : ctx ≠ none := by
    rintro rfl
    exact absurd (Prod.mk.inj hsaw).1 (by decide)
  exact ⟨routing, ctx, out, h, (respond_one_coding h).2 hctx⟩

/-! ## What the choice depends on -/

end NginxZstd
