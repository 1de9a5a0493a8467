import NginxZstd.Dcz.DecodeBuffer
import NginxZstd.Dcz.Provenance
import NginxZstd.Service.Isolation
/-!
# From the dictionary file to the client

What the configuration read, what the header filter negotiated, what the ring lent and
what the body filter sent come together at the client. It has a file of its own, named
it by its SHA-256, and gets back a body in the content coding dcz: the magic of a
skippable frame, the SHA-256 of the dictionary, and a frame compressed with it.
-/

namespace NginxZstd

open Lib

/-! ## The client -/

/-- Two byte strings with one SHA-256. -/
def Collision (x y : Bytes) : Prop := x ≠ y ∧ Sha256.hash (Sha256.ofBytes x) = Sha256.hash (Sha256.ofBytes y)

/-- What a client that has the dictionary makes of a dcz body. -/
def dcz_read (decode : Option DictRef → Bytes → Option Bytes) (dict body : Bytes) : Option Bytes :=
  if body.take 8 = [0x5e, 0x2a, 0x4d, 0x18, 0x20, 0x00, 0x00, 0x00] ∧
      Sha256.ofBytes ((body.drop 8).take 32) = Sha256.hash (Sha256.ofBytes dict) then
    decode (some (.raw dict)) (body.drop 40)
  else none

theorem dcz_read_frame {decode : Option DictRef → Bytes → Option Bytes} {dict : Bytes} {digest : Digest} (frame : Bytes)
    (h : IsSha256 digest dict) : dcz_read decode dict (frame_header digest ++ frame) = decode (some (.raw dict)) frame := by
  have hlen : (frame_header digest).length = 40 := by simp [frame_header, digest.2]
  have hdrop : (frame_header digest ++ frame).drop 40 = frame := by rw [← hlen, List.drop_left]
  have hhash : ((frame_header digest ++ frame).drop 8).take 32 = digest.1 := by
    have hrest : (frame_header digest ++ frame).drop 8 = digest.1 ++ frame := rfl
    rw [hrest]
    exact List.take_left' digest.2
  have hmagic : (frame_header digest ++ frame).take 8 = [0x5e, 0x2a, 0x4d, 0x18, 0x20, 0x00, 0x00, 0x00] := rfl
  rw [dcz_read, if_pos ⟨hmagic, by rw [hhash]; exact h⟩, hdrop]

/-! ## The negotiation -/

/-- A dictionary is chosen for one Available-Dictionary line, whose digest is its key. -/
theorem dczChoice_some {env : Env} {zlcf : LocConf} {is_main ssl : Bool} {ae ad sfs : List Bytes} {d : DczDict}
    (h : dczChoice env zlcf is_main ssl ae ad sfs = some d) :
    d ∈ zlcf.dcz_dicts.getD [] ∧ ∃ value digest, ad = [value] ∧ dcz_decode_digest env value = .ok digest ∧
      d.hash = digest := by
  unfold dczChoice at h
  split at h
  · cases h
  unfold dcz_match at h
  split at h
  · cases h
  next value hvalue =>
  split at h
  · cases h
  next hone =>
  split at h
  · cases h
  · cases h
  next digest hdigest =>
  split at h
  · cases h
  split at h
  · cases h
  obtain ⟨hm, hh⟩ := dcz_dict_lookup_sound h
  refine ⟨hm, value, digest, ?_, hdigest, hh⟩
  -- one line and not two
  cases ad with
  | nil => cases hvalue
  | cons value' more =>
    cases hvalue
    have hnil : more = [] := by
      simp only [dczHeaders, List.length_cons] at hone
      exact List.eq_nil_of_length_eq_zero (by omega)
    rw [hnil]

/-- A response with a dictionary is sent as dcz, and the dictionary was chosen. -/
theorem header_filter_dcz {env : Env} {clcf : Option CoreLocConf} {zlcf : LocConf} {r : Request} {resp out : Response}
    {ctx : FilterCtx} {d : DczDict} (hr : r.CoreParsed) (h : header_filter env clcf zlcf r resp = .ok (some ctx, out))
    (hd : ctx.dcz_dict = some d) :
    out.content_encoding = some (str "dcz") ∧
      dczChoice env zlcf r.is_main r.ssl (r.values (str "Accept-Encoding")) (r.values (str "Available-Dictionary"))
        (r.values (str "Sec-Fetch-Site")) = some d := by
  have hencode : ∀ {dcz : Option DczDict} {resp : Response}, encode dcz resp = .ok (some ctx, out) →
      ctx.dcz_dict = dcz ∧ (dcz.isSome = true → out.content_encoding = some (str "dcz")) := by
    intro dcz resp h
    obtain ⟨resp1, -, h⟩ := bind_ok h
    obtain ⟨resp2, -, h⟩ := bind_ok h
    cases h
    exact ⟨rfl, fun hs => by simp [hs]⟩
  unfold header_filter at h
  obtain ⟨el, -, h⟩ := bind_ok h
  cases el with
  | false => cases h
  | true =>
    obtain ⟨resp1, -, h⟩ := bind_ok h
    obtain ⟨resp2, -, h⟩ := bind_ok h
    split at h
    · cases h
    obtain ⟨resp3, -, h⟩ := bind_ok h
    unfold negotiate_and_encode at h
    rw [dcz_negotiate_eq env zlcf hr] at h
    obtain ⟨dcz, hdcz, h⟩ := bind_ok h
    cases hdcz
    split at h
    · next d' hchoice =>
      obtain ⟨hctx, hcoding⟩ := hencode h
      rw [hd] at hctx
      cases hctx
      exact ⟨hcoding rfl, hchoice⟩
    · obtain ⟨acc, -, h⟩ := bind_ok h
      split at h
      · have hctx := (hencode h).1
        rw [hd] at hctx
        cases hctx
      · cases h

/-! ## The compression -/

theorem dcz_cdict_lookup_mem {dict : DczDict} {level wlog target : Int} {long_mode : Bool} {cdict : CDict}
    (h : dcz_cdict_lookup dict level wlog long_mode target = some cdict) : ∃ e ∈ dict.cdicts.getD [], e.dict = cdict := by
  unfold dcz_cdict_lookup at h
  split at h
  · cases h
  split at h
  · cases h
  next entries he =>
  obtain ⟨e, hfind, hdict⟩ := Option.map_eq_some_iff.1 h
  rw [he]
  exact ⟨e, List.mem_of_find?_eq_some hfind, hdict⟩

/-- Whether a CDict was prepared for the window or not, the stream is one with the bytes
of the file. -/
theorem PreparedFrom.decode_eq {C : CdictLib} {d d' : DczDict} (h : PreparedFrom C d d')
    {decode : Option DictRef → Bytes → Option Bytes}
    (hraw : ∀ bytes level wlog cdict, C.create bytes level wlog = some cdict →
      decode (some (.cdict cdict)) = decode (some (.raw bytes)))
    (zlcf : LocConf) (wlog : Int) : decode (some (dcz_ref d' zlcf wlog)) = decode (some (.raw d.bytes)) := by
  unfold dcz_ref
  split
  · next cdict hc =>
    obtain ⟨e, he, rfl⟩ := dcz_cdict_lookup_mem hc
    obtain ⟨level, w, hcreate⟩ := h.cdicts e he
    exact hraw _ _ _ _ hcreate
  · rw [h.bytes]

/-! ## End to end -/

section
variable {n : Nat} {Z : Compressor} {S : Server Z} {decode : Option DictRef → Bytes → Option Bytes}

/-- The response to a request that negotiated a dictionary of its location: it is sent as
dcz; the client asked for a digest and the dictionary has it; and a client that has a
file of that digest reads the body the upstream delivered, unless its file and the
server's are a collision of SHA-256. -/
theorem dictionary_transfer {L : Loader} {K : Bytes → Bool → Kernel} {c : Sha256Ctx} (hL : L.OnKernel K c)
    {qsort : List DczDict → List DczDict} (hq : ∀ xs, (qsort xs).Perm xs)
    (hlib : ∀ s : Settings, Lossless Z.Call (S.reset s) (decode s.dict)) {C : CdictLib}
    (hraw : ∀ bytes level wlog cdict, C.create bytes level wlog = some cdict →
      decode (some (.cdict cdict)) = decode (some (.raw bytes)))
    -- the configuration
    {file : ConfFile} {cfg : Loaded} (hload : load L file = .ok cfg) (htrust : cfg.zmcf.dcz_dict_trust_hashes ≠ some true)
    {ds ds' : List DczDict} (hds : some ds ∈ effective qsort cfg) (hprepares : Prepares S.abi C ds ds')
    {zlcf : LocConf} (hzlcf : zlcf.dcz_dicts = some ds')
    -- the request and the response headers
    {env : Env} {clcf : Option CoreLocConf} {r : Request} {resp out : Response} {ctx : FilterCtx} (hparsed : r.CoreParsed)
    (hfilter : header_filter env clcf zlcf r resp = .ok (some ctx, out)) {d : DczDict} (hd : ctx.dcz_dict = some d)
    -- the response body, among others
    {v : Service n Z} (hreach : Reaches (Service.step S) Proper (Service.start n Z) v) (hx : v.worker.exited = false)
    {id : ReqId} {q : Req n} (hreq : v.worker.reqs id = some q) (hctx : q.toFilterCtx = ctx)
    (hf : (v.bodies id).ctx.aborted = false) (hdone : (v.bodies id).ctx.done = true) (hpc : (v.bodies id).pc = .idle) :
    out.content_encoding = some (str "dcz") ∧
      ∃ value digest, r.values (str "Available-Dictionary") = [value] ∧ dcz_decode_digest env value = .ok digest ∧
        IsSha256 digest d.bytes ∧
        ∀ dict : Bytes, IsSha256 digest dict → Collision dict d.bytes ∨
          dcz_read decode dict (forwarded (v.bodies id).handed) = some (v.bodies id).delivered := by
  obtain ⟨hcoding, hchoice⟩ := header_filter_dcz hparsed hfilter hd
  obtain ⟨hm, value, digest, hvalue, hdigest, hkey⟩ := dczChoice_some hchoice
  rw [hzlcf, Option.getD_some] at hm
  -- the dictionary is the one the configuration read
  have hgenuine := effective_genuine hL hq hload hds
  have hprepared := hprepares.prepared fun d hd => (hgenuine d hd).fresh
  obtain ⟨i, hi, rfl⟩ := List.getElem_of_mem hm
  have hi₀ : i < ds.length := hprepared.length_eq ▸ hi
  have hfrom : PreparedFrom C ds[i] ds'[i] := hprepared.get hi₀ hi
  have hg := hgenuine _ (List.getElem_mem hi₀)
  have hsha : IsSha256 digest ds'[i].bytes := by
    rw [← hkey, hfrom.hash, hfrom.bytes]
    exact hg.key htrust
  refine ⟨hcoding, value, digest, hvalue, hdigest, hsha, fun dict hdict => ?_⟩
  by_cases heq : dict = ds'[i].bytes
  · -- the frame was made with the bytes the client has
    right
    obtain ⟨frame, hout, hframe⟩ := (Service.reaches_inv hreach hx).response hlib hx hreq hf hdone hpc
    have hq : q.dcz_dict = some ds'[i] := by
      rw [hctx]
      exact hd
    have hheader : ds'[i].frame_header = frame_header digest := by
      rw [hfrom.header, hg.header, ← hfrom.hash, hkey]
    have hprefix : q.toFilterCtx.prefix_bytes = frame_header digest := by
      rw [FilterCtx.prefix_bytes, hq, Option.elim_some, hheader]
      exact List.take_of_length_le (by simp [frame_header, digest.2, dcz_header_len])
    have hdict' : dictFor S.abi q = some (dcz_ref ds'[i] q.zlcf (windowFor S.abi q)) := by
      rw [dictFor, hq]
    rw [hout, hprefix, dcz_read_frame frame hdict, heq, hfrom.bytes]
    rw [hdict', hfrom.decode_eq hraw] at hframe
    exact hframe
  · left
    exact ⟨heq, hdict.symm.trans hsha⟩

end

/-- One file of three bytes, hashed as the module does it. -/
def threeByteFile : Loader where
  full_name arg := if 0 ∈ arg then none else some arg
  sha256 := dcz_dict_hash ⟨Vector.replicate 8 0, 0, ⟨List.replicate 64 0, List.length_replicate⟩, 0⟩
  open_dict_file path strict := threeBytes.dict_fd path strict
  palloc _ := true
  array_create := true
  array_push _ := true

/-- A server that has the file as its dictionary. -/
def threeByteConf : ConfFile := .block (.directive (.dcz_dict_file (str "/d") none) .done) .done

def threeByteDigest : Digest :=
  ⟨[0x03, 0x90, 0x58, 0xc6, 0xf2, 0xc0, 0xcb, 0x49, 0x2c, 0x53, 0x3b, 0x0a, 0x4d, 0x14, 0xef, 0x77, 0xcc, 0x0f, 0x78,
    0xab, 0xcc, 0xce, 0xd5, 0x28, 0x7d, 0x84, 0xa1, 0xa2, 0x01, 0x1c, 0xfb, 0x81], rfl⟩

def threeByteDict : DczDict := ⟨str "/d", [1, 2, 3], threeByteDigest, none, frame_header threeByteDigest⟩

def threeByteLocation : LocConf := { oneDictConf with dcz_dicts := some [threeByteDict], bufs := ⟨2, 2⟩ }

/-- A client that has the file too. -/
def threeByteClient : Request :=
  requestOf [("Accept-Encoding", "zstd, dcz"),
    ("Available-Dictionary", ":A5BYxvLAy0ksUzsKTRTvd8wPeKvMztUofYShogEc+4E=:")]

def transferOps : List Service.Op :=
  let down : Downstream := ⟨.ok, fun _ => 100⟩
  let iterate : Service.Op := .body 0 (.iterate true true) (.granted 0)
  let send : Service.Op := .body 0 (.tail 0 down) (.granted 0)
  [.open_request 0 threeByteLocation ⟨some threeByteDict, 1000⟩,
    .body 0 (.callback [⟨[5], false, false⟩, ⟨[6, 7], false, true⟩] true down) (.granted 100), iterate, iterate, iterate,
    send, iterate, send]

theorem dictionary_transfer_three_bytes : ∃ v : Service 4 (.blocks 2),
    run (Service.step smallServer) (Service.start 4 _) transferOps = some v ∧
      dcz_read (fun _ => some) [1, 2, 3] (forwarded (v.bodies 0).handed) = some [5, 6, 7] := by
  have hload : (load threeByteFile threeByteConf).map
      (fun cfg => (cfg.zmcf.dcz_dict_trust_hashes, effective id cfg)) = .ok (some false, [some [threeByteDict]]) := by
    decide +kernel
  have hfilter : (header_filter ⟨true, Base64.decode⟩ none threeByteLocation threeByteClient
      { sampleResponse with pool := [] }).map (fun out => out.1.map fun ctx => (ctx.dcz_dict, ctx.pledged_size)) =
      .ok (some (some threeByteDict, 1000)) := by
    decide +kernel
  have hsees : (run (Service.step smallServer) (Service.start 4 (.blocks 2)) transferOps).map (fun v =>
      (v.worker.exited, (v.worker.reqs 0).map (fun q => (q.dcz_dict, q.pledged_size)),
        (v.bodies 0).ctx.aborted, (v.bodies 0).ctx.done, (v.bodies 0).pc, (v.bodies 0).delivered)) =
      some (false, some (some threeByteDict, 1000), false, true, .idle, [5, 6, 7]) := by rfl
  have hmeets : Meets (Service.step smallServer) Proper (Service.start 4 (.blocks 2)) transferOps := by decide
  have hL : threeByteFile.OnKernel (fun _ _ => threeBytes)
      ⟨Vector.replicate 8 0, 0, ⟨List.replicate 64 0, List.length_replicate⟩, 0⟩ := by
    refine ⟨fun _ _ => rfl, rfl, fun arg path h => ?_⟩
    simp only [threeByteFile] at h
    split at h
    · cases h
    · next hz =>
      cases h
      exact hz
  cases hcfg : load threeByteFile threeByteConf with
  | error e =>
    rw [hcfg] at hload
    cases hload
  | ok cfg =>
  cases hout : header_filter ⟨true, Base64.decode⟩ none threeByteLocation threeByteClient
      { sampleResponse with pool := [] } with
  | error e =>
    rw [hout] at hfilter
    cases hfilter
  | ok out =>
  obtain ⟨octx, resp⟩ := out
  rw [hcfg] at hload
  rw [hout] at hfilter
  simp only [Except.map, Except.ok.injEq, Prod.mk.injEq, Option.map_eq_some_iff] at hload hfilter
  obtain ⟨⟨d, size⟩, rfl, rfl, rfl⟩ := hfilter
  obtain ⟨v, hv, hsees⟩ := Option.map_eq_some_iff.1 hsees
  simp only [Prod.mk.injEq, Option.map_eq_some_iff] at hsees
  obtain ⟨hx, ⟨q, hreq, hdict, hsize⟩, hf, hdone, hpc, hdel⟩ := hsees
  have hctx : q.toFilterCtx = ⟨some threeByteDict, 1000⟩ := by
    rw [← hdict, ← hsize]
  obtain ⟨-, value, digest, -, -, hsha, hclient⟩ := @dictionary_transfer 4 (.blocks 2) smallServer (fun _ => some)
    threeByteFile (fun _ _ => threeBytes) _ hL id (fun _ => .refl _) (fun _ => blocks_lossless 2)
    ⟨fun _ _ _ => 0, fun _ _ _ => none, fun _ => 0, true, fun _ => true, fun _ => true⟩ (fun _ _ _ _ _ => rfl)
    threeByteConf cfg hcfg (by rw [hload.1]; decide) [threeByteDict] [threeByteDict] (by rw [hload.2]; exact List.mem_cons_self)
    .refl threeByteLocation rfl ⟨true, Base64.decode⟩ none threeByteClient { sampleResponse with pool := [] } resp _
    (requestOf_coreParsed _) hout threeByteDict rfl v (reaches_of_run hv hmeets) hx 0 q hreq hctx hf hdone hpc
  have hread := (hclient [1, 2, 3] hsha).resolve_left fun hc => hc.1 rfl
  exact ⟨v, hv, hread.trans (congrArg some hdel)⟩

end NginxZstd
