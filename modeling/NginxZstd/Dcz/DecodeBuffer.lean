import Mathlib.Data.List.Nodup
import NginxZstd.Dcz.Negotiate
import NginxZstd.Lib.Base64
/-!
# The decode buffer and the whole negotiation

`dcz_negotiate_into` is the negotiation with its stack buffer: `ngx_decode_base64`
stores into it, and the lookup reads its first 32 bytes. It answers like
`dcz_negotiate`, whatever the buffer held before. Over a standard decoder
`dcz_negotiate_iff` spells out when the answer is a given dictionary.
-/

namespace NginxZstd

open Lib

/-! ## Decoding into the buffer -/

/-- A call of `ngx_decode_base64`: the bytes it stores from `dst->data` on, and
whether it returns `NGX_OK`, with `dst->len` the number of bytes stored. -/
structure Decoding where
  stored : Bytes
  ok : Bool

def Decoding.value (call : Decoding) : Option Bytes := if call.ok then some call.stored else none

/-- `ngx_base64_decoded_length`, the room a caller must leave. -/
def base64_decoded_length (len : Nat) : Nat := (len + 3) / 4 * 3

/-- What is documented of `ngx_decode_base64`: it decodes standard base64 and stores
no more than `ngx_base64_decoded_length` bytes, whether it succeeds or not. -/
structure StandardDecoder (decode : Bytes → Decoding) : Prop where
  value : ∀ src, (decode src).value = Base64.decode src
  room : ∀ src, (decode src).stored.length ≤ base64_decoded_length src.length

/-- `NGX_HTTP_ZSTD_DCZ_DECODE_BUF_LEN`. -/
def dcz_decode_buf_len : Nat := 48

abbrev DecodeBuf := Block dcz_decode_buf_len

/-- Storing past the end of the buffer is a fault. -/
def store (buf : DecodeBuf) (bytes : Bytes) : Except Abort DecodeBuf :=
  if h : bytes.length ≤ dcz_decode_buf_len then
    .ok ⟨bytes ++ buf.1.drop bytes.length, by rw [List.length_append, List.length_drop, buf.2]; omega⟩
  else .error .fault

theorem store_spec (buf : DecodeBuf) (bytes : Bytes) (h : bytes.length ≤ dcz_decode_buf_len) :
    ∃ buf', store buf bytes = .ok buf' ∧ buf'.1 = bytes ++ buf.1.drop bytes.length :=
  ⟨_, dif_pos h, rfl⟩

inductive DecodeRc where
  | ok
  | declined
  | error
deriving DecidableEq

/-- `ngx_http_zstd_dcz_decode_digest`, with the buffer it leaves and the number of
bytes stored. -/
def dcz_decode_digest_into (decode : Bytes → Decoding) (raw : Bytes) (out : DecodeBuf) :
    Except Abort (DecodeRc × DecodeBuf × Nat) :=
  if raw.length < 2 ∨ raw.head? ≠ some 0x3a ∨ raw.getLast? ≠ some 0x3a ∨ raw.length - 2 > dcz_digest_b64_len then
    .ok (.declined, out, 0)
  else do
    let call := decode ((raw.drop 1).take (raw.length - 2))
    -- stored before the return code is known
    let out ← store out call.stored
    if !call.ok ∨ call.stored.length ≠ 32 then return (.error, out, call.stored.length)
    return (.ok, out, call.stored.length)

/-! ## The negotiation -/

/-- What happens to the buffer: a decode, with the number of bytes it stored and its
return code, or a lookup that reads it. -/
inductive BufEvent where
  | decoded (stored : Nat) (rc : DecodeRc)
  | consulted
deriving DecidableEq

/-- The 32 bytes the lookup reads. -/
def DecodeBuf.digest (buf : DecodeBuf) : Digest :=
  ⟨buf.1.take 32, by rw [List.length_take, buf.2]; rfl⟩

def dcz_match_into (decode : Bytes → Decoding) (dcz_dicts : List DczDict) (hdrs : DczHeaders) (buf : DecodeBuf) :
    Except Abort (Option DczDict × List BufEvent) :=
  match hdrs.avail_dict_h with
  | none => .ok (none, [])
  | some raw =>
    if hdrs.avail_dict_count > 1 then .ok (none, [])
    else do
      let (rc, buf, stored) ← dcz_decode_digest_into decode raw buf
      -- malformed framing and a bad digest only differ in what is logged
      if rc = .declined then return (none, [.decoded stored rc])
      if rc ≠ .ok then return (none, [.decoded stored rc])
      if hdrs.sec_fetch_site_count > 1 then return (none, [.decoded stored rc])
      if hdrs.sec_fetch_site_h.any fun v => !same_site v then return (none, [.decoded stored rc])
      return (dcz_dict_lookup dcz_dicts (DecodeBuf.digest buf), [.decoded stored rc, .consulted])

/-- `ngx_http_zstd_dcz_negotiate`, with what it does to its buffer. `buf` is what the
stack holds on entry. -/
def dcz_negotiate_into (decode : Bytes → Decoding) (chained : Bool) (zlcf : LocConf) (r : Request) (buf : DecodeBuf) :
    Except Abort (Option DczDict × List BufEvent) := do
  let dcz_dicts := zlcf.dcz_dicts.getD []
  if dcz_dicts = [] then return (none, [])
  if !r.is_main then return (none, [])
  if !r.ssl && !zlcf.dcz_assume_secure then return (none, [])
  let weight ← or_fault (request_coding_weight chained r (str "dcz") false)
  if weight ≤ 0 then return (none, [])
  let hdrs ← collect_dcz_headers r
  dcz_match_into decode dcz_dicts hdrs buf

/-- The bytes stored into the buffer. -/
def bytesStored (log : List BufEvent) : Nat :=
  (log.map fun | .decoded stored _ => stored | .consulted => 0).sum

/-- At most 33 bytes are stored, and the buffer is read only behind a decode that
returned `NGX_OK`. -/
def BufferSafe (log : List BufEvent) : Prop :=
  bytesStored log ≤ 33 ∧
    ∀ before after, log = before ++ .consulted :: after → ∃ stored, .decoded stored .ok ∈ before

theorem bufferSafe_nil : BufferSafe [] :=
  ⟨by simp [bytesStored], fun before after h => by simp at h⟩

theorem bufferSafe_decoded {stored : Nat} (rc : DecodeRc) (h : stored ≤ 33) : BufferSafe [.decoded stored rc] := by
  refine ⟨by simpa [bytesStored] using h, fun before after heq => ?_⟩
  cases before with
  | nil => simp at heq
  | cons e before => simp at heq

theorem bufferSafe_consulted {stored : Nat} (h : stored ≤ 33) : BufferSafe [.decoded stored .ok, .consulted] := by
  refine ⟨by simpa [bytesStored] using h, fun before after heq => ?_⟩
  cases before with
  | nil => simp at heq
  | cons e before =>
    simp only [List.cons_append, List.cons.injEq] at heq
    exact ⟨stored, by simp [← heq.1]⟩

/-! ## The buffer makes no difference -/

section
variable {decode : Bytes → Decoding} (hd : StandardDecoder decode)
include hd

/-- The framing check leaves at most 44 characters, so the decoder stores at most 33
bytes. -/
theorem stored_le (raw : Bytes) (h : raw.length - 2 ≤ dcz_digest_b64_len) :
    (decode ((raw.drop 1).take (raw.length - 2))).stored.length ≤ 33 := by
  refine (hd.room _).trans ?_
  have : ((raw.drop 1).take (raw.length - 2)).length ≤ 44 := by
    rw [List.length_take]
    exact (Nat.min_le_left _ _).trans h
  unfold base64_decoded_length
  omega

/-- A decode into the buffer: its return code, what it leaves and how much it stored. -/
theorem dcz_decode_digest_into_spec (chained : Bool) (raw : Bytes) (out : DecodeBuf) :
    ∃ rc out' stored, dcz_decode_digest_into decode raw out = .ok (rc, out', stored) ∧ stored ≤ 33 ∧
      match dcz_decode_digest ⟨chained, fun s => (decode s).value⟩ raw with
      | .ok digest => rc = .ok ∧ DecodeBuf.digest out' = digest
      | .declined => rc = .declined
      | .error => rc = .error := by
  unfold dcz_decode_digest_into dcz_decode_digest
  split
  · exact ⟨.declined, out, 0, rfl, by omega, rfl⟩
  · next hf =>
    have hlen := stored_le hd raw (by omega)
    dsimp only
    generalize decode ((raw.drop 1).take (raw.length - 2)) = call at hlen ⊢
    obtain ⟨out', hstore, hout'⟩ := store_spec out call.stored (hlen.trans (by decide))
    simp only [hstore, bind, Except.bind, Decoding.value]
    cases call.ok with
    | false => exact ⟨.error, out', _, rfl, hlen, rfl⟩
    | true =>
      by_cases h32 : call.stored.length = 32
      · refine ⟨.ok, out', _, by simp [h32, pure, Except.pure], hlen, ?_⟩
        simp only [if_true, dif_pos h32, true_and]
        apply Subtype.ext
        simp [DecodeBuf.digest, hout', ← h32]
      · exact ⟨.error, out', _, by simp [h32, pure, Except.pure], hlen, by simp [h32]⟩

theorem dcz_match_into_spec (chained : Bool) (dicts : List DczDict) (hdrs : DczHeaders) (buf : DecodeBuf) :
    ∃ log, dcz_match_into decode dicts hdrs buf =
        .ok (dcz_match ⟨chained, fun s => (decode s).value⟩ dicts hdrs, log) ∧ BufferSafe log := by
  unfold dcz_match_into dcz_match
  cases hdrs.avail_dict_h with
  | none => exact ⟨[], rfl, bufferSafe_nil⟩
  | some raw =>
    dsimp only
    split
    · exact ⟨[], rfl, bufferSafe_nil⟩
    · obtain ⟨rc, buf', stored, hcall, hle, hrc⟩ := dcz_decode_digest_into_spec hd chained raw buf
      rw [hcall]
      simp only [bind, Except.bind]
      generalize dcz_decode_digest ⟨chained, fun s => (decode s).value⟩ raw = decoded at hrc
      cases decoded with
      | declined => subst hrc; exact ⟨_, rfl, bufferSafe_decoded _ hle⟩
      | error => subst hrc; exact ⟨_, rfl, bufferSafe_decoded _ hle⟩
      | ok digest =>
        obtain ⟨rfl, hdig⟩ := hrc
        simp only [reduceCtorEq, if_false, ne_eq, not_true_eq_false]
        split
        · exact ⟨_, rfl, bufferSafe_decoded _ hle⟩
        · split
          · exact ⟨_, rfl, bufferSafe_decoded _ hle⟩
          · exact ⟨_, by rw [hdig]; rfl, bufferSafe_consulted hle⟩

/-- Whatever the buffer holds on entry, the answer is that of `dcz_negotiate`. -/
theorem dcz_negotiate_into_eq (chained : Bool) (zlcf : LocConf) {r : Request} (hr : r.CoreParsed) (buf : DecodeBuf) :
    ∃ log, dcz_negotiate_into decode chained zlcf r buf =
        .ok (dczChoice ⟨chained, fun s => (decode s).value⟩ zlcf r.is_main r.ssl (r.values (str "Accept-Encoding"))
          (r.values (str "Available-Dictionary")) (r.values (str "Sec-Fetch-Site")), log) ∧ BufferSafe log := by
  unfold dcz_negotiate_into dczChoice
  rw [request_coding_weight_values hr, collect_dcz_headers_eq hr]
  by_cases h1 : zlcf.dcz_dicts.getD [] = []
  · exact ⟨[], by simp [h1, pure, Except.pure], bufferSafe_nil⟩
  by_cases h2 : r.is_main = false
  · exact ⟨[], by simp [h2, pure, Except.pure], bufferSafe_nil⟩
  by_cases h3 : r.ssl = false ∧ zlcf.dcz_assume_secure = false
  · exact ⟨[], by simp [h3, pure, Except.pure], bufferSafe_nil⟩
  by_cases h4 : linesWeight (r.values (str "Accept-Encoding")) (str "dcz") false ≤ 0
  · exact ⟨[], by simp [h4, or_fault, bind, Except.bind, pure, Except.pure], bufferSafe_nil⟩
  · obtain ⟨log, hm, hl⟩ := dcz_match_into_spec hd chained (zlcf.dcz_dicts.getD [])
      (dczHeaders (r.values (str "Available-Dictionary")) (r.values (str "Sec-Fetch-Site"))) buf
    refine ⟨log, ?_, hl⟩
    simp [h1, h2, h3, h4, or_fault, bind, Except.bind, hm]

end

/-! ## When a dictionary is negotiated -/

/-- A byte sequence of 43 characters, with or without the padding, for `hash`. -/
def IsDigestField (raw : Bytes) (hash : Digest) : Prop :=
  ∃ text tail, raw = str ":" ++ (text ++ tail) ++ str ":" ∧ text.length = 43 ∧ (∀ c ∈ text, Base64.IsChar c) ∧
    (tail = [] ∨ tail = str "=") ∧ Base64.decode text = some hash.1

/-- What it takes for `d` to be the answer to `r`. -/
structure Negotiates (zlcf : LocConf) (r : Request) (d : DczDict) : Prop where
  main : r.is_main = true
  secure : r.ssl = true ∨ zlcf.dcz_assume_secure = true
  offered : ∃ q > 0, explicitWeight (r.values (str "Accept-Encoding")) (str "dcz") = some q
  held : ∃ raw, r.values (str "Available-Dictionary") = [raw] ∧ IsDigestField raw d.hash
  site : r.values (str "Sec-Fetch-Site") = [] ∨
    ∃ v, r.values (str "Sec-Fetch-Site") = [v] ∧ (foldCase v = str "same-origin" ∨ foldCase v = str "none")
  configured : d ∈ zlcf.dcz_dicts.getD []

theorem SortedByHash.distinct {dicts : List DczDict} (h : SortedByHash dicts) : DistinctHashes dicts := by
  refine List.pairwise_map.2 (h.imp fun {a b} hlt heq => ?_)
  have hlt : memcmp a.hash.1 b.hash.1 < 0 := hlt
  rw [memcmp_hash.2 heq] at hlt
  exact absurd hlt (by decide)

/-- In a sorted array the lookup finds exactly the entries. -/
theorem dcz_dict_lookup_iff {dicts : List DczDict} (hs : SortedByHash dicts) {digest : Digest} {d : DczDict} :
    dcz_dict_lookup dicts digest = some d ↔ d ∈ dicts ∧ d.hash = digest := by
  constructor
  · exact dcz_dict_lookup_sound
  · rintro ⟨hd, rfl⟩
    obtain ⟨d', hd'⟩ := Option.isSome_iff_exists.1
      (exact_iff_found.1 ((exact_iff hs.distinct).2 (.inr hs)) d hd)
    obtain ⟨hm, hh⟩ := dcz_dict_lookup_sound hd'
    rw [hd', List.inj_on_of_nodup_map hs.distinct hm hd hh]

theorem same_site_iff {v : Bytes} : same_site v = true ↔ foldCase v = str "same-origin" ∨ foldCase v = str "none" := by
  have h1 : foldCase (str "same-origin") = str "same-origin" := by decide
  have h2 : foldCase (str "none") = str "none" := by decide
  rw [same_site, Bool.or_eq_true, equals_nocase_iff (by decide), equals_nocase_iff (by decide), h1, h2]

/-- A field between colons, and what stands between them. -/
theorem framed_iff {raw : Bytes} :
    (2 ≤ raw.length ∧ raw.head? = some 0x3a ∧ raw.getLast? = some 0x3a) ↔
      ∃ inner, raw = str ":" ++ inner ++ str ":" := by
  have hcolon : str ":" = [0x3a] := by decide
  rw [hcolon]
  constructor
  · rintro ⟨hlen, hhead, hlast⟩
    obtain ⟨raw', rfl⟩ := List.head?_eq_some_iff.1 hhead
    have hne : raw' ≠ [] := by rintro rfl; simp at hlen
    have hl : raw'.getLast hne = 0x3a := by
      rw [List.getLast?_cons, List.getLast?_eq_some_getLast hne] at hlast
      simpa using hlast
    refine ⟨raw'.dropLast, ?_⟩
    rw [List.append_assoc, ← hl, List.dropLast_append_getLast hne]
    rfl
  · rintro ⟨inner, rfl⟩
    rw [List.getLast?_append]
    simp

/-- The standard decoder yields a digest from 43 characters and no other number. -/
theorem decode_digest_iff {inner : Bytes} (hlen : inner.length ≤ 44) (hash : Digest) :
    Base64.decode inner = some hash.1 ↔
      ∃ text tail, inner = text ++ tail ∧ text.length = 43 ∧ (∀ c ∈ text, Base64.IsChar c) ∧
        (tail = [] ∨ tail = str "=") ∧ Base64.decode text = some hash.1 := by
  constructor
  · intro h
    obtain ⟨hchars, hmod, hout⟩ := Base64.decode_spec h
    obtain ⟨tail, hinner, htail⟩ := Base64.body_rest inner
    -- 32 bytes are ten groups of four characters and a last one of three
    have h43 : (Base64.body inner).length = 43 := by
      rw [hash.2] at hout
      omega
    refine ⟨Base64.body inner, tail, hinner, h43, hchars, ?_, ?_⟩
    · -- what follows the characters is one byte at most, and then the padding
      have hone : tail.length ≤ 1 := by
        have := congrArg List.length hinner
        rw [List.length_append] at this
        omega
      rcases htail with rfl | htail
      · exact .inl rfl
      · match tail, htail, hone with
        | [c], htail, _ => cases htail; right; decide
        | _ :: _ :: _, _, hone => simp at hone
    · rw [← Base64.decode_append hchars htail, ← hinner]
      exact h
  · rintro ⟨text, tail, rfl, -, hchars, htail, hdec⟩
    have : tail = [] ∨ tail.head? = some Base64.pad := by
      rcases htail with rfl | rfl
      · exact .inl rfl
      · right; decide
    rw [Base64.decode_append hchars this]
    exact hdec

theorem dcz_decode_digest_iff {env : Env} (hd : ∀ src, env.decode_base64 src = Base64.decode src) (raw : Bytes)
    (hash : Digest) : dcz_decode_digest env raw = .ok hash ↔ IsDigestField raw hash := by
  have hinner : ∀ inner : Bytes, ((str ":" ++ inner ++ str ":").drop 1).take ((str ":" ++ inner ++ str ":").length - 2) =
      inner := by
    intro inner
    have hcolon : str ":" = [0x3a] := by decide
    simp [hcolon]
  unfold dcz_decode_digest
  split
  · next hbad =>
    refine ⟨nofun, ?_⟩
    rintro ⟨text, tail, rfl, h43, -, htail, -⟩
    have hframe := framed_iff.2 ⟨text ++ tail, rfl⟩
    have hlen : tail.length ≤ 1 := by rcases htail with rfl | rfl <;> decide
    have hcolon : (str ":").length = 1 := by decide
    rcases hbad with h | h | h | h
    · omega
    · exact absurd hframe.2.1 h
    · exact absurd hframe.2.2 h
    · simp only [List.length_append, hcolon, dcz_digest_b64_len] at h
      omega
  · next hgood =>
    simp only [not_or, not_lt, not_not] at hgood
    obtain ⟨h2, hhead, hlast, h44⟩ := hgood
    obtain ⟨inner, rfl⟩ := framed_iff.1 ⟨h2, hhead, hlast⟩
    have hlen : inner.length ≤ 44 := by
      have hcolon : (str ":").length = 1 := by decide
      simp only [List.length_append, hcolon, dcz_digest_b64_len] at h44
      omega
    rw [hinner, hd]
    have hiff := decode_digest_iff hlen hash
    have hfield : IsDigestField (str ":" ++ inner ++ str ":") hash ↔ Base64.decode inner = some hash.1 := by
      rw [hiff]
      constructor
      · rintro ⟨text, tail, heq, hrest⟩
        exact ⟨text, tail, List.append_cancel_left (List.append_cancel_right heq), hrest⟩
      · rintro ⟨text, tail, rfl, hrest⟩
        exact ⟨text, tail, rfl, hrest⟩
    rw [hfield]
    cases Base64.decode inner with
    | none => simp
    | some out =>
      by_cases h32 : out.length = 32
      · simp only [dif_pos h32, Option.some.injEq]
        constructor
        · intro h
          cases h
          rfl
        · rintro rfl
          rfl
      · simp only [h32, dif_neg, not_false_eq_true, reduceCtorEq, Option.some.injEq, false_iff]
        rintro rfl
        exact h32 hash.2

/-- The gates behind the header walk, for the values of the two headers. -/
theorem dcz_match_iff {env : Env} (hd : ∀ src, env.decode_base64 src = Base64.decode src) {dicts : List DczDict}
    (hs : SortedByHash dicts) (ad sfs : List Bytes) (d : DczDict) :
    dcz_match env dicts (dczHeaders ad sfs) = some d ↔
      (∃ raw, ad = [raw] ∧ IsDigestField raw d.hash) ∧
        (sfs = [] ∨ ∃ v, sfs = [v] ∧ (foldCase v = str "same-origin" ∨ foldCase v = str "none")) ∧ d ∈ dicts := by
  match ad with
  | [] => simp [dcz_match, dczHeaders]
  | raw :: raw' :: ad => simp [dcz_match, dczHeaders]
  | [raw] =>
    simp only [dcz_match, dczHeaders, List.head?_cons, List.length_cons, List.length_nil, Nat.lt_irrefl,
      gt_iff_lt, if_false, List.cons.injEq, and_true, exists_eq_left', zero_add]
    have hfield := dcz_decode_digest_iff hd raw d.hash
    cases hdec : dcz_decode_digest env raw with
    | declined => simp [← hfield, hdec]
    | error => simp [← hfield, hdec]
    | ok digest =>
      rw [← hfield, hdec, Decoded.ok.injEq, eq_comm (a := digest)]
      match sfs with
      | [] => simp [dcz_dict_lookup_iff hs, and_comm]
      | v :: v' :: sfs => simp
      | [v] =>
        have hv := same_site_iff (v := v)
        by_cases hsame : same_site v = true
        · simp [hsame, hv.1 hsame, dcz_dict_lookup_iff hs, and_comm]
        · have hno : ¬ (foldCase v = str "same-origin" ∨ foldCase v = str "none") := fun h => hsame (hv.2 h)
          simp [hsame, hno]

/-- `ngx_decode_base64` as nginx writes it: nothing is stored for a text it rejects. -/
def plainDecoder (src : Bytes) : Decoding := ⟨(Base64.decode src).getD [], (Base64.decode src).isSome⟩

theorem plainDecoder_standard : StandardDecoder plainDecoder where
  value src := by
    unfold plainDecoder Decoding.value
    cases Base64.decode src <;> rfl
  room src := by
    unfold plainDecoder base64_decoded_length
    cases h : Base64.decode src with
    | none => simp
    | some out =>
      have hlen := (Base64.decode_spec h).2.2
      have hbody : (Base64.body src).length ≤ src.length := (List.takeWhile_sublist _).length_le
      simp only [Option.getD_some]
      omega

/-- The negotiation is sound and complete over a sorted array and a standard base64
decoder. It stores at most 33 bytes and looks at them only after a good decode. -/
theorem dcz_negotiate_iff {decode : Bytes → Decoding} (hd : StandardDecoder decode) (chained : Bool) {zlcf : LocConf}
    (hs : SortedByHash (zlcf.dcz_dicts.getD [])) {r : Request} (hr : r.CoreParsed) (buf : DecodeBuf) :
    ∃ answer log, dcz_negotiate_into decode chained zlcf r buf = .ok (answer, log) ∧
      (∀ d, answer = some d ↔ Negotiates zlcf r d) ∧ BufferSafe log := by
  obtain ⟨log, hrun, hsafe⟩ := dcz_negotiate_into_eq hd chained zlcf hr buf
  refine ⟨_, log, hrun, fun d => ?_, hsafe⟩
  have hweight : linesWeight (r.values (str "Accept-Encoding")) (str "dcz") false > 0 ↔
      ∃ q > 0, explicitWeight (r.values (str "Accept-Encoding")) (str "dcz") = some q := by
    rw [linesWeight_explicit (by decide)]
    cases explicitWeight (r.values (str "Accept-Encoding")) (str "dcz") <;> simp
  have hmatch := @dcz_match_iff ⟨chained, fun s => (decode s).value⟩ hd.value _ hs
    (r.values (str "Available-Dictionary")) (r.values (str "Sec-Fetch-Site")) d
  unfold dczChoice
  split
  · next hgate =>
    refine ⟨nofun, fun h => ?_⟩
    have hconf := h.configured
    have hoff := hweight.2 h.offered
    rcases hgate with h1 | h1 | ⟨h1, h2⟩ | h1
    · rw [h1] at hconf; cases hconf
    · rw [h.main] at h1; cases h1
    · rcases h.secure with h' | h'
      · rw [h1] at h'; cases h'
      · rw [h2] at h'; cases h'
    · omega
  · next hgate =>
    simp only [not_or, not_and, Bool.not_eq_false, not_le] at hgate
    obtain ⟨-, hmain, hsec, hw⟩ := hgate
    rw [hmatch]
    constructor
    · rintro ⟨hheld, hsite, hconf⟩
      have hsecure : r.ssl = true ∨ zlcf.dcz_assume_secure = true := by
        cases hssl : r.ssl with
        | true => exact .inl rfl
        | false => exact .inr (hsec hssl)
      exact ⟨hmain, hsecure, hweight.1 hw, hheld, hsite, hconf⟩
    · intro h
      exact ⟨h.held, h.site, h.configured⟩

/-- A location with the one dictionary whose hash is 32 zero bytes. -/
def zeroDict : DczDict := ⟨str "/d", str "x", ⟨List.replicate 32 0, by decide⟩, none, []⟩

def zeroDictConf : LocConf :=
  { enable := true, level := 3, min_length := 20, max_length := none, target_cblock_size := 0, window_log := 0,
    long_mode := false, dcz_window_cap := 0, bypass := none, bypass_vary := none, types := none,
    bufs := ⟨32, 4096⟩, dict := none, dcz_dicts := some [zeroDict], dcz_assume_secure := false }

/-- A same-origin request that holds it. -/
def zeroDictRequest : Request :=
  requestOf [("Accept-Encoding", "zstd, dcz"), ("Sec-Fetch-Site", "Same-Origin"),
    ("Available-Dictionary", ":AAAAAAAAAAAAAAAAAAAAAAAAAAAAAAAAAAAAAAAAAAA=:")]

theorem dcz_negotiate_iff_zero :
    ∃ answer log, dcz_negotiate_into plainDecoder true zeroDictConf zeroDictRequest ⟨List.replicate 48 7, by decide⟩ =
      .ok (answer, log) ∧ answer = some zeroDict ∧ BufferSafe log := by
  obtain ⟨answer, log, hrun, hiff, hsafe⟩ := @dcz_negotiate_iff _ plainDecoder_standard true zeroDictConf
    (by decide) _ (requestOf_coreParsed _ : zeroDictRequest.CoreParsed) ⟨List.replicate 48 7, by decide⟩
  refine ⟨answer, log, hrun, (hiff zeroDict).2 ⟨rfl, .inl rfl, ⟨1000, by decide, ?_⟩, ⟨_, rfl, ?_⟩, ?_, ?_⟩, hsafe⟩
  · decide +kernel
  · exact ⟨str "AAAAAAAAAAAAAAAAAAAAAAAAAAAAAAAAAAAAAAAAAAA", str "=", by decide +kernel, by decide +kernel,
      by decide +kernel, .inr rfl, by decide +kernel⟩
  · exact .inr ⟨str "Same-Origin", by decide +kernel, .inl (by decide)⟩
  · exact List.mem_singleton.2 rfl

end NginxZstd
