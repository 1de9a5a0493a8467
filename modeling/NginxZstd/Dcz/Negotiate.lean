import NginxZstd.AcceptEncoding.Lines
import NginxZstd.Dcz.Lookup
import NginxZstd.Response
/-!
# Negotiating a dictionary

Whether a request may be answered with a dictionary of the location, and which
one. Every step either goes on or falls back to plain negotiation. What the answer
depends on is small: the Accept-Encoding, Available-Dictionary and Sec-Fetch-Site
lines, whether the request is a main one, and the security of its connection.
-/

namespace NginxZstd

open Lib

/-- What the code takes from its environment: the nginx version, by whether core
chains duplicate header lines, and `ngx_decode_base64`. -/
structure Env where
  chained : Bool
  decode_base64 : Bytes → Option Bytes

/-! ## The header walk -/

structure DczHeaders where
  avail_dict_h : Option Bytes
  avail_dict_count : Nat
  sec_fetch_site_h : Option Bytes
  sec_fetch_site_count : Nat
deriving DecidableEq

/-- `h[i].key.len == sizeof(name) - 1 && ngx_memcmp(h[i].lowcase_key, name, ...) == 0`,
which reads through `lowcase_key` whenever the lengths match. -/
def lowcase_is (h : TableElt) (name : Bytes) : Except Abort Bool :=
  if h.key.length = name.length then do
    let lowcase ← or_fault h.lowcase_key
    return memcmp lowcase name == 0
  else return false

def note_dcz_header (acc : DczHeaders) (h : TableElt) : Except Abort DczHeaders := do
  if ← lowcase_is h (str "available-dictionary") then
    return { acc with
      avail_dict_count := acc.avail_dict_count + 1
      avail_dict_h := acc.avail_dict_h.or (some h.value) }
  else if ← lowcase_is h (str "sec-fetch-site") then
    return { acc with
      sec_fetch_site_count := acc.sec_fetch_site_count + 1
      sec_fetch_site_h := acc.sec_fetch_site_h.or (some h.value) }
  else return acc

/-- `ngx_http_zstd_collect_dcz_headers`. -/
def collect_dcz_headers (r : Request) : Except Abort DczHeaders := do
  match ← or_fault (r.headers.walk note_dcz_header ⟨none, 0, none, 0⟩) with
  | .ok acc => return acc
  | .error e => throw e

/-! ## The digest -/

/-- The three return codes of `ngx_http_zstd_dcz_decode_digest`. -/
inductive Decoded where
  | ok (digest : Digest)
  | declined
  | error

/-- `NGX_HTTP_ZSTD_DCZ_DIGEST_B64_LEN`. -/
def dcz_digest_b64_len : Nat := 44

/-- `ngx_http_zstd_dcz_decode_digest`. -/
def dcz_decode_digest (env : Env) (raw : Bytes) : Decoded :=
  if raw.length < 2 ∨ raw.head? ≠ some 0x3a ∨ raw.getLast? ≠ some 0x3a ∨ raw.length - 2 > dcz_digest_b64_len then
    .declined
  else
    match env.decode_base64 ((raw.drop 1).take (raw.length - 2)) with
    | none => .error
    | some decoded => if h : decoded.length = 32 then .ok ⟨decoded, h⟩ else .error

/-! ## The gates -/

/-- The Sec-Fetch-Site values that let a dictionary be used. -/
def same_site (value : Bytes) : Bool := equals_nocase value (str "same-origin") || equals_nocase value (str "none")

/-- The gates behind the header walk. -/
def dcz_match (env : Env) (dcz_dicts : List DczDict) (hdrs : DczHeaders) : Option DczDict :=
  match hdrs.avail_dict_h with
  | none => none
  | some raw =>
    if hdrs.avail_dict_count > 1 then none
    else
      match dcz_decode_digest env raw with
      | .declined => none
      | .error => none
      | .ok buf =>
        if hdrs.sec_fetch_site_count > 1 then none
        else if hdrs.sec_fetch_site_h.any fun v => !same_site v then none
        else dcz_dict_lookup dcz_dicts buf

/-- `ngx_http_zstd_dcz_negotiate`. -/
def dcz_negotiate (env : Env) (zlcf : LocConf) (r : Request) : Except Abort (Option DczDict) := do
  let dcz_dicts := zlcf.dcz_dicts.getD []
  if dcz_dicts = [] then return none
  if !r.is_main then return none
  if !r.ssl && !zlcf.dcz_assume_secure then return none
  let weight ← or_fault (request_coding_weight env.chained r (str "dcz") false)
  if weight ≤ 0 then return none
  let hdrs ← collect_dcz_headers r
  return dcz_match env dcz_dicts hdrs

/-! ## What the answer depends on -/

/-- The walk's result, from the values of the two headers. -/
def dczHeaders (ad sfs : List Bytes) : DczHeaders := ⟨ad.head?, ad.length, sfs.head?, sfs.length⟩

/-- The negotiation as a function of what it reads. -/
def dczChoice (env : Env) (zlcf : LocConf) (is_main ssl : Bool) (ae ad sfs : List Bytes) : Option DczDict :=
  if zlcf.dcz_dicts.getD [] = [] ∨ is_main = false ∨ (ssl = false ∧ zlcf.dcz_assume_secure = false) ∨
      linesWeight ae (str "dcz") false ≤ 0 then none
  else dcz_match env (zlcf.dcz_dicts.getD []) (dczHeaders ad sfs)

/-- The key is folded behind `lowcase_key`, or the walk has no reason to read there. -/
def KeyReadable (h : TableElt) : Prop :=
  h.lowcase_key = some (foldCase h.key) ∨
    h.key.length ≠ (str "available-dictionary").length ∧ h.key.length ≠ (str "sec-fetch-site").length

theorem lowcase_is_eq {h : TableElt} {name : Bytes}
    (hl : h.lowcase_key = some (foldCase h.key) ∨ h.key.length ≠ name.length) :
    lowcase_is h name = .ok (decide (foldCase h.key = name)) := by
  unfold lowcase_is
  split
  · next hlen =>
    rw [hl.resolve_right (not_not.2 hlen)]
    have := memcmp_eq_zero (a := foldCase h.key) (b := name) (by simpa using hlen)
    show Except.ok (memcmp (foldCase h.key) name == 0) = _
    by_cases he : foldCase h.key = name
    · rw [this.2 he]; simp [he]
    · simp [he, mt this.1 he]
  · next hlen =>
    have : foldCase h.key ≠ name := fun he => hlen (by simpa using congrArg List.length he)
    simp [this, pure, Except.pure]

theorem dczHeaders_add_ad (ad sfs : List Bytes) (value : Bytes) :
    { dczHeaders ad sfs with
      avail_dict_count := (dczHeaders ad sfs).avail_dict_count + 1
      avail_dict_h := (dczHeaders ad sfs).avail_dict_h.or (some value) } = dczHeaders (ad ++ [value]) sfs := by
  simp [dczHeaders, List.head?_append]

theorem dczHeaders_add_sfs (ad sfs : List Bytes) (value : Bytes) :
    { dczHeaders ad sfs with
      sec_fetch_site_count := (dczHeaders ad sfs).sec_fetch_site_count + 1
      sec_fetch_site_h := (dczHeaders ad sfs).sec_fetch_site_h.or (some value) } = dczHeaders ad (sfs ++ [value]) := by
  simp [dczHeaders, List.head?_append]

theorem note_dcz_header_eq {h : TableElt} (hl : KeyReadable h) (ad sfs : List Bytes) :
    note_dcz_header (dczHeaders ad sfs) h =
      .ok (dczHeaders (ad ++ (linesNamed (str "Available-Dictionary") [h]).map TableElt.value)
        (sfs ++ (linesNamed (str "Sec-Fetch-Site") [h]).map TableElt.value)) := by
  have had : foldCase (str "Available-Dictionary") = str "available-dictionary" := by decide
  have hsfs : foldCase (str "Sec-Fetch-Site") = str "sec-fetch-site" := by decide
  rw [note_dcz_header, lowcase_is_eq (hl.imp_right And.left), lowcase_is_eq (hl.imp_right And.right),
    dczHeaders_add_ad, dczHeaders_add_sfs]
  simp only [linesNamed, had, hsfs, List.filter_cons, List.filter_nil]
  have hne : str "available-dictionary" ≠ str "sec-fetch-site" := by decide
  by_cases h1 : foldCase h.key = str "available-dictionary"
  · simp [h1, hne, bind, Except.bind, pure, Except.pure]
  by_cases h2 : foldCase h.key = str "sec-fetch-site"
  · simp [h2, hne.symm, bind, Except.bind, pure, Except.pure]
  · simp [h1, h2, bind, Except.bind, pure, Except.pure]

theorem linesNamed_cons (name : Bytes) (h : TableElt) (hs : List TableElt) :
    linesNamed name (h :: hs) = linesNamed name [h] ++ linesNamed name hs := by
  rw [linesNamed, linesNamed, linesNamed, ← List.filter_append, List.singleton_append]

theorem foldlM_note_dcz_header (hs : List TableElt) (hl : ∀ h ∈ hs, KeyReadable h) :
    ∀ ad sfs : List Bytes, hs.foldlM note_dcz_header (dczHeaders ad sfs) =
      .ok (dczHeaders (ad ++ (linesNamed (str "Available-Dictionary") hs).map TableElt.value)
        (sfs ++ (linesNamed (str "Sec-Fetch-Site") hs).map TableElt.value)) := by
  induction hs with
  | nil => intro ad sfs; simp [linesNamed, pure, Except.pure]
  | cons h hs ih =>
    intro ad sfs
    have ih := ih fun x hx => hl x (List.mem_cons_of_mem _ hx)
    rw [List.foldlM_cons, note_dcz_header_eq (hl h List.mem_cons_self), linesNamed_cons _ h hs,
      linesNamed_cons _ h hs, List.map_append, List.map_append, ← List.append_assoc, ← List.append_assoc, ← ih]
    rfl

/-- Where it can read every key it looks at, the walk collects the values of the two
headers. -/
theorem collect_dcz_headers_readable {r : Request} (hw : r.headers.WellFormed)
    (hl : ∀ h ∈ r.headers.toList, KeyReadable h) :
    collect_dcz_headers r =
      .ok (dczHeaders (r.values (str "Available-Dictionary")) (r.values (str "Sec-Fetch-Site"))) := by
  have h := foldlM_note_dcz_header r.headers.toList hl [] []
  simp only [List.nil_append] at h
  simp only [collect_dcz_headers, PartList.walk_eq _ _ hw, or_fault]
  rw [show (⟨none, 0, none, 0⟩ : DczHeaders) = dczHeaders [] [] from rfl, h]
  rfl

theorem collect_dcz_headers_eq {r : Request} (hr : r.CoreParsed) :
    collect_dcz_headers r =
      .ok (dczHeaders (r.values (str "Available-Dictionary")) (r.values (str "Sec-Fetch-Site"))) :=
  collect_dcz_headers_readable hr.parts fun h hh => .inl (hr.lowcase h hh)

theorem dcz_negotiate_eq (env : Env) (zlcf : LocConf) {r : Request} (hr : r.CoreParsed) :
    dcz_negotiate env zlcf r = .ok (dczChoice env zlcf r.is_main r.ssl (r.values (str "Accept-Encoding"))
      (r.values (str "Available-Dictionary")) (r.values (str "Sec-Fetch-Site"))) := by
  unfold dcz_negotiate dczChoice
  rw [request_coding_weight_values hr, collect_dcz_headers_eq hr]
  by_cases h1 : zlcf.dcz_dicts.getD [] = []
  · simp [h1, pure, Except.pure]
  by_cases h2 : r.is_main = false
  · simp [h2, pure, Except.pure]
  by_cases h3 : r.ssl = false ∧ zlcf.dcz_assume_secure = false
  · simp [h3, pure, Except.pure]
  by_cases h4 : linesWeight (r.values (str "Accept-Encoding")) (str "dcz") false ≤ 0
  · simp [h4, or_fault, bind, Except.bind, pure, Except.pure]
  · simp [h1, h2, h3, h4, or_fault, bind, Except.bind, pure, Except.pure]

end NginxZstd
