import NginxZstd.Dcz.DecodeBuffer
import NginxZstd.Static.Handler
/-!
# The handoff between the static handler and the filter

Both modules look for Available-Dictionary in the header list. The static handler's
scan folds the key of an entry that has no `lowcase_key`; the filter's walk reads
through it. On entries whose key has the length of a name it compares with, that is
a fault (`handoff_agrees_iff`). Elsewhere the two see the same lines.
-/

namespace NginxZstd

open Lib

/-- A header list as the modules find it. An entry another module added may have no
`lowcase_key`. -/
structure Request.Listed (r : Request) : Prop where
  parts : r.headers.WellFormed
  lowcase : ∀ h ∈ r.headers.toList, h.lowcase_key = none ∨ h.lowcase_key = some (foldCase h.key)

/-- What the static scan makes of a number of Available-Dictionary lines. It stops at
the second. -/
def scanResult (count : Nat) : Except Unit Nat := if count ≤ 1 then .ok count else .error ()

/-- The two modules agree on `r`: the filter's walk reads nothing that is not there
and counts the lines the static scan counts, and the static handler stands aside
for every main request the filter has a dictionary for. -/
structure HandoffAgrees (env : Env) (zlcf : LocConf) (r : Request) : Prop where
  counts : ∃ hdrs, collect_dcz_headers r = .ok hdrs ∧
    r.headers.walk count_available_dictionary 0 = some (scanResult hdrs.avail_dict_count)
  bypass : r.is_main = true → ∀ d, dcz_negotiate env zlcf r = .ok (some d) → should_bypass env.chained r = .ok true

/-- The filter has no reason to read through an absent `lowcase_key`. -/
def KeysReadable (r : Request) : Prop :=
  ∀ h ∈ r.headers.toList, h.lowcase_key = none → h.key.length ≠ 20 ∧ h.key.length ≠ 14

instance (r : Request) : Decidable (KeysReadable r) :=
  inferInstanceAs (Decidable (∀ h ∈ r.headers.toList, h.lowcase_key = none → h.key.length ≠ 20 ∧ h.key.length ≠ 14))

/-! ## Where every key can be read -/

theorem Request.Listed.readable {r : Request} (hr : r.Listed) (hk : KeysReadable r) :
    ∀ h ∈ r.headers.toList, KeyReadable h := by
  intro h hh
  rcases hr.lowcase h hh with hnone | hsome
  · exact .inr (hk h hh hnone)
  · exact .inl hsome

theorem static_scan_eq {r : Request} (hr : r.Listed) :
    r.headers.walk count_available_dictionary 0 =
      some (scanResult (r.values (str "Available-Dictionary")).length) := by
  rw [PartList.walk_eq _ _ hr.parts, foldlM_count _ hr.lowcase 0 (by omega), Request.values, List.length_map,
    Nat.zero_add]
  rfl

/-- A dictionary is only ever negotiated for a client that offers dcz and sent one
Available-Dictionary line. -/
theorem dcz_negotiate_some {env : Env} {zlcf : LocConf} {r : Request} {d : DczDict}
    (h : dcz_negotiate env zlcf r = .ok (some d)) :
    ∃ weight hdrs, request_coding_weight env.chained r (str "dcz") false = some weight ∧ weight > 0 ∧
      collect_dcz_headers r = .ok hdrs ∧ hdrs.avail_dict_h.isSome ∧ hdrs.avail_dict_count ≤ 1 := by
  unfold dcz_negotiate at h
  by_cases h1 : zlcf.dcz_dicts.getD [] = []
  · simp [h1, pure, Except.pure] at h
  by_cases h2 : r.is_main = false
  · simp [h1, h2, pure, Except.pure] at h
  by_cases h3 : r.ssl = false ∧ zlcf.dcz_assume_secure = false
  · simp [h1, h3, pure, Except.pure] at h
  simp only [h1, if_false, Bool.not_eq_true', h2, Bool.and_eq_true, h3] at h
  obtain ⟨weight, hw, h⟩ := bind_ok h
  have hweight : request_coding_weight env.chained r (str "dcz") false = some weight := by
    cases hq : request_coding_weight env.chained r (str "dcz") false <;> rw [hq] at hw <;> cases hw
    rfl
  by_cases hpos : weight ≤ 0
  · simp [hpos, pure, Except.pure] at h
  rw [if_neg hpos] at h
  obtain ⟨hdrs, hc, h⟩ := bind_ok h
  have hm : dcz_match env (zlcf.dcz_dicts.getD []) hdrs = some d := Except.ok.inj h
  refine ⟨weight, hdrs, hweight, by omega, hc, ?_⟩
  unfold dcz_match at hm
  split at hm
  · cases hm
  · next raw hraw =>
    split at hm
    · cases hm
    · exact ⟨by rw [hraw]; rfl, by omega⟩

theorem handoff_agrees {r : Request} (hr : r.Listed) (hk : KeysReadable r) (env : Env) (zlcf : LocConf) :
    HandoffAgrees env zlcf r := by
  have hc := collect_dcz_headers_readable hr.parts (hr.readable hk)
  refine ⟨⟨_, hc, static_scan_eq hr⟩, fun _ d hd => ?_⟩
  obtain ⟨weight, hdrs, hw, hpos, hc', hsome, hone⟩ := dcz_negotiate_some hd
  obtain rfl := Except.ok.inj (hc.symm.trans hc')
  -- the filter found a line and not two, so the static scan counts one
  have hlen : (r.values (str "Available-Dictionary")).length = 1 := by
    cases hv : r.values (str "Available-Dictionary") with
    | nil => rw [hv] at hsome; cases hsome
    | cons v vs => rw [hv] at hone; simpa [dczHeaders] using hone
  rw [should_bypass, static_scan_eq hr, hlen, hw]
  simp [scanResult, or_fault, bind, Except.bind, pure, Except.pure, hpos]

/-! ## Where one cannot -/

/-- Reading through an absent `lowcase_key` ends the walk. -/
theorem note_dcz_header_fault {h : TableElt} (hnone : h.lowcase_key = none)
    (hlen : h.key.length = 20 ∨ h.key.length = 14) (acc : DczHeaders) :
    note_dcz_header acc h = .error .fault := by
  have h20 : (str "available-dictionary").length = 20 := by decide
  have h14 : (str "sec-fetch-site").length = 14 := by decide
  rcases hlen with hlen | hlen
  · simp [note_dcz_header, lowcase_is, hnone, hlen, h20, or_fault, bind, Except.bind]
  · simp [note_dcz_header, lowcase_is, hnone, hlen, h20, h14, or_fault, bind, Except.bind, pure, Except.pure]

theorem foldlM_note_dcz_header_error {hs : List TableElt} {h : TableElt} (hh : h ∈ hs)
    (hnone : h.lowcase_key = none) (hlen : h.key.length = 20 ∨ h.key.length = 14) :
    ∀ acc, ∃ e, hs.foldlM note_dcz_header acc = .error e := by
  induction hs with
  | nil => cases hh
  | cons h' hs ih =>
    intro acc
    rw [List.foldlM_cons]
    rcases List.mem_cons.1 hh with rfl | hh
    · rw [note_dcz_header_fault hnone hlen]
      exact ⟨_, rfl⟩
    · -- the walk ends here or goes on to the entry
      cases note_dcz_header acc h' with
      | error e => exact ⟨e, rfl⟩
      | ok acc' => exact ih hh acc'

/-- The modules agree on exactly the header lists whose entries without a
`lowcase_key` have keys of other lengths than the filter looks for. -/
theorem handoff_agrees_iff {r : Request} (hr : r.Listed) (env : Env) (zlcf : LocConf) :
    HandoffAgrees env zlcf r ↔ KeysReadable r := by
  refine ⟨fun hagree h hh hnone => ?_, fun hk => handoff_agrees hr hk env zlcf⟩
  by_contra hlen
  obtain ⟨hdrs, hc, -⟩ := hagree.counts
  obtain ⟨e, he⟩ := foldlM_note_dcz_header_error hh hnone (by omega) ⟨none, 0, none, 0⟩
  rw [collect_dcz_headers, PartList.walk_eq _ _ hr.parts, he] at hc
  cases hc

/-- A request with the core-parsed lines, and behind them one another module added. -/
def injectedRequest (lines : List (String × String)) (key value : String) : Request :=
  { requestOf lines with
    headers := ⟨20, (requestOf lines).headers.part ++ [⟨1, str key, str value, none⟩], []⟩ }

theorem injectedRequest_listed (lines : List (String × String)) (key value : String) :
    (injectedRequest lines key value).Listed := by
  refine ⟨by simp [injectedRequest, PartList.WellFormed], fun h hh => ?_⟩
  simp only [injectedRequest, PartList.toList, List.flatten_nil, List.append_nil, List.mem_append,
    List.mem_singleton] at hh
  rcases hh with hh | rfl
  · exact .inr ((requestOf_coreParsed lines).lowcase h (by simpa [requestOf, PartList.toList] using hh))
  · exact .inl rfl

/-- Another module adds a header of its own to a client's request. -/
theorem handoff_agrees_forwarded :
    HandoffAgrees ⟨true, Base64.decode⟩ zeroDictConf
      (injectedRequest [("Accept-Encoding", "dcz"),
        ("Available-Dictionary", ":AAAAAAAAAAAAAAAAAAAAAAAAAAAAAAAAAAAAAAAAAAA=:")] "X-Forwarded-For" "10.0.0.1") :=
  (handoff_agrees_iff (injectedRequest_listed _ _ _) _ _).2 (by decide +kernel)

/-- Another module adds the Available-Dictionary line itself. The static handler
stands aside for the filter, which faults. -/
def injectedDictRequest : Request :=
  injectedRequest [("Accept-Encoding", "dcz")] "Available-Dictionary" ":AAAAAAAAAAAAAAAAAAAAAAAAAAAAAAAAAAAAAAAAAAA=:"

theorem handoff_faults :
    injectedDictRequest.Listed ∧ should_bypass true injectedDictRequest = .ok true ∧
      collect_dcz_headers injectedDictRequest = .error .fault ∧
      ¬ HandoffAgrees ⟨true, Base64.decode⟩ zeroDictConf injectedDictRequest := by
  have hfault : collect_dcz_headers injectedDictRequest = .error .fault := by rfl
  refine ⟨injectedRequest_listed _ _ _, ?_, hfault, fun h => ?_⟩
  · have hscan := static_scan_eq (injectedRequest_listed [("Accept-Encoding", "dcz")] "Available-Dictionary"
      ":AAAAAAAAAAAAAAAAAAAAAAAAAAAAAAAAAAAAAAAAAAA=:")
    have hweight : request_coding_weight true injectedDictRequest (str "dcz") false = some 1000 := by decide +kernel
    rw [should_bypass, injectedDictRequest, hscan, ← injectedDictRequest, hweight]
    decide +kernel
  · obtain ⟨hdrs, hc, -⟩ := h.counts
    rw [hfault] at hc
    cases hc

end NginxZstd
