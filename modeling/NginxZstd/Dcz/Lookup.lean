import NginxZstd.Conf
/-!
# Looking up a dictionary

`dcz_dict_lookup` scans up to sixteen dictionaries and searches larger arrays by
bisection. `exact_iff` says what that takes: an array with distinct keys answers
every digest correctly exactly when it is short enough to be scanned or sorted.
-/

namespace NginxZstd

open Lib

/-- `NGX_HTTP_ZSTD_DCZ_BSEARCH_THRESHOLD`. -/
def dcz_bsearch_threshold : Nat := 16

/-- `ngx_http_zstd_dcz_dict_cmp`. -/
def dcz_dict_cmp (first second : DczDict) : Int := memcmp first.hash.1 second.hash.1

/-- `ngx_http_zstd_dcz_dict_sort`, over whatever `ngx_qsort` does. -/
def dcz_dict_sort (qsort : List DczDict → List DczDict) (dcz_dicts : List DczDict) : List DczDict :=
  if dcz_dicts.length > 1 then qsort dcz_dicts else dcz_dicts

/-- `ngx_http_zstd_dcz_dict_lookup`. -/
def dcz_dict_lookup (dcz_dicts : List DczDict) (buf : Digest) : Option DczDict :=
  if dcz_dicts.length > dcz_bsearch_threshold then
    bsearch (fun d => memcmp d.hash.1 buf.1) dcz_dicts 0 (dcz_dicts.length - 1)
  else dcz_dicts.find? fun d => memcmp d.hash.1 buf.1 = 0

/-- Sorted by hash, which also makes the hashes distinct. -/
def SortedByHash (dicts : List DczDict) : Prop :=
  Sorted (fun a b : Digest => memcmp a.1 b.1) DczDict.hash dicts

instance (dicts : List DczDict) : Decidable (SortedByHash dicts) := inferInstanceAs (Decidable (Sorted _ _ dicts))

/-- No two dictionaries share a hash. -/
def DistinctHashes (dicts : List DczDict) : Prop := (dicts.map DczDict.hash).Nodup

/-- What `ngx_qsort` is documented to do with a comparator: permute into
non-decreasing order. -/
structure Sorts (cmp : DczDict → DczDict → Int) (qsort : List DczDict → List DczDict) : Prop where
  perm : ∀ xs, (qsort xs).Perm xs
  sorted : ∀ xs, (qsort xs).Pairwise fun x y => cmp x y ≤ 0

/-- The lookup answers every digest: with an entry of that hash where there is
one, with `NULL` where there is none. -/
def Exact (dicts : List DczDict) : Prop :=
  ∀ digest : Digest,
    match dcz_dict_lookup dicts digest with
    | some d => d ∈ dicts ∧ d.hash = digest
    | none => ∀ d ∈ dicts, d.hash ≠ digest

theorem memcmp_hash {d : DczDict} {digest : Digest} : memcmp d.hash.1 digest.1 = 0 ↔ d.hash = digest :=
  (memcmp_comparator 32).zero

theorem dcz_dict_lookup_sound {dicts : List DczDict} {digest : Digest} {d : DczDict}
    (h : dcz_dict_lookup dicts digest = some d) : d ∈ dicts ∧ d.hash = digest := by
  unfold dcz_dict_lookup at h
  split at h
  · obtain ⟨hm, hz⟩ := bsearch_sound h
    exact ⟨hm, memcmp_hash.1 hz⟩
  · exact ⟨List.mem_of_find?_eq_some h, memcmp_hash.1 (by simpa using List.find?_some h)⟩

/-- Exactness is finding every entry of the array. -/
theorem exact_iff_found {dicts : List DczDict} :
    Exact dicts ↔ ∀ d ∈ dicts, (dcz_dict_lookup dicts d.hash).isSome := by
  constructor
  · intro h d hd
    have := h d.hash
    split at this
    · next hl => simp [hl]
    · exact absurd rfl (this d hd)
  · intro h digest
    split
    · next d hl => exact dcz_dict_lookup_sound hl
    · next hl =>
      rintro d hd rfl
      have := h d hd
      rw [hl] at this
      cases this

theorem exact_iff {dicts : List DczDict} (hn : DistinctHashes dicts) :
    Exact dicts ↔ dicts.length ≤ dcz_bsearch_threshold ∨ SortedByHash dicts := by
  rw [exact_iff_found]
  by_cases hlen : dicts.length > dcz_bsearch_threshold
  · simp only [dcz_dict_lookup, if_pos hlen]
    rw [found_iff_sorted (memcmp_comparator 32) DczDict.hash hn]
    exact ⟨Or.inr, fun h => h.resolve_left (by omega)⟩
  · refine ⟨fun _ => Or.inl (by omega), fun _ d hd => ?_⟩
    simp only [dcz_dict_lookup, if_neg hlen, List.find?_isSome]
    exact ⟨d, hd, by simpa using memcmp_hash.2 rfl⟩

/-- Sorting an array with distinct hashes makes it strictly sorted. -/
theorem dcz_dict_sort_spec {qsort : List DczDict → List DczDict} (hq : Sorts dcz_dict_cmp qsort)
    {dicts : List DczDict} (hn : DistinctHashes dicts) :
    DistinctHashes (dcz_dict_sort qsort dicts) ∧ SortedByHash (dcz_dict_sort qsort dicts) := by
  unfold dcz_dict_sort
  split
  · have hn' : DistinctHashes (qsort dicts) := (((hq.perm dicts).map DczDict.hash).nodup_iff).2 hn
    refine ⟨hn', ?_⟩
    have hne := List.pairwise_map.1 hn'
    refine ((hq.sorted dicts).and hne).imp fun {a b} h => ?_
    have : memcmp a.hash.1 b.hash.1 ≠ 0 := fun hz => h.2 (memcmp_hash.1 hz)
    have hle : memcmp a.hash.1 b.hash.1 ≤ 0 := h.1
    exact lt_of_le_of_ne hle this
  · next h =>
    refine ⟨hn, ?_⟩
    match dicts, h with
    | [], _ => exact List.Pairwise.nil
    | [d], _ => exact List.pairwise_singleton _ _
    | _ :: _ :: _, h => simp at h

end NginxZstd
