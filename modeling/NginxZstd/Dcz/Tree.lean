import NginxZstd.Dcz.DictFile
import NginxZstd.Dcz.Lookup
/-!
# Dictionaries over the configuration tree

`ngx_conf_parse` runs the directives of a file top to bottom, each into the conf
of the block it stands in; `merge_loc_conf` then visits every server with the
http conf as parent and every location with the conf around it. An array is
sorted when the block that owns it is visited as a child. The http conf never is,
so the servers that inherit its array inherit it in declaration order.
-/

namespace NginxZstd

open Lib

/-- The directives that touch dcz dictionaries. -/
inductive Directive where
  | dict_strict_path (on : Bool)
  | dcz_dict_trust_hashes (on : Bool)
  | dcz_dict_file (path : Bytes) (hash : Option Bytes)

/-- The contents of a block in file order. The blocks directly inside `http` are
the servers, those inside a server its locations, and so on down. -/
inductive ConfFile where
  | done
  | directive (d : Directive) (rest : ConfFile)
  | block (body rest : ConfFile)

/-- The location confs of the blocks inside one block, each with the array it
declared or `none` for `NGX_CONF_UNSET_PTR`. -/
inductive Confs where
  | done
  | block (dcz_dicts : Option (List DczDict)) (inside rest : Confs)

/-- What the parse threads through the whole file. -/
structure Parse where
  zmcf : DictFlags
  loads : List Load

/-! ## Parsing -/

/-- `ngx_conf_set_flag_slot`. -/
def set_flag_slot (flag : Option Bool) (on : Bool) : Except ConfError (Option Bool) :=
  if flag.isSome then .error .is_duplicate else .ok (some on)

/-- One directive. The two flags are `NGX_HTTP_MAIN_CONF` only. -/
def run_directive (L : Loader) (http : Bool) (s : Parse) (own : Option (List DczDict)) :
    Directive → Except ConfError (Parse × Option (List DczDict))
  | .dict_strict_path on => do
    if ¬ http then throw .not_allowed_here
    let flag ← set_flag_slot s.zmcf.dict_strict_path on
    return ({ s with zmcf := { s.zmcf with dict_strict_path := flag } }, own)
  | .dcz_dict_trust_hashes on => do
    if ¬ http then throw .not_allowed_here
    let flag ← set_flag_slot s.zmcf.dcz_dict_trust_hashes on
    return ({ s with zmcf := { s.zmcf with dcz_dict_trust_hashes := flag } }, own)
  | .dcz_dict_file path hash => do
    let (zmcf, dicts, load) ← dcz_dict_file L s.zmcf own path hash
    return (⟨zmcf, s.loads ++ [load]⟩, some dicts)

/-- `ngx_conf_parse` over one block that has declared `own` so far. -/
def conf_parse (L : Loader) (http : Bool) :
    Parse → Option (List DczDict) → ConfFile → Except ConfError (Parse × Option (List DczDict) × Confs)
  | s, own, .done => .ok (s, own, .done)
  | s, own, .directive d rest => do
    let (s, own) ← run_directive L http s own d
    conf_parse L http s own rest
  | s, own, .block body rest => do
    let (s, inner, inside) ← conf_parse L false s none body
    let (s, own, after) ← conf_parse L http s own rest
    return (s, own, .block inner inside after)

/-- The ordering checks of `ngx_http_zstd_init_main_conf`. -/
def init_main_conf (zmcf : DictFlags) : Except ConfError DictFlags := do
  let zmcf := { zmcf with dict_strict_path := some (zmcf.dict_strict_path.getD false) }
  if zmcf.dict_strict_path = some true then
    if let some path := zmcf.dcz_dict_loaded_before_strict_on then throw (.strict_after path)
  let zmcf := { zmcf with dcz_dict_trust_hashes := some (zmcf.dcz_dict_trust_hashes.getD false) }
  if zmcf.dcz_dict_trust_hashes = some true then
    if let some path := zmcf.dcz_dict_verified_before_trust_on then throw (.trust_after path)
  return zmcf

/-- A configuration that has been parsed but not merged. -/
structure Loaded where
  zmcf : DictFlags
  loads : List Load
  http : Option (List DczDict)
  servers : Confs

def load (L : Loader) (file : ConfFile) : Except ConfError Loaded := do
  let (s, http, servers) ← conf_parse L true ⟨create_main_conf, []⟩ none file
  let zmcf ← init_main_conf s.zmcf
  return ⟨zmcf, s.loads, http, servers⟩

/-! ## Merging -/

/-- The dcz lines of `ngx_http_zstd_merge_loc_conf`: sort an own array, then
inherit. -/
def merge_dcz_dicts (qsort : List DczDict → List DczDict) (prev conf : Option (List DczDict)) :
    Option (List DczDict) :=
  let conf := conf.map (dcz_dict_sort qsort)
  if conf = none then prev else conf

/-- The merge of all blocks inside a block whose merged conf is `prev`. -/
def merge_locations (qsort : List DczDict → List DczDict) (prev : Option (List DczDict)) : Confs → Confs
  | .done => .done
  | .block conf inside rest =>
    let conf := merge_dcz_dicts qsort prev conf
    .block conf (merge_locations qsort conf inside) (merge_locations qsort prev rest)

/-- The arrays of all blocks, at any depth. -/
def Confs.arrays : Confs → List (Option (List DczDict))
  | .done => []
  | .block conf inside rest => conf :: (inside.arrays ++ rest.arrays)

/-- The effective arrays of every server and location. -/
def effective (qsort : List DczDict → List DczDict) (c : Loaded) : List (Option (List DczDict)) :=
  (merge_locations qsort c.http c.servers).arrays

/-! ## Distinct keys -/

/-- Every array declared inside has distinct keys. -/
def Confs.Distinct (c : Confs) : Prop := ∀ ds, some ds ∈ c.arrays → DistinctHashes ds

theorem run_directive_distinct {L : Loader} {http : Bool} {s s' : Parse} {own own' : Option (List DczDict)}
    {d : Directive} (h : run_directive L http s own d = .ok (s', own'))
    (ho : ∀ ds, own = some ds → DistinctHashes ds) : ∀ ds, own' = some ds → DistinctHashes ds := by
  cases d with
  | dict_strict_path on =>
    simp only [run_directive] at h
    split at h
    · cases h
    obtain ⟨_, -, h⟩ := bind_ok h
    cases h
    exact ho
  | dcz_dict_trust_hashes on =>
    simp only [run_directive] at h
    split at h
    · cases h
    obtain ⟨_, -, h⟩ := bind_ok h
    cases h
    exact ho
  | dcz_dict_file path hash =>
    obtain ⟨⟨zmcf, dicts, load⟩, hd, h⟩ := bind_ok h
    cases h
    obtain ⟨rfl, hnew⟩ := dcz_dict_file_spec hd
    rintro ds ⟨rfl⟩
    have hold : DistinctHashes (own.getD []) := by
      cases own with
      | none => exact List.nodup_nil
      | some ds => exact ho ds rfl
    refine List.Pairwise.map _ (fun _ _ h => h)
      (List.pairwise_append.2 ⟨List.pairwise_map.1 hold, List.pairwise_singleton _ _, ?_⟩)
    intro a ha b hb
    rw [List.mem_singleton.1 hb]
    exact hnew a ha

/-- Every array a successful parse builds, at any depth, has distinct keys. -/
theorem conf_parse_distinct {L : Loader} (file : ConfFile) :
    ∀ {http : Bool} {s s' : Parse} {own own' : Option (List DczDict)} {inside : Confs},
      conf_parse L http s own file = .ok (s', own', inside) → (∀ ds, own = some ds → DistinctHashes ds) →
      (∀ ds, own' = some ds → DistinctHashes ds) ∧ inside.Distinct := by
  induction file with
  | done =>
    intro http s s' own own' inside h ho
    cases h
    exact ⟨ho, fun ds hds => by simp [Confs.arrays] at hds⟩
  | directive d rest ih =>
    intro http s s' own own' inside h ho
    obtain ⟨⟨s1, own1⟩, h1, h⟩ := bind_ok h
    exact ih h (run_directive_distinct h1 ho)
  | block body rest ihb ihr =>
    intro http s s' own own' inside h ho
    obtain ⟨⟨s1, inner, sub⟩, h1, h⟩ := bind_ok h
    obtain ⟨⟨s2, own2, after⟩, h2, h⟩ := bind_ok h
    cases h
    obtain ⟨hinner, hsub⟩ := ihb h1 (fun _ hn => by cases hn)
    obtain ⟨hown, hafter⟩ := ihr h2 ho
    refine ⟨hown, fun ds hds => ?_⟩
    simp only [Confs.arrays, List.mem_cons, List.mem_append] at hds
    rcases hds with hds | hds | hds
    · exact hinner ds hds.symm
    · exact hsub ds hds
    · exact hafter ds hds

theorem load_distinct {L : Loader} {file : ConfFile} {c : Loaded} (h : load L file = .ok c) :
    (∀ ds, c.http = some ds → DistinctHashes ds) ∧ c.servers.Distinct := by
  obtain ⟨⟨s, http, servers⟩, h1, h⟩ := bind_ok h
  obtain ⟨zmcf, -, h⟩ := bind_ok h
  cases h
  exact conf_parse_distinct file h1 (fun _ hn => by cases hn)

/-! ## Exactness over the tree -/

/-- Some block directly inside declares no array of its own. -/
def Confs.inherits : Confs → Bool
  | .done => false
  | .block conf _ rest => conf.isNone || rest.inherits

/-- The lookup is exact on an array with distinct keys. -/
def Searchable (ds : List DczDict) : Prop := ds.length ≤ dcz_bsearch_threshold ∨ SortedByHash ds

instance (ds : List DczDict) : Decidable (Searchable ds) := inferInstanceAs (Decidable (_ ∨ _))

/-- Blocks that all declare their own array never see the array around them. -/
theorem merge_locations_searchable {qsort : List DczDict → List DczDict} (hq : Sorts dcz_dict_cmp qsort)
    (confs : Confs) : ∀ {prev : Option (List DczDict)}, confs.Distinct →
      (confs.inherits → ∀ ds, prev = some ds → DistinctHashes ds ∧ Searchable ds) →
      ∀ ds, some ds ∈ (merge_locations qsort prev confs).arrays → DistinctHashes ds ∧ Searchable ds := by
  induction confs with
  | done => intro prev _ _ ds hds; simp [merge_locations, Confs.arrays] at hds
  | block conf inside rest ihi ihr =>
    intro prev hd hprev ds hds
    have hmem : ∀ ds, some ds ∈ inside.arrays ∨ some ds ∈ rest.arrays →
        some ds ∈ (Confs.block conf inside rest).arrays := fun ds h =>
      List.mem_cons_of_mem _ (List.mem_append.2 h)
    -- the merged conf of this block: its own array sorted, or the one around it
    have hconf : ∀ ds, merge_dcz_dicts qsort prev conf = some ds → DistinctHashes ds ∧ Searchable ds := by
      intro ds h
      cases conf with
      | none => exact hprev (by simp [Confs.inherits]) ds (by simpa [merge_dcz_dicts] using h)
      | some own =>
        have ho := dcz_dict_sort_spec hq (hd own List.mem_cons_self)
        simp only [merge_dcz_dicts, Option.map_some, reduceCtorEq, if_false, Option.some.injEq] at h
        subst h
        exact ⟨ho.1, Or.inr ho.2⟩
    simp only [merge_locations, Confs.arrays, List.mem_cons, List.mem_append] at hds
    rcases hds with hds | hds | hds
    · exact hconf ds hds.symm
    · exact ihi (fun ds h => hd ds (hmem ds (Or.inl h))) (fun _ => hconf) ds hds
    · exact ihr (fun ds h => hd ds (hmem ds (Or.inr h)))
        (fun hin => hprev (by simp [Confs.inherits, hin])) ds hds

/-- A block without an array of its own has the array around it. -/
theorem merge_locations_inherits {qsort : List DczDict → List DczDict} (confs : Confs)
    {prev : Option (List DczDict)} (h : confs.inherits) : prev ∈ (merge_locations qsort prev confs).arrays := by
  induction confs with
  | done => cases h
  | block conf inside rest _ ihr =>
    simp only [merge_locations, Confs.arrays, List.mem_cons, List.mem_append]
    simp only [Confs.inherits, Bool.or_eq_true, Option.isNone_iff_eq_none] at h
    rcases h with rfl | h
    · exact Or.inl (by simp [merge_dcz_dicts])
    · exact Or.inr (Or.inr (ihr h))

/-- The lookup is exact in every server and location if and only if the http
array, where a server inherits it, is one the lookup can search as declared. -/
theorem dcz_lookup_exact_iff {L : Loader} {qsort : List DczDict → List DczDict}
    (hq : Sorts dcz_dict_cmp qsort) {file : ConfFile} {c : Loaded} (h : load L file = .ok c) :
    (∀ ds, some ds ∈ effective qsort c → Exact ds) ↔
      (c.servers.inherits → ∀ ds, c.http = some ds → ds.length ≤ dcz_bsearch_threshold ∨ SortedByHash ds) := by
  obtain ⟨hhttp, hservers⟩ := load_distinct h
  constructor
  · intro hex hin ds hds
    refine (exact_iff (hhttp ds hds)).1 (hex ds ?_)
    rw [← hds]
    exact merge_locations_inherits c.servers hin
  · intro hok ds hds
    obtain ⟨hn, hs⟩ := merge_locations_searchable hq c.servers hservers
      (fun hin ds hds => ⟨hhttp ds hds, hok hin ds hds⟩) ds hds
    exact (exact_iff hn).2 hs

/-! ### A configuration on each side of the condition -/

/-- A sort that keeps its contract. -/
def hash_sort (dicts : List DczDict) : List DczDict := dicts.mergeSort fun a b => dcz_dict_cmp a b ≤ 0

theorem hash_sort_sorts : Sorts dcz_dict_cmp hash_sort where
  perm xs := List.mergeSort_perm xs _
  sorted xs := by
    have hc := memcmp_comparator 32
    refine (List.pairwise_mergeSort ?_ ?_ xs).imp fun h => by simpa using h
    · intro a b c hab hbc
      have hab : memcmp a.hash.1 b.hash.1 ≤ 0 := of_decide_eq_true hab
      have hbc : memcmp b.hash.1 c.hash.1 ≤ 0 := of_decide_eq_true hbc
      refine decide_eq_true (show memcmp a.hash.1 c.hash.1 ≤ 0 from ?_)
      rcases lt_or_eq_of_le hab with h1 | h1
      · rcases lt_or_eq_of_le hbc with h2 | h2
        · exact le_of_lt (hc.trans h1 h2)
        · rw [← hc.zero.1 h2]; exact hab
      · rw [hc.zero.1 h1]; exact hbc
    · intro a b
      have hflip : memcmp b.hash.1 a.hash.1 < 0 ↔ 0 < memcmp a.hash.1 b.hash.1 := hc.flip
      rcases le_or_gt (memcmp a.hash.1 b.hash.1) 0 with h | h
      · exact Bool.or_eq_true_iff.2 (Or.inl (decide_eq_true h))
      · exact Bool.or_eq_true_iff.2 (Or.inr (decide_eq_true (le_of_lt (hflip.2 h))))

/-- A file system where every path is a readable one-byte file. -/
def one_byte_files : Loader where
  full_name := some
  sha256 _ := zeroDigest
  open_dict_file _ _ := some ⟨1, some [0x41], true, by simp⟩
  palloc _ := true
  array_create := true
  array_push _ := true

/-- The literal `ff…f00…0` with `n` leading digits. -/
def literal_f (n : Nat) : Bytes := List.replicate n 0x66 ++ List.replicate (64 - n) 0x30

/-- Trusted literals at http level, one line for each of `ns`, and one server that
declares none. -/
def http_level (ns : List Nat) : ConfFile :=
  .directive (.dcz_dict_trust_hashes true)
    (ns.foldr (fun n rest => .directive (.dcz_dict_file (str "/d") (some (literal_f n))) rest)
      (.block .done .done))

/-- Seventeen dictionaries declared in the order of their hashes are too many to scan, and
the server that inherits them finds every one by bisection. -/
theorem dcz_lookup_exact_seventeen :
    ∃ c dicts, load one_byte_files (http_level (List.range' 1 17)) = .ok c ∧ c.servers.inherits ∧
      c.http = some dicts ∧ dicts.length > dcz_bsearch_threshold ∧
      ∀ ds, some ds ∈ effective hash_sort c → Exact ds := by
  refine ⟨_, _, rfl, rfl, rfl, by decide, ?_⟩
  refine (@dcz_lookup_exact_iff one_byte_files hash_sort hash_sort_sorts (http_level (List.range' 1 17)) _ rfl).2 ?_
  intro _ ds hds
  cases hds
  exact Or.inr (by decide)

/-- Seventeen dictionaries declared in decreasing order of their hashes hide one
of their own from the server that inherits them. -/
theorem dcz_lookup_http_level_misses :
    ∃ c ds d, load one_byte_files (http_level (List.range' 1 17).reverse) = .ok c ∧
      some ds ∈ effective hash_sort c ∧ d ∈ ds ∧ dcz_dict_lookup ds d.hash = none := by
  obtain ⟨c, ds, hc, hin, hds, hlen, hns⟩ : ∃ c ds, load one_byte_files (http_level (List.range' 1 17).reverse) = .ok c ∧
      c.servers.inherits = true ∧ c.http = some ds ∧ ¬ ds.length ≤ dcz_bsearch_threshold ∧ ¬ SortedByHash ds :=
    ⟨_, _, rfl, rfl, rfl, by decide, by decide⟩
  have hne : ¬ Exact ds := by
    rw [exact_iff ((load_distinct hc).1 ds hds)]
    exact not_or.2 ⟨hlen, hns⟩
  rw [exact_iff_found] at hne
  obtain ⟨d, hd, hmiss⟩ : ∃ d ∈ ds, ¬ (dcz_dict_lookup ds d.hash).isSome := by simpa using hne
  refine ⟨c, ds, d, hc, ?_, hd, by simpa using hmiss⟩
  rw [← hds]
  exact merge_locations_inherits c.servers hin

end NginxZstd
