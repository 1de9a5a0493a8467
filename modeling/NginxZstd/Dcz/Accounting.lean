import Mathlib.Algebra.BigOperators.Group.List.Basic
import NginxZstd.Dcz.Cdicts
/-!
# Accounting for prepared dictionaries

The byte counter belongs to the cycle, the prepared CDicts to the dictionaries,
and the dictionaries to arrays that locations share. `dcz_build_cdicts` is taken
apart here into its passes, so that a run is a sequence of passes of one location
after another, in any order, and a point of a run is what a prefix of them leaves.
-/

namespace NginxZstd

open Lib

/-! ## The cycle -/

/-- What became of a CDict: `pooled` has a pool cleanup. -/
inductive Held where
  | live
  | freed
  | pooled
deriving DecidableEq

/-- The dictionaries of a cycle with its counter. The handle of a CDict is its place in
`heap`; `calls` counts the pool's allocations, and `failed` says that config load
has been given up. -/
structure Prepared where
  dicts : List DczDict
  zmcf : CdictCache
  heap : List Held
  calls : Nat
  failed : Bool

/-- libzstd's answers, by the number of the creation, and the pool's, by the number of
the allocation. -/
structure PrepareLib where
  estimate : (dict_len : Nat) → (level window_log : Int) → Nat
  create : Nat → Bool
  sizeof : CDict → Nat
  pool : Nat → Bool

/-- A location as the build sees it: its merged conf, and where the dictionaries of its
array stand in the cycle. A location that inherits its array has its parent's
places. -/
structure Location where
  conf : LocConf
  places : List Nat

/-- One step of the loops: the registry of a dictionary, or one of its windows. -/
inductive Pass where
  | registry (i : Nat)
  | candidate (i : Nat) (conf : LocConf) (wlog : Int)

/-! ## A pass -/

def fail (s : Prepared) : Prepared := { s with failed := true }

def pool_call (s : Prepared) : Prepared := { s with calls := s.calls + 1 }

/-- `ngx_http_zstd_dcz_cdict_cache_warn`. -/
def cache_warn (s : Prepared) : Prepared := { s with zmcf := dcz_cdict_cache_warn s.zmcf }

/-- `ZSTD_createCDict_advanced`, where it succeeds. -/
def create_cdict (s : Prepared) : Prepared := { s with heap := s.heap ++ [.live] }

/-- `ZSTD_freeCDict`. -/
def free_cdict (s : Prepared) (cdict : CDict) : Prepared := { s with heap := s.heap.set cdict .freed }

/-- `cln->handler = ngx_http_zstd_cleanup_dict`. -/
def set_cleanup (s : Prepared) (cdict : CDict) : Prepared := { s with heap := s.heap.set cdict .pooled }

/-- The entry and the counter. -/
def add_entry (A : Abi) (Z : PrepareLib) (s : Prepared) (i : Nat) (dict : DczDict) (entry : DczCdictEntry) : Prepared :=
  { s with
    dicts := s.dicts.set i (push_entry dict entry)
    zmcf := { s.zmcf with
      dcz_cdict_bytes := (s.zmcf.dcz_cdict_bytes + Z.sizeof entry.dict) % 2 ^ A.size_bits } }

/-- `if (dicts[i].cdicts == NULL)`. -/
def registry_pass (Z : PrepareLib) (s : Prepared) (i : Nat) (dict : DczDict) : Prepared :=
  if dict.cdicts ≠ none then s
  else if Z.pool s.calls then
    { pool_call s with dicts := s.dicts.set i { dict with cdicts := some [] } }
  else fail (pool_call s)

/-- One pass of the inner loop. -/
def candidate_pass (A : Abi) (Z : PrepareLib) (s : Prepared) (i : Nat) (dict : DczDict) (conf : LocConf) (wlog : Int) :
    Prepared :=
  -- prepared already, for a location with the same array or by an earlier pass
  if (dcz_cdict_lookup dict conf.level wlog conf.long_mode conf.target_cblock_size).isSome then s
  else if Z.estimate dict.bytes.length conf.level wlog > remaining A s.zmcf.dcz_cdict_bytes then cache_warn s
  else if ¬Z.create s.heap.length then fail s
  else
    let cdict := s.heap.length
    let s := create_cdict s
    -- the estimate is no bound, so the size is measured before anything is kept
    if Z.sizeof cdict > remaining A s.zmcf.dcz_cdict_bytes then cache_warn (free_cdict s cdict)
    else if ¬Z.pool s.calls then fail (free_cdict (pool_call s) cdict)
    else
      -- from here on the pool frees it, also when the entry cannot be pushed
      let s := set_cleanup (pool_call s) cdict
      if ¬Z.pool s.calls then fail (pool_call s)
      else add_entry A Z (pool_call s) i dict ⟨conf.level, wlog, cdict⟩

/-- One pass; none is made once config load has failed. -/
def pass (A : Abi) (Z : PrepareLib) (s : Prepared) (p : Pass) : Prepared :=
  if s.failed then s
  else
    match p with
    | .registry i =>
      match s.dicts[i]? with
      | none => s
      | some dict => registry_pass Z s i dict
    | .candidate i conf wlog =>
      match s.dicts[i]? with
      | none => s
      | some dict => candidate_pass A Z s i dict conf wlog

/-- The passes `ngx_http_zstd_dcz_build_cdicts` makes for a location. -/
def build_passes (A : Abi) (dicts : List DczDict) (loc : Location) : List Pass :=
  if ¬loc.conf.enable ∨ loc.places = [] then []
  else if loc.conf.long_mode ∨ loc.conf.target_cblock_size > 0 then []
  else loc.places.flatMap fun i =>
    match dicts[i]? with
    | none => []
    | some dict =>
      let range := dcz_cdict_window_range A dict.bytes.length loc.conf.window_log loc.conf.dcz_window_cap
      .registry i :: (windows range.1 range.2).map (.candidate i loc.conf)

/-- `ngx_http_zstd_dcz_build_cdicts`. -/
def build_cdicts (A : Abi) (Z : PrepareLib) (s : Prepared) (loc : Location) : Prepared :=
  (build_passes A s.dicts loc).foldl (pass A Z) s

/-- The cycle before the first merge. -/
def prepared_init (dicts : List DczDict) : Prepared := ⟨dicts, ⟨0, false⟩, [], 0, false⟩

/-- The cycle after the merges of some locations. -/
def merged (A : Abi) (Z : PrepareLib) (dicts : List DczDict) (locs : List Location) : Prepared :=
  locs.foldl (build_cdicts A Z) (prepared_init dicts)

/-! ## What a pass can do -/

/-- The entries of a dictionary. -/
def DczDict.entries (dict : DczDict) : List DczCdictEntry := dict.cdicts.getD []

/-- Every entry of the cycle. -/
def Prepared.entries (s : Prepared) : List DczCdictEntry := s.dicts.flatMap DczDict.entries

theorem remaining_eq (A : Abi) {bytes : Nat} (h : bytes ≤ dcz_cdict_cache_bytes) :
    remaining A bytes = dcz_cdict_cache_bytes - bytes := by
  have hbig := A.two_pow_ge
  have hcache : dcz_cdict_cache_bytes < 2 ^ 32 := by decide
  unfold remaining
  rw [show dcz_cdict_cache_bytes + 2 ^ A.size_bits - bytes = dcz_cdict_cache_bytes - bytes + 2 ^ A.size_bits by omega,
    Nat.add_mod_right, Nat.mod_eq_of_lt (by omega)]

/-- The profile of an entry. -/
def DczCdictEntry.key (e : DczCdictEntry) : Int × Int := (e.level, e.window_log)

/-- A pass leaves the entries alone and creates nothing, creates a CDict that it frees,
creates one that is left to the pool as config load fails, or adds an entry. -/
inductive Passed (Z : PrepareLib) (s s' : Prepared) : Prop where
  | idle (hentries : s'.dicts.map DczDict.entries = s.dicts.map DczDict.entries)
      (hbytes : s'.zmcf.dcz_cdict_bytes = s.zmcf.dcz_cdict_bytes) (hheap : s'.heap = s.heap)
      (hfailed : s.failed → s'.failed)
  | freed (hdicts : s'.dicts = s.dicts) (hbytes : s'.zmcf.dcz_cdict_bytes = s.zmcf.dcz_cdict_bytes)
      (hheap : s'.heap = s.heap ++ [.freed]) (hfailed : s.failed → s'.failed)
  | dropped (hdicts : s'.dicts = s.dicts) (hbytes : s'.zmcf.dcz_cdict_bytes = s.zmcf.dcz_cdict_bytes)
      (hheap : s'.heap = s.heap ++ [.pooled]) (hfailed : s'.failed)
  | built {i : Nat} {dict : DczDict} {entry : DczCdictEntry} (hdict : s.dicts[i]? = some dict)
      (hdicts : s'.dicts = s.dicts.set i (push_entry dict entry))
      (hnew : entry.key ∉ dict.entries.map DczCdictEntry.key) (hhandle : entry.dict = s.heap.length)
      (hsize : Z.sizeof entry.dict ≤ dcz_cdict_cache_bytes - s.zmcf.dcz_cdict_bytes)
      (hbytes : s'.zmcf.dcz_cdict_bytes = s.zmcf.dcz_cdict_bytes + Z.sizeof entry.dict)
      (hheap : s'.heap = s.heap ++ [.pooled]) (hfailed : s.failed → s'.failed)

theorem Passed.same (Z : PrepareLib) (s : Prepared) : Passed Z s s := .idle rfl rfl rfl id

/-- Where the lookup looks at all, it looks through the entries. -/
theorem lookup_eq_find (dict : DczDict) (level wlog : Int) {long_mode : Bool} {target : Int}
    (hopt : ¬(long_mode = true ∨ target > 0)) :
    dcz_cdict_lookup dict level wlog long_mode target =
      (dict.entries.find? fun e => e.level == level && e.window_log == wlog).map (·.dict) := by
  unfold dcz_cdict_lookup DczDict.entries
  rw [if_neg hopt]
  cases dict.cdicts with
  | none => rfl
  | some es => rfl

theorem lookup_missing {dict : DczDict} {level wlog : Int} {long_mode : Bool} {target : Int}
    (hopt : ¬(long_mode = true ∨ target > 0)) (h : ¬(dcz_cdict_lookup dict level wlog long_mode target).isSome) :
    (level, wlog) ∉ dict.entries.map DczCdictEntry.key := by
  rw [lookup_eq_find dict level wlog hopt, Option.isSome_map, List.find?_isSome] at h
  rintro hmem
  obtain ⟨e, he, hkey⟩ := List.mem_map.1 hmem
  cases hkey
  exact h ⟨e, he, by simp⟩

theorem set_same {α : Type} {l : List α} {i : Nat} {x : α} (h : l[i]? = some x) : l.set i x = l := by
  obtain ⟨hi, rfl⟩ := List.getElem?_eq_some_iff.1 h
  exact List.set_getElem_self hi

theorem registry_pass_passed (Z : PrepareLib) {s : Prepared} {i : Nat} {dict : DczDict} (hd : s.dicts[i]? = some dict) :
    Passed Z s (registry_pass Z s i dict) := by
  unfold registry_pass
  split
  · exact .same Z s
  next hnone =>
  split
  · refine .idle ?_ rfl rfl id
    have hempty : (s.dicts.map DczDict.entries)[i]? = some [] := by
      rw [List.getElem?_map, hd, Option.map_some, DczDict.entries, not_not.1 hnone]
      rfl
    rw [List.map_set]
    exact set_same hempty
  · exact .idle rfl rfl rfl fun _ => rfl

theorem candidate_pass_passed (A : Abi) (Z : PrepareLib) {s : Prepared} {i : Nat} {dict : DczDict} {conf : LocConf}
    {wlog : Int} (hd : s.dicts[i]? = some dict) (hopt : ¬(conf.long_mode = true ∨ conf.target_cblock_size > 0))
    (hlimit : s.zmcf.dcz_cdict_bytes ≤ dcz_cdict_cache_bytes) :
    Passed Z s (candidate_pass A Z s i dict conf wlog) := by
  have hset : ∀ h : Held, (s.heap ++ [Held.live]).set s.heap.length h = s.heap ++ [h] := by
    intro h
    rw [List.set_append_right _ _ le_rfl, Nat.sub_self]
    rfl
  unfold candidate_pass
  split
  · exact .same Z s
  next hmissing =>
  split
  · exact .idle rfl rfl rfl id
  split
  · exact .idle rfl rfl rfl fun _ => rfl
  dsimp only
  rw [show (create_cdict s).zmcf = s.zmcf from rfl, remaining_eq A hlimit]
  split
  · exact .freed rfl rfl (hset .freed) id
  next hfits =>
  split
  · exact .freed rfl rfl (hset .freed) fun _ => rfl
  split
  · exact .dropped rfl rfl (hset .pooled) rfl
  · refine .built hd rfl (lookup_missing hopt hmissing) rfl (not_lt.1 hfits) ?_ (hset .pooled) id
    have hbig := A.two_pow_ge
    have hcache : dcz_cdict_cache_bytes < 2 ^ 32 := by decide
    have hsum : s.zmcf.dcz_cdict_bytes + Z.sizeof s.heap.length < 2 ^ A.size_bits := by omega
    exact Nat.mod_eq_of_lt hsum

/-- The answers a pass gets, as `build_candidate` takes them. -/
def PrepareLib.answers (Z : PrepareLib) (s : Prepared) : CdictLib where
  estimate := Z.estimate
  create _ _ _ := if Z.create s.heap.length then some s.heap.length else none
  sizeof := Z.sizeof
  array_create := Z.pool s.calls
  cleanup_add _ := Z.pool s.calls
  array_push _ := Z.pool (s.calls + 1)

/-- A pass does to the cycle what `build_candidate` does to one dictionary. -/
theorem candidate_pass_build (A : Abi) (Z : PrepareLib) {s : Prepared} {i : Nat} {dict : DczDict} {conf : LocConf}
    {wlog : Int} (hd : s.dicts[i]? = some dict) :
    let s' := candidate_pass A Z s i dict conf wlog
    match build_candidate A (Z.answers s) conf dict s.zmcf wlog with
    | .ok (dict', zmcf', _) => s'.dicts = s.dicts.set i dict' ∧ s'.zmcf = zmcf' ∧ s'.failed = s.failed
    | .error _ => s'.dicts = s.dicts ∧ s'.zmcf = s.zmcf ∧ s'.failed = true := by
  simp only [candidate_pass, build_candidate, PrepareLib.answers, show (create_cdict s).zmcf = s.zmcf from rfl]
  by_cases hpresent : (dcz_cdict_lookup dict conf.level wlog conf.long_mode conf.target_cblock_size).isSome
  · simp only [hpresent, if_true]
    exact ⟨(set_same hd).symm, trivial, trivial⟩
  simp only [hpresent, Bool.false_eq_true, if_false]
  by_cases hest : Z.estimate dict.bytes.length conf.level wlog > remaining A s.zmcf.dcz_cdict_bytes
  · simp only [hest, if_true]
    exact ⟨(set_same hd).symm, rfl, rfl⟩
  simp only [hest, if_false]
  by_cases hcreate : Z.create s.heap.length
  swap
  · simp only [hcreate, Bool.false_eq_true, not_false_eq_true, if_true, if_false]
    exact ⟨rfl, rfl, rfl⟩
  simp only [hcreate, not_true_eq_false, if_true, if_false]
  by_cases hsize : Z.sizeof s.heap.length > remaining A s.zmcf.dcz_cdict_bytes
  · simp only [hsize, if_true]
    exact ⟨(set_same hd).symm, rfl, rfl⟩
  simp only [hsize, if_false]
  by_cases hcleanup : Z.pool s.calls
  swap
  · simp only [create_cdict, hcleanup, Bool.false_eq_true, not_false_eq_true, if_true]
    exact ⟨rfl, rfl, rfl⟩
  simp only [create_cdict, set_cleanup, pool_call, hcleanup, not_true_eq_false, if_false]
  by_cases hpush : Z.pool (s.calls + 1)
  swap
  · simp only [hpush, Bool.false_eq_true, not_false_eq_true, if_true]
    exact ⟨rfl, rfl, rfl⟩
  simp only [hpush, not_true_eq_false, if_false, add_entry]
  exact ⟨trivial, trivial, trivial⟩

/-! ## The invariant -/

/-- The counter is the sum of the measured sizes of the entries and within the limit;
a dictionary has one entry a profile, an entry a CDict of its own; every CDict
created has been freed or left to the pool, and an entry's to the pool; and as
long as config load goes on the pool has no others. -/
structure Accounted (Z : PrepareLib) (s : Prepared) : Prop where
  bytes : s.zmcf.dcz_cdict_bytes = (s.entries.map fun e => Z.sizeof e.dict).sum
  limit : s.zmcf.dcz_cdict_bytes ≤ dcz_cdict_cache_bytes
  profiles : ∀ dict ∈ s.dicts, (dict.entries.map DczCdictEntry.key).Nodup
  handles : (s.entries.map (·.dict)).Nodup
  settled : ∀ held ∈ s.heap, held = .freed ∨ held = .pooled
  registered : ∀ e ∈ s.entries, s.heap[e.dict]? = some .pooled
  kept : ∀ cdict, s.heap[cdict]? = some .pooled → s.failed ∨ ∃ e ∈ s.entries, e.dict = cdict

/-- One list of several grows by one element. -/
theorem flatMap_set_perm {α β : Type} (f : α → List β) {x y : α} {b : β} (hy : f y = f x ++ [b]) :
    ∀ {l : List α} {i : Nat}, l[i]? = some x → ((l.set i y).flatMap f).Perm (b :: l.flatMap f) := by
  intro l
  induction l with
  | nil => intro i h; simp at h
  | cons a l ih =>
    intro i h
    cases i with
    | zero =>
      obtain rfl : a = x := by simpa using h
      simp only [List.set_cons_zero, List.flatMap_cons, hy, List.append_assoc, List.singleton_append]
      exact List.perm_middle
    | succ i =>
      simp only [List.set_cons_succ, List.flatMap_cons]
      refine ((ih (by simpa using h)).append_left (f a)).trans List.perm_middle

theorem entries_flatten (s : Prepared) : s.entries = (s.dicts.map DczDict.entries).flatten := rfl

theorem push_entry_entries (dict : DczDict) (entry : DczCdictEntry) :
    (push_entry dict entry).entries = dict.entries ++ [entry] := rfl

section
variable {Z : PrepareLib} {s s' : Prepared}

/-- An entry's CDict has been created. -/
theorem Accounted.handle_lt (h : Accounted Z s) {e : DczCdictEntry} (he : e ∈ s.entries) : e.dict < s.heap.length :=
  (List.getElem?_eq_some_iff.1 (h.registered e he)).1

/-- What the invariant says about the heap, when one settled CDict is added. -/
theorem Accounted.heap_snoc (h : Accounted Z s) {held : Held} (hheld : held = .freed ∨ held = .pooled) :
    (∀ held' ∈ s.heap ++ [held], held' = .freed ∨ held' = .pooled) ∧
      ∀ e ∈ s.entries, (s.heap ++ [held])[e.dict]? = some .pooled := by
  refine ⟨fun held' hmem => ?_, fun e he => ?_⟩
  · rcases List.mem_append.1 hmem with hmem | hmem
    · exact h.settled held' hmem
    · rw [List.mem_singleton.1 hmem]
      exact hheld
  · rw [List.getElem?_append_left (h.handle_lt he)]
    exact h.registered e he

/-- A pass that leaves the entries and the counter has only the heap to answer for. -/
theorem Accounted.of_entries (h : Accounted Z s)
    (hentries : s'.dicts.map DczDict.entries = s.dicts.map DczDict.entries)
    (hbytes : s'.zmcf.dcz_cdict_bytes = s.zmcf.dcz_cdict_bytes)
    (hsettled : ∀ held ∈ s'.heap, held = .freed ∨ held = .pooled)
    (hregistered : ∀ e ∈ s.entries, s'.heap[e.dict]? = some .pooled)
    (hkept : ∀ cdict, s'.heap[cdict]? = some .pooled → s'.failed ∨ ∃ e ∈ s.entries, e.dict = cdict) :
    Accounted Z s' := by
  have he : s'.entries = s.entries := by rw [entries_flatten, hentries, entries_flatten]
  have hprofiles : ∀ es ∈ s'.dicts.map DczDict.entries, (es.map DczCdictEntry.key).Nodup := by
    rw [hentries]
    simpa using h.profiles
  refine ⟨?_, ?_, ?_, ?_, hsettled, ?_, ?_⟩
  · rw [hbytes, he]
    exact h.bytes
  · rw [hbytes]
    exact h.limit
  · simpa using hprofiles
  · rw [he]
    exact h.handles
  · rw [he]
    exact hregistered
  · rw [he]
    exact hkept

/-- An entry of a new profile leaves one entry a profile. -/
theorem Accounted.profiles_push (h : Accounted Z s) {i : Nat} {dict : DczDict} {entry : DczCdictEntry}
    (hdict : s.dicts[i]? = some dict) (hnew : entry.key ∉ dict.entries.map DczCdictEntry.key) :
    ∀ d ∈ s.dicts.set i (push_entry dict entry), (d.entries.map DczCdictEntry.key).Nodup := by
  intro d hd
  rcases List.mem_or_eq_of_mem_set hd with hd | rfl
  · exact h.profiles d hd
  · have hold := h.profiles dict (List.mem_of_getElem? hdict)
    rw [push_entry_entries, List.map_append, List.map_singleton, ← List.concat_eq_append]
    exact hold.concat hnew

/-- The CDict created last is no entry's. -/
theorem Accounted.fresh (h : Accounted Z s) : s.heap.length ∉ s.entries.map (·.dict) := by
  intro hmem
  obtain ⟨e, he, heq⟩ := List.mem_map.1 hmem
  have hlt := h.handle_lt he
  rw [show e.dict = s.heap.length from heq] at hlt
  exact Nat.lt_irrefl _ hlt

/-- A handle of a heap that grew by one CDict is an old one or the new one. -/
theorem heap_snoc_cases {heap : List Held} {held held' : Held} {cdict : CDict}
    (h : (heap ++ [held])[cdict]? = some held') : heap[cdict]? = some held' ∨ cdict = heap.length ∧ held' = held := by
  rw [List.getElem?_append] at h
  split at h
  · exact .inl h
  · next hge =>
    have hlt := (List.getElem?_eq_some_iff.1 h).1
    have hlast : cdict = heap.length :=
      Nat.le_antisymm (Nat.sub_eq_zero_iff_le.1 (Nat.lt_one_iff.1 hlt)) (not_lt.1 hge)
    refine .inr ⟨hlast, ?_⟩
    rw [hlast, Nat.sub_self] at h
    exact (Option.some.inj h).symm

/-- A pass keeps the accounts. -/
theorem Accounted.passed (h : Accounted Z s) (hp : Passed Z s s') : Accounted Z s' := by
  cases hp with
  | idle hentries hbytes hheap hfailed =>
    refine h.of_entries hentries hbytes ?_ ?_ fun cdict hc => ?_
    · rw [hheap]
      exact h.settled
    · rw [hheap]
      exact h.registered
    · rw [hheap] at hc
      exact (h.kept cdict hc).imp_left hfailed
  | freed hdicts hbytes hheap hfailed =>
    obtain ⟨hsettled, hregistered⟩ := h.heap_snoc (.inl rfl)
    rw [← hheap] at hsettled hregistered
    refine h.of_entries (by rw [hdicts]) hbytes hsettled hregistered fun cdict hc => ?_
    rw [hheap] at hc
    rcases heap_snoc_cases hc with hc | ⟨-, hc⟩
    · exact (h.kept cdict hc).imp_left hfailed
    · cases hc
  | dropped hdicts hbytes hheap hfailed =>
    obtain ⟨hsettled, hregistered⟩ := h.heap_snoc (.inr rfl)
    rw [← hheap] at hsettled hregistered
    exact h.of_entries (by rw [hdicts]) hbytes hsettled hregistered fun _ _ => .inl hfailed
  | @built i dict entry hdict hdicts hnew hhandle hsize hbytes hheap hfailed =>
    have hperm : s'.entries.Perm (entry :: s.entries) := by
      rw [Prepared.entries, hdicts]
      exact flatMap_set_perm DczDict.entries (push_entry_entries dict entry) hdict
    obtain ⟨hsettled, hregistered⟩ := h.heap_snoc (.inr rfl)
    -- the guard keeps the sum within the limit, hence also within `size_t`
    have hlimit := h.limit
    refine ⟨?_, ?_, ?_, ?_, by rw [hheap]; exact hsettled, ?_, ?_⟩
    · rw [hbytes, (hperm.map _).sum_eq, List.map_cons, List.sum_cons, h.bytes, Nat.add_comm]
    · rw [hbytes]
      omega
    · rw [hdicts]
      exact h.profiles_push hdict hnew
    · refine (hperm.map _).nodup_iff.2 (List.nodup_cons.2 ⟨?_, h.handles⟩)
      simp only [hhandle]
      exact h.fresh
    · intro e he
      rw [hheap]
      rcases List.mem_cons.1 (hperm.mem_iff.1 he) with rfl | he
      · rw [hhandle]
        simp
      · exact hregistered e he
    · intro cdict hc
      rw [hheap] at hc
      rcases heap_snoc_cases hc with hc | ⟨hlast, -⟩
      · refine (h.kept cdict hc).imp hfailed ?_
        rintro ⟨e, he, rfl⟩
        exact ⟨e, hperm.mem_iff.2 (List.mem_cons_of_mem _ he), rfl⟩
      · exact .inr ⟨entry, hperm.mem_iff.2 List.mem_cons_self, hhandle.trans hlast.symm⟩

/-- The passes of the source come with a profile that can be prepared. -/
def Pass.Eligible : Pass → Prop
  | .registry _ => True
  | .candidate _ conf _ => ¬(conf.long_mode = true ∨ conf.target_cblock_size > 0)

theorem build_passes_eligible (A : Abi) (dicts : List DczDict) (loc : Location) :
    ∀ p ∈ build_passes A dicts loc, p.Eligible := by
  intro p hp
  unfold build_passes at hp
  split at hp
  · simp at hp
  split at hp
  · simp at hp
  next hopt =>
  obtain ⟨i, -, hp⟩ := List.mem_flatMap.1 hp
  split at hp
  · simp at hp
  rcases List.mem_cons.1 hp with rfl | hp
  · trivial
  · obtain ⟨w, -, rfl⟩ := List.mem_map.1 hp
    exact hopt

theorem Accounted.pass (A : Abi) (h : Accounted Z s) {p : Pass} (hp : p.Eligible) : Accounted Z (pass A Z s p) := by
  refine h.passed ?_
  unfold NginxZstd.pass
  split
  · exact .same Z s
  cases p with
  | registry i =>
    dsimp only
    split
    · exact .same Z s
    · next hd => exact registry_pass_passed Z hd
  | candidate i conf wlog =>
    dsimp only
    split
    · exact .same Z s
    · next hd => exact candidate_pass_passed A Z hd hp h.limit

/-- So do any number of passes, and any number of merges. -/
theorem Accounted.passes (A : Abi) {ps : List Pass} (hps : ∀ p ∈ ps, p.Eligible) :
    ∀ {s : Prepared}, Accounted Z s → Accounted Z (ps.foldl (NginxZstd.pass A Z) s) := by
  induction ps with
  | nil => exact fun h => h
  | cons p ps ih =>
    intro s h
    exact ih (fun q hq => hps q (List.mem_cons_of_mem _ hq)) (h.pass A (hps p List.mem_cons_self))

theorem Accounted.merges (A : Abi) (locs : List Location) :
    ∀ {s : Prepared}, Accounted Z s → Accounted Z (locs.foldl (build_cdicts A Z) s) := by
  induction locs with
  | nil => exact fun h => h
  | cons loc locs ih =>
    intro s h
    exact ih (h.passes A (build_passes_eligible A s.dicts loc))

theorem accounted_init {dicts : List DczDict} (hfresh : ∀ dict ∈ dicts, dict.cdicts = none) :
    Accounted Z (prepared_init dicts) := by
  have hempty : (prepared_init dicts).entries = [] := by
    refine List.flatMap_eq_nil_iff.2 fun dict hd => ?_
    rw [DczDict.entries, hfresh dict hd]
    rfl
  refine ⟨by rw [hempty]; rfl, Nat.zero_le _, fun dict hd => ?_, by rw [hempty]; exact List.nodup_nil, ?_, ?_, ?_⟩
  · rw [DczDict.entries, hfresh dict hd]
    exact List.nodup_nil
  · simp [prepared_init]
  · simp [hempty]
  · simp [prepared_init]

end

/-! ## Every point of every load -/

/-- For every sequence of merges, of locations with any parameters and any places of
their dictionaries, and every behaviour of libzstd and of the pool: at every
point, after any of the passes of the next location, the accounts hold, the
remaining budget is a difference that does not wrap, and the lookup answers with
an entry for exactly what was asked for, and never for a profile with long mode or
a target block size. -/
theorem cdict_accounting (A : Abi) (Z : PrepareLib) {dicts : List DczDict} (hfresh : ∀ dict ∈ dicts, dict.cdicts = none)
    (locs : List Location) (loc : Location) {done rest : List Pass}
    (hpoint : build_passes A (merged A Z dicts locs).dicts loc = done ++ rest) :
    let s := done.foldl (pass A Z) (merged A Z dicts locs)
    Accounted Z s ∧
    remaining A s.zmcf.dcz_cdict_bytes + s.zmcf.dcz_cdict_bytes = dcz_cdict_cache_bytes ∧
    ∀ dict ∈ s.dicts, ∀ level window_log long_mode target_cblock_size,
      (∀ cdict, dcz_cdict_lookup dict level window_log long_mode target_cblock_size = some cdict →
        ∃ e ∈ dict.entries, e.level = level ∧ e.window_log = window_log ∧ e.dict = cdict) ∧
      (long_mode ∨ target_cblock_size > 0 →
        dcz_cdict_lookup dict level window_log long_mode target_cblock_size = none) := by
  intro s
  have hdone : ∀ p ∈ done, p.Eligible := fun p hp =>
    build_passes_eligible A _ loc p (hpoint ▸ List.mem_append_left _ hp)
  have hs : Accounted Z s := ((accounted_init hfresh).merges A locs).passes A hdone
  have hlimit := hs.limit
  refine ⟨hs, ?_, fun dict _ level wlog long_mode target => ⟨fun cdict hc => ?_, fun hopt => ?_⟩⟩
  · rw [remaining_eq A hlimit]
    omega
  · by_cases hopt : long_mode = true ∨ target > 0
    · simp only [dcz_cdict_lookup, if_pos hopt] at hc
      cases hc
    · rw [lookup_eq_find dict level wlog hopt] at hc
      obtain ⟨e, he, rfl⟩ := Option.map_eq_some_iff.1 hc
      have hkey := List.find?_some he
      simp only [Bool.and_eq_true, beq_iff_eq] at hkey
      exact ⟨e, List.mem_of_find?_eq_some he, hkey.1, hkey.2, rfl⟩
  · simp only [dcz_cdict_lookup, if_pos hopt]

/-- The last point of a location's build is where the next one starts. -/
theorem merged_snoc (A : Abi) (Z : PrepareLib) (dicts : List DczDict) (locs : List Location) (loc : Location) :
    merged A Z dicts (locs ++ [loc]) =
      (build_passes A (merged A Z dicts locs).dicts loc).foldl (pass A Z) (merged A Z dicts locs) := by
  rw [merged, List.foldl_append]
  rfl

/-- A location at a level with the smallest window. -/
def smallConf (level : Int) : LocConf :=
  { enable := true, level := level, min_length := 20, max_length := none, target_cblock_size := 0, window_log := 10,
    long_mode := false, dcz_window_cap := 0, bypass := none, bypass_vary := none, types := none,
    bufs := ⟨32, 4096⟩, dict := none, dcz_dicts := none, dcz_assume_secure := false }

/-- Two CDicts of 40 MB and 20 MB. -/
def twoSizes : PrepareLib where
  estimate _ _ _ := 1024
  create _ := true
  sizeof cdict := if cdict = 0 then 40000000 else 20000000
  pool _ := true

/-- A server, a location that inherits its dictionary, and one that does so at another
level. -/
theorem cdict_accounting_shared :
    let A : Abi := ⟨64, 64, .inr rfl, .inr rfl⟩
    let dict : DczDict := ⟨str "/d", str "dict", ⟨List.replicate 32 0, rfl⟩, none, []⟩
    let s := merged A twoSizes [dict] ([⟨smallConf 3, [0]⟩, ⟨smallConf 3, [0]⟩] ++ [⟨smallConf 5, [0]⟩])
    s.entries.map DczCdictEntry.key = [(3, 10), (5, 10)] ∧ s.zmcf.dcz_cdict_bytes = 60000000 ∧
      remaining A s.zmcf.dcz_cdict_bytes + s.zmcf.dcz_cdict_bytes = dcz_cdict_cache_bytes := by
  intro A dict s
  have hfresh : ∀ d ∈ [dict], d.cdicts = none := by simp [dict]
  obtain ⟨haccounted, hremaining, -⟩ := cdict_accounting A twoSizes hfresh [⟨smallConf 3, [0]⟩, ⟨smallConf 3, [0]⟩]
    ⟨smallConf 5, [0]⟩ (List.append_nil _).symm
  rw [← merged_snoc] at haccounted hremaining
  have hentries : s.entries = [⟨3, 10, 0⟩, ⟨5, 10, 1⟩] := by decide +kernel
  have hs : s = merged A twoSizes [dict] ([⟨smallConf 3, [0]⟩, ⟨smallConf 3, [0]⟩] ++ [⟨smallConf 5, [0]⟩]) := rfl
  clear_value s
  rw [← hs] at haccounted hremaining
  have hbytes : s.zmcf.dcz_cdict_bytes = 60000000 := by
    rw [haccounted.bytes, hentries]
    simp [twoSizes]
  exact ⟨by rw [hentries]; rfl, hbytes, hremaining⟩

end NginxZstd
