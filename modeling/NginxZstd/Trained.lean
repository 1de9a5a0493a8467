import Mathlib.Data.List.Nodup
import NginxZstd.Dcz.DictFile
import NginxZstd.Window
/-!
# The trained dictionary

`zstd_dict_file` names one file for the whole cycle. Every location that is enabled
after merging gets a CDict of its bytes, built for the location's own level and, with
the static API of libzstd, for its own window; a registry in the main conf keeps the
CDicts by that profile, and the bytes are kept next to it. Nothing is inherited from
the parent but the settings.
-/

namespace NginxZstd

open Lib

/-! ## Settings -/

/-- `NGX_HTTP_ZSTD_LEVEL_UNSET`, the least `ngx_int_t`. -/
def level_unset (A : Abi) : Int := -(2 ^ (A.size_bits - 1) - 1) - 1

/-- The part of `ngx_http_zstd_loc_conf_t` that decides about the dictionary, with its
marks for settings that are missing. -/
structure DictConf where
  enable : Int
  level : Int
  window_log : Int
deriving DecidableEq

/-- `ngx_conf_merge_value`. -/
def merge_value (conf prev default : Int) : Int :=
  if conf = conf_unset then (if prev = conf_unset then default else prev) else conf

/-- The merge of the level, which has a mark of its own. -/
def merge_level (A : Abi) (conf prev : Int) : Int :=
  if conf = level_unset A then (if prev = level_unset A then 3 else prev) else conf

/-- The first lines of `ngx_http_zstd_merge_loc_conf`. -/
def merge_values (A : Abi) (prev conf : DictConf) : DictConf where
  enable := merge_value conf.enable prev.enable 0
  level := merge_level A conf.level prev.level
  window_log := merge_value conf.window_log prev.window_log 0

/-- What the directives of a block say. The commands admit no level below
`ZSTD_minCLevel()` and no negative window. -/
structure BlockSettings (A : Abi) where
  enable : Option Bool
  level : Option Int
  window_log : Option Int
  level_ok : ∀ l, level = some l → level_unset A < l
  window_ok : ∀ w, window_log = some w → 0 ≤ w

/-- `ngx_http_zstd_create_loc_conf`, after the directives of its block. -/
def BlockSettings.conf {A : Abi} (own : BlockSettings A) : DictConf where
  enable := (own.enable.map fun on => if on then 1 else 0).getD conf_unset
  level := own.level.getD (level_unset A)
  window_log := own.window_log.getD conf_unset

/-- The blocks inside a block, with what is inside of them: the servers of `http`, the
locations of a server, and so on down. -/
inductive Blocks (A : Abi) where
  | done
  | block (own : BlockSettings A) (inside rest : Blocks A)

/-! ## Files and CDicts -/

/-- `ZSTD_compressionParameters`. -/
structure CParams where
  window_log : Nat
  chain_log : Nat
  hash_log : Nat
  search_log : Nat
  min_match : Nat
  target_length : Nat
  strategy : Nat
deriving DecidableEq

/-- What a CDict was made from: by `ZSTD_createCDict_advanced`, or by `ZSTD_createCDict`
in a build without the static API. -/
inductive Recipe where
  | advanced (bytes : Bytes) (cparams : CParams)
  | plain (bytes : Bytes) (level : Int)
deriving DecidableEq

/-- What a load takes from outside: the directive's path, what each open gives, the
pool's answers, and libzstd. -/
structure TrainedLib where
  dict_file : Bytes
  open_dict_file : Nat → Option DictFd
  pool : Nat → Bool
  get_cparams : (level : Int) → (dict_size : Nat) → CParams
  create : Nat → Bool
  static_api : Bool

/-- `ngx_http_zstd_dict_entry_t`. -/
structure DictEntry where
  level : Int
  window_log : Int
  dict : CDict
deriving DecidableEq

/-- The trained dictionary's share in `ngx_http_zstd_main_conf_t`. The handle of a CDict
is its place in `heap`; `opens` and `reads` count what is done to the file, `calls`
what is asked of the pool. -/
structure Trained where
  dict_buf : Option Bytes
  dict_registry : Option (List DictEntry)
  heap : List Recipe
  opens : Nat
  reads : Nat
  calls : Nat

inductive TrainedError where
  | open_failed
  | too_large (size : Nat)
  | empty (path : Bytes)
  | no_memory
  | read_failed
  | close_failed (path : Bytes)
  | create_failed
  | cleanup_failed

/-- One allocation from the pool. -/
def Trained.alloc (E : TrainedLib) (s : Trained) (error : TrainedError) : Except TrainedError Trained :=
  if E.pool s.calls then .ok { s with calls := s.calls + 1 } else .error error

/-- `if (zmcf->dict_buf == NULL)`. -/
def load_dict_buf (E : TrainedLib) (s : Trained) : Except TrainedError (Bytes × Trained) :=
  match s.dict_buf with
  | some buf => .ok (buf, s)
  | none =>
    match E.open_dict_file s.opens with
    | none => .error .open_failed
    | some fd => do
      let s := { s with opens := s.opens + 1 }
      if fd.size > max_dict_size then throw (.too_large fd.size)
      if fd.size = 0 then throw (.empty E.dict_file)
      let s ← s.alloc E .no_memory
      match fd.read with
      | none => throw .read_failed
      | some buf =>
        if ¬fd.close then throw (.close_failed E.dict_file)
        -- kept for the locations still to be merged
        return (buf, { s with reads := s.reads + 1, dict_buf := some buf })

/-- The CDict for a level and a window. -/
def recipe (E : TrainedLib) (buf : Bytes) (level window_log : Int) : Recipe :=
  if E.static_api then
    let cparams := E.get_cparams level buf.length
    .advanced buf (if window_log > 0 then { cparams with window_log := window_log.toNat } else cparams)
  else .plain buf level

/-- `if (zmcf->dict_registry == NULL)`. -/
def create_registry (E : TrainedLib) (s : Trained) : Except TrainedError Trained :=
  if s.dict_registry = none then s.alloc E .no_memory else .ok s

/-- A CDict for a profile that has none, its cleanup and its entry. -/
def register_dict (E : TrainedLib) (s : Trained) (buf : Bytes) (level window_log : Int) :
    Except TrainedError (Option CDict × Trained) :=
  let dict := s.heap.length
  if ¬E.create dict then .error .create_failed
  else do
    let s ← Trained.alloc E { s with heap := s.heap ++ [recipe E buf level window_log] } .cleanup_failed
    let s ← create_registry E s
    let s ← s.alloc E .no_memory
    return (some dict, { s with dict_registry := some (s.dict_registry.getD [] ++ [⟨level, window_log, dict⟩]) })

/-- The dictionary of one location, in the registry or new. -/
def merge_dict (E : TrainedLib) (s : Trained) (conf : DictConf) : Except TrainedError (Option CDict × Trained) :=
  if ¬(conf.enable ≠ 0 ∧ E.dict_file.length > 0) then .ok (none, s)
  else
    match (s.dict_registry.getD []).find? fun e => e.level == conf.level && e.window_log == conf.window_log with
    | some entry => .ok (some entry.dict, s)
    | none => do
      let (buf, s) ← load_dict_buf E s
      register_dict E s buf conf.level conf.window_log

/-- A location after its merge. -/
structure MergedLoc where
  conf : DictConf
  dict : Option CDict

/-- `ngx_http_merge_servers` and `ngx_http_merge_locations`: a block, what is inside of
it, then the blocks behind it. -/
def merge_blocks (A : Abi) (E : TrainedLib) (prev : DictConf) :
    Blocks A → Trained → Except TrainedError (List MergedLoc × Trained)
  | .done, s => .ok ([], s)
  | .block own inside rest, s => do
    let conf := merge_values A prev own.conf
    -- the block itself is merged before what is inside of it
    let (dict, s) ← merge_dict E s conf
    let (locs, s) ← merge_blocks A E conf inside s
    let (locs', s) ← merge_blocks A E prev rest s
    return (⟨conf, dict⟩ :: locs ++ locs', s)

/-- The main conf before the merges. -/
def trained_init : Trained := ⟨none, none, [], 0, 0, 0⟩

/-! ## What is set for a location -/

section
variable {A : Abi}

/-- The settings in force in a block inside another: its own, else the outer ones. -/
def BlockSettings.under (own outer : BlockSettings A) : BlockSettings A where
  enable := own.enable <|> outer.enable
  level := own.level <|> outer.level
  window_log := own.window_log <|> outer.window_log
  level_ok l h := by
    rcases (Option.orElse_eq_some _ _ _).1 h with h | ⟨-, h⟩
    · exact own.level_ok l h
    · exact outer.level_ok l h
  window_ok w h := by
    rcases (Option.orElse_eq_some _ _ _).1 h with h | ⟨-, h⟩
    · exact own.window_ok w h
    · exact outer.window_ok w h

/-- The conf settings in force stand for, with the defaults. -/
def BlockSettings.effective (f : BlockSettings A) : DictConf where
  enable := (f.enable.map fun on => if on then 1 else 0).getD 0
  level := f.level.getD 3
  window_log := f.window_log.getD 0

/-- The settings in force in all blocks, in the order of the merge. -/
def inForce (outer : BlockSettings A) : Blocks A → List (BlockSettings A)
  | .done => []
  | .block own inside rest => own.under outer :: (inForce (own.under outer) inside ++ inForce outer rest)

/-- A setting merged over its mark and its default. The parent's value is that of a
merged conf, or that of `http`, which is never merged. -/
theorem merge_setting {unset default prev : Int} {own outer : Option Int} (hown : ∀ v, own = some v → v ≠ unset)
    (houter : ∀ v, outer = some v → v ≠ unset) (hprev : prev = outer.getD default ∨ prev = outer.getD unset) :
    (if own.getD unset = unset then (if prev = unset then default else prev) else own.getD unset) =
      (own <|> outer).getD default := by
  cases own with
  | some v => simp [hown v rfl]
  | none =>
    cases outer with
    | none => rcases hprev with rfl | rfl <;> simp
    | some v =>
      have : prev = v := by simpa using hprev
      simp [this, houter v rfl]

theorem merge_values_eq {prev : DictConf} {outer : BlockSettings A} (h : prev = outer.effective ∨ prev = outer.conf)
    (own : BlockSettings A) : merge_values A prev own.conf = (own.under outer).effective := by
  have hflag : ∀ (f : Option Bool) (v : Int), (f.map fun on => if on then (1 : Int) else 0) = some v → v ≠ conf_unset := by
    rintro f v hv
    obtain ⟨on, -, rfl⟩ := Option.map_eq_some_iff.1 hv
    cases on <;> decide
  have hwindow : ∀ (f : BlockSettings A) (w : Int), f.window_log = some w → w ≠ conf_unset := by
    intro f w hw
    have := f.window_ok w hw
    unfold conf_unset
    omega
  have henable := @merge_setting conf_unset 0 prev.enable _ _ (hflag own.enable) (hflag outer.enable)
    (h.imp (by rintro rfl; rfl) (by rintro rfl; rfl))
  have hlevel := @merge_setting (level_unset A) 3 prev.level _ _ (fun l hl => (own.level_ok l hl).ne')
    (fun l hl => (outer.level_ok l hl).ne') (h.imp (by rintro rfl; rfl) (by rintro rfl; rfl))
  have hlog := @merge_setting conf_unset 0 prev.window_log _ _ (hwindow own) (hwindow outer)
    (h.imp (by rintro rfl; rfl) (by rintro rfl; rfl))
  have hmap : ((own.enable.map fun on => if on then (1 : Int) else 0) <|> outer.enable.map fun on => if on then 1 else 0) =
      (own.enable <|> outer.enable).map fun on => if on then 1 else 0 := by
    cases own.enable <;> rfl
  rw [hmap] at henable
  exact DictConf.mk.injEq .. ▸ ⟨henable, hlevel, hlog⟩

end

/-! ## The registry -/

def DictEntry.key (e : DictEntry) : Int × Int := (e.level, e.window_log)

/-- The level and the window a location asks for. -/
def DictConf.key (conf : DictConf) : Int × Int := (conf.level, conf.window_log)

def Trained.entries (s : Trained) : List DictEntry := s.dict_registry.getD []

/-- One entry a profile, each with a CDict of its own; the CDicts are those of the
entries, all made from the bytes of the one read. -/
structure Registered (E : TrainedLib) (s : Trained) : Prop where
  keys : (s.entries.map DictEntry.key).Nodup
  handles : s.entries.map (·.dict) = List.range s.entries.length
  heap : s.heap = s.entries.map fun e => recipe E (s.dict_buf.getD []) e.level e.window_log
  unread : s.dict_buf = none → s.entries = [] ∧ s.opens = 0 ∧ s.reads = 0
  read : ∀ buf, s.dict_buf = some buf →
    s.opens = 1 ∧ s.reads = 1 ∧ ∃ fd, E.open_dict_file 0 = some fd ∧ fd.read = some buf

section
variable {E : TrainedLib} {s s' : Trained}

theorem registered_init : Registered E trained_init where
  keys := List.nodup_nil
  handles := rfl
  heap := rfl
  unread _ := ⟨rfl, rfl, rfl⟩
  read buf h := by cases h

theorem alloc_ok {error : TrainedError} (h : s.alloc E error = .ok s') : s' = { s with calls := s.calls + 1 } := by
  unfold Trained.alloc at h
  split at h
  · cases h
    rfl
  · cases h

/-- Counting the pool's allocations does not matter. -/
theorem Registered.calls (h : Registered E s) (n : Nat) : Registered E { s with calls := n } :=
  ⟨h.keys, h.handles, h.heap, h.unread, h.read⟩

/-- The bytes are there afterwards, the registry is as before. -/
theorem load_dict_buf_spec (hs : Registered E s) {buf : Bytes} (h : load_dict_buf E s = .ok (buf, s')) :
    Registered E s' ∧ s'.dict_buf = some buf ∧ s'.dict_registry = s.dict_registry ∧ s'.heap = s.heap := by
  unfold load_dict_buf at h
  split at h
  · next b hb =>
    cases h
    exact ⟨hs, hb, rfl, rfl⟩
  next hnone =>
  obtain ⟨hentries, hopens, hreads⟩ := hs.unread hnone
  split at h
  · cases h
  next fd hfd =>
  dsimp only at h
  split at h
  · cases h
  split at h
  · cases h
  obtain ⟨s1, h1, h⟩ := bind_ok h
  have := alloc_ok h1
  subst this
  split at h
  · cases h
  next b hread =>
  split at h
  · cases h
  cases h
  refine ⟨⟨hs.keys, hs.handles, ?_, (fun hn => by cases hn), ?_⟩, rfl, rfl, rfl⟩
  · -- with no entry yet, no CDict has been made from other bytes
    have hheap := hs.heap
    rw [hentries] at hheap
    have hentries' : Trained.entries ⟨some buf, s.dict_registry, s.heap, s.opens + 1, s.reads + 1, s.calls + 1⟩ = [] :=
      hentries
    rw [hentries']
    exact hheap
  · rintro _ ⟨rfl⟩
    rw [hopens] at hfd
    exact ⟨by rw [hopens], by rw [hreads], fd, hfd, hread⟩

/-- A new profile gets an entry at the end, with the next handle. -/
theorem Registered.snoc (hs : Registered E s) {buf : Bytes} (hbuf : s.dict_buf = some buf) {key : Int × Int}
    (hnew : key ∉ s.entries.map DictEntry.key) (n : Nat) :
    Registered E ⟨s.dict_buf, some (s.entries ++ [⟨key.1, key.2, s.heap.length⟩]), s.heap ++ [recipe E buf key.1 key.2],
      s.opens, s.reads, n⟩ := by
  have hlen : s.heap.length = s.entries.length := by rw [hs.heap, List.length_map]
  refine ⟨?_, ?_, ?_, (fun hn => by rw [hbuf] at hn; cases hn), hs.read⟩
  · simp only [Trained.entries, Option.getD_some, List.map_append, List.map_singleton]
    rw [← List.concat_eq_append]
    exact hs.keys.concat hnew
  · simp only [Trained.entries, Option.getD_some, List.map_append, List.map_singleton, List.length_append,
      List.length_singleton]
    rw [List.range_succ]
    exact congrArg₂ _ hs.handles (by rw [hlen]; rfl)
  · simp only [Trained.entries, Option.getD_some, List.map_append, List.map_singleton]
    have hheap := hs.heap
    rw [hbuf, Option.getD_some] at hheap ⊢
    exact congrArg (· ++ _) hheap

/-- So registering a new profile does that and nothing else. -/
theorem register_dict_spec (hs : Registered E s) {buf : Bytes} (hbuf : s.dict_buf = some buf) {level window_log : Int}
    (hnew : (level, window_log) ∉ s.entries.map DictEntry.key) {dict : Option CDict}
    (h : register_dict E s buf level window_log = .ok (dict, s')) :
    Registered E s' ∧ s'.entries = s.entries ++ [⟨level, window_log, s.heap.length⟩] ∧ dict = some s.heap.length := by
  unfold register_dict at h
  dsimp only at h
  split at h
  · cases h
  obtain ⟨s1, h1, h⟩ := bind_ok h
  obtain ⟨s2, h2, h⟩ := bind_ok h
  obtain ⟨s3, h3, h⟩ := bind_ok h
  cases h
  obtain ⟨n, rfl⟩ : ∃ n, s2 = { s1 with calls := n } := by
    unfold create_registry at h2
    split at h2
    · exact ⟨_, alloc_ok h2⟩
    · cases h2
      exact ⟨s1.calls, rfl⟩
  have e1 := alloc_ok h1
  have e3 := alloc_ok h3
  subst e1 e3
  exact ⟨hs.snoc hbuf hnew _, rfl, rfl⟩

theorem registry_missing {conf : DictConf}
    (h : (s.entries.find? fun e => e.level == conf.level && e.window_log == conf.window_log) = none) :
    conf.key ∉ s.entries.map DictEntry.key := by
  intro hmem
  obtain ⟨e, he, hkey⟩ := List.mem_map.1 hmem
  obtain ⟨hlevel, hwindow⟩ := Prod.ext_iff.1 hkey
  have := List.find?_eq_none.1 h e he
  simp only [Bool.and_eq_true, beq_iff_eq, not_and] at this
  exact this hlevel hwindow

/-- One location: the registry grows by at most the location's own profile, and an
enabled location has the entry of that profile. -/
theorem merge_dict_spec (hs : Registered E s) (hfile : E.dict_file ≠ []) {conf : DictConf} {dict : Option CDict}
    (h : merge_dict E s conf = .ok (dict, s')) :
    Registered E s' ∧ s.entries <+: s'.entries ∧
      (conf.enable ≠ 0 → ∃ e ∈ s'.entries, e.key = conf.key ∧ dict = some e.dict) ∧
      ∀ e ∈ s'.entries, e ∈ s.entries ∨ conf.enable ≠ 0 ∧ e.key = conf.key := by
  have hpos : E.dict_file.length > 0 := List.length_pos_iff.2 hfile
  unfold merge_dict at h
  split at h
  · next hoff =>
    cases h
    exact ⟨hs, List.prefix_rfl, fun hon => absurd ⟨hon, hpos⟩ hoff, fun e he => .inl he⟩
  next hon =>
  have hon := (not_not.1 hon).1
  split at h
  · next entry hfind =>
    cases h
    have hkey := List.find?_some hfind
    simp only [Bool.and_eq_true, beq_iff_eq] at hkey
    exact ⟨hs, List.prefix_rfl, fun _ => ⟨entry, List.mem_of_find?_eq_some hfind, Prod.ext hkey.1 hkey.2, rfl⟩,
      fun e he => .inl he⟩
  next hfind =>
  obtain ⟨⟨buf, s1⟩, h1, h⟩ := bind_ok h
  obtain ⟨hs1, hbuf, hreg, -⟩ := load_dict_buf_spec hs h1
  have hentries : s1.entries = s.entries := by
    rw [Trained.entries, hreg]
    rfl
  have hnew : conf.key ∉ s1.entries.map DictEntry.key := by
    rw [hentries]
    exact registry_missing hfind
  obtain ⟨hs', hgrown, rfl⟩ := register_dict_spec hs1 hbuf hnew h
  rw [hgrown, hentries]
  refine ⟨hs', List.prefix_append _ _, fun _ => ⟨_, List.mem_append_right _ List.mem_cons_self, rfl, rfl⟩,
    fun e he => ?_⟩
  rcases List.mem_append.1 he with he | he
  · exact .inl he
  · rw [List.mem_singleton.1 he]
    exact .inr ⟨hon, rfl⟩

/-- An entry's CDict is made from its profile. -/
theorem Registered.recipe_of (hs : Registered E s) {e : DictEntry} (he : e ∈ s.entries) :
    s.heap[e.dict]? = some (recipe E (s.dict_buf.getD []) e.level e.window_log) := by
  obtain ⟨i, hi⟩ := List.mem_iff_getElem?.1 he
  have hdict : (s.entries.map (·.dict))[i]? = some e.dict := by rw [List.getElem?_map, hi]; rfl
  rw [hs.handles] at hdict
  obtain ⟨_, hval⟩ := List.getElem?_eq_some_iff.1 hdict
  rw [List.getElem_range] at hval
  rw [← hval, hs.heap, List.getElem?_map, hi]
  rfl

/-- Entries are told apart by their profile, and by their CDict. -/
theorem Registered.dict_inj (hs : Registered E s) {e e' : DictEntry} (he : e ∈ s.entries) (he' : e' ∈ s.entries) :
    e.dict = e'.dict ↔ e.key = e'.key := by
  have hdicts : (s.entries.map (·.dict)).Nodup := by
    rw [hs.handles]
    exact List.nodup_range
  constructor
  · intro h
    rw [List.inj_on_of_nodup_map hdicts he he' h]
  · intro h
    rw [List.inj_on_of_nodup_map hs.keys he he' h]

/-- The whole tree, block by block. -/
theorem merge_blocks_spec {A : Abi} (hfile : E.dict_file ≠ []) (blocks : Blocks A) :
    ∀ {prev : DictConf} {outer : BlockSettings A} {s s' : Trained} {locs : List MergedLoc},
      (prev = outer.effective ∨ prev = outer.conf) → Registered E s → merge_blocks A E prev blocks s = .ok (locs, s') →
      Registered E s' ∧ s.entries <+: s'.entries ∧
      locs.map (·.conf) = (inForce outer blocks).map BlockSettings.effective ∧
      (∀ loc ∈ locs, loc.conf.enable ≠ 0 → ∃ e ∈ s'.entries, e.key = loc.conf.key ∧ loc.dict = some e.dict) ∧
      ∀ e ∈ s'.entries, e ∈ s.entries ∨ ∃ loc ∈ locs, loc.conf.enable ≠ 0 ∧ loc.conf.key = e.key := by
  induction blocks with
  | done =>
    intro prev outer s s' locs _ hs h
    cases h
    exact ⟨hs, List.prefix_rfl, rfl, by simp, fun e he => .inl he⟩
  | block own inside rest ihi ihr =>
    intro prev outer s s' locs hprev hs h
    obtain ⟨⟨dict, s1⟩, h1, h⟩ := bind_ok h
    obtain ⟨⟨locs1, s2⟩, h2, h⟩ := bind_ok h
    obtain ⟨⟨locs2, s3⟩, h3, h⟩ := bind_ok h
    cases h
    have hconf := merge_values_eq hprev own
    obtain ⟨hs1, hpre1, hserved1, hnew1⟩ := merge_dict_spec hs hfile h1
    obtain ⟨hs2, hpre2, hmap2, hserved2, hnew2⟩ := ihi (.inl hconf) hs1 h2
    obtain ⟨hs3, hpre3, hmap3, hserved3, hnew3⟩ := ihr hprev hs2 h3
    refine ⟨hs3, hpre1.trans (hpre2.trans hpre3), ?_, fun loc hloc hon => ?_, fun e he => ?_⟩
    · simp only [List.cons_append, List.map_cons, List.map_append, inForce, hmap2, hmap3, hconf]
    · rcases List.mem_append.1 hloc with hloc | hloc
      · -- what an earlier block was given is still there
        rcases List.mem_cons.1 hloc with rfl | hloc
        · obtain ⟨e, he, hkey⟩ := hserved1 hon
          exact ⟨e, (hpre2.trans hpre3).subset he, hkey⟩
        · obtain ⟨e, he, hkey⟩ := hserved2 loc hloc hon
          exact ⟨e, hpre3.subset he, hkey⟩
      · exact hserved3 loc hloc hon
    · rcases hnew3 e he with he | ⟨loc, hloc, hkey⟩
      · rcases hnew2 e he with he | ⟨loc, hloc, hkey⟩
        · refine (hnew1 e he).imp_right fun hkey => ?_
          exact ⟨_, List.mem_append_left _ List.mem_cons_self, hkey.1, hkey.2.symm⟩
        · exact .inr ⟨loc, List.mem_append_left _ (List.mem_cons_of_mem _ hloc), hkey⟩
      · exact .inr ⟨loc, List.mem_append_right _ hloc, hkey⟩

end

/-- The parameters of a location's own level, with its own window if it has one. -/
structure ProfileParams (E : TrainedLib) (conf : DictConf) (buf : Bytes) (cparams : CParams) : Prop where
  level : cparams = { E.get_cparams conf.level buf.length with window_log := cparams.window_log }
  window : 0 < conf.window_log → (cparams.window_log : Int) = conf.window_log
  unset : conf.window_log ≤ 0 → cparams = E.get_cparams conf.level buf.length

theorem recipe_static {E : TrainedLib} (hapi : E.static_api = true) (buf : Bytes) (conf : DictConf) :
    ∃ cparams, recipe E buf conf.level conf.window_log = .advanced buf cparams ∧ ProfileParams E conf buf cparams := by
  refine ⟨_, if_pos hapi, ?_, fun hw => ?_, fun hw => if_neg (Int.not_lt.2 hw)⟩
  · split <;> rfl
  · rw [if_pos hw]
    exact Int.toNat_of_nonneg (Int.le_of_lt hw)

theorem recipe_public {E : TrainedLib} (hapi : E.static_api = false) (buf : Bytes) (level window_log : Int) :
    recipe E buf level window_log = .plain buf level := if_neg (by rw [hapi]; decide)

/-- For every tree of blocks that merges, with any settings written or missing: each
location has the settings in force; an enabled one has a CDict of the file's bytes,
with the static API for its own level and window, with the public one for its level;
two share one exactly where both agree; one CDict has been built for each profile in
use; and the file has been opened and read at most once. -/
theorem trained_dict_shared {A : Abi} {E : TrainedLib} (hfile : E.dict_file ≠ []) {http : BlockSettings A}
    {servers : Blocks A} {locs : List MergedLoc} {s : Trained}
    (h : merge_blocks A E http.conf servers trained_init = .ok (locs, s)) :
    locs.map (·.conf) = (inForce http servers).map BlockSettings.effective ∧
    (∀ loc ∈ locs, loc.conf.enable ≠ 0 → ∃ cdict fd buf, loc.dict = some cdict ∧ E.open_dict_file 0 = some fd ∧
      fd.read = some buf ∧
      (E.static_api = true →
        ∃ cparams, s.heap[cdict]? = some (.advanced buf cparams) ∧ ProfileParams E loc.conf buf cparams) ∧
      (E.static_api = false → s.heap[cdict]? = some (.plain buf loc.conf.level))) ∧
    (∀ loc ∈ locs, ∀ loc' ∈ locs, loc.conf.enable ≠ 0 → loc'.conf.enable ≠ 0 →
      (loc.dict = loc'.dict ↔ loc.conf.level = loc'.conf.level ∧ loc.conf.window_log = loc'.conf.window_log)) ∧
    (∃ profiles : List (Int × Int), profiles.Nodup ∧
      (∀ p, p ∈ profiles ↔ ∃ loc ∈ locs, loc.conf.enable ≠ 0 ∧ (loc.conf.level, loc.conf.window_log) = p) ∧
      s.heap = profiles.map fun p => recipe E (s.dict_buf.getD []) p.1 p.2) ∧
    s.opens ≤ 1 ∧ s.reads ≤ 1 := by
  obtain ⟨hs, -, hmap, hserved, hnew⟩ := merge_blocks_spec hfile servers (.inr rfl) registered_init h
  refine ⟨hmap, fun loc hloc hon => ?_, fun loc hloc loc' hloc' hon hon' => ?_, ?_, ?_⟩
  · obtain ⟨e, he, hkey, hdict⟩ := hserved loc hloc hon
    obtain ⟨buf, hbuf⟩ : ∃ buf, s.dict_buf = some buf := by
      cases hbuf : s.dict_buf with
      | none => exact absurd he (by rw [(hs.unread hbuf).1]; exact List.not_mem_nil)
      | some buf => exact ⟨buf, rfl⟩
    obtain ⟨-, -, fd, hfd, hread⟩ := hs.read buf hbuf
    obtain ⟨hlevel, hwindow⟩ := Prod.ext_iff.1 hkey
    have hrecipe : s.heap[e.dict]? = some (recipe E buf loc.conf.level loc.conf.window_log) := by
      rw [hs.recipe_of he, hbuf, Option.getD_some, show e.level = _ from hlevel, show e.window_log = _ from hwindow]
      rfl
    refine ⟨e.dict, fd, buf, hdict, hfd, hread, fun hapi => ?_, fun hapi => ?_⟩
    · obtain ⟨cparams, hbuilt, hparams⟩ := recipe_static hapi buf loc.conf
      exact ⟨cparams, hrecipe.trans (congrArg some hbuilt), hparams⟩
    · exact hrecipe.trans (congrArg some (recipe_public hapi buf _ _))
  · obtain ⟨e, he, hkey, hdict⟩ := hserved loc hloc hon
    obtain ⟨e', he', hkey', hdict'⟩ := hserved loc' hloc' hon'
    rw [hdict, hdict', Option.some.injEq, hs.dict_inj he he', hkey, hkey']
    exact Prod.ext_iff
  · refine ⟨s.entries.map DictEntry.key, hs.keys, fun p => ⟨fun hp => ?_, ?_⟩, ?_⟩
    · obtain ⟨e, he, rfl⟩ := List.mem_map.1 hp
      rcases hnew e he with he | hloc
      · exact absurd he List.not_mem_nil
      · exact hloc
    · rintro ⟨loc, hloc, hon, rfl⟩
      obtain ⟨e, he, hkey, -⟩ := hserved loc hloc hon
      exact List.mem_map.2 ⟨e, he, hkey⟩
    · rw [List.map_map]
      exact hs.heap
  · cases hbuf : s.dict_buf with
    | none => exact ⟨by rw [(hs.unread hbuf).2.1]; decide, by rw [(hs.unread hbuf).2.2]; decide⟩
    | some buf => exact ⟨by rw [(hs.read buf hbuf).1], by rw [(hs.read buf hbuf).2.1]⟩

/-! ### A server and two locations -/

/-- A dictionary file that opens and reads, and a libzstd that builds. -/
def smallDictFile : TrainedLib where
  dict_file := str "/d"
  open_dict_file _ := some ⟨4, some (str "dict"), true, by decide⟩
  pool _ := true
  get_cparams _ _ := ⟨21, 16, 17, 1, 5, 0, 2⟩
  create _ := true
  static_api := true

/-- `zstd on` at level 5 around a server, a location without settings of its own, and
one with a window of its own at level -1, which a mark of `-1` would have lost. -/
theorem trained_dict_shared_inherited :
    let A : Abi := ⟨64, 64, .inr rfl, .inr rfl⟩
    let http : BlockSettings A := ⟨some true, some 5, none, by decide, by decide⟩
    let plain : BlockSettings A := ⟨none, none, none, by decide, by decide⟩
    let fast : BlockSettings A := ⟨none, some (-1), some 15, by decide, by decide⟩
    ∃ server inherits own s,
      merge_blocks A smallDictFile http.conf (.block plain (.block plain .done (.block fast .done .done)) .done)
        trained_init = .ok ([server, inherits, own], s) ∧
      server.dict = inherits.dict ∧ server.dict ≠ own.dict ∧ own.conf.level = -1 ∧
      ∃ cdict cparams, own.dict = some cdict ∧ s.heap[cdict]? = some (.advanced (str "dict") cparams) ∧
        cparams.window_log = 15 := by
  intro A http plain fast
  have hfile : smallDictFile.dict_file ≠ [] := by decide
  obtain ⟨server, inherits, own, s, h, hserver, hinherits, hown⟩ : ∃ server inherits own s,
      merge_blocks A smallDictFile http.conf (.block plain (.block plain .done (.block fast .done .done)) .done)
        trained_init = .ok ([server, inherits, own], s) ∧
      server.conf = ⟨1, 5, 0⟩ ∧ inherits.conf = ⟨1, 5, 0⟩ ∧ own.conf = ⟨1, -1, 15⟩ := ⟨_, _, _, _, rfl, rfl, rfl, rfl⟩
  obtain ⟨-, hbuilt, hshare, -⟩ := trained_dict_shared hfile h
  refine ⟨server, inherits, own, s, h, ?_, fun heq => ?_, by rw [hown], ?_⟩
  · refine (hshare server (by simp) inherits (by simp) ?_ ?_).2 ?_
    · simp [hserver]
    · simp [hinherits]
    · simp [hserver, hinherits]
  · have := (hshare server (by simp) own (by simp) (by simp [hserver]) (by simp [hown])).1 heq
    simp [hserver, hown] at this
  · obtain ⟨cdict, fd, buf, hdict, hfd, hread, hstatic, -⟩ := hbuilt own (by simp) (by simp [hown])
    obtain ⟨cparams, hheap, hparams⟩ := hstatic rfl
    cases hfd
    cases hread
    have hwindow := hparams.window (by rw [hown]; decide)
    rw [hown] at hwindow
    exact ⟨cdict, cparams, hdict, hheap, Int.ofNat.inj hwindow⟩

/-- With the public API two locations with windows of their own have two CDicts, and
neither knows of its window. -/
theorem trained_dict_level_only :
    let A : Abi := ⟨64, 64, .inr rfl, .inr rfl⟩
    let http : BlockSettings A := ⟨some true, some 5, none, by decide, by decide⟩
    let small : BlockSettings A := ⟨none, none, some 10, by decide, by decide⟩
    let large : BlockSettings A := ⟨none, none, some 20, by decide, by decide⟩
    ∃ a b s, merge_blocks A { smallDictFile with static_api := false } http.conf
        (.block small .done (.block large .done .done)) trained_init = .ok ([a, b], s) ∧
      a.conf = ⟨1, 5, 10⟩ ∧ b.conf = ⟨1, 5, 20⟩ ∧ a.dict = some 0 ∧ b.dict = some 1 ∧
      s.heap = [.plain (str "dict") 5, .plain (str "dict") 5] ∧
      ¬∃ cparams, s.heap[0]? = some (.advanced (str "dict") cparams) ∧ cparams.window_log = 10 := by
  intro A http small large
  refine ⟨_, _, _, rfl, rfl, rfl, rfl, rfl, rfl, ?_⟩
  rintro ⟨cparams, hheap, -⟩
  cases hheap

end NginxZstd
