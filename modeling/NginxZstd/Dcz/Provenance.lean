import NginxZstd.Dcz.Cdicts
import NginxZstd.Dcz.Descriptor
import NginxZstd.Dcz.Order
import NginxZstd.Dcz.Sha256
/-!
# Where a dictionary comes from

A dictionary that a location holds was loaded by one line of the file, and carried
into the location by inheritance, by sorting and by the preparation of CDicts. None of
that touches its bytes, its key or its frame header, so what the load did to the file
still holds of it: the bytes are those of the file, the key is their SHA-256 unless
literals are trusted, and every CDict prepared for it was made of these bytes.
-/

namespace NginxZstd

open Lib

/-! ## The key -/

/-- The SHA-256 of some bytes, as FIPS 180-4 has it. -/
def IsSha256 (digest : Digest) (bytes : Bytes) : Prop :=
  Sha256.ofBytes digest.1 = Sha256.hash (Sha256.ofBytes bytes)

/-- `ngx_http_zstd_dcz_dict_hash`, on a context as the stack gives it. A digest has 32
bytes, so the second branch is not taken. -/
def dcz_dict_hash (c : Sha256Ctx) (data : Bytes) : Digest :=
  if h : ((sha256_digest c [data]).getD []).length = 32 then ⟨_, h⟩ else zeroDigest

theorem dcz_dict_hash_spec (c : Sha256Ctx) {data : Bytes} (h : data.length < 2 ^ 61) :
    IsSha256 (dcz_dict_hash c data) data := by
  obtain ⟨digest, hd, hhash⟩ := @sha256_digest_spec c [data] (by simpa using h)
  rw [List.flatten_singleton] at hhash
  have hlen : digest.length = 32 := by
    have hbits := congrArg List.length hhash
    have hhash : (Sha256.hash (Sha256.ofBytes data)).length = 256 := by simp [Sha256.hash, Sha256.Registers.toList]
    rw [Sha256.ofBytes_length, hhash] at hbits
    omega
  have hget : (sha256_digest c [data]).getD [] = digest := by
    rw [hd]
    rfl
  have heq : dcz_dict_hash c data = ⟨digest, hlen⟩ := by
    refine (dif_pos ?_).trans (Subtype.ext hget)
    rw [hget]
    exact hlen
  rw [IsSha256, heq]
  exact hhash

/-! ## The load -/

/-- A loader that works on a file system: what a path opens, and a path without NUL
bytes, as nginx completes it. -/
structure Loader.OnKernel (L : Loader) (K : Bytes → Bool → Kernel) (c : Sha256Ctx) : Prop where
  opens : ∀ path strict, L.open_dict_file path strict = (K path strict).dict_fd path strict
  hashes : L.sha256 = dcz_dict_hash c
  paths : ∀ arg path, L.full_name arg = some path → 0 ∉ path

/-- The bytes are what a load of the path read. -/
def ReadFrom (L : Loader) (K : Bytes → Bool → Kernel) (path : Bytes) (strict : Bool) (bytes : Bytes) : Prop :=
  (load_bytes (K path strict) L.palloc path strict).1 = .ok bytes

/-- What a started configuration knows of a dictionary: its bytes were read, all of them,
and strictly where that is asked for; its key is their SHA-256, unless literals are
trusted; its frame header is made of the key; and nothing has been prepared for it yet. -/
structure Genuine (L : Loader) (K : Bytes → Bool → Kernel) (zmcf : DictFlags) (d : DczDict) : Prop where
  path : 0 ∉ d.file
  read : ∃ strict, (zmcf.dict_strict_path = some true → strict = true) ∧ ReadFrom L K d.file strict d.bytes
  key : zmcf.dcz_dict_trust_hashes ≠ some true → IsSha256 d.hash d.bytes
  header : d.frame_header = frame_header d.hash
  fresh : d.cdicts = none

theorem Loader.OnKernel.read_dict {L : Loader} {K : Bytes → Bool → Kernel} {c : Sha256Ctx} (hL : L.OnKernel K c)
    {path : Bytes} {strict : Bool} {bytes : Bytes} (h : read_dict L path strict = .ok bytes) :
    ReadFrom L K path strict bytes := by
  rw [read_dict_eq (hL.opens path strict)] at h
  unfold ReadFrom
  cases hl : (load_bytes (K path strict) L.palloc path strict).1 with
  | error e =>
    rw [hl] at h
    cases h
  | ok buf =>
    rw [hl] at h
    cases h
    rfl

/-- A load brings in at most 10 MB, and at least a byte. -/
theorem ReadFrom.length {L : Loader} {K : Bytes → Bool → Kernel} {path : Bytes} {strict : Bool} {bytes : Bytes}
    (h : ReadFrom L K path strict bytes) (hz : 0 ∉ path) : 0 < bytes.length ∧ bytes.length ≤ max_dict_size := by
  obtain ⟨-, hok⟩ := load_bytes_spec (K path strict) L.palloc hz strict
  obtain ⟨-, info, -, -, hlen, hpos, hmax, -⟩ := hok bytes h
  omega

theorem run_directive_fresh {L : Loader} {http : Bool} {s s' : Parse} {own own' : Option (List DczDict)} {d : Directive}
    (h : run_directive L http s own d = .ok (s', own')) (hs : ∀ load ∈ s.loads, load.dict.cdicts = none) :
    ∀ load ∈ s'.loads, load.dict.cdicts = none := by
  cases d with
  | dict_strict_path on | dcz_dict_trust_hashes on =>
    simp only [run_directive] at h
    split at h
    · cases h
    obtain ⟨flag, -, h⟩ := bind_ok h
    cases h
    exact hs
  | dcz_dict_file path hash =>
    obtain ⟨⟨zmcf, dicts, load⟩, hd, h⟩ := bind_ok h
    cases h
    obtain ⟨_, _, _, _, -, -, -, -, -, hp, -⟩ := dcz_dict_file_cases hd
    intro load' hl
    rcases List.mem_append.1 hl with hl | hl
    · exact hs load' hl
    · rw [List.mem_singleton.1 hl, (push_dict_spec hp).1]

theorem conf_parse_fresh {L : Loader} (file : ConfFile) :
    ∀ {http : Bool} {s s' : Parse} {own own' : Option (List DczDict)} {inside : Confs},
      conf_parse L http s own file = .ok (s', own', inside) → (∀ load ∈ s.loads, load.dict.cdicts = none) →
      ∀ load ∈ s'.loads, load.dict.cdicts = none := by
  induction file with
  | done =>
    intro http s s' own own' inside h hs
    cases h
    exact hs
  | directive d rest ih =>
    intro http s s' own own' inside h hs
    obtain ⟨⟨s1, own1⟩, h1, h⟩ := bind_ok h
    exact ih h (run_directive_fresh h1 hs)
  | block body rest ihb ihr =>
    intro http s s' own own' inside h hs
    obtain ⟨⟨s1, inner, sub⟩, h1, h⟩ := bind_ok h
    obtain ⟨⟨s2, own2, after⟩, h2, h⟩ := bind_ok h
    cases h
    exact ihr h2 (ihb h1 hs)

/-- Every entry of a started configuration is genuine. -/
theorem load_genuine {L : Loader} {K : Bytes → Bool → Kernel} {c : Sha256Ctx} (hL : L.OnKernel K c) {file : ConfFile}
    {cfg : Loaded} (h : load L file = .ok cfg) : ∀ d ∈ entries cfg.http cfg.servers, Genuine L K cfg.zmcf d := by
  obtain ⟨⟨s, http, servers⟩, hparse, h⟩ := bind_ok h
  obtain ⟨zmcf, hinit, h⟩ := bind_ok h
  cases h
  have hp := conf_parse_parsed file hparse (.start L)
  obtain ⟨loads, hl, hperm⟩ := conf_parse_entries file hparse
  obtain rfl : s.loads = loads := hl
  obtain ⟨-, hstrict, -, hoff⟩ := init_main_conf_spec hinit
  intro d hd
  obtain ⟨load, hload, rfl⟩ : ∃ load ∈ s.loads, load.dict = d := by
    have := hperm.mem_iff.1 hd
    simpa using this
  obtain ⟨line, -, hby⟩ : ∃ line ∈ [] ++ file.lines, LoadedBy L line load := by
    obtain ⟨i, hi, rfl⟩ := List.getElem_of_mem hload
    have hlen := hp.loads.length_eq
    exact ⟨_, List.getElem_mem (hlen ▸ hi), hp.loads.get (hlen ▸ hi) hi⟩
  have hread := hL.read_dict hby.bytes
  have hpath := hL.paths _ _ hby.path
  have hfresh := conf_parse_fresh file hparse (fun _ hl => by cases hl) load hload
  refine ⟨hpath, ⟨load.strict, fun hs => hp.strict (hstrict hs) load hload, hread⟩, fun ht => ?_, hby.header, hfresh⟩
  rw [(hp.verified (hoff ht) load hload).1, hL.hashes]
  apply dcz_dict_hash_spec
  have := (hread.length hpath).2
  unfold max_dict_size at this
  omega

/-! ## The merge -/

/-- Merging hands out the arrays the blocks declared, in another order at most. -/
theorem merge_locations_entries {qsort : List DczDict → List DczDict} (hq : ∀ xs, (qsort xs).Perm xs) (confs : Confs) :
    ∀ {prev : Option (List DczDict)} {ds : List DczDict} {d : DczDict},
      some ds ∈ (merge_locations qsort prev confs).arrays → d ∈ ds → d ∈ entries prev confs := by
  induction confs with
  | done =>
    intro prev ds d hds
    simp [merge_locations, Confs.arrays] at hds
  | block conf inside rest ihi ihr =>
    intro prev ds d hds hd
    -- what the block declares, or else what is around it
    have hconf : ∀ {ds d}, merge_dcz_dicts qsort prev conf = some ds → d ∈ ds → d ∈ entries prev (.block conf inside rest) := by
      intro ds d h hd
      cases conf with
      | none =>
        have h : prev = some ds := by simpa [merge_dcz_dicts] using h
        simp [entries, h, hd]
      | some own =>
        have h : dcz_dict_sort qsort own = ds := by simpa [merge_dcz_dicts] using h
        have hown : d ∈ own := by
          rw [← h] at hd
          unfold dcz_dict_sort at hd
          split at hd
          · exact (hq own).mem_iff.1 hd
          · exact hd
        simp [entries, Confs.arrays, hown]
    simp only [merge_locations, Confs.arrays, List.mem_cons, List.mem_append] at hds
    rcases hds with hds | hds | hds
    · exact hconf hds.symm hd
    · have hin := ihi hds hd
      simp only [entries, List.flatMap_cons, List.mem_append] at hin
      rcases hin with hin | hin
      · cases hm : merge_dcz_dicts qsort prev conf with
        | none =>
          rw [hm] at hin
          cases hin
        | some merged =>
          rw [hm] at hin
          exact hconf hm hin
      · simp only [entries, Confs.arrays, List.flatMap_cons, List.flatMap_append, List.mem_append]
        exact .inr (.inr (.inl hin))
    · have hin := ihr hds hd
      simp only [entries, List.flatMap_cons, List.mem_append] at hin
      simp only [entries, Confs.arrays, List.flatMap_cons, List.flatMap_append, List.mem_append]
      rcases hin with hin | hin
      · exact .inl hin
      · exact .inr (.inr (.inr hin))

/-- Every dictionary in force anywhere is genuine. -/
theorem effective_genuine {L : Loader} {K : Bytes → Bool → Kernel} {c : Sha256Ctx} (hL : L.OnKernel K c)
    {qsort : List DczDict → List DczDict} (hq : ∀ xs, (qsort xs).Perm xs) {file : ConfFile} {cfg : Loaded}
    (h : load L file = .ok cfg) {ds : List DczDict} (hds : some ds ∈ effective qsort cfg) :
    ∀ d ∈ ds, Genuine L K cfg.zmcf d :=
  fun d hd => load_genuine hL h d (merge_locations_entries hq cfg.servers hds hd)

/-! ## The preparation -/

/-- An array after the passes of any locations over it. -/
inductive Prepares (A : Abi) (Z : CdictLib) (ds : List DczDict) : List DczDict → Prop
  | refl : Prepares A Z ds ds
  | build {conf : LocConf} {ds' ds'' : List DczDict} {zmcf zmcf' : CdictCache} {log : List (List (Int × Outcome))}
      (h : Prepares A Z ds ds') (hconf : conf.dcz_dicts = some ds')
      (hb : dcz_build_cdicts A Z conf zmcf = .ok (ds'', zmcf', log)) : Prepares A Z ds ds''

/-- The same dictionary, with CDicts created from its bytes. -/
structure PreparedFrom (Z : CdictLib) (d d' : DczDict) : Prop where
  file : d'.file = d.file
  bytes : d'.bytes = d.bytes
  hash : d'.hash = d.hash
  header : d'.frame_header = d.frame_header
  cdicts : ∀ e ∈ d'.cdicts.getD [], ∃ level wlog, Z.create d.bytes level wlog = some e.dict

section
variable {A : Abi} {Z : CdictLib}

theorem PreparedFrom.candidate {conf : LocConf} {d d' d'' : DczDict} {zmcf zmcf' : CdictCache} {wlog : Int} {o : Outcome}
    (h : PreparedFrom Z d d') (hb : build_candidate A Z conf d' zmcf wlog = .ok (d'', zmcf', o)) :
    PreparedFrom Z d d'' := by
  unfold build_candidate at hb
  split at hb
  · cases hb
    exact h
  split at hb
  · cases hb
    exact h
  split at hb
  · cases hb
  next cdict hc =>
  split at hb
  · cases hb
    exact h
  split at hb
  · cases hb
  split at hb
  · cases hb
  cases hb
  refine ⟨h.file, h.bytes, h.hash, h.header, fun e he => ?_⟩
  rcases List.mem_append.1 he with he | he
  · exact h.cdicts e he
  · rw [List.mem_singleton.1 he, ← h.bytes]
    exact ⟨_, _, hc⟩

theorem PreparedFrom.windows {conf : LocConf} {d : DczDict} (ws : List Int) :
    ∀ {d' d'' : DczDict} {zmcf zmcf' : CdictCache} {log : List (Int × Outcome)}, PreparedFrom Z d d' →
      build_windows A Z conf d' zmcf ws = .ok (d'', zmcf', log) → PreparedFrom Z d d'' := by
  induction ws with
  | nil =>
    intro d' d'' zmcf zmcf' log h hb
    cases hb
    exact h
  | cons wlog ws ih =>
    intro d' d'' zmcf zmcf' log h hb
    obtain ⟨⟨d1, z1, o⟩, h1, hb⟩ := bind_ok hb
    obtain ⟨⟨d2, z2, log2⟩, h2, hb⟩ := bind_ok hb
    cases hb
    exact ih (h.candidate h1) h2

theorem PreparedFrom.dict {conf : LocConf} {d d' d'' : DczDict} {zmcf zmcf' : CdictCache} {log : List (Int × Outcome)}
    (h : PreparedFrom Z d d') (hb : build_dict A Z conf d' zmcf = .ok (d'', zmcf', log)) :
    PreparedFrom Z d d'' := by
  simp only [build_dict] at hb
  split at hb
  · cases hb
  have h' : PreparedFrom Z d { d' with cdicts := some (d'.cdicts.getD []) } :=
    ⟨h.file, h.bytes, h.hash, h.header, h.cdicts⟩
  exact PreparedFrom.windows _ h' hb

theorem prepared_build_dicts {conf : LocConf} {ds ds' : List DczDict} (h : List.Forall₂ (PreparedFrom Z) ds ds') :
    ∀ {ds'' : List DczDict} {zmcf zmcf' : CdictCache} {logs : List (List (Int × Outcome))},
      build_dicts A Z conf ds' zmcf = .ok (ds'', zmcf', logs) → List.Forall₂ (PreparedFrom Z) ds ds'' := by
  induction h with
  | nil =>
    intro ds'' zmcf zmcf' logs hb
    cases hb
    exact .nil
  | cons hd _ ih =>
    intro ds'' zmcf zmcf' logs hb
    obtain ⟨⟨d1, z1, log1⟩, h1, hb⟩ := bind_ok hb
    obtain ⟨⟨ds2, z2, logs2⟩, h2, hb⟩ := bind_ok hb
    cases hb
    exact .cons (hd.dict h1) (ih h2)

/-- The passes over an array prepare its dictionaries, one by one. -/
theorem Prepares.prepared {ds ds' : List DczDict} (h : Prepares A Z ds ds') (hfresh : ∀ d ∈ ds, d.cdicts = none) :
    List.Forall₂ (PreparedFrom Z) ds ds' := by
  induction h with
  | refl =>
    rw [List.forall₂_same]
    intro d hd
    refine ⟨rfl, rfl, rfl, rfl, fun e he => ?_⟩
    rw [hfresh d hd] at he
    cases he
  | build _ hconf hb ih =>
    unfold dcz_build_cdicts at hb
    rw [hconf] at hb
    dsimp only [Option.getD_some] at hb
    split at hb
    · cases hb
      exact ih
    split at hb
    · cases hb
      exact ih
    · exact prepared_build_dicts ih hb

end

end NginxZstd
