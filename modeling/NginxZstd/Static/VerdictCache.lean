import NginxZstd.Lib.Runs
import NginxZstd.Nginx
/-!
# The verdict cache

A worker keeps the probe's verdicts on the last `.zst` files in a ring: `next` is
where the next verdict goes, `count` how many slots lookups look at. A lookup
retires the stale entry it comes across. `verdict_cache_coherent` is about every
sequence of handler steps of a worker.
-/

namespace NginxZstd

open Lib

/-- `NGX_HTTP_ZSTD_STATIC_VERDICT_CACHE_SLOTS`. -/
def verdict_cache_slots : Nat := 64

/-- `NGX_HTTP_ZSTD_STATIC_VERDICT_*`. -/
inductive CacheVerdict where
  | none
  | bad
  | good
deriving DecidableEq

/-- `ngx_open_file_info_t`, as far as it identifies a file. -/
structure OpenFileInfo where
  uniq : Nat
  mtime : Int
  size : Int
deriving DecidableEq

/-- `ngx_http_zstd_static_verdict_cache_t`. `path` is the first `len` bytes of the
array of that name. -/
structure VerdictEntry where
  uniq : Nat
  mtime : Int
  checked : Int
  size : Int
  path : Bytes
  valid : CacheVerdict
deriving DecidableEq

/-- The three statics of the cache. -/
structure VerdictCache where
  entries : List VerdictEntry
  next : Nat
  count : Nat

/-! ## Lookup -/

def VerdictEntry.matches (e : VerdictEntry) (path : Bytes) (of : OpenFileInfo) : Bool :=
  e.valid != .none && e.uniq == of.uniq && e.mtime == of.mtime && e.size == of.size &&
    e.path.length == path.length && memcmp e.path path == 0

def VerdictEntry.stale (e : VerdictEntry) (now : Int) (good_valid : Nat) : Bool :=
  e.valid == .good && (good_valid == 0 || now < e.checked || now - e.checked ≥ good_valid)

/-- The loop of the lookup, with the entries it leaves. -/
def scan_verdicts (path : Bytes) (of : OpenFileInfo) (now : Int) (good_valid : Nat) :
    List VerdictEntry → CacheVerdict × List VerdictEntry
  | [] => (.none, [])
  | e :: es =>
    if e.matches path of then
      -- a stale entry is retired and the scan goes on
      if e.stale now good_valid then
        ((scan_verdicts path of now good_valid es).1,
          { e with valid := .none } :: (scan_verdicts path of now good_valid es).2)
      else (e.valid, e :: es)
    else ((scan_verdicts path of now good_valid es).1, e :: (scan_verdicts path of now good_valid es).2)

/-- `ngx_http_zstd_static_cached_verdict`, with the cache it leaves. -/
def cached_verdict (c : VerdictCache) (path : Bytes) (of : OpenFileInfo) (now : Int) (good_valid : Nat) :
    CacheVerdict × VerdictCache :=
  if path.length ≥ max_path then (.none, c)
  else if c.count = 0 then (.none, c)
  else
    ((scan_verdicts path of now good_valid (c.entries.take c.count)).1,
      { c with entries := (scan_verdicts path of now good_valid (c.entries.take c.count)).2 ++ c.entries.drop c.count })

/-! ## Recording -/

/-- What the early return of `ngx_http_zstd_static_remember` lets through. -/
def remembers (path : Bytes) (verdict : CacheVerdict) (good_valid : Nat) : Bool :=
  !(decide (path.length ≥ max_path) || verdict == .good && good_valid == 0)

/-- An unused slot. -/
def emptyEntry : VerdictEntry := ⟨0, 0, 0, 0, [], .none⟩

/-- `ngx_http_zstd_static_remember`. -/
def remember (c : VerdictCache) (path : Bytes) (of : OpenFileInfo) (verdict : CacheVerdict) (now : Int)
    (good_valid : Nat) : VerdictCache :=
  if !remembers path verdict good_valid then c
  else
    { entries := c.entries.set c.next ⟨of.uniq, of.mtime, now, of.size, path, verdict⟩
      count :=
        if (c.entries.getD c.next emptyEntry).valid = .none ∧ c.count < verdict_cache_slots then c.count + 1
        else c.count
      next := if c.next + 1 = verdict_cache_slots then 0 else c.next + 1 }

/-! ## Handler steps -/

/-- How the probe of a file ends: `NGX_OK`, a decline that leaves `malformed` set, or
any other decline or error. -/
inductive ProbeEnd where
  | ok
  | malformed
  | failed
deriving DecidableEq

/-- A request that reaches the cache, in a location with its `good_valid`. -/
structure Visit where
  path : Bytes
  of : OpenFileInfo
  now : Int
  good_valid : Nat
  probe : ProbeEnd

/-- The file a verdict is about. -/
structure FileIdent where
  path : Bytes
  of : OpenFileInfo
deriving DecidableEq

/-- A verdict that was recorded. -/
structure Recorded where
  file : FileIdent
  verdict : CacheVerdict
  at_time : Int

/-- A worker's cache and, newest first, the verdicts it recorded so far. -/
structure VerdictState where
  cache : VerdictCache
  log : List Recorded

def Visit.file (v : Visit) : FileIdent := ⟨v.path, v.of⟩

/-- `ngx_http_zstd_static_remember` at the time of the visit, noted in the log. -/
def record (v : Visit) (verdict : CacheVerdict) (s : VerdictState) : VerdictState where
  cache := remember s.cache v.path v.of verdict v.now v.good_valid
  log := if remembers v.path verdict v.good_valid then ⟨v.file, verdict, v.now⟩ :: s.log else s.log

/-- The cache protocol of `ngx_http_zstd_static_handler`. -/
def visit (s : VerdictState) (v : Visit) : Option VerdictState :=
  let looked := cached_verdict s.cache v.path v.of v.now v.good_valid
  let s := { s with cache := looked.2 }
  match looked.1 with
  | .bad => some s
  | .good => some s
  | .none =>
    match v.probe with
    | .ok => some (record v .good s)
    | .malformed => some (record v .bad s)
    | .failed => some s

/-- The worker starts with the statics zeroed. -/
def freshWorker : VerdictState := ⟨⟨List.replicate verdict_cache_slots emptyEntry, 0, 0⟩, []⟩

/-! ## The invariant -/

def VerdictEntry.file (e : VerdictEntry) : FileIdent := ⟨e.path, ⟨e.uniq, e.mtime, e.size⟩⟩

/-- The latest verdict recorded for a file. -/
def latest (log : List Recorded) (file : FileIdent) : Option Recorded := log.find? fun r => r.file = file

/-- Slot `i` holds the live entry `e`. -/
def VerdictCache.Holds (c : VerdictCache) (i : Nat) (e : VerdictEntry) : Prop :=
  c.entries[i]? = some e ∧ e.valid ≠ .none

/-- Until the ring is full the cursor stands behind the counted slots. A live entry is
counted, is the only one of its file, and holds what was recorded last. -/
structure Coherent (s : VerdictState) : Prop where
  slots : s.cache.entries.length = verdict_cache_slots
  cursor : s.cache.next = s.cache.count ∧ s.cache.count < verdict_cache_slots ∨
    s.cache.next < verdict_cache_slots ∧ s.cache.count = verdict_cache_slots
  counted : ∀ {i e}, s.cache.Holds i e → i < s.cache.count
  unique : ∀ {i j e e'}, s.cache.Holds i e → s.cache.Holds j e' → e.file = e'.file → i = j
  recorded : ∀ {i e}, s.cache.Holds i e → latest s.log e.file = some ⟨e.file, e.valid, e.checked⟩

theorem freshWorker_coherent : Coherent freshWorker := by
  have hfree : ∀ {i e}, ¬ freshWorker.cache.Holds i e := by
    rintro i e ⟨he, hlive⟩
    have := List.eq_of_mem_replicate (List.mem_of_getElem? he)
    exact hlive (by rw [this]; rfl)
  exact ⟨by simp [freshWorker], .inl ⟨rfl, by decide⟩, fun h => absurd h hfree, fun h => absurd h hfree,
    fun h => absurd h hfree⟩

/-! ## What a lookup does -/

theorem VerdictEntry.matches_iff {e : VerdictEntry} {path : Bytes} {of : OpenFileInfo} :
    e.matches path of = true ↔ e.valid ≠ .none ∧ e.file = ⟨path, of⟩ := by
  have hpath : e.path.length = path.length ∧ memcmp e.path path = 0 ↔ e.path = path := by
    constructor
    · rintro ⟨hlen, hz⟩
      exact (memcmp_eq_zero hlen).1 hz
    · intro h
      have hlen : e.path.length = path.length := by rw [h]
      exact ⟨hlen, (memcmp_eq_zero hlen).2 h⟩
  cases of
  simp only [VerdictEntry.matches, VerdictEntry.file, Bool.and_eq_true, bne_iff_ne, beq_iff_eq, and_assoc, hpath,
    FileIdent.mk.injEq, OpenFileInfo.mk.injEq]
  tauto

section
variable (path : Bytes) (of : OpenFileInfo) (now : Int) (good_valid : Nat)

/-- A lookup only ever retires entries. -/
theorem scan_verdicts_thins (es : List VerdictEntry) :
    (scan_verdicts path of now good_valid es).2.length = es.length ∧
      ∀ (i : Nat) (e : VerdictEntry), (scan_verdicts path of now good_valid es).2[i]? = some e → e.valid ≠ .none →
        es[i]? = some e := by
  induction es with
  | nil => simp [scan_verdicts]
  | cons e' es ih =>
    obtain ⟨hlen, hkeep⟩ := ih
    unfold scan_verdicts
    split
    · split
      · refine ⟨by simp [hlen], fun i e he hlive => ?_⟩
        cases i with
        | zero =>
          simp only [List.getElem?_cons_zero, Option.some.injEq] at he
          exact absurd (by rw [← he]) hlive
        | succ i => exact hkeep i e (by simpa using he) hlive
      · exact ⟨rfl, fun i e he _ => he⟩
    · refine ⟨by simp [hlen], fun i e he hlive => ?_⟩
      cases i with
      | zero => exact he
      | succ i => exact hkeep i e (by simpa using he) hlive

/-- A lookup that finds nothing leaves no entry of the file. -/
theorem scan_verdicts_none (es : List VerdictEntry) (h : (scan_verdicts path of now good_valid es).1 = .none) :
    ∀ e ∈ (scan_verdicts path of now good_valid es).2, e.matches path of = false := by
  induction es with
  | nil => simp [scan_verdicts]
  | cons e' es ih =>
    unfold scan_verdicts at h ⊢
    split at h
    · next hm =>
      rw [if_pos hm]
      split at h
      · next hs =>
        rw [if_pos hs]
        rintro e (_ | ⟨_, he⟩)
        · simp [VerdictEntry.matches]
        · exact ih h e he
      · exact absurd h (VerdictEntry.matches_iff.1 hm).1
    · next hm =>
      rw [if_neg hm]
      rintro e (_ | ⟨_, he⟩)
      · simpa using hm
      · exact ih h e he

/-- What a lookup answers is the verdict of a fresh entry of the file. -/
theorem scan_verdicts_some (es : List VerdictEntry) (h : (scan_verdicts path of now good_valid es).1 ≠ .none) :
    ∃ (i : Nat) (e : VerdictEntry), es[i]? = some e ∧ e.matches path of = true ∧ e.stale now good_valid = false ∧
      (scan_verdicts path of now good_valid es).1 = e.valid := by
  induction es with
  | nil => simp [scan_verdicts] at h
  | cons e' es ih =>
    have hlater : (scan_verdicts path of now good_valid es).1 ≠ .none →
        ∃ (i : Nat) (e : VerdictEntry), (e' :: es)[i]? = some e ∧ e.matches path of = true ∧
          e.stale now good_valid = false ∧
          (scan_verdicts path of now good_valid es).1 = e.valid := by
      intro hne
      obtain ⟨i, e, he, hrest⟩ := ih hne
      exact ⟨i + 1, e, by simpa using he, hrest⟩
    unfold scan_verdicts at h ⊢
    split at h
    · next hm =>
      rw [if_pos hm]
      split at h
      · next hs => rw [if_pos hs]; exact hlater h
      · next hs =>
        rw [if_neg hs]
        exact ⟨0, e', rfl, hm, by simpa using hs, rfl⟩
    · next hm => rw [if_neg hm]; exact hlater h

/-- A fresh entry of the file is not passed over. -/
theorem scan_verdicts_fresh {es : List VerdictEntry} {e : VerdictEntry} (he : e ∈ es)
    (hm : e.matches path of = true) (hs : e.stale now good_valid = false) :
    (scan_verdicts path of now good_valid es).1 ≠ .none := by
  induction es with
  | nil => cases he
  | cons e' es ih =>
    unfold scan_verdicts
    split
    · next hm' =>
      split
      · next hs' =>
        rcases List.mem_cons.1 he with rfl | he
        · rw [hs] at hs'; cases hs'
        · exact ih he
      · exact (VerdictEntry.matches_iff.1 hm').1
    · next hm' =>
      rcases List.mem_cons.1 he with rfl | he
      · exact absurd hm hm'
      · exact ih he

/-- The live entries behind a lookup were there before. -/
theorem cached_verdict_frame (c : VerdictCache) :
    (cached_verdict c path of now good_valid).2.entries.length = c.entries.length ∧
      (cached_verdict c path of now good_valid).2.next = c.next ∧
      (cached_verdict c path of now good_valid).2.count = c.count ∧
      ∀ {i e}, (cached_verdict c path of now good_valid).2.Holds i e → c.Holds i e := by
  unfold cached_verdict
  split
  · exact ⟨rfl, rfl, rfl, id⟩
  split
  · exact ⟨rfl, rfl, rfl, id⟩
  obtain ⟨hlen, hkeep⟩ := scan_verdicts_thins path of now good_valid (c.entries.take c.count)
  refine ⟨?_, rfl, rfl, ?_⟩
  · rw [List.length_append, hlen, ← List.length_append, List.take_append_drop]
  · rintro i e ⟨he, hlive⟩
    refine ⟨?_, hlive⟩
    dsimp only at he
    by_cases hi : i < (c.entries.take c.count).length
    · rw [List.getElem?_append_left (by rw [hlen]; exact hi)] at he
      have := hkeep i e he hlive
      rw [List.getElem?_take_of_lt (by rw [List.length_take] at hi; omega)] at this
      exact this
    · rw [List.getElem?_append_right (by rw [hlen]; omega), hlen] at he
      rw [List.getElem?_drop, List.length_take] at he
      rw [← he]
      congr 1
      rw [List.length_take] at hi
      have hi' : i < c.entries.length := by
        by_contra hge
        rw [List.getElem?_eq_none (by omega)] at he
        cases he
      omega

end

/-- The entries a lookup goes through. -/
theorem Coherent.mem_counted {s : VerdictState} (h : Coherent s) {i : Nat} {e : VerdictEntry}
    (he : s.cache.Holds i e) : e ∈ s.cache.entries.take s.cache.count := by
  have hi := h.counted he
  exact List.mem_of_getElem? ((List.getElem?_take_of_lt hi).trans he.1)

/-- Behind a lookup that found nothing no entry of the file is live. -/
theorem Coherent.cached_verdict_none {s : VerdictState} (h : Coherent s) {path : Bytes} {of : OpenFileInfo} {now : Int}
    {good_valid : Nat} (hp : path.length < max_path)
    (hnone : (cached_verdict s.cache path of now good_valid).1 = .none) {i : Nat} {e : VerdictEntry}
    (he : (cached_verdict s.cache path of now good_valid).2.Holds i e) : e.file ≠ ⟨path, of⟩ := by
  have hold := (cached_verdict_frame path of now good_valid s.cache).2.2.2 he
  have hi := h.counted hold
  unfold cached_verdict at hnone he
  rw [if_neg (by omega), if_neg (by omega)] at hnone he
  intro hfile
  have hlen := (scan_verdicts_thins path of now good_valid (s.cache.entries.take s.cache.count)).1
  have hslots : i < s.cache.entries.length := by
    by_contra hge
    have := hold.1
    rw [List.getElem?_eq_none (by omega)] at this
    cases this
  have hmem : e ∈ (scan_verdicts path of now good_valid (s.cache.entries.take s.cache.count)).2 := by
    have he := he.1
    rw [List.getElem?_append_left (by rw [hlen, List.length_take]; omega)] at he
    exact List.mem_of_getElem? he
  have := scan_verdicts_none path of now good_valid _ hnone e hmem
  rw [VerdictEntry.matches_iff.2 ⟨he.2, hfile⟩] at this
  cases this

/-- An answer is the verdict of a fresh live entry. -/
theorem cached_verdict_some {c : VerdictCache} {path : Bytes} {of : OpenFileInfo} {now : Int} {good_valid : Nat}
    (h : (cached_verdict c path of now good_valid).1 ≠ .none) :
    ∃ i e, c.Holds i e ∧ e.file = ⟨path, of⟩ ∧ e.stale now good_valid = false ∧
      (cached_verdict c path of now good_valid).1 = e.valid := by
  unfold cached_verdict at h ⊢
  split at h
  · exact absurd rfl h
  next hp =>
  split at h
  · exact absurd rfl h
  next hc =>
  rw [if_neg hp, if_neg hc]
  obtain ⟨i, e, he, hm, hs, hv⟩ := scan_verdicts_some path of now good_valid _ h
  obtain ⟨hlive, hfile⟩ := VerdictEntry.matches_iff.1 hm
  have hc' : c.entries[i]? = some e := by
    rw [List.getElem?_take] at he
    split at he
    · exact he
    · cases he
  exact ⟨i, e, ⟨hc', hlive⟩, hfile, hs, hv⟩

/-! ## What a step does -/

theorem Coherent.lookup {s : VerdictState} (h : Coherent s) (path : Bytes) (of : OpenFileInfo) (now : Int)
    (good_valid : Nat) : Coherent { s with cache := (cached_verdict s.cache path of now good_valid).2 } := by
  obtain ⟨hlen, hnext, hcount, hkeep⟩ := cached_verdict_frame path of now good_valid s.cache
  exact {
    slots := hlen.trans h.slots
    cursor := by dsimp only; rw [hnext, hcount]; exact h.cursor
    counted := fun he => by dsimp only; rw [hcount]; exact h.counted (hkeep he)
    unique := fun he he' => h.unique (hkeep he) (hkeep he')
    recorded := fun he => h.recorded (hkeep he) }

theorem latest_cons (r : Recorded) (log : List Recorded) (file : FileIdent) :
    latest (r :: log) file = if r.file = file then some r else latest log file := by
  simp only [latest, List.find?_cons]
  by_cases hr : r.file = file <;> simp [hr]

/-- The entries behind a recorded verdict: the new one at the cursor, the old ones
elsewhere. -/
theorem remember_holds {c : VerdictCache} {path : Bytes} {of : OpenFileInfo} {verdict : CacheVerdict} {now : Int}
    {good_valid : Nat} (hr : remembers path verdict good_valid = true) {i : Nat} {e : VerdictEntry}
    (he : (remember c path of verdict now good_valid).Holds i e) :
    i = c.next ∧ e = ⟨of.uniq, of.mtime, now, of.size, path, verdict⟩ ∨ i ≠ c.next ∧ c.Holds i e := by
  obtain ⟨he, hlive⟩ := he
  simp only [remember, hr, Bool.not_true, Bool.false_eq_true, if_false] at he
  by_cases hi : i = c.next
  · subst hi
    rw [List.getElem?_set_self'] at he
    obtain ⟨_, -, rfl⟩ := Option.map_eq_some_iff.1 he
    exact .inl ⟨rfl, rfl⟩
  · rw [List.getElem?_set_ne (Ne.symm hi)] at he
    exact .inr ⟨hi, he, hlive⟩

/-- While the ring fills, the slot at the cursor is unused and becomes counted. -/
theorem Coherent.remember_count {s : VerdictState} (h : Coherent s) :
    (if (s.cache.entries.getD s.cache.next emptyEntry).valid = .none ∧ s.cache.count < verdict_cache_slots
      then s.cache.count + 1 else s.cache.count) =
      if s.cache.count < verdict_cache_slots then s.cache.count + 1 else s.cache.count := by
  rcases h.cursor with ⟨hnext, hlt⟩ | ⟨hnext, hfull⟩
  · have hfree : (s.cache.entries.getD s.cache.next emptyEntry).valid = .none := by
      by_contra hlive
      have hi : s.cache.next < s.cache.entries.length := by rw [h.slots]; omega
      have : s.cache.Holds s.cache.next (s.cache.entries.getD s.cache.next emptyEntry) :=
        ⟨by rw [List.getElem?_eq_getElem hi, List.getD_eq_getElem?_getD, List.getElem?_eq_getElem hi, Option.getD_some],
          hlive⟩
      have := h.counted this
      omega
    rw [if_pos ⟨hfree, hlt⟩, if_pos hlt]
  · rw [if_neg (by omega), if_neg (by omega)]

/-- Recording a verdict on a file without a live entry. -/
theorem Coherent.record {s : VerdictState} (h : Coherent s) (v : Visit) (verdict : CacheVerdict)
    (hfree : ∀ {i e}, s.cache.Holds i e → e.file ≠ v.file) : Coherent (record v verdict s) := by
  by_cases hr : remembers v.path verdict v.good_valid = true
  swap
  · have hr : remembers v.path verdict v.good_valid = false := by simpa using hr
    have : NginxZstd.record v verdict s = s := by simp [NginxZstd.record, remember, hr]
    rw [this]
    exact h
  have hlog : (NginxZstd.record v verdict s).log = ⟨v.file, verdict, v.now⟩ :: s.log := by
    simp [NginxZstd.record, hr]
  have hcount : (NginxZstd.record v verdict s).cache.count =
      if s.cache.count < verdict_cache_slots then s.cache.count + 1 else s.cache.count := by
    rw [← h.remember_count]
    simp [NginxZstd.record, remember, hr]
  have hnext : (NginxZstd.record v verdict s).cache.next =
      if s.cache.next + 1 = verdict_cache_slots then 0 else s.cache.next + 1 := by
    simp [NginxZstd.record, remember, hr]
  refine ⟨?_, ?_, ?_, ?_, ?_⟩
  · have := h.slots
    simpa [NginxZstd.record, remember, hr] using this
  · rw [hcount, hnext]
    have := h.cursor
    split <;> split <;> omega
  · intro i e he
    rw [hcount]
    have := h.cursor
    rcases remember_holds hr he with ⟨rfl, -⟩ | ⟨-, he⟩
    · split <;> omega
    · have := h.counted he
      split <;> omega
  · -- the new entry is alone: no live entry of its file was left
    intro i j e e' he he' hfile
    rcases remember_holds hr he with ⟨rfl, rfl⟩ | ⟨-, he⟩
    · rcases remember_holds hr he' with ⟨rfl, -⟩ | ⟨-, he'⟩
      · rfl
      · exact absurd hfile.symm (hfree he')
    · rcases remember_holds hr he' with ⟨rfl, rfl⟩ | ⟨-, he'⟩
      · exact absurd hfile (hfree he)
      · exact h.unique he he' hfile
  · intro i e he
    rw [hlog, latest_cons]
    rcases remember_holds hr he with ⟨-, rfl⟩ | ⟨-, he⟩
    · exact if_pos rfl
    · rw [if_neg (Ne.symm (hfree he))]
      exact h.recorded he

/-- The verdict a probe leaves to be recorded. -/
def ProbeEnd.verdict : ProbeEnd → CacheVerdict
  | .ok => .good
  | .malformed => .bad
  | .failed => .none

/-- The three ways a step goes: the lookup answers, or the probe runs and leaves a
verdict or none. -/
theorem visit_cases {s s' : VerdictState} {v : Visit} (h : visit s v = some s') :
    let looked := cached_verdict s.cache v.path v.of v.now v.good_valid
    (looked.1 ≠ .none ∨ v.probe = .failed) ∧ s' = { s with cache := looked.2 } ∨
      looked.1 = .none ∧ v.probe ≠ .failed ∧ s' = record v v.probe.verdict { s with cache := looked.2 } := by
  simp only [visit] at h
  intro looked
  cases hl : looked.1 with
  | bad => rw [hl] at h; cases h; exact .inl ⟨.inl nofun, rfl⟩
  | good => rw [hl] at h; cases h; exact .inl ⟨.inl nofun, rfl⟩
  | none =>
    rw [hl] at h
    cases hp : v.probe with
    | ok => rw [hp] at h; cases h; exact .inr ⟨rfl, nofun, rfl⟩
    | malformed => rw [hp] at h; cases h; exact .inr ⟨rfl, nofun, rfl⟩
    | failed => rw [hp] at h; cases h; exact .inl ⟨.inr rfl, rfl⟩

theorem Coherent.visit {s s' : VerdictState} {v : Visit} (h : Coherent s) (hv : visit s v = some s') :
    Coherent s' := by
  have hlook := h.lookup v.path v.of v.now v.good_valid
  rcases visit_cases hv with ⟨-, rfl⟩ | ⟨hnone, -, rfl⟩
  · exact hlook
  by_cases hp : v.path.length < max_path
  · exact hlook.record v v.probe.verdict fun he => h.cached_verdict_none hp hnone he
  · -- an overlong path is not recorded
    have hr : remembers v.path v.probe.verdict v.good_valid = false := by
      simp [remembers, show v.path.length ≥ max_path by omega]
    simp only [NginxZstd.record, remember, hr, Bool.not_false, if_true, Bool.false_eq_true, if_false]
    exact hlook

theorem coherent_of_reaches {s : VerdictState} (h : Reaches visit Any freshWorker s) : Coherent s :=
  h.invariant Coherent freshWorker_coherent fun _ _ _ hc _ hv => hc.visit hv

theorem remembers_path {path : Bytes} {verdict : CacheVerdict} {good_valid : Nat}
    (h : remembers path verdict good_valid = true) : path.length < max_path := by
  simp [remembers] at h
  omega

/-- What is recorded is not stale at the time it is recorded. -/
theorem fresh_of_remembers {path : Bytes} {verdict : CacheVerdict} {good_valid : Nat}
    (h : remembers path verdict good_valid = true) (of : OpenFileInfo) (now : Int) :
    VerdictEntry.stale ⟨of.uniq, of.mtime, now, of.size, path, verdict⟩ now good_valid = false := by
  simp only [remembers, Bool.not_or, Bool.and_eq_true, Bool.not_eq_true', Bool.and_eq_false_iff] at h
  simp only [VerdictEntry.stale, Bool.and_eq_false_iff, Bool.or_eq_false_iff]
  rcases h.2 with hb | hg
  · exact .inl hb
  · refine .inr ⟨⟨hg, by simp⟩, ?_⟩
    have : good_valid ≠ 0 := by simpa using hg
    simp
    omega

/-- A verdict just recorded is the answer to the next lookup. -/
theorem Coherent.answers_recorded {s s' : VerdictState} {v : Visit} (h : Coherent s) (hv : NginxZstd.visit s v = some s')
    (hnone : (cached_verdict s.cache v.path v.of v.now v.good_valid).1 = .none) (hprobe : v.probe ≠ .failed)
    (hr : remembers v.path v.probe.verdict v.good_valid = true) :
    (cached_verdict s'.cache v.path v.of v.now v.good_valid).1 = v.probe.verdict := by
  have hs' := h.visit hv
  have hverdict : v.probe.verdict ≠ .none := by cases hq : v.probe <;> simp_all [ProbeEnd.verdict]
  -- the new entry is live, of the file, and fresh
  have hnew : s'.cache.Holds s.cache.next ⟨v.of.uniq, v.of.mtime, v.now, v.of.size, v.path, v.probe.verdict⟩ := by
    rcases visit_cases hv with ⟨hor, -⟩ | ⟨-, -, rfl⟩
    · exact (hor.elim (absurd hnone) (absurd · hprobe))
    · have hlook := h.lookup v.path v.of v.now v.good_valid
      have hnext := (cached_verdict_frame v.path v.of v.now v.good_valid s.cache).2.1
      refine ⟨?_, hverdict⟩
      have hlt : s.cache.next < (cached_verdict s.cache v.path v.of v.now v.good_valid).2.entries.length := by
        rw [hlook.slots]
        have := h.cursor
        omega
      simp [NginxZstd.record, remember, hr, hnext, List.getElem?_set_self hlt]
  have hp := remembers_path hr
  have hans : (cached_verdict s'.cache v.path v.of v.now v.good_valid).1 ≠ .none := by
    have hcount : s'.cache.count ≠ 0 := by have := hs'.counted hnew; omega
    unfold cached_verdict
    rw [if_neg (by omega), if_neg hcount]
    exact scan_verdicts_fresh _ _ _ _ (hs'.mem_counted hnew) (VerdictEntry.matches_iff.2 ⟨hverdict, rfl⟩)
      (fresh_of_remembers hr v.of v.now)
  obtain ⟨i, e, he, hfile, -, hval⟩ := cached_verdict_some hans
  have hi := hs'.unique he hnew hfile
  subst hi
  have := he.1.symm.trans hnew.1
  simp only [Option.some.injEq] at this
  rw [hval, this]

/-- After any sequence of handler steps: one live entry a file at most, each within
the counted slots; what a lookup answers is the latest verdict recorded for that
file, and a good one is within its time; and a verdict just recorded is found. -/
theorem verdict_cache_coherent {s : VerdictState} (h : Reaches visit Any freshWorker s) :
    (∀ {i j e e'}, s.cache.Holds i e → s.cache.Holds j e' → e.file = e'.file → i = j) ∧
    (∀ {i e}, s.cache.Holds i e → i < s.cache.count) ∧
    (∀ path of now good_valid, (cached_verdict s.cache path of now good_valid).1 = .good →
      ∃ t, latest s.log ⟨path, of⟩ = some ⟨⟨path, of⟩, .good, t⟩ ∧ t ≤ now ∧ now < t + good_valid) ∧
    (∀ path of now good_valid, (cached_verdict s.cache path of now good_valid).1 = .bad →
      ∃ t, latest s.log ⟨path, of⟩ = some ⟨⟨path, of⟩, .bad, t⟩) ∧
    ∀ v s', visit s v = some s' → (cached_verdict s.cache v.path v.of v.now v.good_valid).1 = .none →
      v.probe ≠ .failed → v.path.length < max_path → ¬ (v.probe = .ok ∧ v.good_valid = 0) →
      (cached_verdict s'.cache v.path v.of v.now v.good_valid).1 = v.probe.verdict := by
  have hc := coherent_of_reaches h
  refine ⟨hc.unique, hc.counted, ?_, ?_, ?_⟩
  · intro path of now good_valid hgood
    obtain ⟨i, e, he, hfile, hfresh, hval⟩ := cached_verdict_some (by rw [hgood]; nofun)
    have hvalid : e.valid = .good := hval.symm.trans hgood
    refine ⟨e.checked, ?_, ?_⟩
    · rw [← hfile, ← hvalid]
      exact hc.recorded he
    · simp only [VerdictEntry.stale, hvalid, beq_self_eq_true, Bool.true_and, Bool.or_eq_false_iff,
        decide_eq_false_iff_not] at hfresh
      omega
  · intro path of now good_valid hbad
    obtain ⟨i, e, he, hfile, -, hval⟩ := cached_verdict_some (by rw [hbad]; nofun)
    have hvalid : e.valid = .bad := hval.symm.trans hbad
    refine ⟨e.checked, ?_⟩
    rw [← hfile, ← hvalid]
    exact hc.recorded he
  · intro v s' hv hnone hprobe hp hgood
    refine hc.answers_recorded hv hnone hprobe ?_
    cases hq : v.probe with
    | failed => exact absurd hq hprobe
    | malformed => simp [remembers, ProbeEnd.verdict, show ¬ v.path.length ≥ max_path by omega]
    | ok =>
      have : v.good_valid ≠ 0 := fun h0 => hgood ⟨hq, h0⟩
      simp [remembers, ProbeEnd.verdict, show ¬ v.path.length ≥ max_path by omega, this]

/-- A good verdict, a step back of the clock, and a location that does not cache good
verdicts. -/
def sampleVisits : List Visit :=
  let of : OpenFileInfo := ⟨7, 100, 5000⟩
  [⟨str "/a.zst", of, 1000, 60, .ok⟩, ⟨str "/b.zst", of, 1001, 0, .malformed⟩, ⟨str "/a.zst", of, 990, 60, .ok⟩,
    ⟨str "/a.zst", of, 1020, 0, .ok⟩]

theorem verdict_cache_coherent_sample :
    ∃ s, run visit freshWorker sampleVisits = some s ∧ s.cache.count = 3 ∧
      (∀ {i e}, s.cache.Holds i e → i < s.cache.count) := by
  have hrun : run visit freshWorker sampleVisits = some ((run visit freshWorker sampleVisits).getD freshWorker) := by rfl
  exact ⟨_, hrun, by decide +kernel, (verdict_cache_coherent (reaches_of_run hrun (meets_any _ _))).2.1⟩

end NginxZstd
