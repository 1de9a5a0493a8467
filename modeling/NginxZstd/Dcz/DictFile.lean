import NginxZstd.Conf
/-!
# `zstd_dcz_dict_file`

One directive loads one dictionary: the literal is checked before the file is
opened, the file is read whole, the key is the literal or the SHA-256 of the
bytes, and a key already in the block's array is refused. The file system, the
digest and the allocator are given by a `Loader`.
-/

namespace NginxZstd

open Lib

/-- `NGX_HTTP_ZSTD_MAX_DICT_SIZE`. -/
def max_dict_size : Nat := 10 * 1024 * 1024

/-- A configuration error, with what its message prints. -/
inductive ConfError where
  | full_name (path : Bytes)
  | hash_length (literal : Bytes)
  | hash_nonhex (literal : Bytes)
  | no_memory
  | open_failed (path : Bytes)
  | empty (path : Bytes)
  | too_large (path : Bytes) (size : Nat)
  | read_failed (path : Bytes)
  | close_failed (path : Bytes)
  | hash_mismatch (path literal : Bytes) (hash : Digest)
  | same_hash (path other : Bytes)
  | not_allowed_here
  | is_duplicate
  | strict_after (path : Bytes)
  | trust_after (path : Bytes)
deriving DecidableEq

/-- An opened dictionary file: the size `fstat` reported and what reading that many
bytes gives, `none` for an error or an early end of file. -/
structure DictFd where
  size : Nat
  read : Option Bytes
  close : Bool
  read_size : ∀ b, read = some b → b.length = size

/-- What a load takes from outside: path completion, the digest, the two ways to
open a file, and the allocator. -/
structure Loader where
  full_name : Bytes → Option Bytes
  sha256 : Bytes → Digest
  open_dict_file : (path : Bytes) → (strict : Bool) → Option DictFd
  palloc : (size : Nat) → Bool
  array_create : Bool
  array_push : (nelts : Nat) → Bool

/-- The dictionary flags of `ngx_http_zstd_main_conf_t`. A flag is `none` while it
reads `NGX_CONF_UNSET`; the two ordering records hold the first path. -/
structure DictFlags where
  dict_strict_path : Option Bool
  dcz_dict_loaded_before_strict_on : Option Bytes
  dcz_dict_trust_hashes : Option Bool
  dcz_dict_verified_before_trust_on : Option Bytes
  dcz_dicts_hashed : Nat

/-- `ngx_http_zstd_create_main_conf`. -/
def create_main_conf : DictFlags := ⟨none, none, none, none, 0⟩

/-- A load that succeeded: how the file was opened, the literal of its line, and
the entry it pushed. -/
structure Load where
  strict : Bool
  literal : Option Digest
  dict : DczDict

/-! ## The hash literal -/

/-- `ngx_http_zstd_hex_nibble`. -/
def hex_nibble (c : UInt8) : UInt8 :=
  if c ≥ 0x30 ∧ c ≤ 0x39 then c - 0x30
  else
    let lower := c ||| 0x20
    if lower ≥ 0x61 ∧ lower ≤ 0x66 then lower - 0x61 + 10 else 0xff

/-- The loop over the 32 pairs of hex characters. -/
def hex_pairs : Bytes → Option Bytes
  | c :: c' :: rest =>
    let hi := hex_nibble c
    let lo := hex_nibble c'
    if hi = 0xff ∨ lo = 0xff then none else (hex_pairs rest).map ((hi <<< 4 ||| lo) :: ·)
  | _ => some []

theorem hex_pairs_length : ∀ {v b : Bytes}, hex_pairs v = some b → b.length = v.length / 2
  | [], b, h | [_], b, h => by cases h; simp
  | _ :: _ :: rest, b, h => by
    simp only [hex_pairs] at h
    split at h
    · cases h
    · obtain ⟨b', hb, rfl⟩ := Option.map_eq_some_iff.1 h
      have := hex_pairs_length hb
      simp only [List.length_cons]
      omega

theorem digest_length {literal b : Bytes} (hlen : ¬literal.length ≠ 64) (hp : hex_pairs literal = some b) : b.length = 32 := by
  rw [hex_pairs_length hp]
  omega

/-- The second argument of the directive, decoded. -/
def parse_literal (literal : Bytes) : Except ConfError Digest :=
  if hlen : literal.length ≠ 64 then .error (.hash_length literal)
  else
    match hp : hex_pairs literal with
    | none => .error (.hash_nonhex literal)
    | some b => .ok ⟨b, digest_length hlen hp⟩

/-! ## The directive -/

/-- The 40-byte skippable-frame prefix: magic `0x184D2A5E`, length 32, the hash. -/
def frame_header (hash : Digest) : Bytes := [0x5e, 0x2a, 0x4d, 0x18, 0x20, 0x00, 0x00, 0x00] ++ hash.1

/-- The two ordering records, made before the file is opened. -/
def note_order (zmcf : DictFlags) (path : Bytes) (have_hash : Bool) : DictFlags :=
  let strict := zmcf.dict_strict_path == some true
  let trust := zmcf.dcz_dict_trust_hashes == some true
  { zmcf with
    dcz_dict_loaded_before_strict_on :=
      if ¬ strict ∧ zmcf.dcz_dict_loaded_before_strict_on = none then some path
      else zmcf.dcz_dict_loaded_before_strict_on
    dcz_dict_verified_before_trust_on :=
      if have_hash ∧ ¬ trust ∧ zmcf.dcz_dict_verified_before_trust_on = none then some path
      else zmcf.dcz_dict_verified_before_trust_on }

/-- Open, size and read the file. -/
def read_dict (L : Loader) (path : Bytes) (strict : Bool) : Except ConfError Bytes :=
  match L.open_dict_file path strict with
  | none => .error (.open_failed path)
  | some fd =>
    if fd.size = 0 then .error (.empty path)
    else if fd.size > max_dict_size then .error (.too_large path fd.size)
    else if ¬ L.palloc fd.size then .error .no_memory
    else
      match fd.read with
      | none => .error (.read_failed path)
      | some bytes => if fd.close then .ok bytes else .error (.close_failed path)

/-- The negotiation key and the hash counter afterwards. -/
def dict_key (L : Loader) (zmcf : DictFlags) (path bytes : Bytes) (literal : Bytes) (supplied : Option Digest) :
    Except ConfError (Digest × Nat) :=
  match supplied, zmcf.dcz_dict_trust_hashes == some true with
  | some hash, true => .ok (hash, zmcf.dcz_dicts_hashed)
  | some supplied, false =>
    let hash := L.sha256 bytes
    if memcmp supplied.1 hash.1 ≠ 0 then .error (.hash_mismatch path literal hash)
    else .ok (hash, zmcf.dcz_dicts_hashed + 1)
  | none, _ => .ok (L.sha256 bytes, zmcf.dcz_dicts_hashed + 1)

/-- The duplicate check and the push. -/
def push_dict (L : Loader) (dicts : List DczDict) (path bytes : Bytes) (hash : Digest) :
    Except ConfError DczDict :=
  match dicts.find? fun d => memcmp d.hash.1 hash.1 = 0 with
  | some d => .error (.same_hash path d.file)
  | none =>
    if L.array_push dicts.length then
      .ok { file := path, bytes := bytes, hash := hash, cdicts := none, frame_header := frame_header hash }
    else .error .no_memory

/-- The decoded literal of a line, if it has one. -/
def supplied_hash : Option Bytes → Except ConfError (Option Digest)
  | none => .ok none
  | some literal => (parse_literal literal).map some

/-- `ngx_http_zstd_dcz_dict_file` with `zlcf->dcz_dicts` as it finds it. -/
def dcz_dict_file (L : Loader) (zmcf : DictFlags) (dcz_dicts : Option (List DczDict)) (arg : Bytes)
    (literal : Option Bytes) : Except ConfError (DictFlags × List DczDict × Load) := do
  let some path := L.full_name arg | throw (.full_name arg)
  let supplied ← supplied_hash literal
  if dcz_dicts = none ∧ ¬ L.array_create then throw .no_memory
  let dicts := dcz_dicts.getD []
  let strict := zmcf.dict_strict_path == some true
  let zmcf := note_order zmcf path supplied.isSome
  let bytes ← read_dict L path strict
  let (hash, hashed) ← dict_key L zmcf path bytes (literal.getD []) supplied
  let dict ← push_dict L dicts path bytes hash
  return ({ zmcf with dcz_dicts_hashed := hashed }, dicts ++ [dict], ⟨strict, supplied, dict⟩)

/-! ## What a successful line did -/

/-- One entry is added, under a key the array did not have. -/
theorem push_dict_spec {L : Loader} {dicts : List DczDict} {path bytes : Bytes} {hash : Digest} {d : DczDict}
    (h : push_dict L dicts path bytes hash = .ok d) :
    d = ⟨path, bytes, hash, none, frame_header hash⟩ ∧ ∀ e ∈ dicts, e.hash ≠ hash := by
  unfold push_dict at h
  split at h
  · cases h
  · next hf =>
    split at h
    · cases h
      refine ⟨rfl, fun e he heq => ?_⟩
      have := List.find?_eq_none.1 hf e he
      simp only [decide_eq_true_eq] at this
      exact this ((memcmp_comparator 32).zero.2 heq)
    · cases h

/-- The key is a trusted literal, or it was computed and agrees with the literal. -/
theorem dict_key_cases {L : Loader} {zmcf : DictFlags} {path bytes literal : Bytes} {supplied : Option Digest}
    {hash : Digest} {hashed : Nat} (h : dict_key L zmcf path bytes literal supplied = .ok (hash, hashed)) :
    (supplied = some hash ∧ zmcf.dcz_dict_trust_hashes = some true ∧ hashed = zmcf.dcz_dicts_hashed) ∨
      (hash = L.sha256 bytes ∧ hashed = zmcf.dcz_dicts_hashed + 1 ∧
        (supplied = none ∨ (supplied = some hash ∧ zmcf.dcz_dict_trust_hashes ≠ some true))) := by
  unfold dict_key at h
  split at h
  · next ht =>
    cases h
    exact .inl ⟨rfl, by simpa using ht, rfl⟩
  · next given ht =>
    dsimp only at h
    split at h
    · cases h
    · next hm =>
      cases h
      rw [not_not] at hm
      refine .inr ⟨rfl, rfl, .inr ⟨?_, by simpa using ht⟩⟩
      rw [(memcmp_comparator 32).zero.1 hm]
  · cases h
    exact .inr ⟨rfl, rfl, .inl rfl⟩

/-- The steps of a line that succeeds. -/
theorem dcz_dict_file_cases {L : Loader} {zmcf zmcf' : DictFlags} {own : Option (List DczDict)} {arg : Bytes}
    {literal : Option Bytes} {dicts : List DczDict} {load : Load}
    (h : dcz_dict_file L zmcf own arg literal = .ok (zmcf', dicts, load)) :
    ∃ path bytes hash hashed, L.full_name arg = some path ∧ supplied_hash literal = .ok load.literal ∧
      load.strict = (zmcf.dict_strict_path == some true) ∧ read_dict L path load.strict = .ok bytes ∧
      dict_key L (note_order zmcf path load.literal.isSome) path bytes (literal.getD []) load.literal =
        .ok (hash, hashed) ∧
      push_dict L (own.getD []) path bytes hash = .ok load.dict ∧ dicts = own.getD [] ++ [load.dict] ∧
      zmcf' = { note_order zmcf path load.literal.isSome with dcz_dicts_hashed := hashed } := by
  unfold dcz_dict_file at h
  split at h
  swap
  · cases h
  next path hpath =>
  obtain ⟨supplied, hs, h⟩ := bind_ok h
  split at h
  · cases h
  obtain ⟨bytes, hb, h⟩ := bind_ok h
  obtain ⟨⟨hash, hashed⟩, hk, h⟩ := bind_ok h
  obtain ⟨d, hd, h⟩ := bind_ok h
  cases h
  exact ⟨path, bytes, hash, hashed, hpath, hs, rfl, hb, hk, hd, rfl, rfl⟩

/-- What a line adds to the array of its block. -/
theorem dcz_dict_file_spec {L : Loader} {zmcf zmcf' : DictFlags} {own : Option (List DczDict)} {arg : Bytes}
    {literal : Option Bytes} {dicts : List DczDict} {load : Load}
    (h : dcz_dict_file L zmcf own arg literal = .ok (zmcf', dicts, load)) :
    dicts = own.getD [] ++ [load.dict] ∧ ∀ e ∈ own.getD [], e.hash ≠ load.dict.hash := by
  obtain ⟨path, bytes, hash, hashed, -, -, -, -, -, hd, rfl, -⟩ := dcz_dict_file_cases h
  obtain ⟨he, hnew⟩ := push_dict_spec hd
  exact ⟨rfl, fun e hin => by rw [he]; exact hnew e hin⟩

end NginxZstd
