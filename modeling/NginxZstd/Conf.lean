import NginxZstd.Nginx
/-!
# Configuration

The dictionaries and the per-location configuration, as they stand after the
configuration has been loaded.
-/

namespace NginxZstd

open Lib

/-- `NGX_CONF_UNSET`. -/
def conf_unset : Int := -1

/-- A SHA-256 digest, `NGX_HTTP_ZSTD_SHA256_DIGEST_LEN` bytes. -/
abbrev Digest := Block 32

/-- A digest of zero bytes. -/
def zeroDigest : Digest := ⟨List.replicate 32 0, rfl⟩

/-- A `ZSTD_CDict` handle. -/
abbrev CDict := Nat

/-- `ngx_http_zstd_dcz_cdict_entry_t`. -/
structure DczCdictEntry where
  level : Int
  window_log : Int
  dict : CDict
deriving DecidableEq

/-- `ngx_http_zstd_dcz_dict_t`. `cdicts` is `none` until the first location that
uses the dictionary is merged. -/
structure DczDict where
  file : Bytes
  bytes : Bytes
  hash : Digest
  cdicts : Option (List DczCdictEntry)
  frame_header : Bytes
deriving DecidableEq

/-- `ngx_bufs_t`. -/
structure Bufs where
  num : Nat
  size : Nat

/-- `ngx_http_zstd_loc_conf_t`, merged. `none` stands for the NULL pointers and
for `max_length` left unset; `types` is `none` for `zstd_types *`. A `bypass`
predicate is the value its script evaluates to, if it can be evaluated;
`bypass_vary` is a field-name token, which its directive checks. -/
structure LocConf where
  enable : Bool
  level : Int
  min_length : Int
  max_length : Option Int
  target_cblock_size : Int
  window_log : Int
  long_mode : Bool
  dcz_window_cap : Int
  bypass : Option (List (Request → Option Bytes))
  bypass_vary : Option Token
  types : Option (List Bytes)
  bufs : Bufs
  dict : Option CDict
  dcz_dicts : Option (List DczDict)
  dcz_assume_secure : Bool

end NginxZstd
