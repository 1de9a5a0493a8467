import Mathlib.Data.List.GetD
import NginxZstd.Lib.Sha256
/-!
# The bundled SHA-256

The hash dictionaries are keyed by where libcrypto is not there to compute it: an
incremental implementation with a block of 64 pending bytes. However a message is cut
into updates, the digest is that of FIPS 180-4, and no write leaves the block.
-/

namespace NginxZstd

open Lib

/-! ## The implementation -/

/-- `ngx_http_zstd_sha256_t`. -/
structure Sha256Ctx where
  state : Vector UInt32 8
  total : UInt64
  block : Block 64
  block_len : Nat

def sha256_k : List UInt32 :=
  [0x428a2f98, 0x71374491, 0xb5c0fbcf, 0xe9b5dba5, 0x3956c25b, 0x59f111f1, 0x923f82a4, 0xab1c5ed5,
    0xd807aa98, 0x12835b01, 0x243185be, 0x550c7dc3, 0x72be5d74, 0x80deb1fe, 0x9bdc06a7, 0xc19bf174,
    0xe49b69c1, 0xefbe4786, 0x0fc19dc6, 0x240ca1cc, 0x2de92c6f, 0x4a7484aa, 0x5cb0a9dc, 0x76f988da,
    0x983e5152, 0xa831c66d, 0xb00327c8, 0xbf597fc7, 0xc6e00bf3, 0xd5a79147, 0x06ca6351, 0x14292967,
    0x27b70a85, 0x2e1b2138, 0x4d2c6dfc, 0x53380d13, 0x650a7354, 0x766a0abb, 0x81c2c92e, 0x92722c85,
    0xa2bfe8a1, 0xa81a664b, 0xc24b8b70, 0xc76c51a3, 0xd192e819, 0xd6990624, 0xf40e3585, 0x106aa070,
    0x19a4c116, 0x1e376c08, 0x2748774c, 0x34b0bcb5, 0x391c0cb3, 0x4ed8aa4a, 0x5b9cca4f, 0x682e6ff3,
    0x748f82ee, 0x78a5636f, 0x84c87814, 0x8cc70208, 0x90befffa, 0xa4506ceb, 0xbef9a3f7, 0xc67178f2]

/-- `ngx_http_zstd_rotr`. -/
def rotr (x n : UInt32) : UInt32 := (x >>> n) ||| (x <<< (32 - n))

/-- `w[i]` for the words of the block itself. -/
def sha256_word (p : Bytes) (i : Nat) : UInt32 :=
  (p.getD (i * 4) 0).toUInt32 <<< 24 ||| (p.getD (i * 4 + 1) 0).toUInt32 <<< 16 |||
    (p.getD (i * 4 + 2) 0).toUInt32 <<< 8 ||| (p.getD (i * 4 + 3) 0).toUInt32

/-- `w[i]` for the words that follow from those in front. -/
def sha256_extend (w : List UInt32) (i : Nat) : List UInt32 :=
  let s0 := rotr (w.getD (i - 15) 0) 7 ^^^ rotr (w.getD (i - 15) 0) 18 ^^^ w.getD (i - 15) 0 >>> 3
  let s1 := rotr (w.getD (i - 2) 0) 17 ^^^ rotr (w.getD (i - 2) 0) 19 ^^^ w.getD (i - 2) 0 >>> 10
  w ++ [w.getD (i - 16) 0 + s0 + w.getD (i - 7) 0 + s1]

def sha256_schedule (p : Bytes) : List UInt32 :=
  (List.range' 16 48).foldl sha256_extend ((List.range 16).map (sha256_word p))

/-- One turn of the loop over the working variables; `c` is `cc`. -/
def sha256_round (w : List UInt32) (r : Sha256.Registers UInt32) (i : Nat) : Sha256.Registers UInt32 :=
  let s1 := rotr r.e 6 ^^^ rotr r.e 11 ^^^ rotr r.e 25
  let ch := (r.e &&& r.f) ^^^ (~~~r.e &&& r.g)
  let t1 := r.h + s1 + ch + sha256_k.getD i 0 + w.getD i 0
  let s0 := rotr r.a 2 ^^^ rotr r.a 13 ^^^ rotr r.a 22
  let maj := (r.a &&& r.b) ^^^ (r.a &&& r.c) ^^^ (r.b &&& r.c)
  { h := r.g, g := r.f, f := r.e, e := r.d + t1, d := r.c, c := r.b, b := r.a, a := t1 + s0 + maj }

def sha256_registers (state : Vector UInt32 8) : Sha256.Registers UInt32 :=
  ⟨state[0], state[1], state[2], state[3], state[4], state[5], state[6], state[7]⟩

/-- The state `ngx_http_zstd_sha256_compress` leaves. -/
def sha256_next (state : Vector UInt32 8) (p : Bytes) : Vector UInt32 8 :=
  let r := (List.range 64).foldl (sha256_round (sha256_schedule p)) (sha256_registers state)
  #v[state[0] + r.a, state[1] + r.b, state[2] + r.c, state[3] + r.d, state[4] + r.e, state[5] + r.f, state[6] + r.g,
    state[7] + r.h]

/-- `ngx_http_zstd_sha256_compress`, which reads 64 bytes at `p`. -/
def sha256_compress (c : Sha256Ctx) (p : Bytes) : Option Sha256Ctx :=
  if p.length < 64 then none else some { c with state := sha256_next c.state p }

/-- `ngx_http_zstd_sha256_init`. What the block holds stays. -/
def sha256_init (c : Sha256Ctx) : Sha256Ctx :=
  { c with
    state := #v[0x6a09e667, 0xbb67ae85, 0x3c6ef372, 0xa54ff53a, 0x510e527f, 0x9b05688c, 0x1f83d9ab, 0x5be0cd19]
    total := 0
    block_len := 0 }

/-- A write to `block + off`, which has to stay in the block. -/
def block_write (b : Block 64) (off : Nat) (src : Bytes) : Option (Block 64) :=
  if h : off + src.length ≤ 64 then
    some ⟨b.1.take off ++ src ++ b.1.drop (off + src.length), by
      have := b.2
      simp only [List.length_append, List.length_take, List.length_drop]
      omega⟩
  else none

/-- A subtraction of sizes, which must not wrap. -/
def size_sub (a b : Nat) : Option Nat := if b ≤ a then some (a - b) else none

/-- `while (len >= 64)`. -/
def sha256_blocks (c : Sha256Ctx) (data : Bytes) : Option (Sha256Ctx × Bytes) :=
  if 64 ≤ data.length then
    match sha256_compress c data with
    | none => none
    | some c => sha256_blocks c (data.drop 64)
  else some (c, data)
termination_by data.length
decreasing_by
  rw [List.length_drop]
  omega

/-- `ngx_http_zstd_sha256_update` with no bytes pending. -/
def sha256_update_empty (c : Sha256Ctx) (data : Bytes) : Option Sha256Ctx := do
  let (c, data) ← sha256_blocks c data
  if data.length ≠ 0 then
    let block ← block_write c.block 0 data
    return { c with block, block_len := data.length }
  else return c

/-- `ngx_http_zstd_sha256_update`. -/
def sha256_update (c : Sha256Ctx) (data : Bytes) : Option Sha256Ctx := do
  let c := { c with total := c.total + UInt64.ofNat data.length }
  if c.block_len ≠ 0 then
    let room ← size_sub 64 c.block_len
    let n := if room > data.length then data.length else room
    let block ← block_write c.block c.block_len (data.take n)
    let c := { c with block, block_len := c.block_len + n }
    if c.block_len < 64 then return c
    let c ← sha256_compress c c.block.1
    sha256_update_empty { c with block_len := 0 } (data.drop n)
  else sha256_update_empty c data

/-- The block that the padding does not fit in. -/
def sha256_overflow (c : Sha256Ctx) : Option Sha256Ctx := do
  if c.block_len > 56 then
    let room ← size_sub 64 c.block_len
    let block ← block_write c.block c.block_len (List.replicate room 0)
    let c ← sha256_compress { c with block } block.1
    return { c with block_len := 0 }
  else return c

/-- `ngx_http_zstd_sha256_final`. -/
def sha256_final (c : Sha256Ctx) : Option Bytes := do
  let bits := c.total * 8
  let block ← block_write c.block c.block_len [0x80]
  let c ← sha256_overflow { c with block, block_len := c.block_len + 1 }
  let room ← size_sub 56 c.block_len
  let block ← block_write c.block c.block_len (List.replicate room 0)
  let block ← block_write block 56 ((List.range 8).map fun i => (bits >>> UInt64.ofNat (56 - i * 8)).toUInt8)
  let c ← sha256_compress { c with block } block.1
  return (sha256_registers c.state).toList.flatMap fun (x : UInt32) =>
    [(x >>> 24).toUInt8, (x >>> 16).toUInt8, (x >>> 8).toUInt8, x.toUInt8]

/-- A message in consecutive updates. -/
def sha256_updates (c : Sha256Ctx) (chunks : List Bytes) : Option Sha256Ctx := chunks.foldlM sha256_update c

/-- A message from `init` to `final`. -/
def sha256_digest (c : Sha256Ctx) (chunks : List Bytes) : Option Bytes := do
  let c ← sha256_updates (sha256_init c) chunks
  sha256_final c

/-! ## Words -/

theorem rotr_toBitVec (x : UInt32) {n : UInt32} (h0 : 0 < n.toNat) (hn : n.toNat < 32) :
    (rotr x n).toBitVec = x.toBitVec.rotateRight n.toNat := by
  have hr : (n.toBitVec % 32#32).toNat = n.toNat := by
    rw [BitVec.toNat_umod]
    exact Nat.mod_eq_of_lt hn
  have hl : ((32 - n).toBitVec % 32#32).toNat = 32 - n.toNat := by
    have hle : n ≤ 32 := UInt32.le_iff_toNat_le.2 (Nat.le_of_lt hn)
    have hsub : (32 - n).toNat = 32 - n.toNat := UInt32.toNat_sub_of_le _ _ hle
    rw [BitVec.toNat_umod]
    show (32 - n).toNat % 32 = _
    rw [hsub, Nat.mod_eq_of_lt (by omega)]
  rw [BitVec.rotateRight_def, Nat.mod_eq_of_lt hn, rotr, UInt32.toBitVec_or, UInt32.toBitVec_shiftRight,
    UInt32.toBitVec_shiftLeft, BitVec.ushiftRight_eq', BitVec.shiftLeft_eq']
  exact congrArg₂ (fun i j => x.toBitVec >>> i ||| x.toBitVec <<< j) hr hl

section
variable (x : UInt32)

theorem smallSigma0_eq : (rotr x 7 ^^^ rotr x 18 ^^^ x >>> 3).toBitVec = Sha256.smallSigma0 x.toBitVec := by
  simp (disch := decide) only [UInt32.toBitVec_xor, rotr_toBitVec]
  rfl

theorem smallSigma1_eq : (rotr x 17 ^^^ rotr x 19 ^^^ x >>> 10).toBitVec = Sha256.smallSigma1 x.toBitVec := by
  simp (disch := decide) only [UInt32.toBitVec_xor, rotr_toBitVec]
  rfl

theorem bigSigma0_eq : (rotr x 2 ^^^ rotr x 13 ^^^ rotr x 22).toBitVec = Sha256.bigSigma0 x.toBitVec := by
  simp (disch := decide) only [UInt32.toBitVec_xor, rotr_toBitVec]
  rfl

theorem bigSigma1_eq : (rotr x 6 ^^^ rotr x 11 ^^^ rotr x 25).toBitVec = Sha256.bigSigma1 x.toBitVec := by
  simp (disch := decide) only [UInt32.toBitVec_xor, rotr_toBitVec]
  rfl

end

/-- Bytes that are shifted into place do not overlap. -/
theorem sha256_word_bytes (b0 b1 b2 b3 : UInt8) :
    (b0.toUInt32 <<< 24 ||| b1.toUInt32 <<< 16 ||| b2.toUInt32 <<< 8 ||| b3.toUInt32).toBitVec =
      BitVec.ofNat 32 (Sha256.ofBits (Sha256.ofBytes [b0, b1, b2, b3])) := by
  have h0 := b0.toNat_lt
  have h1 := b1.toNat_lt
  have h2 := b2.toNat_lt
  have h3 := b3.toNat_lt
  have hvalue : Sha256.ofBits (Sha256.ofBytes [b0, b1, b2, b3]) =
      b0.toNat <<< 24 + (b1.toNat <<< 16 + (b2.toNat <<< 8 + b3.toNat)) := by
    simp only [Sha256.ofBytes_cons, Sha256.ofBytes_nil, List.append_nil, Sha256.ofBits_append, Sha256.ofBits_bits,
      List.length_append, Sha256.bits_length, Nat.shiftLeft_eq]
    omega
  have hor : b0.toNat <<< 24 ||| b1.toNat <<< 16 ||| b2.toNat <<< 8 ||| b3.toNat =
      b0.toNat <<< 24 + (b1.toNat <<< 16 + (b2.toNat <<< 8 + b3.toNat)) := by
    rw [Nat.or_assoc, Nat.or_assoc, ← Nat.shiftLeft_add_eq_or_of_lt (show b3.toNat < 2 ^ 8 from h3),
      ← Nat.shiftLeft_add_eq_or_of_lt (show b2.toNat <<< 8 + b3.toNat < 2 ^ 16 by rw [Nat.shiftLeft_eq]; omega),
      ← Nat.shiftLeft_add_eq_or_of_lt (show b1.toNat <<< 16 + (b2.toNat <<< 8 + b3.toNat) < 2 ^ 24 by
        simp only [Nat.shiftLeft_eq]; omega)]
  rw [hvalue, ← hor]
  apply BitVec.eq_of_toNat_eq
  have hshift : ∀ (b : UInt8) (n : UInt32), n.toNat ≤ 24 → (b.toUInt32 <<< n).toNat = b.toNat <<< n.toNat := by
    intro b n hn
    have := b.toNat_lt
    have hpow : 2 ^ n.toNat ≤ 2 ^ 24 := Nat.pow_le_pow_right (by decide) hn
    rw [UInt32.toNat_shiftLeft, UInt8.toNat_toUInt32, Nat.mod_eq_of_lt (show n.toNat < 32 by omega), Nat.shiftLeft_eq,
      Nat.mod_eq_of_lt]
    calc b.toNat * 2 ^ n.toNat ≤ 255 * 2 ^ 24 := Nat.mul_le_mul (by omega) hpow
      _ < 2 ^ 32 := by decide
  have hlt : b0.toNat <<< 24 ||| b1.toNat <<< 16 ||| b2.toNat <<< 8 ||| b3.toNat < 2 ^ 32 := by
    rw [hor]
    simp only [Nat.shiftLeft_eq]
    omega
  rw [BitVec.toNat_ofNat, Nat.mod_eq_of_lt hlt, UInt32.toNat_toBitVec, UInt32.toNat_or, UInt32.toNat_or, UInt32.toNat_or,
    hshift b0 24 (by decide), hshift b1 16 (by decide), hshift b2 8 (by decide), UInt8.toNat_toUInt32]
  rfl

theorem take_word_bytes {l : Bytes} {n : Nat} (h : n + 4 ≤ l.length) :
    (l.drop n).take 4 = [l.getD n 0, l.getD (n + 1) 0, l.getD (n + 2) 0, l.getD (n + 3) 0] := by
  have hget : ∀ i, i < l.length → l.drop i = l.getD i 0 :: l.drop (i + 1) := by
    intro i hi
    rw [List.drop_eq_getElem_cons hi, List.getD_eq_getElem l 0 hi]
  rw [hget n (by omega), hget (n + 1) (by omega), hget (n + 2) (by omega), hget (n + 3) (by omega)]
  rfl

theorem sha256_word_eq {p : Bytes} (hp : 64 ≤ p.length) {t : Nat} (ht : t < 16) :
    (sha256_word p t).toBitVec = (Sha256.words (Sha256.ofBytes (p.take 64))).getD t 0 := by
  have hlen : (p.take 64).length / 4 = 16 := by rw [List.length_take, Nat.min_eq_left hp]
  have hpiece : ((p.take 64).drop (4 * t)).take 4 = (p.drop (t * 4)).take 4 := by
    rw [List.drop_take, List.take_take, Nat.min_eq_left (by omega), Nat.mul_comm]
  rw [Sha256.words, Sha256.pieces_ofBytes 4, Sha256.pieces, hlen, List.getD_eq_getElem?_getD, List.getElem?_map,
    List.getElem?_map, List.getElem?_map, List.getElem?_range ht]
  simp only [Option.map_some, Option.getD_some]
  rw [hpiece, take_word_bytes (by omega)]
  exact sha256_word_bytes _ _ _ _

/-! ## The schedule -/

/-- The words so far are those of the message schedule. -/
def Scheduled (M : List Sha256.Word) (w : List UInt32) : Prop :=
  ∀ t < w.length, (w.getD t 0).toBitVec = Sha256.W M t

theorem Scheduled.extend {M : List Sha256.Word} {w : List UInt32} (h : Scheduled M w) (hw : 16 ≤ w.length) :
    Scheduled M (sha256_extend w w.length) := by
  intro t ht
  simp only [sha256_extend, List.length_append, List.length_singleton] at ht
  by_cases hlt : t < w.length
  · rw [sha256_extend, List.getD_append _ _ _ _ hlt]
    exact h t hlt
  · obtain rfl : t = w.length := by omega
    have hlast : ∀ x : UInt32, (w ++ [x]).getD w.length 0 = x := fun x => by
      rw [List.getD_append_right _ _ _ _ (Nat.le_refl _), Nat.sub_self]
      rfl
    rw [sha256_extend, hlast, Sha256.W, if_neg (by omega), ← h _ (by omega), ← h _ (by omega), ← h _ (by omega),
      ← h _ (by omega)]
    rw [UInt32.toBitVec_add, UInt32.toBitVec_add, UInt32.toBitVec_add, smallSigma0_eq, smallSigma1_eq]
    ac_rfl

theorem sha256_schedule_eq {p : Bytes} (hp : 64 ≤ p.length) {t : Nat} (ht : t < 64) :
    ((sha256_schedule p).getD t 0).toBitVec = Sha256.W (Sha256.words (Sha256.ofBytes (p.take 64))) t := by
  have hrun : ∀ (n : Nat) (w : List UInt32), 16 ≤ w.length → Scheduled (Sha256.words (Sha256.ofBytes (p.take 64))) w →
      Scheduled (Sha256.words (Sha256.ofBytes (p.take 64))) ((List.range' w.length n).foldl sha256_extend w) ∧
        ((List.range' w.length n).foldl sha256_extend w).length = w.length + n := by
    intro n
    induction n with
    | zero => exact fun w _ h => ⟨h, rfl⟩
    | succ n ih =>
      intro w hw h
      have hlen : (sha256_extend w w.length).length = w.length + 1 := by simp [sha256_extend]
      rw [List.range'_succ, List.foldl_cons]
      obtain ⟨h1, h2⟩ := ih (sha256_extend w w.length) (by omega) (h.extend hw)
      rw [hlen] at h1 h2
      exact ⟨h1, by rw [h2]; omega⟩
  have hfirst : Scheduled (Sha256.words (Sha256.ofBytes (p.take 64))) ((List.range 16).map (sha256_word p)) := by
    intro i hi
    rw [List.length_map, List.length_range] at hi
    rw [List.getD_eq_getElem?_getD, List.getElem?_map, List.getElem?_range hi, Option.map_some, Option.getD_some,
      sha256_word_eq hp hi, Sha256.W, if_pos hi]
  obtain ⟨h1, h2⟩ := hrun 48 _ (by simp) hfirst
  rw [List.length_map, List.length_range] at h1 h2
  exact h1 t (by rw [h2]; exact ht)

/-! ## The rounds -/

/-- The integer part of the cube root of a prime in the table. -/
def cubeRoot (p : Nat) : Nat :=
  if p < 8 then 1 else if p < 27 then 2 else if p < 64 then 3 else if p < 125 then 4 else if p < 216 then 5 else 6

theorem sha256_k_eq {t : Nat} (ht : t < 64) : (sha256_k.getD t 0).toBitVec = Sha256.K t := by
  have hbounds : ∀ t < 64,
      (2 ^ 32 * cubeRoot (Sha256.primes.getD t 0) + (sha256_k.getD t 0).toBitVec.toNat) ^ 3 ≤
        Sha256.primes.getD t 0 * 2 ^ (32 * 3) ∧
      Sha256.primes.getD t 0 * 2 ^ (32 * 3) <
        (2 ^ 32 * cubeRoot (Sha256.primes.getD t 0) + (sha256_k.getD t 0).toBitVec.toNat + 1) ^ 3 := by
    rw [Sha256.primes_eq]
    decide +kernel
  exact (Sha256.fraction_eq (by decide) (hbounds t ht).1 (hbounds t ht).2).symm

theorem sha256_round_eq {M : List Sha256.Word} {w : List UInt32} {i : Nat} (hi : i < 64)
    (hw : (w.getD i 0).toBitVec = Sha256.W M i) (r : Sha256.Registers UInt32) :
    (sha256_round w r i).map UInt32.toBitVec = Sha256.step (Sha256.K i) (Sha256.W M i) (r.map UInt32.toBitVec) := by
  rw [← hw, ← sha256_k_eq hi]
  simp only [sha256_round, Sha256.step, Sha256.Registers.map, UInt32.toBitVec_add, bigSigma0_eq, bigSigma1_eq]
  rw [BitVec.add_assoc]
  rfl

theorem sha256_rounds_eq {p : Bytes} (hp : 64 ≤ p.length) (r : Sha256.Registers UInt32) {n : Nat} (hn : n ≤ 64) :
    ((List.range n).foldl (sha256_round (sha256_schedule p)) r).map UInt32.toBitVec =
      Sha256.steps (Sha256.words (Sha256.ofBytes (p.take 64))) (r.map UInt32.toBitVec) n := by
  induction n with
  | zero => rfl
  | succ n ih =>
    rw [List.range_succ, List.foldl_append, List.foldl_cons, List.foldl_nil,
      sha256_round_eq (by omega) (sha256_schedule_eq hp (by omega)), ih (by omega)]
    rfl

/-- The hash value a state stands for. -/
def hashValue (state : Vector UInt32 8) : Sha256.Registers Sha256.Word := (sha256_registers state).map UInt32.toBitVec

theorem registers_add (s r : Sha256.Registers UInt32) :
    (s.zipWith (· + ·) r).map UInt32.toBitVec = (r.map UInt32.toBitVec).zipWith (· + ·) (s.map UInt32.toBitVec) := by
  have hadd : ∀ x y : UInt32, (x + y).toBitVec = y.toBitVec + x.toBitVec := fun x y => by
    rw [UInt32.toBitVec_add, BitVec.add_comm]
  simp only [Sha256.Registers.map, Sha256.Registers.zipWith, hadd]

/-- The compression function is that of the standard. -/
theorem sha256_next_eq (state : Vector UInt32 8) {p : Bytes} (hp : 64 ≤ p.length) :
    hashValue (sha256_next state p) = Sha256.compress (hashValue state) (Sha256.ofBytes (p.take 64)) := by
  rw [Sha256.compress, hashValue, hashValue, ← sha256_rounds_eq hp _ (Nat.le_refl 64), ← registers_add]
  rfl

theorem sha256_compress_eq (c : Sha256Ctx) {p : Bytes} (hp : 64 ≤ p.length) :
    sha256_compress c p = some { c with state := sha256_next c.state p } := if_neg (Nat.not_lt.2 hp)

theorem sha256_init_eq (c : Sha256Ctx) : hashValue (sha256_init c).state = Sha256.initial := by
  have hroot : ∀ {p i : Nat} {w : UInt32}, (2 ^ 32 * i + w.toNat) ^ 2 ≤ p * 2 ^ (32 * 2) ∧
      p * 2 ^ (32 * 2) < (2 ^ 32 * i + w.toNat + 1) ^ 2 → w.toBitVec = Sha256.fraction 2 p :=
    fun h => (Sha256.fraction_eq (by decide) h.1 h.2).symm
  have h2 : (0x6a09e667 : UInt32).toBitVec = Sha256.fraction 2 2 := @hroot 2 1 _ (by decide +kernel)
  have h3 : (0xbb67ae85 : UInt32).toBitVec = Sha256.fraction 2 3 := @hroot 3 1 _ (by decide +kernel)
  have h5 : (0x3c6ef372 : UInt32).toBitVec = Sha256.fraction 2 5 := @hroot 5 2 _ (by decide +kernel)
  have h7 : (0xa54ff53a : UInt32).toBitVec = Sha256.fraction 2 7 := @hroot 7 2 _ (by decide +kernel)
  have h11 : (0x510e527f : UInt32).toBitVec = Sha256.fraction 2 11 := @hroot 11 3 _ (by decide +kernel)
  have h13 : (0x9b05688c : UInt32).toBitVec = Sha256.fraction 2 13 := @hroot 13 3 _ (by decide +kernel)
  have h17 : (0x1f83d9ab : UInt32).toBitVec = Sha256.fraction 2 17 := @hroot 17 4 _ (by decide +kernel)
  have h19 : (0x5be0cd19 : UInt32).toBitVec = Sha256.fraction 2 19 := @hroot 19 4 _ (by decide +kernel)
  rw [Sha256.initial, ← h2, ← h3, ← h5, ← h7, ← h11, ← h13, ← h17, ← h19]
  rfl

/-! ## Pending bytes -/

/-- The state is that behind the blocks `m` is made of. -/
def Hashed (state : Vector UInt32 8) (m : Bytes) : Prop :=
  ∃ bs : List Bytes, (∀ b ∈ bs, b.length = 64) ∧ m = bs.flatten ∧
    hashValue state = (bs.map Sha256.ofBytes).foldl Sha256.compress Sha256.initial

theorem Hashed.length {state : Vector UInt32 8} {m : Bytes} (h : Hashed state m) : m.length % 64 = 0 := by
  obtain ⟨bs, hlen, rfl, -⟩ := h
  induction bs with
  | nil => rfl
  | cons b bs ih =>
    rw [List.flatten_cons, List.length_append, hlen b List.mem_cons_self, Nat.add_mod_left]
    exact ih fun x hx => hlen x (List.mem_cons_of_mem _ hx)

theorem Hashed.next {state : Vector UInt32 8} {m p : Bytes} (h : Hashed state m) (hp : 64 ≤ p.length) :
    Hashed (sha256_next state p) (m ++ p.take 64) := by
  obtain ⟨bs, hlen, rfl, hstate⟩ := h
  refine ⟨bs ++ [p.take 64], ?_, ?_, ?_⟩
  · intro b hb
    rcases List.mem_append.1 hb with hb | hb
    · exact hlen b hb
    · rw [List.mem_singleton.1 hb, List.length_take, Nat.min_eq_left hp]
  · simp
  · rw [sha256_next_eq state hp, hstate, List.map_append, List.foldl_append]
    rfl

/-- What the context has taken in: whole blocks, and the pending bytes. -/
def Taken (c : Sha256Ctx) (m : Bytes) : Prop :=
  ∃ done, Hashed c.state done ∧ m = done ++ c.block.1.take c.block_len

/-- A context between two updates. -/
structure Absorbed (c : Sha256Ctx) (m : Bytes) : Prop where
  taken : Taken c m
  block_len : c.block_len ≤ 63
  total : c.total = UInt64.ofNat m.length

theorem block_write_spec (b : Block 64) {off : Nat} {src : Bytes} (h : off + src.length ≤ 64) :
    ∃ b', block_write b off src = some b' ∧ b'.1.take (off + src.length) = b.1.take off ++ src := by
  refine ⟨_, dif_pos h, List.take_left' ?_⟩
  rw [List.length_append, List.length_take, b.2]
  omega

theorem size_sub_eq {a b : Nat} (h : b ≤ a) : size_sub a b = some (a - b) := if_pos h

theorem sha256_blocks_spec {c : Sha256Ctx} {m data : Bytes} (h : Hashed c.state m) :
    ∃ state done rest, sha256_blocks c data = some ({ c with state }, rest) ∧ Hashed state done ∧
      m ++ data = done ++ rest ∧ rest.length ≤ 63 := by
  induction hn : data.length using Nat.strong_induction_on generalizing c m data with
  | _ n ih =>
    rw [sha256_blocks]
    by_cases hlen : 64 ≤ data.length
    · have hshort : (data.drop 64).length < n := by
        rw [List.length_drop]
        omega
      have hnext : Hashed { c with state := sha256_next c.state data }.state (m ++ data.take 64) := h.next hlen
      obtain ⟨state, done, rest, hb, hdone, hsplit, hrest⟩ := ih _ hshort hnext rfl
      refine ⟨state, done, rest, ?_, hdone, ?_, hrest⟩
      · rw [if_pos hlen, sha256_compress_eq c hlen]
        exact hb
      · rw [← hsplit, List.append_assoc, List.take_append_drop]
    · exact ⟨c.state, m, data, if_neg hlen, h, rfl, by omega⟩

theorem sha256_update_empty_spec {c : Sha256Ctx} {m data : Bytes} (h : Hashed c.state m) (hempty : c.block_len = 0)
    (htotal : c.total = UInt64.ofNat (m ++ data).length) :
    ∃ c', sha256_update_empty c data = some c' ∧ Absorbed c' (m ++ data) := by
  obtain ⟨state, done, rest, hb, hdone, hsplit, hrest⟩ := @sha256_blocks_spec c m data h
  by_cases hnil : rest = []
  · refine ⟨{ c with state }, ?_, ⟨done, hdone, ?_⟩, ?_, htotal⟩
    · simp [sha256_update_empty, hb, hnil]
    · rw [hsplit, hnil, hempty, List.take_zero]
    · rw [hempty]
      omega
  · obtain ⟨block, hw, htake⟩ := @block_write_spec c.block 0 rest (by omega)
    rw [Nat.zero_add, List.take_zero, List.nil_append] at htake
    refine ⟨{ c with state, block, block_len := rest.length }, ?_, ⟨done, hdone, ?_⟩, hrest, htotal⟩
    · simp [sha256_update_empty, hb, hnil, hw]
    · rw [hsplit, htake]

/-- One update, of any length, takes its bytes in. -/
theorem sha256_update_spec {c : Sha256Ctx} {m : Bytes} (h : Absorbed c m) (data : Bytes) :
    ∃ c', sha256_update c data = some c' ∧ Absorbed c' (m ++ data) := by
  obtain ⟨⟨done, hdone, hm⟩, hlen, htotal⟩ := h
  have htotal' : c.total + UInt64.ofNat data.length = UInt64.ofNat (m ++ data).length := by
    rw [htotal, List.length_append, UInt64.ofNat_add]
  by_cases hempty : c.block_len = 0
  · rw [hempty, List.take_zero, List.append_nil] at hm
    subst hm
    obtain ⟨c', hc, habs⟩ := @sha256_update_empty_spec { c with total := c.total + UInt64.ofNat data.length } m data hdone
      hempty htotal'
    refine ⟨c', ?_, habs⟩
    rw [sha256_update, if_neg (not_not.2 hempty)]
    exact hc
  · -- the pending block takes what it has room for
    have hroom := size_sub_eq (show c.block_len ≤ 64 by omega)
    obtain ⟨n, hn⟩ : ∃ n, n = if 64 - c.block_len > data.length then data.length else 64 - c.block_len := ⟨_, rfl⟩
    have hfit : n ≤ data.length ∧ c.block_len + n ≤ 64 ∧ (c.block_len + n < 64 → n = data.length) := by
      rw [hn]
      split <;> omega
    have hpart : (data.take n).length = n := by rw [List.length_take, Nat.min_eq_left hfit.1]
    obtain ⟨block, hw, htake⟩ := @block_write_spec c.block c.block_len (data.take n) (by omega)
    rw [hpart] at htake
    rw [sha256_update, if_pos hempty]
    simp only [hroom, ← hn, hw, Option.bind_eq_bind, Option.bind_some]
    by_cases hfull : c.block_len + n < 64
    · refine ⟨_, if_pos hfull, ⟨done, hdone, ?_⟩, Nat.le_of_lt_succ hfull, htotal'⟩
      show m ++ data = done ++ block.1.take (c.block_len + n)
      rw [htake, List.take_of_length_le (Nat.le_of_eq (hfit.2.2 hfull).symm), hm, List.append_assoc]
    · have hblock : 64 ≤ block.1.length := Nat.le_of_eq block.2.symm
      have hwhole : c.block_len + n = 64 := by omega
      rw [hwhole] at htake
      have hsplit : done ++ block.1.take 64 ++ data.drop n = m ++ data := by
        rw [htake, hm, List.append_assoc, List.append_assoc, List.append_assoc, List.take_append_drop]
      rw [if_neg hfull, sha256_compress_eq _ hblock, ← hsplit]
      exact sha256_update_empty_spec (hdone.next hblock) rfl (by rw [hsplit]; exact htotal')

/-- Any number of updates. -/
theorem sha256_updates_spec (chunks : List Bytes) : ∀ {c : Sha256Ctx} {m : Bytes}, Absorbed c m →
    ∃ c', sha256_updates c chunks = some c' ∧ Absorbed c' (m ++ chunks.flatten) := by
  induction chunks with
  | nil =>
    intro c m h
    exact ⟨c, rfl, by rwa [List.flatten_nil, List.append_nil]⟩
  | cons data chunks ih =>
    intro c m h
    obtain ⟨c1, h1, habs⟩ := sha256_update_spec h data
    obtain ⟨c2, h2, habs2⟩ := ih habs
    refine ⟨c2, ?_, ?_⟩
    · rw [sha256_updates, List.foldlM_cons, h1]
      exact h2
    · rwa [List.flatten_cons, ← List.append_assoc]

theorem sha256_init_absorbed (c : Sha256Ctx) : Absorbed (sha256_init c) [] :=
  ⟨⟨[], ⟨[], nofun, rfl, sha256_init_eq c⟩, rfl⟩, Nat.zero_le _, rfl⟩

/-! ## Padding -/

theorem Taken.length {c : Sha256Ctx} {m : Bytes} (h : Taken c m) (hlen : c.block_len ≤ 64) :
    m.length % 64 = c.block_len % 64 := by
  obtain ⟨done, hdone, rfl⟩ := h
  have hd := hdone.length
  rw [List.length_append, List.length_take, c.block.2, Nat.min_eq_left hlen, Nat.add_mod, hd, Nat.zero_add,
    Nat.mod_mod]

/-- More bytes into the block. -/
theorem Taken.write {c : Sha256Ctx} {m src : Bytes} (h : Taken c m) (hfit : c.block_len + src.length ≤ 64) :
    ∃ block, block_write c.block c.block_len src = some block ∧
      Taken { c with block, block_len := c.block_len + src.length } (m ++ src) := by
  obtain ⟨done, hdone, rfl⟩ := h
  obtain ⟨block, hw, htake⟩ := block_write_spec c.block hfit
  exact ⟨block, hw, done, hdone, by rw [htake, List.append_assoc]⟩

/-- A full block is hashed. -/
theorem Taken.next {c : Sha256Ctx} {m : Bytes} (h : Taken c m) (hfull : c.block_len = 64) :
    Hashed (sha256_next c.state c.block.1) m := by
  obtain ⟨done, hdone, rfl⟩ := h
  rw [hfull]
  exact hdone.next (Nat.le_of_eq c.block.2.symm)

/-- Where the length does not fit, zeros fill the block up and a new one begins. -/
theorem sha256_overflow_spec {c : Sha256Ctx} {m : Bytes} (h : Taken c m) (h0 : 0 < c.block_len) (hlen : c.block_len ≤ 64) :
    ∃ c' z, sha256_overflow c = some c' ∧ Taken c' (m ++ List.replicate z 0) ∧ c'.block_len ≤ 56 ∧
      z + (56 - c'.block_len) < 64 := by
  by_cases hover : c.block_len > 56
  · have hfill : c.block_len + (List.replicate (64 - c.block_len) (0 : UInt8)).length = 64 := by
      rw [List.length_replicate]
      omega
    obtain ⟨block, hw, htaken⟩ := h.write (Nat.le_of_eq hfill)
    have hc := sha256_compress_eq { c with block } (Nat.le_of_eq block.2.symm)
    refine ⟨{ c with block, state := sha256_next c.state block.1, block_len := 0 }, 64 - c.block_len, ?_,
      ⟨_, htaken.next hfill, ?_⟩, Nat.zero_le _, by omega⟩
    · rw [sha256_overflow, if_pos hover, size_sub_eq hlen]
      simp only [Option.bind_eq_bind, Option.bind_some, hw, hc]
      rfl
    · rw [List.take_zero, List.append_nil]
  · refine ⟨c, 0, ?_, ?_, by omega, by omega⟩
    · rw [sha256_overflow, if_neg hover]
      rfl
    · rwa [List.replicate_zero, List.append_nil]

/-- Complete blocks are hashed as the standard says. -/
theorem Hashed.hash {state : Vector UInt32 8} {m padded : Bytes} (h : Hashed state padded)
    (hpad : Sha256.pad (Sha256.ofBytes m) = Sha256.ofBytes padded) :
    Sha256.hash (Sha256.ofBytes m) = (hashValue state).toList.flatMap fun w => Sha256.bits 32 w.toNat := by
  obtain ⟨bs, hlen, rfl, hstate⟩ := h
  rw [Sha256.hash, hpad, Sha256.pieces_ofBytes 64, Sha256.pieces_flatten (by decide) hlen, hstate]

/-- The eight bytes of the length. -/
theorem sha256_length_bytes (total : UInt64) :
    Sha256.ofBytes ((List.range 8).map fun i => (total >>> UInt64.ofNat (56 - i * 8)).toUInt8) =
      Sha256.bits 64 total.toNat := by
  rw [show 64 = 8 * 8 from rfl, Sha256.bits_bytes]
  refine congrArg Sha256.ofBytes (List.map_congr_left fun i hi => ?_)
  have hi := List.mem_range.1 hi
  apply UInt8.toNat_inj.1
  have hshift : (UInt64.ofNat (56 - i * 8)).toNat % 64 = 8 * (8 - 1 - i) := by
    rw [UInt64.toNat_ofNat']
    omega
  rw [UInt64.toNat_toUInt8, UInt64.toNat_shiftRight, hshift, UInt8.toNat_ofNat']

theorem sha256_word_digest (x : UInt32) :
    Sha256.ofBytes [(x >>> 24).toUInt8, (x >>> 16).toUInt8, (x >>> 8).toUInt8, x.toUInt8] = Sha256.bits 32 x.toNat := by
  have hbyte : ∀ (n : UInt32) (i : Nat), n.toNat = i → i < 32 → (x >>> n).toUInt8 = UInt8.ofNat (x.toNat >>> i) := by
    rintro n _ rfl hn
    apply UInt8.toNat_inj.1
    rw [UInt32.toNat_toUInt8, UInt32.toNat_shiftRight, Nat.mod_eq_of_lt hn, UInt8.toNat_ofNat']
  have hlast : x.toUInt8 = UInt8.ofNat (x.toNat >>> 0) := by
    apply UInt8.toNat_inj.1
    rw [UInt32.toNat_toUInt8, UInt8.toNat_ofNat', Nat.shiftRight_zero]
  rw [show 32 = 8 * 4 from rfl, Sha256.bits_bytes, hbyte 24 24 rfl (by decide), hbyte 16 16 rfl (by decide),
    hbyte 8 8 rfl (by decide), hlast]
  rfl

theorem sha256_digest_bytes (state : Vector UInt32 8) :
    Sha256.ofBytes ((sha256_registers state).toList.flatMap fun (x : UInt32) =>
      [(x >>> 24).toUInt8, (x >>> 16).toUInt8, (x >>> 8).toUInt8, x.toUInt8]) =
      (hashValue state).toList.flatMap fun w => Sha256.bits 32 w.toNat := by
  have hlist : (hashValue state).toList = (sha256_registers state).toList.map UInt32.toBitVec := rfl
  rw [hlist]
  generalize (sha256_registers state).toList = l
  induction l with
  | nil => rfl
  | cons x l ih =>
    rw [List.flatMap_cons, Sha256.ofBytes_append, ih, sha256_word_digest]
    rfl

/-- The two padding cases come to one: the digest is that of the message. -/
theorem sha256_final_spec {c : Sha256Ctx} {m : Bytes} (h : Absorbed c m) (hm : m.length < 2 ^ 61) :
    ∃ digest, sha256_final c = some digest ∧ Sha256.ofBytes digest = Sha256.hash (Sha256.ofBytes m) := by
  have hlen := h.block_len
  have htotal : (c.total * 8).toNat = 8 * m.length := by
    rw [h.total, UInt64.toNat_mul, UInt64.toNat_ofNat', show (8 : UInt64).toNat = 8 from rfl]
    omega
  obtain ⟨lengthBytes, hl⟩ : ∃ l, l = (List.range 8).map fun i => ((c.total * 8) >>> UInt64.ofNat (56 - i * 8)).toUInt8 :=
    ⟨_, rfl⟩
  have height : lengthBytes.length = 8 := by rw [hl, List.length_map, List.length_range]
  -- the one bit, the zeros up to byte 56 of the last block, the length
  obtain ⟨block1, hw1, h1⟩ := h.taken.write (show c.block_len + [(0x80 : UInt8)].length ≤ 64 by
    simp only [List.length_singleton]; omega)
  obtain ⟨c2, z, ho, h2, hle, hz⟩ := sha256_overflow_spec h1 (Nat.succ_pos _) (show c.block_len + 1 ≤ 64 by omega)
  have hfill : c2.block_len + (List.replicate (56 - c2.block_len) (0 : UInt8)).length = 56 := by
    rw [List.length_replicate]
    omega
  obtain ⟨block3, hw3, h3⟩ := h2.write (show c2.block_len + (List.replicate (56 - c2.block_len) (0 : UInt8)).length ≤ 64 by
    omega)
  obtain ⟨block4, hw4, h4⟩ := h3.write (show c2.block_len + (List.replicate (56 - c2.block_len) (0 : UInt8)).length +
    lengthBytes.length ≤ 64 by omega)
  simp only [hfill] at hw4
  have hdone := h4.next (show c2.block_len + (List.replicate (56 - c2.block_len) (0 : UInt8)).length +
    lengthBytes.length = 64 by omega)
  have hcount : (m.length + 1 + (z + (56 - c2.block_len))) % 64 = 56 := by
    have := h3.length (by show _ + _ ≤ 64; omega)
    simp only [List.length_append, List.length_replicate, List.length_singleton] at this
    omega
  have hpad := Sha256.pad_ofBytes (m := m) hz hcount
  rw [← htotal, ← sha256_length_bytes, ← hl, ← Sha256.ofBytes_append, ← List.replicate_append_replicate,
    ← List.append_assoc (m ++ [0x80])] at hpad
  refine ⟨_, ?_, (sha256_digest_bytes _).trans (hdone.hash hpad).symm⟩
  have hc := sha256_compress_eq { c2 with block := block4 } (Nat.le_of_eq block4.2.symm)
  rw [List.length_singleton] at ho
  simp only [sha256_final, hw1, ho, size_sub_eq hle, hw3, ← hl, hw4, hc, Option.bind_eq_bind, Option.bind_some]
  rfl

theorem sha256_digest_spec (c : Sha256Ctx) {chunks : List Bytes} (hm : chunks.flatten.length < 2 ^ 61) :
    ∃ digest, sha256_digest c chunks = some digest ∧
      Sha256.ofBytes digest = Sha256.hash (Sha256.ofBytes chunks.flatten) := by
  obtain ⟨c1, h1, habs⟩ := sha256_updates_spec chunks (sha256_init_absorbed c)
  rw [List.nil_append] at habs
  obtain ⟨digest, hf, hd⟩ := sha256_final_spec habs hm
  refine ⟨digest, ?_, hd⟩
  rw [sha256_digest, h1]
  exact hf

/-- The digest is that of FIPS 180-4, however the message is cut into updates and
whatever the block held before; after every update at most 63 bytes are pending, and
no step writes past the block or reads past its input. -/
theorem sha256_correct (c : Sha256Ctx) (chunks : List Bytes) (hm : chunks.flatten.length < 2 ^ 61) :
    (∀ n, ∃ c', sha256_updates (sha256_init c) (chunks.take n) = some c' ∧ c'.block_len ≤ 63) ∧
    (∃ digest, sha256_digest c chunks = some digest ∧
      Sha256.ofBytes digest = Sha256.hash (Sha256.ofBytes chunks.flatten)) ∧
    ∀ (c' : Sha256Ctx) (chunks' : List Bytes), chunks'.flatten = chunks.flatten →
      sha256_digest c' chunks' = sha256_digest c chunks := by
  refine ⟨fun n => ?_, sha256_digest_spec c hm, fun c' chunks' hsame => ?_⟩
  · obtain ⟨c', h, habs⟩ := sha256_updates_spec (chunks.take n) (sha256_init_absorbed c)
    exact ⟨c', h, habs.block_len⟩
  · obtain ⟨digest, h, hd⟩ := sha256_digest_spec c hm
    obtain ⟨digest', h', hd'⟩ := sha256_digest_spec c' (show chunks'.flatten.length < 2 ^ 61 by rwa [hsame])
    rw [hsame, ← hd] at hd'
    rw [h, h', Sha256.ofBytes_injective hd']

/-- A context that is not fresh. -/
def staleCtx : Sha256Ctx :=
  { state := Vector.replicate 8 7, total := 5, block := ⟨List.replicate 64 0xff, rfl⟩, block_len := 9 }

/-- Three bytes in three updates, one of them empty, and in one. -/
theorem sha256_correct_abc : ∃ digest,
    sha256_digest staleCtx [str "a", [], str "bc"] = some digest ∧
    Sha256.ofBytes digest = Sha256.hash (Sha256.ofBytes (str "abc")) ∧
    sha256_digest staleCtx [str "abc"] = some digest := by
  obtain ⟨-, ⟨digest, h, hd⟩, hcut⟩ := sha256_correct staleCtx [str "a", [], str "bc"] (by decide)
  exact ⟨digest, h, hd, (hcut staleCtx [str "abc"] (by decide)).trans h⟩

end NginxZstd
