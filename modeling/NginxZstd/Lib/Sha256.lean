import Mathlib.Data.Nat.Find
import Mathlib.Data.Nat.Prime.Basic
import NginxZstd.Lib.Bytes
/-!
# SHA-256

The hash function of FIPS 180-4 on strings of bits: the functions and constants of
section 4, padding and parsing of section 5, the computation of section 6.2. The
constants are given by the roots they are taken from.
-/

namespace NginxZstd.Lib.Sha256

abbrev Word := BitVec 32

/-! ## Functions -/

def Ch (x y z : Word) : Word := (x &&& y) ^^^ (~~~x &&& z)

def Maj (x y z : Word) : Word := (x &&& y) ^^^ (x &&& z) ^^^ (y &&& z)

def bigSigma0 (x : Word) : Word := x.rotateRight 2 ^^^ x.rotateRight 13 ^^^ x.rotateRight 22

def bigSigma1 (x : Word) : Word := x.rotateRight 6 ^^^ x.rotateRight 11 ^^^ x.rotateRight 25

def smallSigma0 (x : Word) : Word := x.rotateRight 7 ^^^ x.rotateRight 18 ^^^ x >>> 3

def smallSigma1 (x : Word) : Word := x.rotateRight 17 ^^^ x.rotateRight 19 ^^^ x >>> 10

/-! ## Constants -/

/-- The integer part of the `k`-th root. -/
def root (k n : Nat) : Nat := Nat.findGreatest (fun r => r ^ k ≤ n) n

/-- The first 32 bits of the fractional part of the `k`-th root of `p`. -/
def fraction (k p : Nat) : Word := BitVec.ofNat 32 (root k (p * 2 ^ (32 * k)))

/-- The first sixty-four primes. -/
def primes : List Nat := (List.range 312).filter (Nat.Prime ·)

def K (t : Nat) : Word := fraction 3 (primes.getD t 0)

/-! ## Padding and parsing -/

/-- `n` in `w` bits, the most significant one first. -/
def bits : (w n : Nat) → List Bool
  | 0, _ => []
  | w + 1, n => n.testBit w :: bits w n

def ofBits (bs : List Bool) : Nat := bs.foldl (fun n b => 2 * n + b.toNat) 0

def pad (m : List Bool) : List Bool :=
  m ++ [true] ++ List.replicate ((448 + (512 - (m.length + 1) % 512)) % 512) false ++ bits 64 m.length

def pieces {α : Type} (n : Nat) (l : List α) : List (List α) :=
  (List.range (l.length / n)).map fun i => (l.drop (n * i)).take n

/-- The words of a block. -/
def words (block : List Bool) : List Word := (pieces 32 block).map fun bs => BitVec.ofNat 32 (ofBits bs)

/-! ## Computation -/

/-- The message schedule of a block `M`. -/
def W (M : List Word) (t : Nat) : Word :=
  if t < 16 then M.getD t 0
  else smallSigma1 (W M (t - 2)) + W M (t - 7) + smallSigma0 (W M (t - 15)) + W M (t - 16)

/-- Eight words: the working variables, and the hash value. -/
structure Registers (α : Type) where
  a : α
  b : α
  c : α
  d : α
  e : α
  f : α
  g : α
  h : α

def Registers.toList {α : Type} (r : Registers α) : List α := [r.a, r.b, r.c, r.d, r.e, r.f, r.g, r.h]

def Registers.map {α β : Type} (f : α → β) (r : Registers α) : Registers β :=
  ⟨f r.a, f r.b, f r.c, f r.d, f r.e, f r.f, f r.g, f r.h⟩

def Registers.zipWith {α : Type} (op : α → α → α) (r s : Registers α) : Registers α :=
  ⟨op r.a s.a, op r.b s.b, op r.c s.c, op r.d s.d, op r.e s.e, op r.f s.f, op r.g s.g, op r.h s.h⟩

def step (k w : Word) (r : Registers Word) : Registers Word :=
  let T1 := r.h + bigSigma1 r.e + Ch r.e r.f r.g + k + w
  let T2 := bigSigma0 r.a + Maj r.a r.b r.c
  ⟨T1 + T2, r.a, r.b, r.c, r.d + T1, r.e, r.f, r.g⟩

/-- The working variables behind the first `t` steps. -/
def steps (M : List Word) (H : Registers Word) : Nat → Registers Word
  | 0 => H
  | t + 1 => step (K t) (W M t) (steps M H t)

/-- The next hash value. -/
def compress (H : Registers Word) (block : List Bool) : Registers Word :=
  (steps (words block) H 64).zipWith (· + ·) H

/-- The initial hash value. -/
def initial : Registers Word :=
  ⟨fraction 2 2, fraction 2 3, fraction 2 5, fraction 2 7, fraction 2 11, fraction 2 13, fraction 2 17, fraction 2 19⟩

/-- The message digest. -/
def hash (m : List Bool) : List Bool :=
  ((pieces 512 (pad m)).foldl compress initial).toList.flatMap fun w => bits 32 w.toNat

/-! ## Roots -/

/-- Below the square of 18, seven divisors are enough to try. -/
theorem prime_iff_small {p : Nat} (hp : p < 18 ^ 2) :
    p.Prime ↔ 2 ≤ p ∧ ∀ d ∈ ([2, 3, 5, 7, 11, 13, 17] : List Nat), p % d ≠ 0 ∨ d = p := by
  constructor
  · intro h
    refine ⟨h.two_le, fun d hd => or_iff_not_imp_left.2 fun hmod => ?_⟩
    refine (h.eq_one_or_self_of_dvd d (Nat.dvd_of_mod_eq_zero (not_not.1 hmod))).resolve_left ?_
    rintro rfl
    revert hd
    decide
  · rintro ⟨h2, hd⟩
    by_contra hnot
    have hsq := Nat.minFac_sq_le_self (by omega) hnot
    have hprime := Nat.minFac_prime (show p ≠ 1 by omega)
    have hsmall : p.minFac < 18 := lt_of_pow_lt_pow_left₀ 2 (by decide) (Nat.lt_of_le_of_lt hsq hp)
    have hmem : ∀ d < 18, d.Prime → d ∈ [2, 3, 5, 7, 11, 13, 17] := by decide
    have hself := (hd _ (hmem _ hsmall hprime)).resolve_left (not_not.2 (Nat.mod_eq_zero_of_dvd (Nat.minFac_dvd p)))
    rw [hself] at hsq
    nlinarith

theorem primes_eq : primes =
    [2, 3, 5, 7, 11, 13, 17, 19, 23, 29, 31, 37, 41, 43, 47, 53, 59, 61, 67, 71, 73, 79, 83, 89, 97, 101, 103, 107, 109,
      113, 127, 131, 137, 139, 149, 151, 157, 163, 167, 173, 179, 181, 191, 193, 197, 199, 211, 223, 227, 229, 233, 239,
      241, 251, 257, 263, 269, 271, 277, 281, 283, 293, 307, 311] := by
  have hsmall : ∀ p ∈ List.range 312,
      decide p.Prime = decide (2 ≤ p ∧ ∀ d ∈ ([2, 3, 5, 7, 11, 13, 17] : List Nat), p % d ≠ 0 ∨ d = p) := fun p hp =>
    decide_eq_decide.2 (prime_iff_small (Nat.lt_trans (List.mem_range.1 hp) (by decide)))
  rw [primes, List.filter_congr hsmall]
  decide +kernel

theorem root_eq {k n r : Nat} (hk : k ≠ 0) (h1 : r ^ k ≤ n) (h2 : n < (r + 1) ^ k) : root k n = r := by
  have hr : r ≤ n := (Nat.le_self_pow hk r).trans h1
  rw [root, Nat.findGreatest_eq_iff]
  refine ⟨hr, fun _ => h1, fun m hm _ hle => ?_⟩
  have := Nat.pow_le_pow_left (show r + 1 ≤ m from hm) k
  omega

/-- A word is the fraction of a root if the root lies where it says. -/
theorem fraction_eq {k p i : Nat} {w : Word} (hk : k ≠ 0) (h1 : (2 ^ 32 * i + w.toNat) ^ k ≤ p * 2 ^ (32 * k))
    (h2 : p * 2 ^ (32 * k) < (2 ^ 32 * i + w.toNat + 1) ^ k) : fraction k p = w := by
  rw [fraction, root_eq hk h1 h2]
  apply BitVec.eq_of_toNat_eq
  rw [BitVec.toNat_ofNat, Nat.mul_add_mod, Nat.mod_eq_of_lt w.isLt]

/-! ## Bits -/

@[simp] theorem bits_length (w n : Nat) : (bits w n).length = w := by
  induction w with
  | zero => rfl
  | succ w ih => rw [bits, List.length_cons, ih]

theorem bits_add (v w n : Nat) : bits (v + w) n = bits v (n >>> w) ++ bits w n := by
  induction v with
  | zero => rw [Nat.zero_add]; rfl
  | succ v ih =>
    rw [Nat.succ_add, bits, ih, bits, List.cons_append, Nat.testBit_shiftRight, Nat.add_comm w v]

theorem bits_mod {w v : Nat} (h : w ≤ v) (n : Nat) : bits w (n % 2 ^ v) = bits w n := by
  induction w with
  | zero => rfl
  | succ w ih => rw [bits, bits, ih (by omega), Nat.testBit_mod_two_pow, decide_eq_true (by omega), Bool.true_and]

theorem ofBits_append (as bs : List Bool) : ofBits (as ++ bs) = ofBits as * 2 ^ bs.length + ofBits bs := by
  have hfrom : ∀ (bs : List Bool) (n : Nat),
      bs.foldl (fun n b => 2 * n + b.toNat) n = n * 2 ^ bs.length + ofBits bs := by
    intro bs
    induction bs with
    | nil => simp [ofBits]
    | cons b bs ih =>
      intro n
      rw [ofBits, List.foldl_cons, List.foldl_cons, ih, ih (2 * 0 + b.toNat), List.length_cons]
      ring
  rw [ofBits, List.foldl_append, hfrom]
  rfl

theorem ofBits_bits (w n : Nat) : ofBits (bits w n) = n % 2 ^ w := by
  induction w with
  | zero => simp [bits, ofBits, Nat.mod_one]
  | succ w ih =>
    have hbit : ofBits [n.testBit w] = n / 2 ^ w % 2 := by
      rw [Nat.testBit_eq_decide_div_mod_eq]
      rcases Nat.mod_two_eq_zero_or_one (n / 2 ^ w) with h | h <;> simp [ofBits, h]
    rw [bits, ← List.singleton_append, ofBits_append, ih, bits_length, hbit, Nat.mod_pow_succ]
    ring

/-! ## Pieces -/

theorem pieces_flatten {α : Type} {n : Nat} (hn : 0 < n) {ls : List (List α)} (h : ∀ l ∈ ls, l.length = n) :
    pieces n ls.flatten = ls := by
  induction ls with
  | nil => simp [pieces]
  | cons l ls ih =>
    have hl := h l List.mem_cons_self
    have hls := ih fun x hx => h x (List.mem_cons_of_mem _ hx)
    have hcount : (l :: ls).flatten.length / n = ls.flatten.length / n + 1 := by
      rw [List.flatten_cons, List.length_append, hl, Nat.add_comm, Nat.add_div_right _ hn]
    rw [pieces, hcount, List.range_succ_eq_map, List.map_cons, List.map_map]
    conv_rhs => rw [← hls, pieces]
    refine List.cons_eq_cons.2 ⟨?_, List.map_congr_left fun i _ => ?_⟩
    · rw [Nat.mul_zero, List.drop_zero, List.flatten_cons, List.take_left' hl]
    · show ((l :: ls).flatten.drop (n * (i + 1))).take n = _
      rw [Nat.mul_succ, Nat.add_comm, ← List.drop_drop, List.flatten_cons, List.drop_left' hl]

/-! ## Strings of bytes -/

/-- The bits of a byte string. -/
def ofBytes (m : Bytes) : List Bool := m.flatMap fun b => bits 8 b.toNat

@[simp] theorem ofBytes_nil : ofBytes [] = [] := rfl

@[simp] theorem ofBytes_cons (b : UInt8) (m : Bytes) : ofBytes (b :: m) = bits 8 b.toNat ++ ofBytes m := List.flatMap_cons ..

@[simp] theorem ofBytes_append (a b : Bytes) : ofBytes (a ++ b) = ofBytes a ++ ofBytes b := List.flatMap_append ..

@[simp] theorem ofBytes_length (m : Bytes) : (ofBytes m).length = 8 * m.length := by
  induction m with
  | nil => rfl
  | cons b m ih =>
    rw [ofBytes_cons, List.length_append, bits_length, ih, List.length_cons]
    ring

theorem ofBytes_injective : ∀ {a b : Bytes}, ofBytes a = ofBytes b → a = b
  | [], [], _ => rfl
  | [], y :: b, h => by
    have := congrArg List.length h
    simp only [ofBytes_length, List.length_cons, List.length_nil] at this
    omega
  | x :: a, [], h => by
    have := congrArg List.length h
    simp only [ofBytes_length, List.length_cons, List.length_nil] at this
    omega
  | x :: a, y :: b, h => by
    obtain ⟨hxy, hab⟩ := List.append_inj h (by rw [bits_length, bits_length])
    have hbyte := congrArg ofBits hxy
    rw [ofBits_bits, ofBits_bits, Nat.mod_eq_of_lt x.toNat_lt, Nat.mod_eq_of_lt y.toNat_lt] at hbyte
    rw [UInt8.toNat_inj.1 hbyte, ofBytes_injective hab]

theorem ofBytes_drop (m : Bytes) (n : Nat) : (ofBytes m).drop (8 * n) = ofBytes (m.drop n) := by
  induction n generalizing m with
  | zero => rfl
  | succ n ih =>
    cases m with
    | nil => simp
    | cons b m =>
      rw [ofBytes_cons, Nat.mul_succ, Nat.add_comm, ← List.drop_drop, List.drop_left' (bits_length 8 _), ih,
        List.drop_succ_cons]

theorem ofBytes_take (m : Bytes) (n : Nat) : (ofBytes m).take (8 * n) = ofBytes (m.take n) := by
  have hsplit : ofBytes m = ofBytes (m.take n) ++ ofBytes (m.drop n) := by
    rw [← ofBytes_append, List.take_append_drop]
  by_cases hn : n ≤ m.length
  · rw [hsplit, List.take_left' (by rw [ofBytes_length, List.length_take, Nat.min_eq_left hn])]
  · rw [List.take_of_length_le (by rw [ofBytes_length]; omega), List.take_of_length_le (by omega)]

theorem pieces_ofBytes (n : Nat) (m : Bytes) : pieces (8 * n) (ofBytes m) = (pieces n m).map ofBytes := by
  rw [pieces, pieces, ofBytes_length, Nat.mul_div_mul_left _ _ (by decide : 0 < 8), List.map_map]
  refine List.map_congr_left fun i _ => ?_
  rw [Function.comp_apply, Nat.mul_assoc, ofBytes_drop, ofBytes_take]

theorem ofBytes_zeros (n : Nat) : ofBytes (List.replicate n 0) = List.replicate (8 * n) false := by
  induction n with
  | zero => rfl
  | succ n ih =>
    rw [List.replicate_succ, ofBytes_cons, ih, Nat.mul_succ, Nat.add_comm, ← List.replicate_append_replicate]
    rfl

/-- A number in `n` bytes, the most significant one first. -/
theorem bits_bytes (n k : Nat) :
    bits (8 * k) n = ofBytes ((List.range k).map fun i => UInt8.ofNat (n >>> (8 * (k - 1 - i)))) := by
  induction k with
  | zero => rfl
  | succ k ih =>
    rw [Nat.mul_succ, Nat.add_comm, bits_add, ih, List.range_succ_eq_map, List.map_cons, List.map_map, ofBytes_cons]
    refine congrArg₂ (· ++ ·) ?_ (congrArg ofBytes (List.map_congr_left fun i hi => ?_))
    · rw [UInt8.toNat_ofNat', bits_mod (Nat.le_refl 8)]
      rfl
    · have : k - 1 - i = k + 1 - 1 - (i + 1) := by omega
      rw [this]
      rfl

/-- The message in bytes with its padding: `z` zero bytes in front of the length. -/
theorem pad_ofBytes {m : Bytes} {z : Nat} (hz : z < 64) (hfit : (m.length + 1 + z) % 64 = 56) :
    pad (ofBytes m) = ofBytes (m ++ [0x80] ++ List.replicate z 0) ++ bits 64 (8 * m.length) := by
  have hcount : (448 + (512 - (8 * m.length + 1) % 512)) % 512 = 7 + 8 * z := by omega
  have hone : ofBytes [0x80] = [true] ++ List.replicate 7 false := by decide
  rw [pad, ofBytes_length, hcount, ← List.replicate_append_replicate, ofBytes_append, ofBytes_append, ofBytes_zeros, hone]
  simp only [List.append_assoc]

end NginxZstd.Lib.Sha256
