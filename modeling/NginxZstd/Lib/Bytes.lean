import Mathlib.Tactic.Ring
import NginxZstd.Lib.Search
/-!
# Bytes

Byte strings, ASCII case folding, `memcmp` on blocks of one length, and
little-endian words.
-/

namespace NginxZstd.Lib

abbrev Bytes := List UInt8

/-- The bytes of an ASCII literal. -/
def str (s : String) : Bytes := s.toList.map fun c => UInt8.ofNat c.toNat

/-! ## Case folding -/

/-- `tolower` on ASCII. -/
def lower (c : UInt8) : UInt8 := if 0x41 ≤ c ∧ c ≤ 0x5a then c ||| 0x20 else c

def foldCase (s : Bytes) : Bytes := s.map lower

@[simp] theorem foldCase_nil : foldCase [] = [] := rfl

@[simp] theorem foldCase_cons (c : UInt8) (s : Bytes) : foldCase (c :: s) = lower c :: foldCase s := rfl

@[simp] theorem foldCase_length (s : Bytes) : (foldCase s).length = s.length := List.length_map ..

theorem lower_lower (c : UInt8) : lower (lower c) = lower c := by
  have h : ∀ n : Fin 256, lower (lower (UInt8.ofNat n)) = lower (UInt8.ofNat n) := by decide +kernel
  simpa using h ⟨c.toNat, UInt8.toNat_lt c⟩

@[simp] theorem foldCase_idem (s : Bytes) : foldCase (foldCase s) = foldCase s := by
  simp [foldCase, List.map_map, Function.comp_def, lower_lower]

theorem lower_eq_zero {c : UInt8} : lower c = 0 ↔ c = 0 := by
  have h : ∀ n : Fin 256, lower (UInt8.ofNat n) = 0 ↔ UInt8.ofNat n = 0 := by decide +kernel
  simpa using h ⟨c.toNat, UInt8.toNat_lt c⟩

/-! ## Blocks of one length -/

/-- Byte strings of length `n`. -/
def Block (n : Nat) : Type := { b : Bytes // b.length = n }

instance (n : Nat) : DecidableEq (Block n) := inferInstanceAs (DecidableEq { b : Bytes // b.length = n })

/-- `memcmp` over the common length: the difference at the first byte that differs. -/
def memcmp : Bytes → Bytes → Int
  | a :: as, b :: bs => if a = b then memcmp as bs else (a.toNat : Int) - b.toNat
  | _, _ => 0

theorem memcmp_eq_zero : ∀ {a b : Bytes}, a.length = b.length → (memcmp a b = 0 ↔ a = b)
  | [], [], _ => by simp [memcmp]
  | x :: xs, y :: ys, h => by
    have ih := memcmp_eq_zero (a := xs) (b := ys) (by simpa using h)
    by_cases hxy : x = y
    · simp [memcmp, hxy, ih]
    · have : x.toNat ≠ y.toNat := fun h => hxy (UInt8.toNat_inj.1 h)
      rw [memcmp, if_neg hxy]
      simp only [List.cons.injEq, hxy, false_and, iff_false]
      omega

theorem memcmp_flip : ∀ a b : Bytes, memcmp b a = -memcmp a b
  | [], [] | [], _ :: _ | _ :: _, [] => by simp [memcmp]
  | x :: xs, y :: ys => by
    by_cases hxy : x = y
    · simp [memcmp, hxy, memcmp_flip xs ys]
    · simp only [memcmp, if_neg hxy, if_neg (Ne.symm hxy)]; omega

theorem memcmp_trans : ∀ {a b c : Bytes}, a.length = b.length → b.length = c.length →
    memcmp a b < 0 → memcmp b c < 0 → memcmp a c < 0
  | [], _, _, _, _, h, _ => by simp [memcmp] at h
  | x :: xs, y :: ys, z :: zs, h1, h2, h, h' => by
    have ih := memcmp_trans (a := xs) (b := ys) (c := zs) (by simpa using h1) (by simpa using h2)
    have hne : ∀ {u v : UInt8}, u ≠ v → u.toNat ≠ v.toNat := fun hn h => hn (UInt8.toNat_inj.1 h)
    simp only [memcmp] at h h' ⊢
    by_cases hxy : x = y
    · subst hxy
      rw [if_pos rfl] at h
      by_cases hyz : x = z
      · simp only [hyz, if_true] at h' ⊢; exact ih h h'
      · simpa only [if_neg hyz] using h'
    · rw [if_neg hxy] at h
      by_cases hyz : y = z
      · subst hyz; simpa only [if_neg hxy] using h
      · rw [if_neg hyz] at h'
        have hxz : x ≠ z := by rintro rfl; omega
        rw [if_neg hxz]; omega

/-- `memcmp` totally orders the blocks of one length. -/
theorem memcmp_comparator (n : Nat) : Comparator fun a b : Block n => memcmp a.1 b.1 where
  zero {a b} := by rw [memcmp_eq_zero (a.2.trans b.2.symm)]; exact Subtype.ext_iff.symm
  flip {a b} := by rw [memcmp_flip a.1 b.1]; omega
  trans {a b c} := memcmp_trans (a.2.trans b.2.symm) (b.2.trans c.2.symm)

/-! ## Little-endian words -/

def le : Bytes → Nat
  | [] => 0
  | b :: bs => b.toNat + 256 * le bs

theorem le_lt : ∀ b : Bytes, le b < 256 ^ b.length
  | [] => by simp [le]
  | b :: bs => by
    have h1 := le_lt bs
    have h2 := UInt8.toNat_lt b
    simp only [le, List.length_cons, Nat.pow_succ]
    omega

theorem le_append : ∀ a b : Bytes, le (a ++ b) = le a + 256 ^ a.length * le b
  | [], b => by simp [le]
  | x :: a, b => by
    simp only [List.cons_append, le, le_append a b, List.length_cons, Nat.pow_succ]
    ring

end NginxZstd.Lib
