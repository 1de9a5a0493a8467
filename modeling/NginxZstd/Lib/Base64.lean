import Mathlib.Data.List.Induction
import NginxZstd.Lib.Bytes
/-!
# Base64

The standard alphabet, and a decoder that stops at the first `=` and drops the
bits a last incomplete group leaves over. `decode_spec` says which texts decode and
to how many bytes.
-/

namespace NginxZstd.Lib.Base64

/-- The padding character. -/
def pad : UInt8 := 0x3d

/-- The six bits a character of the alphabet stands for. -/
def sextet (c : UInt8) : Option UInt8 :=
  if 0x41 ≤ c ∧ c ≤ 0x5a then some (c - 0x41)
  else if 0x61 ≤ c ∧ c ≤ 0x7a then some (c - 0x61 + 26)
  else if 0x30 ≤ c ∧ c ≤ 0x39 then some (c - 0x30 + 52)
  else if c = 0x2b then some 62
  else if c = 0x2f then some 63
  else none

def IsChar (c : UInt8) : Prop := (sextet c).isSome

instance (c : UInt8) : Decidable (IsChar c) := inferInstanceAs (Decidable ((sextet c).isSome = true))

/-- Groups of four sextets make three bytes. A last group of two or three makes
one or two, one of a single sextet none. -/
def groups : Bytes → Bytes
  | a :: b :: c :: d :: rest => (a <<< 2 ||| b >>> 4) :: (b <<< 4 ||| c >>> 2) :: (c <<< 6 ||| d) :: groups rest
  | [a, b, c] => [a <<< 2 ||| b >>> 4, b <<< 4 ||| c >>> 2]
  | [a, b] => [a <<< 2 ||| b >>> 4]
  | _ => []

/-- The characters before the first `=`. -/
def body (s : Bytes) : Bytes := s.takeWhile (· ≠ pad)

def decode (s : Bytes) : Option Bytes :=
  match (body s).mapM sextet with
  | none => none
  | some sextets => if sextets.length % 4 = 1 then none else some (groups sextets)

theorem groups_length (s : Bytes) (h : s.length % 4 ≠ 1) : (groups s).length = 3 * s.length / 4 := by
  fun_induction groups s with
  | case1 a b c d rest ih =>
    simp only [List.length_cons] at h ⊢
    rw [ih (by omega)]
    omega
  | case2 a b c => simp
  | case3 a b => simp
  | case4 s h1 h2 h3 =>
    match s with
    | [] => rfl
    | [a] => simp at h
    | [a, b] => exact absurd rfl (h3 a b)
    | [a, b, c] => exact absurd rfl (h2 a b c)
    | a :: b :: c :: d :: rest => exact absurd rfl (h1 a b c d rest)

theorem mapM_sextet_length : ∀ {s t : Bytes}, s.mapM sextet = some t → t.length = s.length ∧ ∀ c ∈ s, IsChar c
  | [], t, h => by simp at h; subst h; simp
  | c :: s, t, h => by
    simp only [List.mapM_cons, Option.bind_eq_bind, Option.bind_eq_some_iff] at h
    obtain ⟨x, hx, xs, hxs, ht⟩ := h
    obtain ⟨hlen, hall⟩ := mapM_sextet_length hxs
    cases ht
    refine ⟨by simp [hlen], ?_⟩
    rintro d (_ | ⟨_, hd⟩)
    · simp [IsChar, hx]
    · exact hall d hd

theorem decode_spec {s out : Bytes} (h : decode s = some out) :
    (∀ c ∈ body s, IsChar c) ∧ (body s).length % 4 ≠ 1 ∧ out.length = 3 * (body s).length / 4 := by
  unfold decode at h
  split at h
  · cases h
  · next sextets hm =>
    obtain ⟨hlen, hall⟩ := mapM_sextet_length hm
    split at h
    · cases h
    · next hmod =>
      cases h
      rw [hlen] at hmod
      exact ⟨hall, hmod, by rw [groups_length _ (by rwa [hlen]), hlen]⟩

/-- No character of the alphabet is the padding. -/
theorem isChar_ne_pad {c : UInt8} (h : IsChar c) : c ≠ pad := by
  rintro rfl
  revert h
  decide

theorem body_append {text rest : Bytes} (h : ∀ c ∈ text, IsChar c) (hr : rest = [] ∨ rest.head? = some pad) :
    body (text ++ rest) = text := by
  have htext : ∀ c ∈ text, decide (c ≠ pad) = true := fun c hc => decide_eq_true (isChar_ne_pad (h c hc))
  rw [body, List.takeWhile_append_of_pos htext]
  rcases hr with rfl | hr
  · simp
  · cases rest with
    | nil => simp
    | cons c rest =>
      cases hr
      simp

/-- Padding behind a text of the alphabet changes nothing. -/
theorem decode_append {text rest : Bytes} (h : ∀ c ∈ text, IsChar c) (hr : rest = [] ∨ rest.head? = some pad) :
    decode (text ++ rest) = decode text := by
  have htext : body text = text := by simpa using body_append h (.inl rfl)
  rw [decode, decode, body_append h hr, htext]

/-- Where the body ends, the text does or the padding starts. -/
theorem body_rest (s : Bytes) : ∃ rest, s = body s ++ rest ∧ (rest = [] ∨ rest.head? = some pad) := by
  refine ⟨s.dropWhile (· ≠ pad), List.takeWhile_append_dropWhile.symm, ?_⟩
  induction s with
  | nil => exact .inl rfl
  | cons c s ih =>
    by_cases hc : c = pad
    · right; simp [hc]
    · simpa [hc] using ih

end NginxZstd.Lib.Base64
