import Mathlib.Data.List.Basic
/-!
# Cursors into a buffer

A cursor is an index, and a read at or past the end is a fault, here `none`. What a
scanner does is easier to say of the rest of the buffer behind its cursor; `At`
relates the two, and a scanner that follows one on rests reads in bounds.
-/

namespace NginxZstd.Lib

variable {α : Type}

/-- `*p`. -/
def deref (buf : List α) (p : Nat) : Option α := buf[p]?

/-- `p < end && test(*p)`. -/
def holdsAt (test : α → Bool) (buf : List α) (p : Nat) : Option Bool :=
  if p < buf.length then (deref buf p).map test else some false

theorem lt_of_holdsAt {test : α → Bool} {buf : List α} {p : Nat} (h : holdsAt test buf p = some true) :
    p < buf.length := by
  unfold holdsAt at h
  split at h
  · assumption
  · simp at h

/-- `while (p < end && test(*p)) p++`. -/
def scanWhile (test : α → Bool) (buf : List α) (p : Nat) : Option Nat :=
  match h : holdsAt test buf p with
  | none => none
  | some false => some p
  | some true => scanWhile test buf (p + 1)
termination_by buf.length - p
decreasing_by
  have := lt_of_holdsAt h
  omega

theorem scanWhile_eq (test : α → Bool) (buf : List α) (p : Nat) :
    scanWhile test buf p = (holdsAt test buf p).bind fun b => if b then scanWhile test buf (p + 1) else some p := by
  rw [scanWhile]
  split
  · next h => simp [h]
  · next h => simp [h]
  · next h => simp [h]

/-! ## The rest behind a cursor -/

/-- `p` points at `rest`. -/
structure At (buf : List α) (p : Nat) (rest : List α) : Prop where
  le : p ≤ buf.length
  drop : buf.drop p = rest

namespace At

variable {buf s : List α} {p p' : Nat} {c : α}

theorem start (buf : List α) : At buf 0 buf := ⟨Nat.zero_le _, rfl⟩

theorem of_le (h : p ≤ buf.length) : At buf p (buf.drop p) := ⟨h, rfl⟩

theorem length (h : At buf p s) : p + s.length = buf.length := by
  have := h.le
  rw [← h.drop, List.length_drop]
  omega

/-- A rest has one position. -/
theorem unique (h : At buf p s) (h' : At buf p' s) : p = p' := by
  have := h.length
  have := h'.length
  omega

theorem lt (h : At buf p (c :: s)) : p < buf.length := by
  have := h.length
  simp only [List.length_cons] at this
  omega

theorem eq_length (h : At buf p []) : p = buf.length := h.length

theorem read (h : At buf p (c :: s)) : deref buf p = some c := by
  have := @List.getElem?_drop _ buf p 0
  rw [h.drop] at this
  exact this.symm

theorem next (h : At buf p (c :: s)) : At buf (p + 1) s := by
  refine ⟨h.lt, ?_⟩
  have := List.tail_drop (l := buf) (i := p)
  rw [h.drop] at this
  exact this.symm

/-- Past what stands in front. -/
theorem past {t : List α} (h : At buf p (s ++ t)) : At buf (p + s.length) t := by
  refine ⟨?_, ?_⟩
  · have := h.length
    rw [List.length_append] at this
    omega
  · rw [← List.drop_drop, h.drop, List.drop_left]

theorem holds (h : At buf p s) (test : α → Bool) : holdsAt test buf p = some (s.head?.any test) := by
  unfold holdsAt
  cases s with
  | nil => simp [h.eq_length]
  | cons c s => simp [h.lt, h.read]

theorem scan (h : At buf p s) (test : α → Bool) :
    ∃ p', scanWhile test buf p = some p' ∧ At buf p' (s.dropWhile test) ∧ p' = p + (s.takeWhile test).length := by
  induction s generalizing p with
  | nil =>
    refine ⟨p, ?_, h, rfl⟩
    rw [scanWhile_eq, h.holds]
    rfl
  | cons c s ih =>
    rw [scanWhile_eq, h.holds, List.dropWhile_cons, List.takeWhile_cons]
    cases hc : test c with
    | true =>
      obtain ⟨p', h1, h2, h3⟩ := ih h.next
      refine ⟨p', by simpa [hc] using h1, h2, ?_⟩
      rw [if_pos rfl, h3, List.length_cons]
      omega
    | false => exact ⟨p, by simp [hc], h, rfl⟩

end At

end NginxZstd.Lib
