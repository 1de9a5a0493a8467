import Mathlib.Data.Finset.Insert
import Mathlib.Data.Finset.Erase
import Mathlib.Data.List.Count
/-!
# Records of use

What a program does with resources it has to give back: it acquires, uses and
releases them. A record is in order when nothing is acquired while it is held and
nothing is used or released while it is not; `holding` follows what is held through a
record, and is `none` from the first step out of order on.
-/

namespace NginxZstd.Lib

variable {R : Type} [DecidableEq R]

inductive Use (R : Type) where
  | acquire (r : R)
  | use (r : R)
  | release (r : R)
deriving DecidableEq

/-- What is held after one step. -/
def Use.step (now : Finset R) : Use R → Option (Finset R)
  | .acquire r => if r ∈ now then none else some (insert r now)
  | .use r => if r ∈ now then some now else none
  | .release r => if r ∈ now then some (now.erase r) else none

/-- What is held after a record that begins with `now`. -/
def holding (now : Finset R) : List (Use R) → Option (Finset R)
  | [] => some now
  | u :: us => (u.step now).bind fun next => holding next us

variable {now next : Finset R} {us vs : List (Use R)} {r : R}

@[simp] theorem holding_nil : holding now [] = some now := rfl

theorem holding_acquire (h : r ∉ now) : holding now (.acquire r :: us) = holding (insert r now) us := by
  simp [holding, Use.step, h]

theorem holding_use (h : r ∈ now) : holding now (.use r :: us) = holding now us := by
  simp [holding, Use.step, h]

theorem holding_release (h : r ∈ now) : holding now (.release r :: us) = holding (now.erase r) us := by
  simp [holding, Use.step, h]

theorem holding_append : holding now (us ++ vs) = (holding now us).bind fun next => holding next vs := by
  induction us generalizing now with
  | nil => rfl
  | cons u us ih =>
    rw [List.cons_append, holding, holding, Option.bind_assoc]
    exact congrArg _ (funext fun next => ih)

/-- A record in order, followed by another. -/
theorem holding_trans (h : holding now us = some next) : holding now (us ++ vs) = holding next vs := by
  rw [holding_append, h, Option.bind_some]

end NginxZstd.Lib
