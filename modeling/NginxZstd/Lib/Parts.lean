import Mathlib.Data.List.Basic
import Mathlib.Data.List.TakeWhile
/-!
# Lists stored in parts

A list kept as a chain of fixed-capacity parts, the first one embedded, so it is
always there and may be empty. The usual walk reads `elts[0]` of every later
part without looking at its length; `walk` returns `none` where that read has
no element behind it. On lists built by `push` it never does.
-/

namespace NginxZstd.Lib

structure PartList (α : Type) where
  nalloc : Nat
  part : List α
  next : List (List α)

namespace PartList

variable {α β ρ : Type}

/-- The elements in order. -/
def toList (l : PartList α) : List α := l.part ++ l.next.flatten

/-- No part behind the first is empty. -/
def WellFormed (l : PartList α) : Prop := ∀ p ∈ l.next, p ≠ []

/-- `for (i = 0; ; i++)` over the parts from `part` on. The body may leave the
loop with a result. -/
def walkFrom (f : β → α → Except ρ β) (acc : β) (part : List α) : List (List α) → Option (Except ρ β)
  | [] => some (part.foldlM f acc)
  | p :: ps =>
    match part.foldlM f acc with
    | .error r => some (.error r)
    | .ok acc => if p = [] then none else walkFrom f acc p ps

def walk (f : β → α → Except ρ β) (acc : β) (l : PartList α) : Option (Except ρ β) :=
  walkFrom f acc l.part l.next

/-- The elements in front of the first empty part behind the first. -/
def reached (l : PartList α) : List α := l.part ++ (l.next.takeWhile (· ≠ [])).flatten

instance (l : PartList α) : Decidable l.WellFormed := inferInstanceAs (Decidable (∀ p ∈ l.next, p ≠ []))

theorem walkFrom_reached (f : β → α → Except ρ β) (next : List (List α)) :
    ∀ (acc : β) (part : List α), walkFrom f acc part next =
      match (part ++ (next.takeWhile (· ≠ [])).flatten).foldlM f acc with
      | .error r => some (.error r)
      | .ok acc => if ∀ p ∈ next, p ≠ [] then some (.ok acc) else none := by
  induction next with
  | nil =>
    intro acc part
    simp only [walkFrom, List.takeWhile_nil, List.flatten_nil, List.append_nil]
    cases part.foldlM f acc with
    | error r => rfl
    | ok acc' => simp
  | cons p ps ih =>
    intro acc part
    simp only [walkFrom]
    by_cases hp : p = []
    · simp only [hp, ne_eq, not_true_eq_false, decide_false, List.takeWhile_cons, Bool.false_eq_true, if_false,
        List.flatten_nil, List.append_nil, if_true]
      cases part.foldlM f acc with
      | error r => rfl
      | ok acc' => simp
    · have hdec : decide (p ≠ []) = true := decide_eq_true hp
      rw [List.takeWhile_cons, if_pos hdec, List.flatten_cons, List.foldlM_append]
      cases part.foldlM f acc with
      | error r => rfl
      | ok acc' =>
        show (if p = [] then none else walkFrom f acc' p ps) = _
        rw [if_neg hp, ih acc' p]
        simp [hp]
        rfl

/-- Any list: the walk goes through what it reaches, and reads past a part there if
nothing makes it leave. -/
theorem walk_reached (f : β → α → Except ρ β) (acc : β) (l : PartList α) :
    l.walk f acc = match l.reached.foldlM f acc with
      | .error r => some (.error r)
      | .ok acc => if l.WellFormed then some (.ok acc) else none := walkFrom_reached f l.next acc l.part

theorem reached_eq {l : PartList α} (h : l.WellFormed) : l.reached = l.toList := by
  have hall : l.next.takeWhile (· ≠ []) = l.next := List.takeWhile_eq_self_iff.2 fun p hp => decide_eq_true (h p hp)
  rw [reached, hall, toList]

theorem reached_prefix (l : PartList α) : l.reached <+: l.toList := by
  obtain ⟨rest, hrest⟩ := List.takeWhile_prefix (· ≠ []) (l := l.next)
  refine ⟨rest.flatten, ?_⟩
  conv_rhs => rw [toList, ← hrest, List.flatten_append, ← List.append_assoc]
  rfl

theorem walk_eq (f : β → α → Except ρ β) (acc : β) {l : PartList α} (h : l.WellFormed) :
    l.walk f acc = some (l.toList.foldlM f acc) := by
  rw [walk_reached, reached_eq h]
  cases l.toList.foldlM f acc with
  | error r => rfl
  | ok acc' => exact if_pos h

/-- `ngx_list_push`: into the last part while it has room, else into a new part,
which `alloc` grants or refuses. -/
def push (alloc : Bool) (l : PartList α) (x : α) : Option (PartList α) :=
  match l.next.getLast? with
  | none =>
    if l.part.length < l.nalloc then some { l with part := l.part ++ [x] }
    else if alloc then some { l with next := [[x]] } else none
  | some p =>
    if p.length < l.nalloc then some { l with next := l.next.dropLast ++ [p ++ [x]] }
    else if alloc then some { l with next := l.next ++ [[x]] } else none

/-- What a successful push does, seen from outside. -/
theorem push_spec {alloc : Bool} {l l' : PartList α} {x : α} (h : l.push alloc x = some l') :
    l'.toList = l.toList ++ [x] ∧ (l.WellFormed → l'.WellFormed) := by
  unfold push at h
  split at h
  · next hnone =>
    have hn : l.next = [] := List.getLast?_eq_none_iff.1 hnone
    split at h
    · cases h; simp [toList, WellFormed, hn]
    · split at h <;> cases h
      simp [toList, WellFormed, hn]
  · next p hp =>
    have hn : l.next.dropLast ++ [p] = l.next := List.dropLast_append_getLast? p hp
    split at h
    · cases h
      refine ⟨?_, fun hw q hq => ?_⟩
      · simp only [toList]
        conv_rhs => rw [← hn]
        simp
      · rcases List.mem_append.1 hq with hq | hq
        · exact hw q (List.dropLast_subset _ hq)
        · simp only [List.mem_singleton] at hq; subst hq; simp
    · split at h <;> cases h
      refine ⟨by simp [toList], fun hw q hq => ?_⟩
      rcases List.mem_append.1 hq with hq | hq
      · exact hw q hq
      · simp only [List.mem_singleton] at hq; subst hq; simp

theorem push_granted (l : PartList α) (x : α) : ∃ l', l.push true x = some l' := by
  unfold push
  split <;> split <;> exact ⟨_, rfl⟩

end PartList

end NginxZstd.Lib
