import Mathlib.Data.List.Pairwise
import Mathlib.Tactic.Linarith
/-!
# Three-way comparison and binary search

C code orders keys by a comparator that returns a negative, zero or positive
integer (`memcmp`, a `qsort` callback). `Comparator` says such a function is a
strict total order. `bsearch` is the closed-interval binary search over signed
indices. It finds every key of a list exactly when the list is sorted
(`found_iff_sorted`): a list that is not sorted always hides one of its own
elements.
-/

namespace NginxZstd.Lib

/-- A three-way comparator that is a strict total order. -/
structure Comparator {κ : Type} (cmp : κ → κ → Int) : Prop where
  zero : ∀ {a b}, cmp a b = 0 ↔ a = b
  flip : ∀ {a b}, cmp a b < 0 ↔ 0 < cmp b a
  trans : ∀ {a b c}, cmp a b < 0 → cmp b c < 0 → cmp a c < 0

variable {α κ : Type}

/-- `while (lo <= hi)` over the signed indices `lo` and `hi`, both included. -/
def bsearch (probe : α → Int) (xs : List α) (lo hi : Int) : Option α :=
  if lo ≤ hi then
    let mid := (lo + hi) / 2
    match xs[mid.toNat]? with
    | none => none
    | some x =>
      if probe x = 0 then some x
      else if probe x < 0 then bsearch probe xs (mid + 1) hi
      else bsearch probe xs lo (mid - 1)
  else none
termination_by (hi - lo + 1).toNat

/-- Sorted by the comparator, strictly: no two keys are equal. -/
def Sorted (cmp : κ → κ → Int) (key : α → κ) (xs : List α) : Prop :=
  xs.Pairwise fun x y => cmp (key x) (key y) < 0

instance (cmp : κ → κ → Int) (key : α → κ) (xs : List α) : Decidable (Sorted cmp key xs) :=
  inferInstanceAs (Decidable (List.Pairwise _ _))

theorem bsearch_sound {probe : α → Int} {xs : List α} {lo hi : Int} {x : α}
    (h : bsearch probe xs lo hi = some x) : x ∈ xs ∧ probe x = 0 := by
  fun_induction bsearch probe xs lo hi with
  | case1 => cases h
  | case2 lo hi hle mid y hy hz => cases h; exact ⟨List.mem_of_getElem? hy, hz⟩
  | case3 lo hi hle mid y hy hz hneg ih => exact ih h
  | case4 lo hi hle mid y hy hz hneg ih => exact ih h
  | case5 => cases h

/-- The element found lies inside the interval searched. -/
theorem bsearch_inside {probe : α → Int} {xs : List α} {lo hi : Int} {x : α} (hlo : 0 ≤ lo)
    (h : bsearch probe xs lo hi = some x) : ∃ k : Nat, lo ≤ k ∧ k ≤ hi ∧ xs[k]? = some x := by
  fun_induction bsearch probe xs lo hi with
  | case1 => cases h
  | case2 lo hi hle mid y hy hz => cases h; exact ⟨mid.toNat, by omega, by omega, hy⟩
  | case3 lo hi hle mid y hy hz hneg ih =>
    obtain ⟨k, h1, h2, h3⟩ := ih (by omega) h
    exact ⟨k, by omega, h2, h3⟩
  | case4 lo hi hle mid y hy hz hneg ih =>
    obtain ⟨k, h1, h2, h3⟩ := ih hlo h
    exact ⟨k, h1, by omega, h3⟩
  | case5 => cases h

theorem Sorted.lt_of_lt {cmp : κ → κ → Int} {key : α → κ} {xs : List α} (hs : Sorted cmp key xs) {i j : Nat} {x y : α}
    (hij : i < j) (hi : xs[i]? = some x) (hj : xs[j]? = some y) : cmp (key x) (key y) < 0 := by
  obtain ⟨hi', rfl⟩ := List.getElem?_eq_some_iff.1 hi
  obtain ⟨hj', rfl⟩ := List.getElem?_eq_some_iff.1 hj
  exact List.pairwise_iff_getElem.1 hs i j hi' hj' hij

/-- Where keys are distinct, two positions with equal keys coincide. -/
theorem pos_unique {key : α → κ} {xs : List α} (hn : (xs.map key).Nodup) {i j : Nat} {x y : α}
    (hi : xs[i]? = some x) (hj : xs[j]? = some y) (hk : key x = key y) : i = j := by
  have hp := List.pairwise_iff_getElem.1 (List.pairwise_map.1 hn)
  obtain ⟨hi', rfl⟩ := List.getElem?_eq_some_iff.1 hi
  obtain ⟨hj', rfl⟩ := List.getElem?_eq_some_iff.1 hj
  rcases Nat.lt_trichotomy i j with h | h | h
  · exact absurd hk (hp i j hi' hj' h)
  · exact h
  · exact absurd hk.symm (hp j i hj' hi' h)

section Keyed
variable {cmp : κ → κ → Int} (hc : Comparator cmp) (key : α → κ)
include hc

theorem Comparator.irrefl (a : κ) : ¬ cmp a a < 0 := by
  have := hc.zero.2 (rfl : a = a); omega

/-- On a sorted list the search reaches the position of the key. -/
theorem bsearch_at {xs : List α} (hs : Sorted cmp key xs) {lo hi : Int} {k : Nat} {x : α} (hlo : 0 ≤ lo)
    (hk : lo ≤ k) (hk' : (k : Int) ≤ hi) (hx : xs[k]? = some x) (hhi : hi < xs.length) :
    bsearch (fun y => cmp (key y) (key x)) xs lo hi = some x := by
  fun_induction bsearch (fun y => cmp (key y) (key x)) xs lo hi with
  | case1 lo hi hle mid hy => rw [List.getElem?_eq_none_iff] at hy; omega
  | case2 lo hi hle mid y hy hz =>
    -- equal keys stand at one position only
    have hkm : k = mid.toNat := by
      rcases Nat.lt_trichotomy k mid.toNat with h | h | h
      · exact absurd (hs.lt_of_lt h hx hy) (by rw [hc.zero.1 hz]; exact hc.irrefl _)
      · exact h
      · exact absurd (hs.lt_of_lt h hy hx) (by rw [hc.zero.1 hz]; exact hc.irrefl _)
    rw [hkm, hy] at hx
    exact hx
  | case3 lo hi hle mid y hy hz hneg ih =>
    have hkm : mid < k := by
      by_contra hcon
      rcases Nat.lt_or_eq_of_le (show k ≤ mid.toNat by omega) with h | h
      · have := hc.flip.1 (hs.lt_of_lt h hx hy); omega
      · rw [h, hy] at hx; cases hx; exact hc.irrefl _ hneg
    exact ih (by omega) (by omega) hk' hhi
  | case4 lo hi hle mid y hy hz hneg ih =>
    have hkm : (k : Int) < mid := by
      by_contra hcon
      rcases Nat.lt_or_eq_of_le (show mid.toNat ≤ k by omega) with h | h
      · exact hneg (hs.lt_of_lt h hy hx)
      · rw [← h, hy] at hx; cases hx; exact hz (hc.zero.2 rfl)
    exact ih hlo hk (by omega) (by omega)
  | case5 lo hi hle => omega

/-- If a search interval finds each of its own elements, it is sorted: the probe
at the middle separates the two halves, which the search then visits alone. -/
theorem sorted_of_found {xs : List α} (hn : (xs.map key).Nodup) {lo hi : Int} (hlo : 0 ≤ lo)
    (hhi : hi < xs.length)
    (hf : ∀ (k : Nat) x, lo ≤ k → (k : Int) ≤ hi → xs[k]? = some x →
      (bsearch (fun y => cmp (key y) (key x)) xs lo hi).isSome) :
    ∀ (i j : Nat) x y, lo ≤ i → i < j → (j : Int) ≤ hi → xs[i]? = some x → xs[j]? = some y →
      cmp (key x) (key y) < 0 := by
  -- strong induction on the length of the interval
  induction hlen : (hi - lo + 1).toNat using Nat.strong_induction_on generalizing lo hi with
  | _ n ih =>
    intro i j x y hi1 hij hj2 hxi hyj
    have hle : lo ≤ hi := by omega
    set mid := (lo + hi) / 2 with hmid
    obtain ⟨m, hm⟩ : ∃ m, xs[mid.toNat]? = some m := ⟨_, List.getElem?_eq_getElem (by omega)⟩
    have huniq := @pos_unique _ _ key xs hn
    have hstep : ∀ u, bsearch (fun y => cmp (key y) (key u)) xs lo hi =
        if cmp (key m) (key u) = 0 then some m
        else if cmp (key m) (key u) < 0 then bsearch (fun y => cmp (key y) (key u)) xs (mid + 1) hi
        else bsearch (fun y => cmp (key y) (key u)) xs lo (mid - 1) := by
      intro u
      rw [bsearch, if_pos hle, ← hmid]
      simp only [hm]
    -- an element left of the middle is found, so the probe went left
    have hleft : ∀ (k : Nat) u, lo ≤ k → (k : Int) < mid → xs[k]? = some u →
        0 < cmp (key m) (key u) ∧ (bsearch (fun y => cmp (key y) (key u)) xs lo (mid - 1)).isSome := by
      intro k u h1 h2 hu
      have hfu := hf k u h1 (by omega) hu
      rw [hstep] at hfu
      split at hfu
      · next hz => have := huniq hm hu (hc.zero.1 hz); omega
      split at hfu
      · obtain ⟨w, hw⟩ := Option.isSome_iff_exists.1 hfu
        obtain ⟨k', h3, -, h5⟩ := bsearch_inside (by omega) hw
        have := huniq h5 hu (hc.zero.1 (bsearch_sound hw).2)
        omega
      · exact ⟨by omega, hfu⟩
    have hright : ∀ (k : Nat) u, mid < k → (k : Int) ≤ hi → xs[k]? = some u →
        cmp (key m) (key u) < 0 ∧ (bsearch (fun y => cmp (key y) (key u)) xs (mid + 1) hi).isSome := by
      intro k u h1 h2 hu
      have hfu := hf k u (by omega) h2 hu
      rw [hstep] at hfu
      split at hfu
      · next hz => have := huniq hm hu (hc.zero.1 hz); omega
      split at hfu
      · next hneg => exact ⟨hneg, hfu⟩
      · obtain ⟨w, hw⟩ := Option.isSome_iff_exists.1 hfu
        obtain ⟨k', -, h4, h5⟩ := bsearch_inside hlo hw
        have := huniq h5 hu (hc.zero.1 (bsearch_sound hw).2)
        omega
    have hxm : (i : Int) < mid → cmp (key x) (key m) < 0 :=
      fun h => hc.flip.2 (hleft i x hi1 h hxi).1
    have hmy : mid < j → cmp (key m) (key y) < 0 := fun h => (hright j y h hj2 hyj).1
    rcases lt_trichotomy (j : Int) mid with hj | hj | hj
    · exact ih _ (by omega) hlo (by omega) (fun k u h1 h2 hu => (hleft k u h1 (by omega) hu).2) rfl
        i j x y hi1 hij (by omega) hxi hyj
    · have : xs[j]? = some m := by rw [show j = mid.toNat by omega]; exact hm
      rw [this] at hyj; cases hyj
      exact hxm (by omega)
    · rcases lt_trichotomy (i : Int) mid with hi' | hi' | hi'
      · exact hc.trans (hxm hi') (hmy hj)
      · have : xs[i]? = some m := by rw [show i = mid.toNat by omega]; exact hm
        rw [this] at hxi; cases hxi
        exact hmy hj
      · exact ih _ (by omega) (by omega) hhi (fun k u h1 h2 hu => (hright k u (by omega) h2 hu).2) rfl
          i j x y (by omega) hij hj2 hxi hyj

/-- A whole-list search finds every element of a list with distinct keys exactly
when the list is sorted. -/
theorem found_iff_sorted {xs : List α} (hn : (xs.map key).Nodup) :
    (∀ x ∈ xs, (bsearch (fun y => cmp (key y) (key x)) xs 0 (xs.length - 1)).isSome) ↔ Sorted cmp key xs := by
  constructor
  · intro hf
    refine List.pairwise_iff_getElem.2 fun i j hi hj hij => ?_
    refine sorted_of_found hc key hn le_rfl (by omega) (fun k x _ _ hx => hf x (List.mem_of_getElem? hx))
      i j _ _ (by omega) hij (by omega) (List.getElem?_eq_getElem hi) (List.getElem?_eq_getElem hj)
  · intro hs x hx
    obtain ⟨k, hk⟩ := List.mem_iff_getElem?.1 hx
    have := (List.getElem?_eq_some_iff.1 hk).1
    rw [bsearch_at hc key hs le_rfl (by omega) (by omega) hk (by omega)]
    rfl

end Keyed

end NginxZstd.Lib
