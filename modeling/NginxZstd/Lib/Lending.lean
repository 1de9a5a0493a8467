import Mathlib.Data.List.Count
import Mathlib.Logic.Function.Basic
/-!
# A lending pool

Resources of type `C` stand on shelves indexed by `I`, each under a key of type
`K`, and holders of type `H` borrow them one at a time. A holder that finds
nothing to borrow makes a resource of its own, and may put it on an empty shelf
while it holds it. The pool records who made what and every release, so that
exclusive use and "released exactly once" are statements about one state.
-/

namespace NginxZstd.Lib

/-- What a holder has, the key it asked for, and the shelf it is lent from. -/
structure Loan (I C K : Type) where
  handle : C
  key : K
  slot : Option I

structure Lending (I H C K : Type) where
  shelf : I → Option (C × K)
  lent : I → Bool
  holds : H → Option (Loan I C K)
  made : List (C × H)
  freed : List C

namespace Lending

variable {I H C K : Type}

/-- Every resource made is in one place or released. -/
structure Accounts (p : Lending I H C K) : Prop where
  shelf_made : ∀ {i c k}, p.shelf i = some (c, k) → (∃ h, (c, h) ∈ p.made) ∧ c ∉ p.freed
  shelf_inj : ∀ {i j c k k'}, p.shelf i = some (c, k) → p.shelf j = some (c, k') → i = j
  own_made : ∀ {h l}, p.holds h = some l → l.slot = none →
    (l.handle, h) ∈ p.made ∧ l.handle ∉ p.freed ∧ ∀ i k, p.shelf i ≠ some (l.handle, k)
  made_once : ∀ {c h h'}, (c, h) ∈ p.made → (c, h') ∈ p.made → h = h'
  freed_made : ∀ {c}, c ∈ p.freed → ∃ h, (c, h) ∈ p.made
  freed_once : p.freed.Nodup
  placed : ∀ {c h}, (c, h) ∈ p.made → (∃ i k, p.shelf i = some (c, k)) ∨
    (∃ l, p.holds h = some l ∧ l.slot = none ∧ l.handle = c) ∨ c ∈ p.freed

/-- What is lent is held by one holder, under the key of its shelf. -/
structure Loans (valid : K → Prop) (p : Lending I H C K) : Prop where
  on_shelf : ∀ {h l i}, p.holds h = some l → l.slot = some i →
    p.lent i = true ∧ p.shelf i = some (l.handle, l.key)
  one_holder : ∀ {h h' l l' i}, p.holds h = some l → p.holds h' = some l' → l.slot = some i → l'.slot = some i → h = h'
  borrowed : ∀ {i}, p.lent i = true → ∃ h l, p.holds h = some l ∧ l.slot = some i
  valid_key : ∀ {i c k}, p.shelf i = some (c, k) → valid k

variable {valid : K → Prop} {p p' : Lending I H C K}

/-- Two holders never have the same resource. -/
theorem exclusive (ha : Accounts p) (hp : Loans valid p) {h h' : H} {l l' : Loan I C K} (hl : p.holds h = some l)
    (hl' : p.holds h' = some l') (he : l.handle = l'.handle) : h = h' := by
  cases hs : l.slot with
  | none =>
    obtain ⟨hm, -, hn⟩ := ha.own_made hl hs
    cases hs' : l'.slot with
    | none => exact ha.made_once hm (he ▸ (ha.own_made hl' hs').1)
    | some j => exact absurd (he ▸ (hp.on_shelf hl' hs').2) (hn j _)
  | some i =>
    have hi := (hp.on_shelf hl hs).2
    cases hs' : l'.slot with
    | none => exact absurd (he ▸ hi) ((ha.own_made hl' hs').2.2 i _)
    | some j =>
      have hj := (hp.on_shelf hl' hs').2
      have hij : i = j := ha.shelf_inj hi (he ▸ hj)
      exact hp.one_holder hl hl' hs (hij ▸ hs')

/-- What a holder has is not released. -/
theorem held_not_freed (ha : Accounts p) (hp : Loans valid p) {h : H} {l : Loan I C K} (hl : p.holds h = some l) :
    l.handle ∉ p.freed := by
  cases hs : l.slot with
  | none => exact (ha.own_made hl hs).2.1
  | some i => exact (ha.shelf_made (hp.on_shelf hl hs).2).2

/-- Once its maker holds nothing, a resource on no shelf is released. -/
theorem Accounts.released (ha : Accounts p) {c : C} {h : H} (hc : (c, h) ∈ p.made) (hh : p.holds h = none)
    (hs : ∀ i k, p.shelf i ≠ some (c, k)) : c ∈ p.freed := by
  rcases ha.placed hc with ⟨i, k, hi⟩ | ⟨l, hl, -, -⟩ | hf
  · exact absurd hi (hs i k)
  · simp [hh] at hl
  · exact hf

/-- The accounts see a holder only when its resource is on no shelf. -/
theorem Accounts.of_own_iff (ha : Accounts p) (hshelf : p'.shelf = p.shelf) (hmade : p'.made = p.made)
    (hfreed : p'.freed = p.freed) (hown : ∀ h l, l.slot = none → (p'.holds h = some l ↔ p.holds h = some l)) :
    Accounts p' where
  shelf_made := by rw [hshelf, hmade, hfreed]; exact ha.shelf_made
  shelf_inj := by rw [hshelf]; exact ha.shelf_inj
  own_made := by
    intro h l hl hs
    rw [hshelf, hmade, hfreed]
    exact ha.own_made ((hown h l hs).1 hl) hs
  made_once := by rw [hmade]; exact ha.made_once
  freed_made := by rw [hmade, hfreed]; exact ha.freed_made
  freed_once := by rw [hfreed]; exact ha.freed_once
  placed := by
    intro c h hc
    rw [hmade] at hc
    rw [hshelf, hfreed]
    rcases ha.placed hc with h1 | ⟨l, hl, hs, rfl⟩ | h3
    · exact .inl h1
    · exact .inr (.inl ⟨l, (hown h l hs).2 hl, hs, rfl⟩)
    · exact .inr (.inr h3)

/-! ## The operations -/

section Operations

variable [DecidableEq I] [DecidableEq H]

/-- One operation of a holder. `valid` says which keys may go on a shelf. -/
inductive Move (valid : K → Prop) : Lending I H C K → Lending I H C K → Prop
  | borrow {p : Lending I H C K} {h i c k} : p.holds h = none → p.shelf i = some (c, k) → p.lent i = false →
      Move valid p { p with
        lent := Function.update p.lent i true, holds := Function.update p.holds h (some ⟨c, k, some i⟩) }
  | make {p : Lending I H C K} {h c} (k : K) : p.holds h = none → (∀ h', (c, h') ∉ p.made) →
      Move valid p { p with
        holds := Function.update p.holds h (some ⟨c, k, none⟩), made := (c, h) :: p.made }
  | seed {p : Lending I H C K} {h i c k} : p.holds h = none → (∀ h', (c, h') ∉ p.made) → valid k →
      p.shelf i = none → p.lent i = false →
      Move valid p { p with
        shelf := Function.update p.shelf i (some (c, k)), lent := Function.update p.lent i true,
        holds := Function.update p.holds h (some ⟨c, k, some i⟩), made := (c, h) :: p.made }
  | give_back {p : Lending I H C K} {h l i} : p.holds h = some l → l.slot = some i → p.shelf i ≠ none →
      Move valid p { p with lent := Function.update p.lent i false, holds := Function.update p.holds h none }
  | forget {p : Lending I H C K} {h l i} : p.holds h = some l → l.slot = some i → p.shelf i = none →
      Move valid p { p with holds := Function.update p.holds h none }
  | release {p : Lending I H C K} {h l} : p.holds h = some l → l.slot = none →
      Move valid p { p with holds := Function.update p.holds h none, freed := l.handle :: p.freed }

/-- The pool gives up shelf `i`, lent or not. -/
def retire (p : Lending I H C K) (i : I) : Lending I H C K :=
  { p with
    shelf := Function.update p.shelf i none, lent := Function.update p.lent i false,
    freed := match p.shelf i with
      | some (c, _) => c :: p.freed
      | none => p.freed }

/-- No operation of a holder empties or relabels a shelf. -/
theorem Move.shelf_kept (hm : Move valid p p') {i : I} {x : C × K} (hi : p.shelf i = some x) : p'.shelf i = some x := by
  cases hm with
  | @seed _ j _ _ _ _ _ hs _ =>
    have he : i ≠ j := fun e => by rw [e, hs] at hi; simp at hi
    simpa only [Function.update_of_ne he] using hi
  | _ => exact hi

end Operations

/-! ## The accounts after an operation -/

section Holder

variable [DecidableEq H]

/-- A holder that changes between two states in which it owns nothing. -/
theorem own_iff_update {h : H} {o : Option (Loan I C K)} (h0 : ∀ l, p.holds h = some l → l.slot ≠ none)
    (h1 : ∀ l, o = some l → l.slot ≠ none) (h' : H) (l : Loan I C K) (hs : l.slot = none) :
    Function.update p.holds h o h' = some l ↔ p.holds h' = some l := by
  by_cases hh : h' = h
  · subst hh
    rw [Function.update_self]
    exact ⟨fun e => absurd hs (h1 l e), fun e => absurd hs (h0 l e)⟩
  · rw [Function.update_of_ne hh]

theorem Accounts.make (ha : Accounts p) {h : H} {c : C} (l : Loan I C K) (hh : p.holds h = none)
    (hc : ∀ h', (c, h') ∉ p.made) (hl : l.handle = c) (hs : l.slot = none) :
    Accounts { p with holds := Function.update p.holds h (some l), made := (c, h) :: p.made } := by
  have hfree : c ∉ p.freed := fun hf => by
    obtain ⟨h', hm⟩ := ha.freed_made hf
    exact hc h' hm
  have hshelf : ∀ i k, p.shelf i ≠ some (c, k) := fun i k hi => by
    obtain ⟨⟨h', hm⟩, -⟩ := ha.shelf_made hi
    exact hc h' hm
  refine ⟨?_, ha.shelf_inj, ?_, ?_, ?_, ha.freed_once, ?_⟩
  · intro i c' k hi
    obtain ⟨⟨h', hm⟩, hf⟩ := ha.shelf_made hi
    exact ⟨⟨h', List.mem_cons_of_mem _ hm⟩, hf⟩
  · intro h' l' hl' hs'
    by_cases he : h' = h
    · subst he
      simp only [Function.update_self, Option.some.injEq] at hl'
      subst hl'
      rw [hl]
      exact ⟨List.mem_cons_self, hfree, hshelf⟩
    · simp only [Function.update_of_ne he] at hl'
      obtain ⟨hm, hf, hn⟩ := ha.own_made hl' hs'
      exact ⟨List.mem_cons_of_mem _ hm, hf, hn⟩
  · intro c' h1 h2 hm1 hm2
    simp only [List.mem_cons, Prod.mk.injEq] at hm1 hm2
    rcases hm1 with ⟨rfl, rfl⟩ | hm1 <;> rcases hm2 with ⟨e, rfl⟩ | hm2
    · rfl
    · exact absurd hm2 (hc h2)
    · exact absurd (e ▸ hm1) (hc h1)
    · exact ha.made_once hm1 hm2
  · intro c' hf
    obtain ⟨h', hm⟩ := ha.freed_made hf
    exact ⟨h', List.mem_cons_of_mem _ hm⟩
  · intro c' h' hm
    simp only [List.mem_cons, Prod.mk.injEq] at hm
    rcases hm with ⟨rfl, rfl⟩ | hm
    · exact .inr (.inl ⟨l, by simp, hs, hl⟩)
    · rcases ha.placed hm with h1 | ⟨l', hl', hs', he⟩ | h3
      · exact .inl h1
      · have hne : h' ≠ h := fun e => by rw [e, hh] at hl'; simp at hl'
        exact .inr (.inl ⟨l', by simp only [Function.update_of_ne hne]; exact hl', hs', he⟩)
      · exact .inr (.inr h3)

theorem Accounts.release (ha : Accounts p) {h : H} {l : Loan I C K} (hl : p.holds h = some l) (hs : l.slot = none) :
    Accounts { p with holds := Function.update p.holds h none, freed := l.handle :: p.freed } := by
  obtain ⟨hm, hf, hn⟩ := ha.own_made hl hs
  refine ⟨?_, ha.shelf_inj, ?_, ha.made_once, ?_, List.nodup_cons.2 ⟨hf, ha.freed_once⟩, ?_⟩
  · intro i c k hi
    obtain ⟨h1, h2⟩ := ha.shelf_made hi
    refine ⟨h1, fun hc => ?_⟩
    rcases List.mem_cons.1 hc with rfl | hc
    · exact hn i k hi
    · exact h2 hc
  · intro h' l' hl' hs'
    have hne : h' ≠ h := fun e => by subst e; simp at hl'
    simp only [Function.update_of_ne hne] at hl'
    obtain ⟨hm', hf', hn'⟩ := ha.own_made hl' hs'
    refine ⟨hm', fun hc => ?_, hn'⟩
    rcases List.mem_cons.1 hc with e | hc
    · exact hne (ha.made_once hm' (e ▸ hm))
    · exact hf' hc
  · intro c hc
    rcases List.mem_cons.1 hc with rfl | hc
    · exact ⟨h, hm⟩
    · exact ha.freed_made hc
  · intro c h' hc
    rcases ha.placed hc with h1 | ⟨l', hl', hs', he⟩ | h3
    · exact .inl h1
    · by_cases hh : h' = h
      · subst hh
        rw [hl, Option.some.injEq] at hl'
        exact .inr (.inr (by rw [← he, ← hl']; exact List.mem_cons_self))
      · exact .inr (.inl ⟨l', by simp only [Function.update_of_ne hh]; exact hl', hs', he⟩)
    · exact .inr (.inr (List.mem_cons_of_mem _ h3))

/-- A holder gives up what it has, and its shelf is no longer lent. -/
theorem Loans.drop (hp : Loans valid p) {h : H} {l : Loan I C K} {lent : I → Bool} {freed : List C}
    (hl : p.holds h = some l) (hlent : ∀ i, l.slot = some i → lent i = false)
    (hne : ∀ i, l.slot ≠ some i → lent i = p.lent i) :
    Loans valid { p with lent := lent, holds := Function.update p.holds h none, freed := freed } := by
  have hcases : ∀ {h' l'}, Function.update p.holds h none h' = some l' → h' ≠ h ∧ p.holds h' = some l' := by
    intro h' l' hl'
    have he : h' ≠ h := fun e => by subst e; simp at hl'
    exact ⟨he, by simpa only [Function.update_of_ne he] using hl'⟩
  refine ⟨?_, ?_, ?_, hp.valid_key⟩
  · intro h' l' i hl' hs'
    obtain ⟨he, hl1⟩ := hcases hl'
    have hi : l.slot ≠ some i := fun e => he (hp.one_holder hl1 hl hs' e)
    simp only [hne i hi]
    exact hp.on_shelf hl1 hs'
  · intro h1 h2 l1 l2 i hl1 hl2 hs1 hs2
    exact hp.one_holder (hcases hl1).2 (hcases hl2).2 hs1 hs2
  · intro i hi
    have hs : l.slot ≠ some i := fun e => by simp only [hlent i e] at hi; simp at hi
    simp only [hne i hs] at hi
    obtain ⟨h', l', hl', hs'⟩ := hp.borrowed hi
    have he : h' ≠ h := fun e => by
      rw [e, hl, Option.some.injEq] at hl'
      exact hs (hl' ▸ hs')
    exact ⟨h', l', by simp only [Function.update_of_ne he]; exact hl', hs'⟩

end Holder

variable [DecidableEq I] [DecidableEq H]

/-- An owner puts its resource on an empty shelf and borrows it. -/
theorem Accounts.shelve (ha : Accounts p) {h : H} {l : Loan I C K} {i : I} (k : K) (l' : Loan I C K)
    (hl : p.holds h = some l) (hs : l.slot = none) (hs' : l'.slot ≠ none) (hi : p.shelf i = none) :
    Accounts { p with
      shelf := Function.update p.shelf i (some (l.handle, k)), holds := Function.update p.holds h (some l') } := by
  obtain ⟨hm, hf, hn⟩ := ha.own_made hl hs
  -- what stands on shelf `j` now
  have hcases : ∀ j x, Function.update p.shelf i (some (l.handle, k)) j = some x →
      (j = i ∧ x = (l.handle, k)) ∨ (j ≠ i ∧ p.shelf j = some x) := by
    intro j x hj
    by_cases he : j = i
    · subst he
      simp only [Function.update_self, Option.some.injEq] at hj
      exact .inl ⟨rfl, hj.symm⟩
    · exact .inr ⟨he, by simpa only [Function.update_of_ne he] using hj⟩
  have hkeep : ∀ {j x}, p.shelf j = some x → Function.update p.shelf i (some (l.handle, k)) j = some x := by
    intro j x hj
    rw [Function.update_of_ne (fun e => by rw [e, hi] at hj; simp at hj)]
    exact hj
  refine ⟨?_, ?_, ?_, ha.made_once, ha.freed_made, ha.freed_once, ?_⟩
  · intro j c k' hj
    rcases hcases j _ hj with ⟨-, hx⟩ | ⟨-, hx⟩
    · simp only [Prod.mk.injEq] at hx
      rw [hx.1]
      exact ⟨⟨h, hm⟩, hf⟩
    · exact ha.shelf_made hx
  · intro j j' c k1 k2 hj hj'
    rcases hcases j _ hj with ⟨e1, hx⟩ | ⟨-, hx⟩ <;> rcases hcases j' _ hj' with ⟨e2, hx'⟩ | ⟨-, hx'⟩
    · rw [e1, e2]
    · simp only [Prod.mk.injEq] at hx
      exact absurd (hx.1 ▸ hx') (hn j' _)
    · simp only [Prod.mk.injEq] at hx'
      exact absurd (hx'.1 ▸ hx) (hn j _)
    · exact ha.shelf_inj hx hx'
  · intro h' l1 hl1 hs1
    by_cases he : h' = h
    · subst he
      simp only [Function.update_self, Option.some.injEq] at hl1
      exact absurd (hl1 ▸ hs1) hs'
    · simp only [Function.update_of_ne he] at hl1
      obtain ⟨hm1, hf1, hn1⟩ := ha.own_made hl1 hs1
      refine ⟨hm1, hf1, fun j k' hj => ?_⟩
      rcases hcases j _ hj with ⟨-, hx⟩ | ⟨-, hx⟩
      · simp only [Prod.mk.injEq] at hx
        exact he (ha.made_once hm1 (hx.1 ▸ hm))
      · exact hn1 j k' hx
  · intro c h' hc
    rcases ha.placed hc with ⟨j, k', hj⟩ | ⟨l1, hl1, hs1, he⟩ | h3
    · exact .inl ⟨j, k', hkeep hj⟩
    · by_cases hh : h' = h
      · subst hh
        rw [hl, Option.some.injEq] at hl1
        exact .inl ⟨i, k, by rw [← he, ← hl1]; simp⟩
      · exact .inr (.inl ⟨l1, by simp only [Function.update_of_ne hh]; exact hl1, hs1, he⟩)
    · exact .inr (.inr h3)

omit [DecidableEq H] in
theorem Accounts.retire (ha : Accounts p) (i : I) : Accounts (p.retire i) := by
  have hcases : ∀ {j x}, Function.update p.shelf i none j = some x → j ≠ i ∧ p.shelf j = some x := by
    intro j x hj
    have hne : j ≠ i := fun e => by subst e; simp at hj
    exact ⟨hne, by simpa only [Function.update_of_ne hne] using hj⟩
  cases hi : p.shelf i with
  | none =>
    have hsame : Function.update p.shelf i none = p.shelf := by
      rw [← hi, Function.update_eq_self]
    exact ha.of_own_iff (by simp only [Lending.retire]; exact hsame) rfl (by simp only [Lending.retire, hi])
      (fun _ _ _ => Iff.rfl)
  | some x =>
    obtain ⟨c, k⟩ := x
    obtain ⟨hm, hf⟩ := ha.shelf_made hi
    simp only [Lending.retire, hi]
    refine ⟨?_, fun hj hj' => ha.shelf_inj (hcases hj).2 (hcases hj').2, ?_, ha.made_once, ?_,
      List.nodup_cons.2 ⟨hf, ha.freed_once⟩, ?_⟩
    · intro j c' k' hj
      obtain ⟨hne, hj'⟩ := hcases hj
      obtain ⟨h1, h2⟩ := ha.shelf_made hj'
      refine ⟨h1, fun hc => ?_⟩
      rcases List.mem_cons.1 hc with rfl | hc
      · exact hne (ha.shelf_inj hj' hi)
      · exact h2 hc
    · intro h l hl hs
      obtain ⟨h1, h2, h3⟩ := ha.own_made hl hs
      refine ⟨h1, fun hc => ?_, fun j k' hj => h3 j k' (hcases hj).2⟩
      rcases List.mem_cons.1 hc with e | hc
      · exact h3 i k (e ▸ hi)
      · exact h2 hc
    · intro c' hc
      rcases List.mem_cons.1 hc with rfl | hc
      · exact hm
      · exact ha.freed_made hc
    · intro c' h hc
      rcases ha.placed hc with ⟨j, k', hj⟩ | h2 | h3
      · by_cases he : j = i
        · subst he
          rw [hi, Option.some.injEq, Prod.mk.injEq] at hj
          exact .inr (.inr (hj.1 ▸ List.mem_cons_self))
        · exact .inl ⟨j, k', by simpa only [Function.update_of_ne he] using hj⟩
      · exact .inr (.inl h2)
      · exact .inr (.inr (List.mem_cons_of_mem _ h3))

theorem Accounts.move (ha : Accounts p) (hm : Move valid p p') : Accounts p' := by
  cases hm with
  | borrow hh hc hb =>
    exact ha.of_own_iff rfl rfl rfl (own_iff_update (by simp [hh]) (by rintro l ⟨⟩; simp))
  | make k hh hc => exact ha.make _ hh hc rfl rfl
  | @seed h i c k hh hc hv hs hb =>
    have h1 := ha.make ⟨c, k, none⟩ hh hc rfl rfl
    have h2 := h1.shelve k ⟨c, k, some i⟩ (Function.update_self ..) rfl (by simp) hs
    exact h2.of_own_iff rfl rfl rfl (fun h' l _ => by simp only [Function.update_idem])
  | @give_back h l i hh hl hs =>
    exact ha.of_own_iff rfl rfl rfl (own_iff_update (by rw [hh]; rintro _ ⟨⟩; simp [hl]) (by simp))
  | @forget h l i hh hl hs =>
    exact ha.of_own_iff rfl rfl rfl (own_iff_update (by rw [hh]; rintro _ ⟨⟩; simp [hl]) (by simp))
  | release hh hl => exact ha.release hh hl

/-! ## The loans after an operation -/

/-- A holder with nothing gets the resource of a shelf that is not lent, perhaps
one just filled. -/
theorem Loans.lend (hp : Loans valid p) {h : H} {i : I} {c : C} {k : K} {shelf : I → Option (C × K)}
    {made : List (C × H)} (hh : p.holds h = none) (hb : p.lent i = false) (hi : shelf i = some (c, k)) (hv : valid k)
    (hne : ∀ j, j ≠ i → shelf j = p.shelf j) :
    Loans valid { p with
      shelf := shelf, lent := Function.update p.lent i true,
      holds := Function.update p.holds h (some ⟨c, k, some i⟩), made := made } := by
  -- nobody else borrows from a shelf that is not lent
  have hother : ∀ {h' l j}, p.holds h' = some l → l.slot = some j → h' ≠ h ∧ j ≠ i := by
    intro h' l j hl hs
    refine ⟨fun e => by rw [e, hh] at hl; simp at hl, fun e => ?_⟩
    have := (hp.on_shelf hl hs).1
    rw [e, hb] at this
    simp at this
  have hcases : ∀ {h' l j}, Function.update p.holds h (some ⟨c, k, some i⟩) h' = some l → l.slot = some j →
      (h' = h ∧ l = ⟨c, k, some i⟩ ∧ j = i) ∨ (p.holds h' = some l ∧ j ≠ i) := by
    intro h' l j hl hs
    by_cases he : h' = h
    · subst he
      simp only [Function.update_self, Option.some.injEq] at hl
      subst hl
      exact .inl ⟨rfl, rfl, by simpa using hs.symm⟩
    · simp only [Function.update_of_ne he] at hl
      exact .inr ⟨hl, (hother hl hs).2⟩
  refine ⟨?_, ?_, ?_, ?_⟩
  · intro h' l j hl hs
    rcases hcases hl hs with ⟨-, rfl, rfl⟩ | ⟨hl, hj⟩
    · exact ⟨by simp, hi⟩
    · simp only [Function.update_of_ne hj, hne j hj]
      exact hp.on_shelf hl hs
  · intro h1 h2 l1 l2 j hl1 hl2 hs1 hs2
    rcases hcases hl1 hs1 with ⟨e1, -, hj1⟩ | ⟨hl1, hj1⟩ <;> rcases hcases hl2 hs2 with ⟨e2, -, hj2⟩ | ⟨hl2, hj2⟩
    · rw [e1, e2]
    · exact absurd hj1 hj2
    · exact absurd hj2 hj1
    · exact hp.one_holder hl1 hl2 hs1 hs2
  · intro j hj
    by_cases he : j = i
    · exact ⟨h, ⟨c, k, some i⟩, by simp, by rw [he]⟩
    · simp only [Function.update_of_ne he] at hj
      obtain ⟨h', l, hl, hs⟩ := hp.borrowed hj
      exact ⟨h', l, by simp only [Function.update_of_ne (hother hl hs).1]; exact hl, hs⟩
  · intro j c' k' hj
    by_cases he : j = i
    · subst he
      simp only [hi, Option.some.injEq, Prod.mk.injEq] at hj
      exact hj.2 ▸ hv
    · simp only [hne j he] at hj
      exact hp.valid_key hj

theorem Loans.move (hp : Loans valid p) (hm : Move valid p p') : Loans valid p' := by
  cases hm with
  | borrow hh hc hb => exact hp.lend hh hb hc (hp.valid_key hc) (fun _ _ => rfl)
  | @make h c k hh hc =>
    have hcases : ∀ {h' l i}, Function.update p.holds h (some ⟨c, k, none⟩) h' = some l → l.slot = some i →
        p.holds h' = some l := by
      intro h' l i hl hs
      have he : h' ≠ h := fun e => by
        subst e
        simp only [Function.update_self, Option.some.injEq] at hl
        rw [← hl] at hs
        simp at hs
      simpa only [Function.update_of_ne he] using hl
    refine ⟨fun hl hs => hp.on_shelf (hcases hl hs) hs,
      fun hl hl' hs hs' => hp.one_holder (hcases hl hs) (hcases hl' hs') hs hs', ?_, hp.valid_key⟩
    intro i hi
    obtain ⟨h', l, hl, hs⟩ := hp.borrowed hi
    have he : h' ≠ h := fun e => by rw [e, hh] at hl; simp at hl
    exact ⟨h', l, by simp only [Function.update_of_ne he]; exact hl, hs⟩
  | seed hh hc hv hs hb =>
    exact hp.lend hh hb (Function.update_self ..) hv (fun j hj => Function.update_of_ne hj ..)
  | @give_back h l i hh hi hs =>
    refine hp.drop hh ?_ ?_
    · intro j hj
      have e : i = j := by simpa using hi.symm.trans hj
      rw [← e, Function.update_self]
    · intro j hj
      have e : j ≠ i := fun e => hj (e ▸ hi)
      rw [Function.update_of_ne e]
  | forget hh hi hs =>
    -- nothing lent stands on an empty shelf
    have := (hp.on_shelf hh hi).2
    simp [hs] at this
  | release hh hi => exact hp.drop hh (by simp [hi]) (fun _ _ => rfl)

end Lending

end NginxZstd.Lib
