import Mathlib.Logic.Relation
import Mathlib.Data.Set.Finite.Lattice
/-!
# Runs of a state machine

A machine is a partial step function `S → A → Option S`. A run is any finite
sequence of its steps, taken while a condition on the state and the action
before each step holds; the condition `Any` leaves every step in.

A supply is what the environment answers, one action for each step and without end.
-/

namespace NginxZstd.Lib

variable {S A : Type}

/-- No condition on the steps of a run. -/
def Any (_ : S) (_ : A) : Prop := True

/-- One step of `step` that meets `ok`. -/
def Moves (step : S → A → Option S) (ok : S → A → Prop) (s s' : S) : Prop :=
  ∃ a, ok s a ∧ step s a = some s'

/-- `s'` is reached from `s` by steps that all meet `ok`. -/
def Reaches (step : S → A → Option S) (ok : S → A → Prop) : S → S → Prop :=
  Relation.ReflTransGen (Moves step ok)

/-- The run of the given actions. -/
def run (step : S → A → Option S) : S → List A → Option S
  | s, [] => some s
  | s, a :: as => (step s a).bind fun s' => run step s' as

/-- Every step of that run meets `ok`. -/
def Meets (step : S → A → Option S) (ok : S → A → Prop) : S → List A → Prop
  | _, [] => True
  | s, a :: as => ok s a ∧ match step s a with
    | some s' => Meets step ok s' as
    | none => True

variable {step : S → A → Option S} {ok : S → A → Prop}

instance Meets.decidable [∀ s a, Decidable (ok s a)] : ∀ s as, Decidable (Meets step ok s as)
  | _, [] => .isTrue trivial
  | s, a :: as =>
    @instDecidableAnd _ _ inferInstance (match step s a with
      | some s' => Meets.decidable s' as
      | none => .isTrue trivial)

theorem Reaches.refl (s : S) : Reaches step ok s s := Relation.ReflTransGen.refl

theorem Reaches.snoc {s t u : S} {a : A} (h : Reaches step ok s t) (hok : ok t a) (hs : step t a = some u) :
    Reaches step ok s u :=
  Relation.ReflTransGen.tail h ⟨a, hok, hs⟩

theorem Reaches.trans {s t u : S} (h : Reaches step ok s t) (h' : Reaches step ok t u) : Reaches step ok s u :=
  Relation.ReflTransGen.trans h h'

theorem Reaches.mono {ok' : S → A → Prop} (hok : ∀ s a, ok s a → ok' s a) {s s' : S} (h : Reaches step ok s s') :
    Reaches step ok' s s' := by
  induction h with
  | refl => exact Reaches.refl s
  | tail _ hm ih =>
    obtain ⟨a, ha, hs⟩ := hm
    exact ih.snoc (hok _ a ha) hs

/-- What every step preserves, every run preserves. -/
theorem Reaches.invariant (I : S → Prop) {s s' : S} (h : Reaches step ok s s') (h0 : I s)
    (hs : ∀ t a u, I t → ok t a → step t a = some u → I u) : I s' := by
  induction h with
  | refl => exact h0
  | tail _ hm ih =>
    obtain ⟨a, hok, ha⟩ := hm
    exact hs _ a _ ih hok ha

theorem meets_any (s : S) (as : List A) : Meets step Any s as := by
  induction as generalizing s with
  | nil => trivial
  | cons a as ih =>
    refine ⟨trivial, ?_⟩
    split
    · exact ih _
    · trivial

theorem reaches_of_run {as : List A} {s s' : S} (h : run step s as = some s') (hm : Meets step ok s as) :
    Reaches step ok s s' := by
  induction as generalizing s with
  | nil =>
    obtain rfl : s = s' := by simpa [run] using h
    exact Reaches.refl s
  | cons a as ih =>
    obtain ⟨t, ht, hr⟩ := Option.bind_eq_some_iff.1 h
    obtain ⟨hok, hm⟩ := hm
    rw [ht] at hm
    exact ((Reaches.refl s).snoc hok ht).trans (ih hr hm)

/-! ## Runs on a supply -/

/-- The first `n` actions of a supply. -/
def supplied (supply : Nat → A) (n : Nat) : List A := (List.range n).map supply

theorem supplied_succ (supply : Nat → A) (n : Nat) :
    supplied supply (n + 1) = supply 0 :: supplied (fun i => supply (i + 1)) n := by
  rw [supplied, List.range_succ_eq_map, List.map_cons, List.map_map]
  rfl

/-- A machine halts when each of its steps halts it, brings it closer to the end or was
idle, and only finitely many actions of the supply are idle. -/
theorem halts_of_supply {I Halted : S → Prop} {idle : A → Prop} {left : S → Nat}
    (hstep : ∀ s a, I s → ∃ s', step s a = some s' ∧
      (Halted s' ∨ I s' ∧ (left s' < left s ∨ idle a ∧ left s' = left s)))
    {supply : Nat → A} (hidle : {i | idle (supply i)}.Finite) {s : S} (hs : I s) :
    ∃ n s', run step s (supplied supply n) = some s' ∧ Halted s' := by
  obtain ⟨last, hlast⟩ := hidle.bddAbove
  obtain ⟨bound, hbound⟩ : ∃ bound, ∀ i, idle (supply i) → i < bound := ⟨last + 1, fun i hi => Nat.lt_succ_of_le (hlast hi)⟩
  clear hlast hidle
  -- on the idle actions that may come and the way that is left
  induction hm : bound + left s using Nat.strong_induction_on generalizing s supply bound with
  | _ m ih =>
    obtain ⟨t, ht, hhalt | ⟨hI, hmove⟩⟩ := hstep s (supply 0) hs
    · exact ⟨1, t, by simp [supplied, run, ht], hhalt⟩
    · have hrest : ∀ i, idle (supply (i + 1)) → i < bound - 1 := fun i hi => by
        have := hbound (i + 1) hi
        omega
      have hless : bound - 1 + left t < m := by
        rcases hmove with hlt | ⟨hi, heq⟩
        · omega
        · have := hbound 0 hi
          omega
      obtain ⟨n, s', hrun, hhalt⟩ := ih _ hless hI (bound - 1) hrest rfl
      refine ⟨n + 1, s', ?_, hhalt⟩
      rw [supplied_succ, run, ht]
      exact hrun

end NginxZstd.Lib
