import Mathlib.Data.List.Forall2
/-!
# Layered configuration

A configuration file is a tree of blocks. The parse runs its directives from top to
bottom, each on the record of the block it stands in and on a state the whole file
shares. A second walk completes every record from the completed record of the block
around it; the record of the file itself has nothing around it and stays as parsed.

What holds of the shared state and of every record follows from what one directive
and one completion do: `parse_keeps`, `parse_origin`, `complete_keeps` and `in_force`.
-/

namespace NginxZstd.Lib

/-- The contents of a block in file order. -/
inductive Source (K D : Type) where
  | done
  | directive (d : D) (rest : Source K D)
  | block (kind : K) (body rest : Source K D)

/-- The records of the blocks inside a block, each with those inside of it. -/
inductive Forest (C : Type) where
  | done
  | block (own : C) (inside rest : Forest C)

/-- A configuration language: the record a block starts with, what a directive does in
a block of a kind, and how a record is completed from the one around it. -/
structure Layers (K D M C E : Type) where
  create : C
  run : K → D → M → C → Except E (M × C)
  merge : M → (prev conf : C) → Except E C

namespace Source

variable {K D : Type}

/-- The directives that stand in a block itself. -/
def own : Source K D → List D
  | .done => []
  | .directive d rest => d :: rest.own
  | .block _ _ rest => rest.own

/-- Every block inside as the directives of its own and of the blocks around it, from
the inside out, ending in `above`. -/
def chains (above : List (List D)) : Source K D → List (List (List D))
  | .done => []
  | .directive _ rest => rest.chains above
  | .block _ body rest => (body.own :: above) :: (body.chains (body.own :: above) ++ rest.chains above)

end Source

namespace Forest

variable {C : Type}

def toList : Forest C → List C
  | .done => []
  | .block own inside rest => own :: (inside.toList ++ rest.toList)

/-- Every block as the list of records from its own outwards, ending in `above`. -/
def chains (above : List C) : Forest C → List (List C)
  | .done => []
  | .block own inside rest => (own :: above) :: (inside.chains (own :: above) ++ rest.chains above)

theorem forall_toList_block {p : C → Prop} {own : C} {inside rest : Forest C} :
    (∀ c ∈ (Forest.block own inside rest).toList, p c) ↔
      p own ∧ (∀ c ∈ inside.toList, p c) ∧ ∀ c ∈ rest.toList, p c := by
  simp only [toList, List.forall_mem_cons, List.forall_mem_append]

end Forest

namespace Layers

variable {K D M C E : Type} (L : Layers K D M C E)

/-- The parse of a block of a kind that has come to the record `own`. -/
def parse (kind : K) : M → C → Source K D → Except E (M × C × Forest C)
  | m, own, .done => .ok (m, own, .done)
  | m, own, .directive d rest =>
    match L.run kind d m own with
    | .error e => .error e
    | .ok (m, own) => parse kind m own rest
  | m, own, .block k body rest =>
    match parse k m L.create body with
    | .error e => .error e
    | .ok (m, inner, inside) =>
      match parse kind m own rest with
      | .error e => .error e
      | .ok (m, own, after) => .ok (m, own, .block inner inside after)

/-- The completion of the blocks inside a block whose record is `prev`. -/
def complete (m : M) (prev : C) : Forest C → Except E (Forest C)
  | .done => .ok .done
  | .block own inside rest =>
    match L.merge m prev own with
    | .error e => .error e
    | .ok conf =>
      match complete m conf inside with
      | .error e => .error e
      | .ok inside =>
        match complete m prev rest with
        | .error e => .error e
        | .ok rest => .ok (.block conf inside rest)

/-! ## Taking a walk apart -/

variable {L}

theorem parse_directive {kind : K} {d : D} {m m' : M} {own own' : C} {rest : Source K D} {f : Forest C}
    (h : L.parse kind m own (.directive d rest) = .ok (m', own', f)) :
    ∃ m1 own1, L.run kind d m own = .ok (m1, own1) ∧ L.parse kind m1 own1 rest = .ok (m', own', f) := by
  simp only [parse] at h
  split at h
  · cases h
  · next m1 own1 h1 => exact ⟨m1, own1, h1, h⟩

theorem parse_block {kind k : K} {m m' : M} {own own' : C} {body rest : Source K D} {f : Forest C}
    (h : L.parse kind m own (.block k body rest) = .ok (m', own', f)) :
    ∃ m1 inner inside after, L.parse k m L.create body = .ok (m1, inner, inside) ∧
      L.parse kind m1 own rest = .ok (m', own', after) ∧ f = .block inner inside after := by
  simp only [parse] at h
  split at h
  · cases h
  next m1 inner inside h1 =>
  split at h
  · cases h
  next m2 own2 after h2 =>
  cases h
  exact ⟨m1, inner, inside, after, h1, h2, rfl⟩

theorem complete_block {m : M} {prev own : C} {inside rest f : Forest C}
    (h : L.complete m prev (.block own inside rest) = .ok f) :
    ∃ conf inside' rest', L.merge m prev own = .ok conf ∧ L.complete m conf inside = .ok inside' ∧
      L.complete m prev rest = .ok rest' ∧ f = .block conf inside' rest' := by
  simp only [complete] at h
  split at h
  · cases h
  next conf h1 =>
  split at h
  · cases h
  next inside' h2 =>
  split at h
  · cases h
  next rest' h3 =>
  cases h
  exact ⟨conf, inside', rest', h1, h2, h3, rfl⟩

/-! ## What a parse keeps -/

/-- A relation between the shared state and a record that no directive breaks, neither
for the record it runs on nor for any other. -/
structure Keeps (L : Layers K D M C E) (P : M → C → Prop) : Prop where
  create : ∀ m, P m L.create
  run : ∀ {k d m c m' c'}, L.run k d m c = .ok (m', c') → P m c → P m' c'
  frame : ∀ {k d m c m' c'}, L.run k d m c = .ok (m', c') → ∀ x, P m x → P m' x

theorem parse_frame {P : M → C → Prop} (hP : L.Keeps P) (src : Source K D) :
    ∀ {kind m own m' own' f}, L.parse kind m own src = .ok (m', own', f) → ∀ x, P m x → P m' x := by
  induction src with
  | done =>
    intro kind m own m' own' f h x hx
    cases h
    exact hx
  | directive d rest ih =>
    intro kind m own m' own' f h x hx
    obtain ⟨m1, own1, h1, h2⟩ := parse_directive h
    exact ih h2 x (hP.frame h1 x hx)
  | block k body rest ihb ihr =>
    intro kind m own m' own' f h x hx
    obtain ⟨m1, inner, inside, after, h1, h2, rfl⟩ := parse_block h
    exact ihr h2 x (ihb h1 x hx)

/-- The relation holds of every record of a parsed file. -/
theorem parse_keeps {P : M → C → Prop} (hP : L.Keeps P) (src : Source K D) :
    ∀ {kind m own m' own' f}, L.parse kind m own src = .ok (m', own', f) → P m own →
      P m' own' ∧ ∀ c ∈ f.toList, P m' c := by
  induction src with
  | done =>
    intro kind m own m' own' f h hown
    cases h
    exact ⟨hown, nofun⟩
  | directive d rest ih =>
    intro kind m own m' own' f h hown
    obtain ⟨m1, own1, h1, h2⟩ := parse_directive h
    exact ih h2 (hP.run h1 hown)
  | block k body rest ihb ihr =>
    intro kind m own m' own' f h hown
    obtain ⟨m1, inner, inside, after, h1, h2, rfl⟩ := parse_block h
    obtain ⟨hinner, hinside⟩ := ihb h1 (hP.create m)
    obtain ⟨hown', hafter⟩ := ihr h2 (parse_frame hP body h1 own hown)
    -- what the body's records had, the rest of the block leaves them
    have hkeep : ∀ c, P m1 c → P m' c := parse_frame hP rest h2
    exact ⟨hown', Forest.forall_toList_block.2
      ⟨hkeep inner hinner, fun c hc => hkeep c (hinside c hc), hafter⟩⟩

/-- Where a completion keeps `P` and gives `Q`, every completed record has both. -/
theorem complete_keeps {m : M} {P Q : C → Prop}
    (hm : ∀ {prev own conf}, P prev → P own → L.merge m prev own = .ok conf → P conf ∧ Q conf) (f : Forest C) :
    ∀ {prev f'}, P prev → (∀ c ∈ f.toList, P c) → L.complete m prev f = .ok f' →
      ∀ c ∈ f'.toList, P c ∧ Q c := by
  induction f with
  | done =>
    intro prev f' _ _ h
    cases h
    exact nofun
  | block own inside rest ihi ihr =>
    intro prev f' hprev hf h
    obtain ⟨conf, inside', rest', h1, h2, h3, rfl⟩ := complete_block h
    obtain ⟨hown, hinside, hrest⟩ := Forest.forall_toList_block.1 hf
    have hconf := hm hprev hown h1
    exact Forest.forall_toList_block.2 ⟨hconf, ihi hconf.1 hinside h2, ihr hprev hrest h3⟩

/-- A setting is what the nearest block states of it, or else the default. The record of
the file need not hold a value, so both sides are read through the default. -/
theorem complete_nearest {m : M} {V : Type} {v : C → Option V} {default : V}
    (hm : ∀ {prev own conf}, L.merge m prev own = .ok conf →
      (v conf).getD default = (v own).getD ((v prev).getD default)) (f : Forest C) :
    ∀ {prev f' above}, (v prev).getD default = (above.findSome? v).getD default → L.complete m prev f = .ok f' →
      f'.toList.map (fun c => (v c).getD default) =
        (f.chains above).map fun chain => (chain.findSome? v).getD default := by
  induction f with
  | done =>
    intro prev f' above _ h
    cases h
    rfl
  | block own inside rest ihi ihr =>
    intro prev f' above hprev h
    obtain ⟨conf, inside', rest', h1, h2, h3, rfl⟩ := complete_block h
    -- the completed record stands for the chain that ends in its own block
    have hconf : (v conf).getD default = ((own :: above).findSome? v).getD default := by
      rw [hm h1, hprev, List.findSome?_cons]
      cases v own <;> rfl
    simp only [Forest.toList, Forest.chains, List.map_cons, List.map_append, hconf, ihi hconf h2, ihr hprev h3]

/-! ## Records and the directives behind them -/

/-- Where every record has what is read off its directives, so has a chain of them. -/
theorem findSome_chain {V : Type} {v : C → Option V} {w : List D → Option V} {chain : List (List D)} {cs : List C}
    (h : List.Forall₂ (fun ds c => v c = w ds) chain cs) : cs.findSome? v = chain.findSome? w := by
  induction h with
  | nil => rfl
  | cons hc _ ih => rw [List.findSome?_cons, List.findSome?_cons, hc, ih]

/-- The record of a block stands in `R` to the block's own directives, whatever the rest
of the file does to the shared state. -/
theorem parse_chains {R : List D → C → Prop} (hcreate : R [] L.create)
    (hrun : ∀ {k d m c m' c' ds}, L.run k d m c = .ok (m', c') → R ds c → R (ds ++ [d]) c') (src : Source K D) :
    ∀ {kind m own m' own' f ds}, L.parse kind m own src = .ok (m', own', f) → R ds own →
      R (ds ++ src.own) own' ∧ ∀ {aboveD aboveC}, List.Forall₂ R aboveD aboveC →
        List.Forall₂ (List.Forall₂ R) (src.chains aboveD) (f.chains aboveC) := by
  induction src with
  | done =>
    intro kind m own m' own' f ds h hown
    cases h
    rw [Source.own, List.append_nil]
    exact ⟨hown, fun _ => .nil⟩
  | directive d rest ih =>
    intro kind m own m' own' f ds h hown
    obtain ⟨m1, own1, h1, h2⟩ := parse_directive h
    have := ih h2 (hrun h1 hown)
    rwa [List.append_assoc] at this
  | block k body rest ihb ihr =>
    intro kind m own m' own' f ds h hown
    obtain ⟨m1, inner, inside, after, h1, h2, rfl⟩ := parse_block h
    obtain ⟨hinner, hinside⟩ := ihb h1 hcreate
    obtain ⟨hown', hafter⟩ := ihr h2 hown
    refine ⟨hown', fun habove => ?_⟩
    have hchain := List.Forall₂.cons hinner habove
    exact .cons hchain (List.rel_append (hinside hchain) (hafter habove))

/-- What is in force in every block of a loaded file is what the nearest block says that
says anything: `w` reads a setting off the directives of a block, `v` off its record. -/
theorem in_force {V : Type} {v : C → Option V} {w : List D → Option V} {default : V} (hcreate : v L.create = w [])
    (hrun : ∀ {k d m c m' c' ds}, L.run k d m c = .ok (m', c') → v c = w ds → v c' = w (ds ++ [d]))
    (hmerge : ∀ {m prev own conf}, L.merge m prev own = .ok conf →
      (v conf).getD default = (v own).getD ((v prev).getD default))
    {kind : K} {m m' : M} {file : Source K D} {top : C} {f f' : Forest C}
    (hparse : L.parse kind m L.create file = .ok (m', top, f)) (hcomplete : L.complete m' top f = .ok f') :
    f'.toList.map (fun c => (v c).getD default) =
      (file.chains [file.own]).map fun chain => (chain.findSome? w).getD default := by
  -- the records behind the directives, block by block
  obtain ⟨hown, hchains⟩ := @parse_chains _ _ _ _ _ L (fun ds c => v c = w ds) hcreate hrun
    file _ _ _ _ _ _ [] hparse hcreate
  rw [List.nil_append] at hown
  have hrec := hchains (.cons hown .nil)
  -- the walk over the records
  have htop : (v top).getD default = ([top].findSome? v).getD default := by
    rw [List.findSome?_singleton]
  rw [complete_nearest hmerge f htop hcomplete]
  generalize f.chains [top] = chains, file.chains [file.own] = blocks at hrec ⊢
  induction hrec with
  | nil => rfl
  | cons hc _ ih =>
    have hsome := findSome_chain hc
    rw [List.map_cons, List.map_cons, ih, hsome]

end Layers

theorem forall₂_of_map_eq {α β γ : Type} {f : α → γ} {g : β → γ} {xs : List α} {ys : List β}
    (h : xs.map f = ys.map g) : List.Forall₂ (fun x y => f x = g y) xs ys := by
  have heq : List.Forall₂ Eq (xs.map f) (ys.map g) := by rw [h, List.forall₂_eq_eq_eq]
  exact List.forall₂_map_left_iff.1 (List.forall₂_map_right_iff.1 heq)

end NginxZstd.Lib
