import NginxZstd.Config.Nearest
import NginxZstd.Static.Handler
/-!
# Configuring the static module

The two directives of the module over the tree of blocks, and its postconfiguration,
which leaves the handler out of a configuration that nowhere enables it. Requests are
answered as the nearest block around them says, be the handler installed or not; and a
configuration that is not warned about never stands aside for a filter that is not there.
-/

namespace NginxZstd

open Lib

/-! ## The source -/

/-- Why the module refuses a configuration: with a text of `ngx_conf_set_enum_slot`, or
like the filter module. -/
inductive StaticError where
  | enum_value (value : Bytes)
  | setting (e : SettingError)

/-- `ngx_http_zstd_static_commands`. -/
inductive StaticSetting where
  | zstd_static (arg : Bytes)
  | zstd_static_dict_bypass (arg : Bytes)

/-- `ngx_http_zstd_static_main_conf_t`, without the scratch of the probe. -/
structure StaticMain where
  any_enabled : Bool
  dict_bypass_enabled : Bool

/-- `ngx_http_zstd_static_conf_t` before it is merged, with `none` for
`NGX_CONF_UNSET_UINT`. -/
structure RawStatic where
  enable : Option StaticMode
  dict_bypass : Int

/-- `ngx_http_zstd_static_create_main_conf`. -/
def static_create_main_conf : StaticMain := ⟨false, false⟩

/-- `ngx_http_zstd_static_create_loc_conf`. -/
def static_create_loc_conf : RawStatic := ⟨none, conf_unset⟩

/-- The values of `zstd_static`. -/
def zstd_static_modes : List (Bytes × StaticMode) := [(str "off", .off), (str "on", .on), (str "always", .always)]

/-- `ngx_conf_set_enum_slot`. -/
def conf_set_enum_slot {V : Type} (post : List (Bytes × V)) (field : Option V) (arg : Bytes) : Except StaticError V :=
  if field.isSome then .error (.setting .is_duplicate)
  else
    match post.find? fun e => equals_nocase arg e.1 with
    | some e => .ok e.2
    | none => .error (.enum_value arg)

/-- `ngx_http_zstd_static_set_enable_slot`. -/
def static_set_enable_slot (zsmcf : StaticMain) (field : Option StaticMode) (arg : Bytes) :
    Except StaticError (StaticMain × StaticMode) := do
  let enable ← conf_set_enum_slot zstd_static_modes field arg
  -- the slot takes the value in any case, this test does not
  if arg = str "off" then return (zsmcf, enable)
  return ({ zsmcf with any_enabled := true }, enable)

/-- `ngx_http_zstd_static_set_dict_bypass_slot`. -/
def static_set_dict_bypass_slot (zsmcf : StaticMain) (field : Int) (arg : Bytes) :
    Except StaticError (StaticMain × Int) := do
  let dict_bypass ← (conf_set_flag_slot field arg).mapError .setting
  if equals_nocase arg (str "on") then return ({ zsmcf with dict_bypass_enabled := true }, dict_bypass)
  return (zsmcf, dict_bypass)

/-- Both directives may stand in the three contexts, and not in an `if`. -/
def static_allowed (kind : BlockKind) : Bool := kind = .http ∨ kind = .server ∨ kind = .location

def static_conf_handler (kind : BlockKind) (d : StaticSetting) (zsmcf : StaticMain) (conf : RawStatic) :
    Except StaticError (StaticMain × RawStatic) :=
  if static_allowed kind then
    match d with
    | .zstd_static arg => do
      let (zsmcf, enable) ← static_set_enable_slot zsmcf conf.enable arg
      return (zsmcf, { conf with enable := some enable })
    | .zstd_static_dict_bypass arg => do
      let (zsmcf, dict_bypass) ← static_set_dict_bypass_slot zsmcf conf.dict_bypass arg
      return (zsmcf, { conf with dict_bypass })
  else .error (.setting .not_allowed_here)

/-- `ngx_http_zstd_static_merge_loc_conf`. -/
def static_merge_loc_conf (prev conf : RawStatic) : RawStatic where
  enable := some (conf.enable.getD (prev.enable.getD .off))
  dict_bypass := merge_value conf.dict_bypass prev.dict_bypass 0

/-- The configuration language of the module. -/
def static_settings : Layers BlockKind StaticSetting StaticMain RawStatic StaticError where
  create := static_create_loc_conf
  run := static_conf_handler
  merge _ prev conf := .ok (static_merge_loc_conf prev conf)

structure StaticConfiguration where
  zsmcf : StaticMain
  http : RawStatic
  parsed : Forest RawStatic
  merged : Forest RawStatic

def load_static (file : Source BlockKind StaticSetting) : Except StaticError StaticConfiguration := do
  let (zsmcf, http, parsed) ← static_settings.parse .http static_create_main_conf static_create_loc_conf file
  let merged ← static_settings.complete zsmcf http parsed
  return ⟨zsmcf, http, parsed, merged⟩

/-- What `ngx_http_zstd_static_init` leaves: whether it succeeds, whether the handler is
among those of the content phase, and whether the operator is warned. -/
structure StaticInit where
  ok : Bool
  registered : Bool
  warned : Bool

/-- `ngx_http_zstd_static_init` with the names of the cycle's modules; `push` is the
answer of `ngx_array_push`. -/
def static_init (zsmcf : StaticMain) (modules : List Bytes) (push : Bool) : StaticInit :=
  if !zsmcf.any_enabled then ⟨true, false, false⟩
  else
    let filter_present := modules.any fun name => name == str "ngx_http_zstd_filter_module"
    let warned := zsmcf.dict_bypass_enabled && !filter_present
    if push then ⟨true, true, warned⟩ else ⟨false, false, warned⟩

/-- A merged conf as the handler reads it. -/
def RawStatic.static_conf (conf : RawStatic) : StaticConf := ⟨conf.enable.getD .off, conf.dict_bypass ≠ 0⟩

/-- The content phase, as far as this module goes. -/
def run_static_handler (registered chained : Bool) (clcf : Option CoreLocConf) (zscf : StaticConf)
    (disk : Bytes → Sidecar) (r : Request) (resp : Response) : Except Abort (Routing × Response) :=
  if registered then static_handler chained clcf zscf disk r resp else .ok (.declined, resp)

/-! ## What a directive does -/

variable {zsmcf zsmcf' : StaticMain} {conf conf' : RawStatic}

theorem conf_set_enum_slot_ok {V : Type} {post : List (Bytes × V)} {field : Option V} {arg : Bytes} {v : V}
    (h : conf_set_enum_slot post field arg = .ok v) :
    field = none ∧ (post.find? fun e => equals_nocase arg e.1).map Prod.snd = some v := by
  unfold conf_set_enum_slot at h
  split at h
  · cases h
  next hf =>
  have hnone : field = none := by simpa using hf
  split at h
  · next e he =>
    cases h
    exact ⟨hnone, by rw [he]; rfl⟩
  · cases h

theorem static_set_enable_slot_ok {field : Option StaticMode} {arg : Bytes} {v : StaticMode}
    (h : static_set_enable_slot zsmcf field arg = .ok (zsmcf', v)) :
    field = none ∧ (zstd_static_modes.find? fun e => equals_nocase arg e.1).map Prod.snd = some v ∧
      (zsmcf' = zsmcf ∧ v = .off ∨ zsmcf' = { zsmcf with any_enabled := true }) := by
  obtain ⟨enable, henable, h⟩ := bind_ok h
  obtain ⟨hfield, hmode⟩ := conf_set_enum_slot_ok henable
  split at h
  · next harg =>
    cases h
    refine ⟨hfield, hmode, .inl ⟨rfl, ?_⟩⟩
    have hoff : (zstd_static_modes.find? fun e => equals_nocase (str "off") e.1).map Prod.snd = some .off := by decide
    rw [harg, hoff] at hmode
    exact (Option.some.inj hmode).symm
  · cases h
    exact ⟨hfield, hmode, .inr rfl⟩

theorem static_set_dict_bypass_slot_ok {field : Int} {arg : Bytes} {v : Int}
    (h : static_set_dict_bypass_slot zsmcf field arg = .ok (zsmcf', v)) :
    field = conf_unset ∧ flagOf arg = some v ∧
      (zsmcf' = zsmcf ∧ v = 0 ∨ zsmcf' = { zsmcf with dict_bypass_enabled := true } ∧ v = 1) := by
  obtain ⟨flag, hflag, h⟩ := bind_ok h
  have hslot : conf_set_flag_slot field arg = .ok flag := by
    cases hs : conf_set_flag_slot field arg with
    | error e =>
      rw [hs] at hflag
      cases hflag
    | ok v =>
      rw [hs] at hflag
      exact congrArg Except.ok (Except.ok.inj hflag)
  have hvalue := flagOf_slot hslot
  refine ⟨(conf_set_flag_slot_ok hslot).1, ?_⟩
  split at h
  · next hon =>
    cases h
    have hone : flagOf arg = some 1 := if_pos hon
    rw [hone] at hvalue
    exact ⟨hvalue ▸ hone, .inr ⟨rfl, (Option.some.inj hvalue).symm⟩⟩
  · next hon =>
    cases h
    have hzero : v = 0 := by
      have hoff := hvalue
      rw [flagOf, if_neg hon] at hoff
      split at hoff
      · exact (Option.some.inj hoff).symm
      · cases hoff
    exact ⟨hvalue, .inl ⟨rfl, hzero⟩⟩

/-- A directive says something only where it may stand and the block has not said it, and
what it says that is not off, it latches. -/
theorem static_conf_handler_cases {kind : BlockKind} {d : StaticSetting}
    (h : static_conf_handler kind d zsmcf conf = .ok (zsmcf', conf')) :
    (∃ arg v, d = .zstd_static arg ∧ conf.enable = none ∧ conf' = { conf with enable := some v } ∧
        (zstd_static_modes.find? fun e => equals_nocase arg e.1).map Prod.snd = some v ∧
        (zsmcf' = zsmcf ∧ v = .off ∨ zsmcf' = { zsmcf with any_enabled := true })) ∨
      ∃ arg v, d = .zstd_static_dict_bypass arg ∧ conf.dict_bypass = conf_unset ∧
        conf' = { conf with dict_bypass := v } ∧ flagOf arg = some v ∧
        (zsmcf' = zsmcf ∧ v = 0 ∨ zsmcf' = { zsmcf with dict_bypass_enabled := true } ∧ v = 1) := by
  unfold static_conf_handler at h
  split at h
  · cases d with
    | zstd_static arg =>
      obtain ⟨⟨m, v⟩, hslot, h⟩ := bind_ok h
      cases h
      obtain ⟨hfield, hmode, hlatch⟩ := static_set_enable_slot_ok hslot
      exact .inl ⟨arg, v, rfl, hfield, rfl, hmode, hlatch⟩
    | zstd_static_dict_bypass arg =>
      obtain ⟨⟨m, v⟩, hslot, h⟩ := bind_ok h
      cases h
      obtain ⟨hfield, hflag, hlatch⟩ := static_set_dict_bypass_slot_ok hslot
      exact .inr ⟨arg, v, rfl, hfield, rfl, hflag, hlatch⟩
  · cases h

/-! ## Latches -/

/-- A conf that is not off, and one that bypasses, has been latched. -/
structure StaticLatched (zsmcf : StaticMain) (conf : RawStatic) : Prop where
  enable : conf.enable = none ∨ conf.enable = some .off ∨ zsmcf.any_enabled = true
  dict_bypass : conf.dict_bypass = conf_unset ∨ conf.dict_bypass = 0 ∨ zsmcf.dict_bypass_enabled = true

theorem static_settings_keeps : static_settings.Keeps StaticLatched where
  create _ := ⟨.inl rfl, .inl rfl⟩
  run h hc := by
    obtain ⟨arg, v, -, -, rfl, -, ⟨rfl, rfl⟩ | rfl⟩ | ⟨arg, v, -, -, rfl, -, ⟨rfl, rfl⟩ | ⟨rfl, rfl⟩⟩ :=
      static_conf_handler_cases h
    · exact ⟨.inr (.inl rfl), hc.dict_bypass⟩
    · exact ⟨.inr (.inr rfl), hc.dict_bypass⟩
    · exact ⟨hc.enable, .inr (.inl rfl)⟩
    · exact ⟨hc.enable, .inr (.inr rfl)⟩
  frame h x hx := by
    obtain ⟨arg, v, -, -, rfl, -, ⟨rfl, rfl⟩ | rfl⟩ | ⟨arg, v, -, -, rfl, -, ⟨rfl, rfl⟩ | ⟨rfl, rfl⟩⟩ :=
      static_conf_handler_cases h
    · exact hx
    · exact ⟨.inr (.inr rfl), hx.dict_bypass⟩
    · exact hx
    · exact ⟨hx.enable, .inr (.inr rfl)⟩

theorem StaticLatched.merge {prev : RawStatic} (hp : StaticLatched zsmcf prev) (hc : StaticLatched zsmcf conf) :
    StaticLatched zsmcf (static_merge_loc_conf prev conf) := by
  constructor
  · rcases hc.enable with h | h | h
    · rcases hp.enable with h' | h' | h'
      · exact .inr (.inl (by rw [static_merge_loc_conf, h, h']; rfl))
      · exact .inr (.inl (by rw [static_merge_loc_conf, h, h']; rfl))
      · exact .inr (.inr h')
    · exact .inr (.inl (by rw [static_merge_loc_conf, h]; rfl))
    · exact .inr (.inr h)
  · rw [static_merge_loc_conf, merge_value]
    dsimp only
    split
    · split
      · exact .inr (.inl rfl)
      · exact hp.dict_bypass
    · exact hc.dict_bypass

variable {file : Source BlockKind StaticSetting} {cfg : StaticConfiguration}

theorem load_static_ok (h : load_static file = .ok cfg) :
    static_settings.parse .http static_create_main_conf static_create_loc_conf file =
        .ok (cfg.zsmcf, cfg.http, cfg.parsed) ∧
      static_settings.complete cfg.zsmcf cfg.http cfg.parsed = .ok cfg.merged := by
  obtain ⟨⟨zsmcf, http, parsed⟩, hparse, h⟩ := bind_ok h
  obtain ⟨merged, hcomplete, h⟩ := bind_ok h
  cases h
  exact ⟨hparse, hcomplete⟩

/-- So has every conf that requests are answered by, which leaves nothing unset. -/
theorem load_static_latched (h : load_static file = .ok cfg) :
    ∀ c ∈ cfg.merged.toList, StaticLatched cfg.zsmcf c ∧ c.dict_bypass ≠ conf_unset := by
  obtain ⟨hparse, hcomplete⟩ := load_static_ok h
  obtain ⟨hhttp, hparsed⟩ := Layers.parse_keeps static_settings_keeps file hparse ⟨.inl rfl, .inl rfl⟩
  refine Layers.complete_keeps ?_ cfg.parsed hhttp hparsed hcomplete
  intro prev own conf hprev hown hm
  cases hm
  refine ⟨hprev.merge hown, ?_⟩
  show merge_value own.dict_bypass prev.dict_bypass 0 ≠ conf_unset
  unfold merge_value
  split
  · split
    · decide
    · assumption
  · assumption

/-! ## What the file means -/

/-- What a directive says of the mode, and of the bypass. -/
def modeOf : StaticSetting → Option StaticMode
  | .zstd_static arg => (zstd_static_modes.find? fun e => equals_nocase arg e.1).map Prod.snd
  | .zstd_static_dict_bypass _ => none

def bypassOf : StaticSetting → Option Int
  | .zstd_static _ => none
  | .zstd_static_dict_bypass arg => flagOf arg

/-- What the nearest block says that says anything, each of the two by itself. -/
def staticInForce (chain : List (List StaticSetting)) : StaticConf where
  enable := (chain.findSome? fun block => block.findSome? modeOf).getD .off
  dict_bypass := (chain.findSome? fun block => block.findSome? bypassOf).getD 0 ≠ 0

/-- What a conf says of the bypass. -/
def RawStatic.bypass (conf : RawStatic) : Option Int :=
  if conf.dict_bypass = conf_unset then none else some conf.dict_bypass

theorem flagOf_set {arg : Bytes} {v : Int} (h : flagOf arg = some v) : v ≠ conf_unset := by
  unfold flagOf at h
  split at h
  · cases h
    decide
  · split at h
    · cases h
      decide
    · cases h

theorem static_conf_handler_mode {kind : BlockKind} {d : StaticSetting} {ds : List StaticSetting}
    (h : static_conf_handler kind d zsmcf conf = .ok (zsmcf', conf')) (hc : conf.enable = ds.findSome? modeOf) :
    conf'.enable = (ds ++ [d]).findSome? modeOf := by
  rw [List.findSome?_append, List.findSome?_singleton, ← hc]
  obtain ⟨arg, v, rfl, hnone, rfl, hmode, -⟩ | ⟨arg, v, rfl, -, rfl, -, -⟩ := static_conf_handler_cases h
  · rw [hnone]
    exact hmode.symm
  · exact (Option.or_none ..).symm

theorem static_conf_handler_bypass {kind : BlockKind} {d : StaticSetting} {ds : List StaticSetting}
    (h : static_conf_handler kind d zsmcf conf = .ok (zsmcf', conf')) (hc : conf.bypass = ds.findSome? bypassOf) :
    conf'.bypass = (ds ++ [d]).findSome? bypassOf := by
  rw [List.findSome?_append, List.findSome?_singleton, ← hc]
  obtain ⟨arg, v, rfl, -, rfl, -, -⟩ | ⟨arg, v, rfl, hunset, rfl, hflag, -⟩ := static_conf_handler_cases h
  · exact (Option.or_none ..).symm
  · rw [RawStatic.bypass, if_neg (flagOf_set hflag), RawStatic.bypass, if_pos hunset]
    exact hflag.symm

theorem static_merge_bypass (prev conf : RawStatic) :
    (static_merge_loc_conf prev conf).bypass.getD 0 = conf.bypass.getD (prev.bypass.getD 0) := by
  unfold static_merge_loc_conf RawStatic.bypass merge_value
  by_cases hc : conf.dict_bypass = conf_unset
  · by_cases hp : prev.dict_bypass = conf_unset
    · simp only [if_pos hc, if_pos hp, Option.getD_none]
      rfl
    · simp only [if_pos hc, if_neg hp, Option.getD_none]
  · simp only [if_neg hc, Option.getD_some]

/-- The confs of all blocks are what the file means there. -/
theorem static_in_force (h : load_static file = .ok cfg) :
    List.Forall₂ (fun c chain => c.static_conf = staticInForce chain) cfg.merged.toList (file.chains [file.own]) := by
  obtain ⟨hparse, hcomplete⟩ := load_static_ok h
  have hmode := @Layers.in_force _ _ _ _ _ static_settings StaticMode RawStatic.enable
    (fun block => block.findSome? modeOf) .off rfl static_conf_handler_mode
    (fun hm => by cases hm; rfl) _ _ _ _ _ _ _ hparse hcomplete
  have hbypass := @Layers.in_force _ _ _ _ _ static_settings Int RawStatic.bypass
    (fun block => block.findSome? bypassOf) 0 rfl static_conf_handler_bypass
    (fun hm => by cases hm; exact static_merge_bypass _ _) _ _ _ _ _ _ _ hparse hcomplete
  have hmode := forall₂_of_map_eq hmode
  have hbypass := forall₂_of_map_eq hbypass
  rw [List.forall₂_iff_zip] at hmode hbypass ⊢
  refine ⟨hmode.1, fun {c chain} hmem => ?_⟩
  have hset := (load_static_latched h c (List.of_mem_zip hmem).1).2
  rw [RawStatic.static_conf, staticInForce, ← hmode.2 hmem, ← hbypass.2 hmem, RawStatic.bypass, if_neg hset]
  rfl

/-! ## The content phase -/

variable {modules : List Bytes} {push : Bool}

theorem static_handler_off (chained : Bool) (clcf : Option CoreLocConf) {zscf : StaticConf} (h : zscf.enable = .off)
    (disk : Bytes → Sidecar) (r : Request) (resp : Response) :
    static_handler chained clcf zscf disk r resp = .ok (.declined, resp) := by
  unfold static_handler static_negotiate
  cases candidate r with
  | false => rfl
  | true =>
    rw [if_pos h]
    rfl

/-- The handler stays out only of a configuration that says nothing but off. -/
theorem static_init_registered (hinit : (static_init zsmcf modules push).ok = true) :
    (static_init zsmcf modules push).registered = zsmcf.any_enabled := by
  unfold static_init at hinit ⊢
  cases henabled : zsmcf.any_enabled with
  | false => rfl
  | true =>
    rw [henabled] at hinit
    cases push with
    | false => cases hinit
    | true => rfl

/-- Whether or not the handler is installed, a request in any block of a loaded
configuration is answered as the nearest blocks around it say. -/
theorem content_phase_in_force (h : load_static file = .ok cfg)
    (hinit : (static_init cfg.zsmcf modules push).ok = true) :
    List.Forall₂ (fun c chain => ∀ chained clcf disk r resp,
        run_static_handler (static_init cfg.zsmcf modules push).registered chained clcf c.static_conf disk r resp =
          static_handler chained clcf (staticInForce chain) disk r resp)
      cfg.merged.toList (file.chains [file.own]) := by
  have hconf := static_in_force h
  rw [List.forall₂_iff_zip] at hconf ⊢
  refine ⟨hconf.1, fun {c chain} hmem chained clcf disk r resp => ?_⟩
  rw [← hconf.2 hmem, static_init_registered hinit, run_static_handler]
  split
  · rfl
  · next hoff =>
    refine (static_handler_off chained clcf ?_ disk r resp).symm
    rcases (load_static_latched h c (List.of_mem_zip hmem).1).1.enable with henable | henable | henable
    · rw [RawStatic.static_conf, henable]
      rfl
    · rw [RawStatic.static_conf, henable]
      rfl
    · exact absurd henable hoff

/-- A server that serves sidecars always, and a location in it that does not. -/
def staticFile : Source BlockKind StaticSetting :=
  .block .server (.directive (.zstd_static (str "ALWAYS"))
    (.block .location (.directive (.zstd_static (str "off")) .done) .done)) .done

theorem content_phase_in_force_location :
    ∃ cfg server location, load_static staticFile = .ok cfg ∧ cfg.merged.toList = [server, location] ∧
      ∀ disk r resp, run_static_handler (static_init cfg.zsmcf [] true).registered true none location.static_conf disk r
        resp = .ok (.declined, resp) := by
  refine ⟨_, _, _, rfl, rfl, fun disk r resp => ?_⟩
  have h := @content_phase_in_force staticFile _ [] true rfl rfl
  rw [(List.forall₂_cons.1 (List.forall₂_cons.1 h).2).1 true none disk r resp]
  exact static_handler_off true none rfl disk r resp

/-- Unless the operator has been warned, requests do not give up their sidecar for a
filter that is not among the modules: the bypass might as well be off. -/
theorem unwarned_never_stands_aside (h : load_static file = .ok cfg)
    (hmodules : str "ngx_http_zstd_filter_module" ∉ modules)
    (hwarned : (static_init cfg.zsmcf modules push).warned = false) {c : RawStatic} (hc : c ∈ cfg.merged.toList)
    (chained : Bool) (clcf : Option CoreLocConf) (disk : Bytes → Sidecar) (r : Request) (resp : Response) :
    run_static_handler (static_init cfg.zsmcf modules push).registered chained clcf c.static_conf disk r resp =
      run_static_handler (static_init cfg.zsmcf modules push).registered chained clcf
        { c.static_conf with dict_bypass := false } disk r resp := by
  obtain ⟨hlatched, hset⟩ := load_static_latched h c hc
  have habsent : (modules.any fun name => name == str "ngx_http_zstd_filter_module") = false := by
    rw [List.any_eq_false]
    rintro name hname heq
    exact hmodules (eq_of_beq heq ▸ hname)
  by_cases henabled : cfg.zsmcf.any_enabled = true
  · have hlatch : cfg.zsmcf.dict_bypass_enabled = false := by
      unfold static_init at hwarned
      rw [henabled, habsent] at hwarned
      cases hb : cfg.zsmcf.dict_bypass_enabled with
      | false => rfl
      | true =>
        rw [hb] at hwarned
        cases push <;> cases hwarned
    have hzero : c.dict_bypass = 0 := by
      rcases hlatched.dict_bypass with hb | hb | hb
      · exact absurd hb hset
      · exact hb
      · rw [hlatch] at hb
        cases hb
    rw [RawStatic.static_conf, hzero]
    rfl
  · have hout : (static_init cfg.zsmcf modules push).registered = false := by
      rw [Bool.not_eq_true] at henabled
      rw [static_init, henabled]
      rfl
    rw [hout]
    rfl

/-- A bypass in a file that serves no sidecars is no cause for a warning. -/
theorem unwarned_never_stands_aside_off :
    ∃ cfg c, load_static (.directive (.zstd_static_dict_bypass (str "on")) (.block .server .done .done)) = .ok cfg ∧
      cfg.merged.toList = [c] ∧ ∀ disk r resp,
        run_static_handler (static_init cfg.zsmcf [] true).registered true none c.static_conf disk r resp =
          run_static_handler (static_init cfg.zsmcf [] true).registered true none
            { c.static_conf with dict_bypass := false } disk r resp := by
  refine ⟨_, _, rfl, rfl, fun disk r resp => ?_⟩
  exact @unwarned_never_stands_aside (.directive (.zstd_static_dict_bypass (str "on")) (.block .server .done .done)) _
    [] true rfl (fun h => (by cases h)) rfl _ List.mem_cons_self true none disk r resp

end NginxZstd
