import NginxZstd.BodyFilter.Memory
import NginxZstd.Config.Startup
import NginxZstd.Ring.Setup
/-!
# What a request gets from the configuration

The body filter, the ring and the compressor each take for granted that the settings of
a location are ones they can work with. A configuration that has loaded and started
gives every request such settings: the ring has a key for it, libzstd supports every
parameter it sets, and its output buffers stay within the limit.
-/

namespace NginxZstd

open Lib

variable {n : Nat}

/-! ## Parameters -/

/-- What libzstd documents to accept, by version: the levels it names and the values
inside the bounds it reports. -/
def Supported (Z : ConfLib) (runtime : Nat) : CParameter → Int → Prop
  | .compressionLevel, v => Z.min_clevel ≤ v ∧ v ≤ Z.max_clevel ∧ (v < 0 → runtime ≥ 10400)
  | .targetCBlockSize, v => InBounds Z.target_cblock_size_bounds v ∧ runtime ≥ 10506
  | .enableLongDistanceMatching, v => v = 1
  | .windowLog, v => InBounds Z.window_log_bounds v
  | .checksumFlag, v => v = 1

/-- A request with the C types of its numbers. -/
structure Req.Typed (A : Abi) (q : Req n) : Prop where
  dict : ∀ d, q.dcz_dict = some d → A.IsSize d.bytes.length
  pledged : A.IsOff q.pledged_size

theorem c_int_of_int {v : Int} (h : -(2 ^ 31) ≤ v) (h' : v < 2 ^ 31) : c_int v = v := by
  unfold c_int
  rw [Int.bmod_eq_of_le (by omega) (by omega)]

section
variable {A : Abi} {Z : ConfLib} {P : Type} {B : EstimateLib P} {zmcf : MainConf} {c : RawConf}
  {types : Option (List Bytes)} {dict : Option CDict} {dcz_dicts : Option (List DczDict)}

/-- The windows of the requests of a location. -/
theorem InForce.window (hZ : Z.Documented) (hc : InForce A Z B zmcf c) {q : Req n}
    (hq : q.zlcf = c.loc_conf types dict dcz_dicts) (ht : q.Typed A) :
    windowFor A q = 0 ∨ 0 < windowFor A q ∧ windowFor A q ≤ 31 ∧ InBounds Z.window_log_bounds (windowFor A q) := by
  obtain ⟨lower, upper, hb, hlow, hdcz, hup⟩ := hZ.window_log
  cases hd : q.dcz_dict with
  | none =>
    have hw : windowFor A q = c.window_log := by
      simp only [windowFor, hd, hq, RawConf.loc_conf]
    rw [hw]
    rcases hc.window_log with h0 | ⟨hpos, -, hin⟩
    · exact .inl h0
    · refine .inr ⟨hpos, ?_, hin⟩
      obtain ⟨l, u, hb', -, hle⟩ := hin
      rw [hb] at hb'
      cases hb'
      omega
  | some d =>
    -- a dcz window is one of libzstd's whatever the location says
    obtain ⟨h1, h2⟩ := @dcz_window_log_bounds A d.bytes.length q.pledged_size q.zlcf.window_log q.zlcf.dcz_window_cap
      (ht.dict d hd) ht.pledged
    have hw : windowFor A q =
        dcz_window_log A d.bytes.length q.pledged_size q.zlcf.window_log q.zlcf.dcz_window_cap := by
      simp only [windowFor, hd]
    rw [← hw] at h1 h2
    exact .inr ⟨by omega, by omega, lower, upper, hb, by omega, by omega⟩

theorem InForce.level_bounds (hc : InForce A Z B zmcf c) :
    Z.min_clevel ≤ c.level ∧ c.level ≤ Z.max_clevel ∨ Z.build < 10400 ∧ 1 ≤ c.level ∧ c.level ≤ Z.max_clevel := by
  have h := hc.level.1
  unfold ConfLib.LevelOk at h
  split at h
  · exact .inl h
  · exact .inr ⟨by omega, h⟩

/-- The level of a location is small enough for an `int` and for the ring's key. -/
theorem InForce.level_range (hZ : Z.Documented) (hc : InForce A Z B zmcf c) : -131072 ≤ c.level ∧ c.level ≤ 22 := by
  have h1 := hZ.lowest
  have h2 := hZ.highest
  rcases hc.level_bounds with h | h <;> omega

/-- Every request of a location in force has a key in the ring. -/
theorem InForce.profile_admitted (hZ : Z.Documented) (hc : InForce A Z B zmcf c) {q : Req n}
    (hq : q.zlcf = c.loc_conf types dict dcz_dicts) (ht : q.Typed A) : (q.profile A).Admitted := by
  have hl := hc.level_range hZ
  have hlevel : (q.profile A).level = c.level := by
    simp only [Req.profile, hq, RawConf.loc_conf]
  have hwindow : (q.profile A).window_log = windowFor A q := rfl
  rw [Profile.Admitted, hlevel, hwindow]
  rcases hc.window hZ hq ht with h0 | ⟨h1, h2, -⟩ <;> omega

/-- The settings of every request of a location in force are ones the runtime library
supports. -/
theorem InForce.supported (hZ : Z.Documented) (hbuild : Z.build ≥ 10506) (hc : InForce A Z B zmcf c) {runtime : Nat}
    (hstart : init_module Z.build runtime (some zmcf) = true) {q : Req n}
    (hq : q.zlcf = c.loc_conf types dict dcz_dicts) (ht : q.Typed A) (ans : Answers) (p : CParameter) (v : Int)
    (hv : (settingsFor A ans q).param p = some v) : Supported Z runtime p v := by
  have hrefuse := mt init_module_refuses.2 (by rw [hstart]; decide)
  rw [not_or] at hrefuse
  cases p with
  | compressionLevel =>
    simp only [settingsFor, hq, RawConf.loc_conf] at hv
    split at hv
    · cases hv
      have hl := hc.level_range hZ
      rw [c_int_of_int (by omega) (by omega)]
      rcases hc.level_bounds with hb | hb
      · refine ⟨hb.1, hb.2, fun hneg => ?_⟩
        by_contra hold
        exact hrefuse.2 ⟨by omega, by omega, hc.level.2 hneg⟩
      · omega
    · cases hv
  | targetCBlockSize =>
    simp only [settingsFor, hq, RawConf.loc_conf] at hv
    split at hv
    · next hpos =>
      cases hv
      obtain ⟨hok, hlatch⟩ := hc.target_cblock_size
      obtain ⟨-, hmax, hin⟩ := hok.resolve_left (by omega)
      unfold int_max at hmax
      rw [c_int_of_int (by omega) (by omega)]
      refine ⟨hin hbuild, ?_⟩
      by_contra hold
      exact hrefuse.1 ⟨hbuild, by omega, hlatch hpos⟩
    · cases hv
  | enableLongDistanceMatching =>
    simp only [settingsFor] at hv
    split at hv <;> cases hv
    rfl
  | windowLog =>
    simp only [settingsFor] at hv
    split at hv
    · next hpos =>
      cases hv
      obtain ⟨-, hmax, hin⟩ := (hc.window hZ hq ht).resolve_left (by omega)
      rw [c_int_of_int (by omega) (by omega)]
      exact hin
    · cases hv
  | checksumFlag =>
    simp only [settingsFor] at hv
    split at hv <;> cases hv
    rfl

end

/-! ## The set-up of a context -/

/-- A part of the set-up that cannot fail. -/
def Succeeds (m : Setup n Unit) : Prop := ∀ s, ∃ s', m s = .ok () s'

namespace Succeeds

variable {ans : Answers}

theorem pure : Succeeds (n := n) (Pure.pure ()) := fun s => ⟨s, rfl⟩

theorem bind {m m' : Setup n Unit} (h : Succeeds m) (h' : Succeeds m') : Succeeds (m >>= fun _ => m') := by
  intro s
  obtain ⟨s1, h1⟩ := h s
  obtain ⟨s2, h2⟩ := h' s1
  have hb : (m >>= fun _ => m') s = EStateM.bind m (fun _ => m') s := rfl
  exact ⟨s2, by rw [hb, EStateM.bind, h1]; exact h2⟩

theorem of_answer {b : Bool} (hb : b = true) (f : Settings → Settings) :
    Succeeds (n := n) (if b then Setup.settings f else Setup.fail) := by
  rw [hb]
  exact fun s => ⟨_, rfl⟩

theorem of_cond {c : Prop} [Decidable c] {m : Setup n Unit} (h : c → Succeeds m) :
    Succeeds (if c then m else Pure.pure ()) := by
  split
  · next hc => exact h hc
  · exact pure

theorem set_param {p : CParameter} (h : ans.setParameter p = true) (v : Int) :
    Succeeds (n := n) (NginxZstd.set_param ans p v) := of_answer h _

theorem ref_dict (h : ans.refDict = true) (d : DictRef) : Succeeds (n := n) (NginxZstd.ref_dict ans d) :=
  of_answer h _

theorem set_dcz {A : Abi} {dict : DczDict} (hw : ans.setParameter .windowLog = true)
    (hc : ans.setParameter .checksumFlag = true) (hr : ans.refDict = true) :
    Succeeds (n := n) (NginxZstd.set_dcz A ans dict) := by
  refine bind ?_ (bind ?_ (set_param hc 1))
  · exact fun s => set_param hw _ (s.1, _)
  · exact fun s => ref_dict hr _ s

end Succeeds

/-- The parameters a request sets are those of its settings, so the set-up succeeds where
libzstd takes these. -/
theorem set_params_succeeds {A : Abi} {ans : Answers} {q : Req n} (hreset : ans.reset = true)
    (href : ans.refDict = true)
    (hset : ∀ p v, (settingsFor A ans q).param p = some v → ans.setParameter p = true) :
    Succeeds (set_params A ans q) := by
  have hlevel : q.zlcf.dict = none ∨ q.dcz_dict ≠ none → ans.setParameter .compressionLevel = true :=
    fun h => hset .compressionLevel _ (if_pos h)
  have hcblock : q.zlcf.target_cblock_size > 0 → ans.setParameter .targetCBlockSize = true :=
    fun h => hset .targetCBlockSize _ (if_pos h)
  have hlong : q.zlcf.long_mode → ans.setParameter .enableLongDistanceMatching = true :=
    fun h => hset .enableLongDistanceMatching _ (if_pos h)
  have hwindow : windowFor A q > 0 → ans.setParameter .windowLog = true :=
    fun h => hset .windowLog _ (if_pos h)
  have hsum : q.dcz_dict ≠ none → ans.setParameter .checksumFlag = true :=
    fun h => hset .checksumFlag _ (if_pos h)
  have hdict : Succeeds (set_dict A ans q) := by
    unfold set_dict
    cases hd : q.dcz_dict with
    | some d =>
      have hne : q.dcz_dict ≠ none := by simp [hd]
      exact Succeeds.set_dcz (hwindow (windowFor_dcz_pos A hne)) (hsum hne) href
    | none =>
      cases q.zlcf.dict with
      | some d => exact Succeeds.ref_dict href _
      | none => exact Succeeds.pure
  refine (Succeeds.of_answer hreset _).bind (.bind ?_ (.bind ?_ (.bind ?_ (.bind ?_ (hdict.bind ?_)))))
  · exact Succeeds.of_cond fun h => Succeeds.set_param (hlevel h) _
  · exact Succeeds.of_cond fun h => Succeeds.set_param (hcblock h) _
  · exact Succeeds.of_cond fun h => Succeeds.set_param (hlong h) _
  · refine Succeeds.of_cond fun h => Succeeds.set_param (hwindow ?_) _
    simp only [windowFor, h.2]
    exact h.1
  · exact Succeeds.of_cond fun _ s => ⟨_, rfl⟩

/-- In a configuration that has loaded and started on its runtime library, no request of
any location fails because libzstd refuses a parameter: a library that takes what it
documents to support takes all of them, and the context has the request's settings. -/
theorem configured_parameters_accepted {A : Abi} {K : ConfCore} {Z : ConfLib} {P : Type} {B : EstimateLib P}
    (hZ : Z.Documented) (hK : K.Parses A) (hbuild : Z.build ≥ 10506) {runtime : Nat}
    {file : Source BlockKind Setting} {cfg : Configuration} (h : load_settings A Z B K file = .ok cfg)
    (hstart : init_module Z.build runtime (some cfg.zmcf) = true) {c : RawConf} (hc : c ∈ cfg.merged.toList)
    {types : Option (List Bytes)} {dict : Option CDict} {dcz_dicts : Option (List DczDict)} {q : Req n}
    (hq : q.zlcf = c.loc_conf types dict dcz_dicts) (ht : q.Typed A) (hm : q.Memo A) {ans : Answers}
    (hlib : ∀ p v, Supported Z runtime p v → (settingsFor A ans q).param p = some v → ans.setParameter p = true)
    (hreset : ans.reset = true) (href : ans.refDict = true) (ring : Ring n) (cctx : CCtx) :
    (configure_cctx A ans ring q cctx).1 = .ok ∧
      (configure_cctx A ans ring q cctx).2.1.settings cctx = settingsFor A ans q ∧
      (q.profile A).key ≠ profile_invalid := by
  have hin := load_inForce hK hZ h c hc
  have hset : ∀ p v, (settingsFor A ans q).param p = some v → ans.setParameter p = true := fun p v hv =>
    hlib p v (hin.supported hZ hbuild hstart hq ht ans p v hv) hv
  have hok : (configure_cctx A ans ring q cctx).1 = .ok := by
    obtain ⟨s', hs⟩ := set_params_succeeds hreset href hset (ring.settings cctx, q)
    unfold configure_cctx
    rw [hs]
  obtain ⟨-, -, -, -, hsettings⟩ := configure_spec ans ring hm cctx
  exact ⟨hok, hsettings hok, (Profile.key_ne_invalid_iff _).2 (hin.profile_admitted hZ hq ht)⟩

/-- A request of the location at level -7, of an unknown body length. -/
theorem configured_parameters_accepted_negative :
    ∃ cfg c, load_settings lp64 lib157 level3_lib decimalCore sampleFile = .ok cfg ∧
      c ∈ cfg.merged.toList ∧ c.level = -7 ∧ ∀ ring : Ring 4,
        (configure_cctx lp64 ⟨true, some 100, true, fun _ => true, true, true⟩ ring
          (Req.start 4 (c.loc_conf none none none) ⟨none, -1⟩) 100).1 = .ok := by
  refine ⟨_, _, rfl, List.mem_cons_of_mem _ List.mem_cons_self, rfl, fun ring => ?_⟩
  refine (@configured_parameters_accepted 4 lp64 decimalCore lib157 Int level3_lib
    lib157_documented (decimalCore_parses _) (by decide) 10507 sampleFile _ rfl rfl _
    (List.mem_cons_of_mem _ List.mem_cons_self) none none none _ rfl ?_ (.inl rfl) _ (fun _ _ _ _ => rfl) rfl rfl
    ring 100).1
  exact ⟨fun _ he => (by cases he), by simp [Req.start, Abi.IsOff, lp64]⟩

/-! ## The filters -/

/-- `ngx_http_zstd_filter_init`: whether the two filters are put in front of the others. -/
def filter_init (zmcf : MainConf) : Bool := zmcf.any_enabled

/-- A response on its way through the header filters, up to the one behind this module. -/
def run_header_filters (installed : Bool) (env : Env) (clcf : Option CoreLocConf) (zlcf : LocConf) (r : Request)
    (resp : Response) : Except Abort (Option FilterCtx × Response) :=
  if installed then header_filter env clcf zlcf r resp else .ok (none, resp)

theorem header_filter_disabled (env : Env) (clcf : Option CoreLocConf) {zlcf : LocConf} (h : zlcf.enable = false)
    (r : Request) (resp : Response) : header_filter env clcf zlcf r resp = .ok (none, resp) := by
  unfold header_filter eligible
  rw [h]
  rfl

/-- Leaving the filters out of a configuration that nowhere enables them is not seen by
any request: where they are installed or not, the outcome is that of the filter. -/
theorem filter_init_unobservable {A : Abi} {K : ConfCore} {Z : ConfLib} {P : Type} {B : EstimateLib P}
    (hZ : Z.Documented) (hK : K.Parses A) {file : Source BlockKind Setting} {cfg : Configuration}
    (h : load_settings A Z B K file = .ok cfg) {c : RawConf} (hc : c ∈ cfg.merged.toList)
    (types : Option (List Bytes)) (dict : Option CDict) (dcz_dicts : Option (List DczDict)) (env : Env)
    (clcf : Option CoreLocConf) (r : Request) (resp : Response) :
    run_header_filters (filter_init cfg.zmcf) env clcf (c.loc_conf types dict dcz_dicts) r resp =
      header_filter env clcf (c.loc_conf types dict dcz_dicts) r resp := by
  have hin := load_inForce hK hZ h c hc
  unfold run_header_filters filter_init
  split
  · rfl
  · next hoff =>
    have henable : c.enable = 0 := by
      rcases hin.enable with h0 | ⟨-, hon⟩
      · exact h0
      · exact absurd hon hoff
    refine (header_filter_disabled env clcf ?_ r resp).symm
    simp [RawConf.loc_conf, henable]

/-- One server, with compression switched off for the whole file. -/
theorem filter_init_unobservable_off :
    ∃ cfg c, load_settings lp64 lib157 level3_lib decimalCore
        (.directive (.zstd (str "off")) (.block .server .done .done)) = .ok cfg ∧
      c ∈ cfg.merged.toList ∧ filter_init cfg.zmcf = false ∧
      ∀ env r resp, header_filter env none (c.loc_conf none none none) r resp = .ok (none, resp) := by
  refine ⟨_, _, rfl, List.mem_cons_self, rfl, fun env r resp => ?_⟩
  rw [← @filter_init_unobservable lp64 decimalCore lib157 Int level3_lib lib157_documented
    (decimalCore_parses _) (.directive (.zstd (str "off")) (.block .server .done .done)) _ rfl _ List.mem_cons_self
    none none none env none r resp]
  rfl

/-! ## Output buffers -/

section
variable {A : Abi} {Z : ConfLib} {P : Type} {B : EstimateLib P} {zmcf : MainConf} {c : RawConf}
  {types : Option (List Bytes)} {dict : Option CDict} {dcz_dicts : Option (List DczDict)} {E : BodyEnv}

/-- The buffers of a location in force are what the body filter assumes of them. -/
theorem InForce.bufsOk (hc : InForce A Z B zmcf c) (hA : E.abi = A)
    (hE : E.zlcf = c.loc_conf types dict dcz_dicts) : BufsOk E := by
  obtain ⟨hn, hs, hlt⟩ := hc.bufs
  have hcast : ((c.bufs.size.toNat : Nat) : Int) < ((2 ^ (A.size_bits - 1) : Nat) : Int) := by
    rw [Int.toNat_of_nonneg hs.le]
    exact_mod_cast hlt
  refine ⟨?_, ?_, ?_⟩
  · rw [hE]
    exact Int.pos_iff_toNat_pos.1 hn
  · rw [hE]
    exact Int.pos_iff_toNat_pos.1 hs
  · rw [hE, hA]
    exact Int.ofNat_lt.1 hcast

theorem InForce.bufs_product (hc : InForce A Z B zmcf c) (hE : E.zlcf = c.loc_conf types dict dcz_dicts) :
    E.zlcf.bufs.num * E.zlcf.bufs.size ≤ A.size_max ∧
      (c.bufs_unsafe_flag = 0 → E.zlcf.bufs.num * E.zlcf.bufs.size ≤ bufs_hard_cap_bytes) := by
  obtain ⟨hn, hs, -⟩ := hc.bufs
  have hprod : ((E.zlcf.bufs.num * E.zlcf.bufs.size : Nat) : Int) = c.bufs.num * c.bufs.size := by
    rw [hE, Nat.cast_mul]
    show (c.bufs.num.toNat : Int) * (c.bufs.size.toNat : Int) = _
    rw [Int.toNat_of_nonneg hn.le, Int.toNat_of_nonneg hs.le]
  constructor
  · have := hc.bufs_accepted.fits
    rw [← hprod] at this
    exact_mod_cast this
  · intro h0
    have := hc.bufs_accepted.cap (by simp [h0])
    rw [← hprod] at this
    exact_mod_cast this

end

/-- The limit on `zstd_buffers` at configuration load is a limit on memory at run time: in
every run of the body filter in a location of a loaded configuration, the output buffers
of a response take no more than 256 MB and one frame header, unless the location
acknowledges more, and never more than a `size_t` holds. -/
theorem output_memory_bounded {A : Abi} {K : ConfCore} {Z : ConfLib} {P : Type} {B : EstimateLib P}
    (hZ : Z.Documented) (hK : K.Parses A) {file : Source BlockKind Setting} {cfg : Configuration}
    (h : load_settings A Z B K file = .ok cfg) {c : RawConf} (hc : c ∈ cfg.merged.toList)
    {types : Option (List Bytes)} {dict : Option CDict} {dcz_dicts : Option (List DczDict)} {E : BodyEnv}
    (hA : E.abi = A) (hE : E.zlcf = c.loc_conf types dict dcz_dicts) {S : Compressor} {s : BodyState S}
    (hr : Reaches (body_step E) Any (BodyState.start S) s) (hf : s.ctx.aborted = false) :
    s.ctx.output_memory ≤ A.size_max + dcz_header_len ∧
      (c.bufs_unsafe_flag = 0 → s.ctx.output_memory ≤ bufs_hard_cap_bytes + dcz_header_len) := by
  have hin := load_inForce hK hZ h c hc
  have hsum := (reaches_sized (hin.bufsOk hA hE) hr hf).output_memory
  obtain ⟨hfit, hcap⟩ := hin.bufs_product hE
  exact ⟨by omega, fun h0 => by have := hcap h0; omega⟩

/-- One server with two buffers of eight bytes. -/
def smallBufs : Source BlockKind Setting :=
  .directive (.zstd (str "on"))
    (.directive (.zstd_buffers (str "2") (str "8")) (.block .server .done .done))

/-- The settings in force in that server. -/
def smallBufsConf : RawConf where
  enable := 1
  level := 3
  min_length := 1024
  max_length := conf_unset
  target_cblock_size := 0
  window_log := 0
  long_mode := 0
  max_cctx_memory := conf_unset
  dcz_window_cap := 0
  bufs := ⟨2, 8⟩
  bufs_unsafe_flag := 0
  bypass := none
  bypass_vary := none
  dcz_assume_secure := 0

/-- A response of that server. -/
def smallBufsEnv : BodyEnv :=
  ⟨lp64, smallBufsConf.loc_conf none none none, ⟨none, -1⟩, false, fun size => size⟩

theorem output_memory_bounded_small :
    ∃ s : BodyState (.blocks 2), run (body_step smallBufsEnv) (BodyState.start _) flushOps = some s ∧ s.ctx.bufs = 1 ∧
      s.ctx.output_memory ≤ bufs_hard_cap_bytes + dcz_header_len := by
  have hsees : (run (body_step (Z := .blocks 2) smallBufsEnv) (BodyState.start _) flushOps).map
      (fun s => (s.ctx.aborted, s.ctx.bufs)) = some (false, 1) := by rfl
  obtain ⟨s, hs, hsees⟩ := Option.map_eq_some_iff.1 hsees
  simp only [Prod.mk.injEq] at hsees
  obtain ⟨cfg, hload, hmem⟩ : ∃ cfg, load_settings lp64 lib157 level3_lib decimalCore smallBufs =
      .ok cfg ∧ smallBufsConf ∈ cfg.merged.toList := ⟨_, rfl, List.mem_cons_self⟩
  exact ⟨s, hs, hsees.2, (output_memory_bounded lib157_documented (decimalCore_parses _) hload hmem rfl rfl
    (reaches_of_run hs (meets_any _ _)) hsees.1).2 rfl⟩

end NginxZstd
