import NginxZstd.Config.Load
/-!
# Settings in force

Every value a directive stores has passed its check, a value set in the conf goes with
its latch in the main conf, and merging neither leaves a setting unset nor brings in a
value no check has seen.
-/

namespace NginxZstd

open Lib

/-! ## Invariants -/

/-- A latch that is set stays set. -/
structure MainConf.Grows (m m' : MainConf) : Prop where
  enabled : m.any_enabled → m'.any_enabled
  negative : m.any_negative_level → m'.any_negative_level
  cblock : m.any_target_cblock_size → m'.any_target_cblock_size

theorem MainConf.Grows.refl (m : MainConf) : m.Grows m := ⟨id, id, id⟩

/-- A conf as parsed: what is set has passed its check, and its latch is set. -/
structure Admissible (A : Abi) (Z : ConfLib) (zmcf : MainConf) (c : RawConf) : Prop where
  enable : c.enable = conf_unset ∨ c.enable = 0 ∨ c.enable = 1 ∧ zmcf.any_enabled
  level : c.level = level_unset A ∨ Z.LevelOk c.level ∧ (c.level < 0 → zmcf.any_negative_level)
  min_length : c.min_length = conf_unset ∨ 0 ≤ c.min_length
  max_length : c.max_length = conf_unset ∨ 0 ≤ c.max_length
  target_cblock_size : c.target_cblock_size = conf_unset ∨
    Z.CblockOk c.target_cblock_size ∧ (0 < c.target_cblock_size → zmcf.any_target_cblock_size)
  window_log : c.window_log = conf_unset ∨ Z.WindowOk c.window_log
  max_cctx_memory : c.max_cctx_memory = conf_unset ∨ 0 ≤ c.max_cctx_memory
  bufs : c.bufs.num = 0 ∨ 0 < c.bufs.num ∧ 0 < c.bufs.size ∧ c.bufs.size < 2 ^ (A.size_bits - 1)
  bypass_vary : ∀ t, c.bypass_vary = some t → t.bytes ≠ str "*"

/-- A merged conf: nothing is unset but the two settings that may stay so, every value is
one its consumers take, and libzstd's estimate keeps to a budget. -/
structure InForce (A : Abi) (Z : ConfLib) {P : Type} (B : EstimateLib P) (zmcf : MainConf) (c : RawConf) : Prop where
  enable : c.enable = 0 ∨ c.enable = 1 ∧ zmcf.any_enabled
  level : Z.LevelOk c.level ∧ (c.level < 0 → zmcf.any_negative_level)
  min_length : 0 ≤ c.min_length
  max_length : c.max_length = conf_unset ∨ 0 ≤ c.max_length
  target_cblock_size : Z.CblockOk c.target_cblock_size ∧ (0 < c.target_cblock_size → zmcf.any_target_cblock_size)
  window_log : Z.WindowOk c.window_log
  max_cctx_memory : c.max_cctx_memory = conf_unset ∨ 0 ≤ c.max_cctx_memory
  bufs : 0 < c.bufs.num ∧ 0 < c.bufs.size ∧ c.bufs.size < 2 ^ (A.size_bits - 1)
  bufs_accepted : c.bufs.Accepted A (c.bufs_unsafe_flag ≠ 0)
  bypass_vary : ∀ t, c.bypass_vary = some t → t.bytes ≠ str "*"
  budget : c.enable ≠ 0 → 0 < c.max_cctx_memory →
    ∃ est : Nat, cctx_estimate B (c.loc_conf none none none) c.window_log = .ok est ∧ est ≤ c.max_cctx_memory

theorem InForce.admissible {A : Abi} {Z : ConfLib} {P : Type} {B : EstimateLib P} {zmcf : MainConf} {c : RawConf}
    (h : InForce A Z B zmcf c) : Admissible A Z zmcf c where
  enable := .inr h.enable
  level := .inr h.level
  min_length := .inr h.min_length
  max_length := h.max_length
  target_cblock_size := .inr h.target_cblock_size
  window_log := .inr h.window_log
  max_cctx_memory := h.max_cctx_memory
  bufs := .inr h.bufs
  bypass_vary := h.bypass_vary

theorem Admissible.mono {A : Abi} {Z : ConfLib} {m m' : MainConf} (hg : m.Grows m') {c : RawConf}
    (h : Admissible A Z m c) : Admissible A Z m' c where
  enable := h.enable.imp_right (Or.imp_right (And.imp_right hg.enabled))
  level := h.level.imp_right (And.imp_right fun hn hneg => hg.negative (hn hneg))
  min_length := h.min_length
  max_length := h.max_length
  target_cblock_size := h.target_cblock_size.imp_right (And.imp_right fun hn hpos => hg.cblock (hn hpos))
  window_log := h.window_log
  max_cctx_memory := h.max_cctx_memory
  bufs := h.bufs
  bypass_vary := h.bypass_vary

/-! ## Parsing -/

section
variable {A : Abi} {K : ConfCore} {Z : ConfLib}

theorem create_loc_conf_admissible (m : MainConf) : Admissible A Z m (create_loc_conf A) where
  enable := .inl rfl
  level := .inl rfl
  min_length := .inl rfl
  max_length := .inl rfl
  target_cblock_size := .inl rfl
  window_log := .inl rfl
  max_cctx_memory := .inl rfl
  bufs := .inl rfl
  bypass_vary := nofun

theorem set_bypass_vary_ok {field : Option Token} {value : Bytes} {t : Token}
    (h : set_bypass_vary K field value = .ok t) : t.bytes = value ∧ value ≠ str "*" := by
  unfold set_bypass_vary at h
  split at h
  · cases h
  split at h
  · cases h
  split at h
  · cases h
  next hstar =>
  split at h
  · cases h
  split at h
  · cases h
    exact ⟨rfl, hstar⟩
  · cases h

/-- What a directive does to the latches and to the conf it stands in: a step of the
parse. -/
theorem run_setting_spec (hK : K.Parses A) {m m' : MainConf} {c c' : RawConf} {d : Setting}
    (h : run_setting A K Z m c d = .ok (m', c')) : m.Grows m' ∧ (Admissible A Z m c → Admissible A Z m' c') := by
  cases d with
  | zstd arg =>
    obtain ⟨⟨m1, v⟩, hs, h⟩ := bind_ok h
    cases h
    obtain ⟨-, hv, hm⟩ := set_enable_slot_ok hs
    rcases hm with ⟨rfl, rfl⟩ | rfl
    · exact ⟨.refl _, fun hc => { hc with enable := .inr (.inl rfl) }⟩
    · have hg : m.Grows { m with any_enabled := true } := ⟨fun _ => rfl, id, id⟩
      exact ⟨hg, fun hc => { hc.mono hg with enable := .inr (hv.imp_right fun h => ⟨h, rfl⟩) }⟩
  | zstd_comp_level arg =>
    obtain ⟨⟨m1, v⟩, hs, h⟩ := bind_ok h
    cases h
    obtain ⟨-, -, hlevel⟩ := set_num_slot_with_negatives_ok hs
    obtain ⟨hok, ⟨rfl, hpos⟩ | ⟨rfl, -⟩⟩ := comp_level_ok hlevel
    · exact ⟨.refl _, fun hc => { hc with level := .inr ⟨hok, fun hneg => absurd hneg (not_lt.2 hpos)⟩ }⟩
    · have hg : m.Grows { m with any_negative_level := true } := ⟨id, fun _ => rfl, id⟩
      exact ⟨hg, fun hc => { hc.mono hg with level := .inr ⟨hok, fun _ => rfl⟩ }⟩
  | zstd_target_cblock_size arg =>
    obtain ⟨v, -, h⟩ := bind_ok h
    obtain ⟨m1, hs, h⟩ := bind_ok h
    cases h
    obtain ⟨hok, ⟨rfl, h0⟩ | ⟨rfl, -⟩⟩ := check_size_int_max_ok hs
    · exact ⟨.refl _, fun hc => { hc with target_cblock_size := .inr ⟨hok, fun hpos => absurd h0 hpos.ne'⟩ }⟩
    · have hg : m.Grows { m with any_target_cblock_size := true } := ⟨id, id, fun _ => rfl⟩
      exact ⟨hg, fun hc => { hc.mono hg with target_cblock_size := .inr ⟨hok, fun _ => rfl⟩ }⟩
  | zstd_window_log arg =>
    obtain ⟨v, -, h⟩ := bind_ok h
    obtain ⟨⟨⟩, hw, h⟩ := bind_ok h
    cases h
    exact ⟨.refl _, fun hc => { hc with window_log := .inr (check_num_int_max_ok hw) }⟩
  | zstd_buffers num size =>
    obtain ⟨v, hb, h⟩ := bind_ok h
    cases h
    exact ⟨.refl _, fun hc => { hc with bufs := .inr (set_bufs_slot_ok hK hb).2 }⟩
  | zstd_min_length arg =>
    obtain ⟨v, hv, h⟩ := bind_ok h
    cases h
    exact ⟨.refl _, fun hc => { hc with min_length := .inr (conf_set_size_slot_ok hK hv).2 }⟩
  | zstd_max_length arg =>
    obtain ⟨v, hv, h⟩ := bind_ok h
    cases h
    exact ⟨.refl _, fun hc => { hc with max_length := .inr (conf_set_size_slot_ok hK hv).2 }⟩
  | zstd_max_cctx_memory arg =>
    obtain ⟨v, hv, h⟩ := bind_ok h
    cases h
    exact ⟨.refl _, fun hc => { hc with max_cctx_memory := .inr (conf_set_size_slot_ok hK hv).2 }⟩
  | zstd_bypass_vary arg =>
    obtain ⟨t, ht, h⟩ := bind_ok h
    cases h
    obtain ⟨hbytes, hstar⟩ := set_bypass_vary_ok ht
    refine ⟨.refl _, fun hc => { hc with bypass_vary := ?_ }⟩
    rintro _ ⟨rfl⟩
    rwa [hbytes]
  -- the remaining settings carry no bound
  | zstd_buffers_unsafe_flag arg | zstd_long arg | zstd_bypass args | zstd_dcz_assume_secure_transport arg =>
    obtain ⟨v, -, h⟩ := bind_ok h
    cases h
    exact ⟨.refl _, fun hc => { hc with }⟩
  | zstd_dict_file arg =>
    simp only [run_setting] at h
    split at h
    · cases h
    · cases h
      have hg : m.Grows { m with dict_file := some arg } := ⟨id, id, id⟩
      exact ⟨hg, fun hc => hc.mono hg⟩
  | zstd_dict_file_unsafe_flag arg =>
    obtain ⟨v, -, h⟩ := bind_ok h
    cases h
    have hg : m.Grows { m with dict_unsafe_flag := v } := ⟨id, id, id⟩
    exact ⟨hg, fun hc => hc.mono hg⟩

theorem conf_handler_ok {kind : BlockKind} {d : Setting} {m m' : MainConf} {c c' : RawConf}
    (h : conf_handler A K Z kind d m c = .ok (m', c')) : run_setting A K Z m c d = .ok (m', c') := by
  unfold conf_handler at h
  split at h
  · exact h
  · cases h

end

/-! ## Merging -/

theorem merge_value_ok {ok : Int → Prop} {conf prev default : Int} (hc : conf = conf_unset ∨ ok conf)
    (hp : prev = conf_unset ∨ ok prev) (hd : ok default) : ok (merge_value conf prev default) := by
  unfold merge_value
  split
  · split
    · exact hd
    · next h => exact hp.resolve_left h
  · next h => exact hc.resolve_left h

theorem merge_level_ok {A : Abi} {ok : Int → Prop} {conf prev : Int} (hc : conf = level_unset A ∨ ok conf)
    (hp : prev = level_unset A ∨ ok prev) (hd : ok 3) : ok (merge_level A conf prev) := by
  unfold merge_level
  split
  · split
    · exact hd
    · next h => exact hp.resolve_left h
  · next h => exact hc.resolve_left h

/-- What libzstd documents of itself: its levels lie between -131072 and 22, with 3 among
them, its windows between 10 and 31, with 23 among them, and its output buffers have a
size that is small. -/
structure ConfLib.Documented (Z : ConfLib) : Prop where
  lowest : -131072 ≤ Z.min_clevel
  highest : Z.max_clevel ≤ 22
  level_three : Z.LevelOk 3
  window_log : ∃ lower upper, Z.window_log_bounds = .ok (lower, upper) ∧ lower = 10 ∧ 23 ≤ upper ∧ upper ≤ 31
  out_size : 0 < Z.cstream_out_size ∧ Z.cstream_out_size < 2 ^ 31

/-- No level is the mark of an unset one. -/
theorem ConfLib.LevelOk.set {A : Abi} {Z : ConfLib} (hZ : Z.Documented) {level : Int} (h : Z.LevelOk level) :
    level ≠ level_unset A := by
  have hmark : level_unset A ≤ -(2 ^ 31 : Int) := by
    unfold level_unset
    rcases A.size_ok with hb | hb
    · rw [hb]
      decide
    · rw [hb]
      decide
  have hlow := hZ.lowest
  unfold LevelOk at h
  have h1 := h.1
  split at h1 <;> omega

section
variable {A : Abi} {Z : ConfLib} {P : Type} {B : EstimateLib P}

/-- A merge that succeeds gives the inherited settings with a window cap, the buffers and
the budget accepted. -/
theorem merge_loc_conf_ok {prev conf merged : RawConf} (h : merge_loc_conf A Z B prev conf = .ok merged) :
    ∃ notice conf' advisory,
      check_bufs_product A (merge_settings A Z prev conf).bufs ((merge_settings A Z prev conf).bufs_unsafe_flag ≠ 0)
        (str "merged value") true = .ok notice ∧
      merge_budget B ((merge_settings A Z prev conf).loc_conf none none none)
        (merge_settings A Z prev conf).max_cctx_memory = .ok (conf', advisory) ∧
      merged = { merge_settings A Z prev conf with dcz_window_cap := conf'.dcz_window_cap } := by
  obtain ⟨notice, hb, h⟩ := bind_ok h
  obtain ⟨⟨conf', advisory⟩, hm, h⟩ := bind_ok h
  cases h
  refine ⟨notice, conf', advisory, hb, ?_, rfl⟩
  cases hbud : merge_budget B ((merge_settings A Z prev conf).loc_conf none none none)
      (merge_settings A Z prev conf).max_cctx_memory with
  | error e => rw [hbud] at hm; cases hm
  | ok r => rw [hbud] at hm; cases hm; rfl

/-- The completion step: two confs as parsed give one in force. -/
theorem merge_loc_conf_inForce (hZ : Z.Documented) {zmcf : MainConf} {prev conf merged : RawConf}
    (hp : Admissible A Z zmcf prev) (hc : Admissible A Z zmcf conf) (h : merge_loc_conf A Z B prev conf = .ok merged) :
    InForce A Z B zmcf merged := by
  obtain ⟨notice, conf', advisory, hb, hm, rfl⟩ := merge_loc_conf_ok h
  have hbufs : 0 < (merge_settings A Z prev conf).bufs.num ∧ 0 < (merge_settings A Z prev conf).bufs.size ∧
      (merge_settings A Z prev conf).bufs.size < 2 ^ (A.size_bits - 1) := by
    have hout := hZ.out_size
    have hword : (2 : Int) ^ 31 ≤ 2 ^ (A.size_bits - 1) := by
      rcases A.size_ok with hw | hw
      · rw [hw]
      · rw [hw]
        norm_num
    have h1 := hc.bufs
    have h2 := hp.bufs
    simp only [merge_settings, merge_bufs_value]
    split
    · split
      · omega
      · exact ⟨two_pos, Int.natCast_pos.2 hout.1, by dsimp only; omega⟩
    · omega
  exact {
    enable := @merge_value_ok (fun v => v = 0 ∨ v = 1 ∧ zmcf.any_enabled) _ _ _ hc.enable hp.enable (.inl rfl)
    level := @merge_level_ok A (fun v => Z.LevelOk v ∧ (v < 0 → zmcf.any_negative_level)) _ _ hc.level hp.level
      ⟨hZ.level_three, by omega⟩
    min_length := @merge_value_ok (0 ≤ ·) _ _ _ hc.min_length hp.min_length (by omega)
    max_length := @merge_value_ok (fun v => v = conf_unset ∨ 0 ≤ v) _ _ _ (.inr hc.max_length) (.inr hp.max_length)
      (.inl rfl)
    target_cblock_size := @merge_value_ok (fun v => Z.CblockOk v ∧ (0 < v → zmcf.any_target_cblock_size)) _ _ _
      hc.target_cblock_size hp.target_cblock_size ⟨.inl rfl, by omega⟩
    window_log := @merge_value_ok Z.WindowOk _ _ _ hc.window_log hp.window_log (.inl rfl)
    max_cctx_memory := @merge_value_ok (fun v => v = conf_unset ∨ 0 ≤ v) _ _ _ (.inr hc.max_cctx_memory)
      (.inr hp.max_cctx_memory) (.inl rfl)
    bufs := hbufs
    bufs_accepted := check_bufs_product_ok hbufs.1 hbufs.2.1 hb
    bypass_vary := by
      intro t ht
      rcases Option.or_eq_some_iff.1 ht with h1 | ⟨-, h1⟩
      · exact hc.bypass_vary t h1
      · exact hp.bypass_vary t h1
    budget := by
      intro he hpos
      obtain ⟨est, cap, hest, hle, -, -⟩ := merge_budget_ok hm (by simpa [RawConf.loc_conf] using he) hpos
      exact ⟨est, hest, (Int.le_toNat hpos.le).1 hle⟩ }

end

/-! ## Loading -/

section
variable {A : Abi} {K : ConfCore} {Z : ConfLib} {P : Type} {B : EstimateLib P}

theorem settings_keeps (hK : K.Parses A) : (settings A Z B K).Keeps (Admissible A Z) where
  create := create_loc_conf_admissible
  run h hc := (run_setting_spec hK (conf_handler_ok h)).2 hc
  frame h _ hx := hx.mono (run_setting_spec hK (conf_handler_ok h)).1

theorem load_settings_ok {file : Source BlockKind Setting} {cfg : Configuration}
    (h : load_settings A Z B K file = .ok cfg) :
    (settings A Z B K).parse .http create_settings_conf (create_loc_conf A) file =
        .ok (cfg.zmcf, cfg.http, cfg.parsed) ∧
      init_dict_file cfg.zmcf = .ok () ∧ (settings A Z B K).complete cfg.zmcf cfg.http cfg.parsed = .ok cfg.merged := by
  obtain ⟨⟨zmcf, http, parsed⟩, h1, h⟩ := bind_ok h
  obtain ⟨⟨⟩, h2, h⟩ := bind_ok h
  obtain ⟨merged, h3, h⟩ := bind_ok h
  cases h
  exact ⟨h1, h2, h3⟩

theorem load_admissible (hK : K.Parses A) {file : Source BlockKind Setting} {cfg : Configuration}
    (h : load_settings A Z B K file = .ok cfg) :
    Admissible A Z cfg.zmcf cfg.http ∧ ∀ c ∈ cfg.parsed.toList, Admissible A Z cfg.zmcf c :=
  Layers.parse_keeps (settings_keeps hK) file (load_settings_ok h).1 (create_loc_conf_admissible _)

theorem load_inForce (hK : K.Parses A) (hZ : Z.Documented) {file : Source BlockKind Setting} {cfg : Configuration}
    (h : load_settings A Z B K file = .ok cfg) : ∀ c ∈ cfg.merged.toList, InForce A Z B cfg.zmcf c := by
  obtain ⟨hhttp, hparsed⟩ := load_admissible hK h
  obtain ⟨-, -, hmerge⟩ := load_settings_ok h
  have hstep : ∀ {prev own conf}, Admissible A Z cfg.zmcf prev → Admissible A Z cfg.zmcf own →
      (settings A Z B K).merge cfg.zmcf prev own = .ok conf →
      Admissible A Z cfg.zmcf conf ∧ InForce A Z B cfg.zmcf conf := by
    intro prev own conf hp ho hm
    have hin := merge_loc_conf_inForce hZ hp ho hm
    exact ⟨hin.admissible, hin⟩
  exact fun c hc => (Layers.complete_keeps hstep cfg.parsed hhttp hparsed hmerge c hc).2

end

/-! ### A configuration -/

theorem word_64 : 64 = 32 ∨ 64 = 64 := .inr rfl

/-- A 64-bit build. -/
def lp64 : Abi := ⟨64, 64, word_64, word_64⟩

/-- The value of a string of digits. -/
def decimal (s : Bytes) : Int :=
  if s ≠ [] ∧ s.all (fun c => 0x30 ≤ c && c ≤ 0x39) ∧ s.length < 10 then
    s.foldl (fun n c => 10 * n + (c.toNat - 48)) 0
  else -1

/-- A core that reads plain decimal numbers, also for sizes. -/
def decimalCore : ConfCore where
  atoi := decimal
  parse_size := decimal
  pstrdup _ := true
  compile _ := some fun _ => none

/-- libzstd 1.5.7. -/
def lib157 : ConfLib where
  build := 10507
  min_clevel := -131072
  max_clevel := 22
  window_log_bounds := .ok (10, 31)
  target_cblock_size_bounds := .ok (1340, 131072)
  cstream_out_size := 131591

theorem lib157_documented : lib157.Documented where
  lowest := by decide
  highest := by decide
  level_three := ⟨by decide, by decide⟩
  window_log := ⟨10, 31, rfl, rfl, by decide, by decide⟩
  out_size := by decide

theorem foldl_digits (s : Bytes) (hs : ∀ c ∈ s, (0x30 : UInt8) ≤ c ∧ c ≤ 0x39) :
    ∀ n : Int, 0 ≤ n → 0 ≤ s.foldl (fun (n : Int) c => 10 * n + (c.toNat - 48)) n ∧
      s.foldl (fun (n : Int) c => 10 * n + (c.toNat - 48)) n < (n + 1) * 10 ^ s.length := by
  induction s with
  | nil => intro n hn; exact ⟨hn, by simp⟩
  | cons c s ih =>
    intro n hn
    obtain ⟨h1, h2⟩ := hs c List.mem_cons_self
    rw [UInt8.le_iff_toNat_le] at h1 h2
    have hc : (48 : Int) ≤ c.toNat ∧ (c.toNat : Int) ≤ 57 := by
      simp only [UInt8.reduceToNat] at h1 h2
      omega
    obtain ⟨hlow, hhigh⟩ := ih (fun d hd => hs d (List.mem_cons_of_mem _ hd)) (10 * n + (c.toNat - 48)) (by omega)
    refine ⟨hlow, lt_of_lt_of_le hhigh ?_⟩
    rw [List.length_cons, pow_succ, mul_comm _ (10 : Int), ← mul_assoc]
    apply mul_le_mul_of_nonneg_right _ (by positivity)
    omega

theorem decimal_range (A : Abi) (s : Bytes) : decimal s = -1 ∨ 0 ≤ decimal s ∧ decimal s < 2 ^ (A.size_bits - 1) := by
  unfold decimal
  split
  · next h =>
    obtain ⟨-, hall, hlen⟩ := h
    have hs : ∀ c ∈ s, (0x30 : UInt8) ≤ c ∧ c ≤ 0x39 := by simpa using hall
    obtain ⟨hlow, hhigh⟩ := foldl_digits s hs 0 le_rfl
    refine .inr ⟨hlow, lt_trans hhigh ?_⟩
    have hpow : (10 : Int) ^ s.length ≤ 10 ^ 9 := pow_le_pow_right₀ (by norm_num) (by omega)
    have hword : (10 : Int) ^ 9 < 2 ^ (A.size_bits - 1) := by
      rcases A.size_ok with hb | hb <;> rw [hb] <;> norm_num
    linarith
  · exact .inl rfl

theorem decimalCore_parses (A : Abi) : decimalCore.Parses A where
  atoi := decimal_range A
  parse_size := decimal_range A

/-- A level of -1 for every server, one server with 5 for itself and -7 in its location,
and one with the `if` of a location that only switches compression off. -/
def sampleFile : Source BlockKind Setting :=
  .directive (.zstd (str "ON"))
    (.block .server
      (.directive (.zstd_comp_level (str "5"))
        (.block .location (.directive (.zstd_comp_level (str "-7")) .done) .done))
      (.directive (.zstd_comp_level (str "-1"))
        (.block .server (.block .location (.block .location_if (.directive (.zstd (str "off")) .done) .done) .done)
          .done)))

end NginxZstd
