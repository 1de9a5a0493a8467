import NginxZstd.Ring.Worker
/-!
# What `init_cctx` sets

`init_cctx` resets a context before it sets anything, so a context carried over
from another request ends up with the same settings as a new one: those of the
request, `settingsFor`. The window among them is the window of the ring key.
-/

namespace NginxZstd

variable {n : Nat}

/-- What the parameter section may change of a request. -/
structure Touched (A : Abi) (q q' : Req n) : Prop where
  same : SameRequest q q'
  cctx : q'.cctx = q.cctx
  lender : q'.lender = q.lender
  cleanups : q'.cleanups = q.cleanups
  memo : q.Memo A → q'.Memo A

theorem Touched.refl (A : Abi) (q : Req n) : Touched A q q := ⟨SameRequest.refl q, rfl, rfl, rfl, id⟩

theorem Touched.trans {A : Abi} {q q' q'' : Req n} (h : Touched A q q') (h' : Touched A q' q'') : Touched A q q'' :=
  ⟨h.same.trans h'.same, h'.cctx.trans h.cctx, h'.lender.trans h.lender, h'.cleanups.trans h.cleanups,
    fun hm => h'.memo (h.memo hm)⟩

theorem touched_fill (A : Abi) (q : Req n) : Touched A q (fill_window_log_cache A q) :=
  ⟨(fill_spec A q).1, (fill_spec A q).2.1, (fill_spec A q).2.2.1, (fill_spec A q).2.2.2, fill_memo⟩

/-- The settings of a request. The level is left to the CDict of `zstd_dict_file`
where that one is attached. -/
def settingsFor (A : Abi) (ans : Answers) (q : Req n) : Settings where
  param
    | .compressionLevel => if q.zlcf.dict = none ∨ q.dcz_dict ≠ none then some (c_int q.zlcf.level) else none
    | .targetCBlockSize => if q.zlcf.target_cblock_size > 0 then some (c_int q.zlcf.target_cblock_size) else none
    | .enableLongDistanceMatching => if q.zlcf.long_mode then some 1 else none
    | .windowLog => if windowFor A q > 0 then some (c_int (windowFor A q)) else none
    | .checksumFlag => if q.dcz_dict ≠ none then some 1 else none
  dict := match q.dcz_dict with
    | some dict => some (dcz_ref dict q.zlcf (windowFor A q))
    | none => q.zlcf.dict.map .cdict
  pledged := if q.pledged_size ≥ 0 ∧ ans.setPledgedSrcSize then some q.pledged_size else none

/-- A part of the section that, when it succeeds, applies `f`. -/
def Applies (A : Abi) (m : Setup n Unit) (f : Settings × Req n → Settings × Req n) : Prop :=
  ∀ s, (m s = .ok () (f s) ∧ Touched A s.2 (f s).2) ∨ ∃ s', m s = .error () s' ∧ Touched A s.2 s'.2

namespace Applies

variable {A : Abi} {ans : Answers}

theorem bind {m m' : Setup n Unit} {f g : Settings × Req n → Settings × Req n} (h : Applies A m f)
    (h' : Applies A m' g) : Applies A (m >>= fun _ => m') (fun s => g (f s)) := by
  intro s
  have hb : (m >>= fun _ => m') s = EStateM.bind m (fun _ => m') s := rfl
  rcases h s with ⟨he, ht⟩ | ⟨s', he, ht⟩
  · rcases h' (f s) with ⟨he', ht'⟩ | ⟨s', he', ht'⟩
    · exact .inl ⟨by rw [hb, EStateM.bind, he]; exact he', ht.trans ht'⟩
    · exact .inr ⟨s', by rw [hb, EStateM.bind, he]; exact he', ht.trans ht'⟩
  · exact .inr ⟨s', by rw [hb, EStateM.bind, he], ht⟩

theorem settings (f : Settings → Settings) : Applies A (n := n) (Setup.settings f) (fun s => (f s.1, s.2)) :=
  fun s => .inl ⟨rfl, Touched.refl A s.2⟩

theorem of_answer {b : Bool} {m : Setup n Unit} {f : Settings × Req n → Settings × Req n} (h : Applies A m f) :
    Applies A (if b then m else Setup.fail) f := by
  cases b with
  | true => exact h
  | false => exact fun s => .inr ⟨s, rfl, Touched.refl A s.2⟩

theorem of_cond (c : Prop) [Decidable c] {m : Setup n Unit} (f : Settings → Settings)
    (h : Applies A m (fun s => (f s.1, s.2))) :
    Applies A (if c then m else pure ()) (fun s => (if c then f s.1 else s.1, s.2)) := by
  by_cases hc : c
  · simp only [if_pos hc]
    exact h
  · simp only [if_neg hc]
    exact fun s => .inl ⟨rfl, Touched.refl A s.2⟩

theorem set_param (param : CParameter) (value : Int) :
    Applies A (n := n) (set_param ans param value) (fun s => (s.1.setParameter param (c_int value), s.2)) :=
  of_answer (settings _)

theorem ref_dict (dict : DictRef) :
    Applies A (n := n) (ref_dict ans dict) (fun s => ({ s.1 with dict := some dict }, s.2)) :=
  of_answer (settings _)

theorem set_dcz_window : Applies A (n := n) (set_dcz_window A ans)
    (fun s => (s.1.setParameter .windowLog (c_int (fill_window_log_cache A s.2).dcz_window_log_cache),
      fill_window_log_cache A s.2)) := by
  intro s
  have hf := touched_fill A s.2
  rcases @set_param n A ans .windowLog (fill_window_log_cache A s.2).dcz_window_log_cache
    (s.1, fill_window_log_cache A s.2) with ⟨he, -⟩ | ⟨s', he, ht⟩
  · exact .inl ⟨he, hf⟩
  · exact .inr ⟨s', he, hf.trans ht⟩

theorem ref_dcz (dict : DczDict) : Applies A (n := n) (ref_dcz ans dict)
    (fun s => ({ s.1 with dict := some (dcz_ref dict s.2.zlcf s.2.dcz_window_log_cache) }, s.2)) := by
  intro s
  exact ref_dict (dcz_ref dict s.2.zlcf s.2.dcz_window_log_cache) s

theorem set_dcz (dict : DczDict) : Applies A (n := n) (set_dcz A ans dict)
    (fun s =>
      let q := fill_window_log_cache A s.2
      (({ s.1.setParameter .windowLog (c_int q.dcz_window_log_cache) with
          dict := some (dcz_ref dict q.zlcf q.dcz_window_log_cache) } : Settings).setParameter .checksumFlag 1, q)) :=
  bind set_dcz_window (bind (ref_dcz dict) (set_param .checksumFlag 1))

end Applies

theorem windowFor_dcz_pos (A : Abi) {q : Req n} (h : q.dcz_dict ≠ none) : windowFor A q > 0 := by
  obtain ⟨dict, hd⟩ := Option.ne_none_iff_exists'.1 h
  unfold windowFor dcz_window_log
  rw [hd]
  dsimp only
  split <;> omega

/-- The parameters in front of the dictionary, set after the reset. -/
def plainSettings (q : Req n) : Settings :=
  let s := Settings.default
  let s := if q.zlcf.dict = none ∨ q.dcz_dict ≠ none then s.setParameter .compressionLevel (c_int q.zlcf.level) else s
  let s := if q.zlcf.target_cblock_size > 0 then s.setParameter .targetCBlockSize (c_int q.zlcf.target_cblock_size)
    else s
  let s := if q.zlcf.long_mode then s.setParameter .enableLongDistanceMatching (c_int 1) else s
  if q.zlcf.window_log > 0 ∧ q.dcz_dict = none then s.setParameter .windowLog (c_int q.zlcf.window_log) else s

def pledge (ans : Answers) (q : Req n) (s : Settings × Req n) : Settings × Req n :=
  (if q.pledged_size ≥ 0 ∧ ans.setPledgedSrcSize then { s.1 with pledged := some q.pledged_size } else s.1, s.2)

namespace Applies

variable {A : Abi} (ans : Answers) (q : Req n)

theorem set_level : Applies A (set_level ans q) (fun s =>
    (if q.zlcf.dict = none ∨ q.dcz_dict ≠ none then s.1.setParameter .compressionLevel (c_int q.zlcf.level) else s.1,
      s.2)) :=
  of_cond _ (·.setParameter .compressionLevel (c_int q.zlcf.level)) (set_param _ _)

theorem set_target_cblock_size : Applies A (set_target_cblock_size ans q) (fun s =>
    (if q.zlcf.target_cblock_size > 0 then s.1.setParameter .targetCBlockSize (c_int q.zlcf.target_cblock_size)
      else s.1, s.2)) :=
  of_cond _ (·.setParameter .targetCBlockSize (c_int q.zlcf.target_cblock_size)) (set_param _ _)

theorem set_long_mode : Applies A (set_long_mode ans q) (fun s =>
    (if q.zlcf.long_mode then s.1.setParameter .enableLongDistanceMatching (c_int 1) else s.1, s.2)) :=
  of_cond _ (·.setParameter .enableLongDistanceMatching (c_int 1)) (set_param _ _)

theorem set_window_log : Applies A (set_window_log ans q) (fun s =>
    (if q.zlcf.window_log > 0 ∧ q.dcz_dict = none then s.1.setParameter .windowLog (c_int q.zlcf.window_log) else s.1,
      s.2)) :=
  of_cond _ (·.setParameter .windowLog (c_int q.zlcf.window_log)) (set_param _ _)

theorem set_pledged : Applies A (set_pledged ans q) (fun s =>
    (if q.pledged_size ≥ 0 ∧ ans.setPledgedSrcSize then { s.1 with pledged := some q.pledged_size } else s.1, s.2)) :=
  of_cond _ (fun s => { s with pledged := some q.pledged_size }) (settings _)

/-- The section is its dictionary part between the plain parameters and the pledge. -/
theorem set_params {ans : Answers} {q : Req n} {f : Settings × Req n → Settings × Req n}
    (h : Applies A (set_dict A ans q) f) :
    Applies A (set_params A ans q) (fun s => pledge ans q (f (plainSettings q, s.2))) := by
  have h1 : Applies A (n := n) (reset_cctx ans) _ := of_answer (settings fun _ => Settings.default)
  have hb := h1.bind ((set_level ans q).bind ((set_target_cblock_size ans q).bind
    ((set_long_mode ans q).bind ((set_window_log ans q).bind (h.bind (set_pledged ans q))))))
  exact hb

end Applies

theorem c_int_one : c_int 1 = 1 := by decide

theorem setParameter_param (s : Settings) (p p' : CParameter) (v : Int) :
    (s.setParameter p v).param p' = if p' = p then some v else s.param p' := by
  simp only [Settings.setParameter, Function.update_apply]

/-- What the part in front of the dictionary sets. -/
theorem plainSettings_param (q : Req n) (p : CParameter) :
    (plainSettings q).param p = match p with
      | .compressionLevel => if q.zlcf.dict = none ∨ q.dcz_dict ≠ none then some (c_int q.zlcf.level) else none
      | .targetCBlockSize => if q.zlcf.target_cblock_size > 0 then some (c_int q.zlcf.target_cblock_size) else none
      | .enableLongDistanceMatching => if q.zlcf.long_mode then some 1 else none
      | .windowLog => if q.zlcf.window_log > 0 ∧ q.dcz_dict = none then some (c_int q.zlcf.window_log) else none
      | .checksumFlag => none := by
  have hite : ∀ (c : Prop) [Decidable c] (s : Settings) (p' : CParameter) (v : Int),
      (if c then s.setParameter p' v else s).param p = if c ∧ p = p' then some v else s.param p := by
    intro c _ s p' v
    by_cases hc : c
    · simp only [hc, ↓reduceIte, true_and, setParameter_param]
    · simp only [hc, ↓reduceIte, false_and]
  have h0 : Settings.default.param p = none := rfl
  simp only [plainSettings, hite, h0, c_int_one]
  cases p <;> simp

theorem plainSettings_rest (q : Req n) : (plainSettings q).dict = none ∧ (plainSettings q).pledged = none := by
  have hite : ∀ (c : Prop) [Decidable c] (s : Settings) (p : CParameter) (v : Int),
      (if c then s.setParameter p v else s).dict = s.dict ∧
        (if c then s.setParameter p v else s).pledged = s.pledged := by
    intro c _ s p v
    split <;> exact ⟨rfl, rfl⟩
  simp only [plainSettings, hite]
  exact ⟨rfl, rfl⟩

theorem settings_pledge {A : Abi} {ans : Answers} {q : Req n} {s : Settings × Req n}
    (h1 : ∀ p, s.1.param p = (settingsFor A ans q).param p) (h2 : s.1.dict = (settingsFor A ans q).dict)
    (h3 : s.1.pledged = none) : (pledge ans q s).1 = settingsFor A ans q := by
  refine Settings.ext ?_ ?_ ?_
  · funext p
    rw [← h1 p]
    unfold pledge
    split <;> rfl
  · rw [← h2]
    unfold pledge
    split <;> rfl
  · simp only [pledge, settingsFor]
    split
    · rfl
    · exact h3

/-- The whole section: it fails, or the context has the settings of the request,
whatever was set on it before. -/
theorem set_params_spec {A : Abi} (ans : Answers) {q : Req n} (hm : q.Memo A) (s : Settings) :
    (∃ q', set_params A ans q (s, q) = .ok () (settingsFor A ans q, q') ∧ Touched A q q') ∨
      ∃ s', set_params A ans q (s, q) = .error () s' ∧ Touched A q s'.2 := by
  -- the dictionary part `f` has to complete the plain parameters
  have key : ∀ f : Settings × Req n → Settings × Req n, Applies A (set_dict A ans q) f →
      (pledge ans q (f (plainSettings q, q))).1 = settingsFor A ans q →
      (∃ q', set_params A ans q (s, q) = .ok () (settingsFor A ans q, q') ∧ Touched A q q') ∨
        ∃ s', set_params A ans q (s, q) = .error () s' ∧ Touched A q s'.2 := by
    intro f hf he
    rcases Applies.set_params hf (s, q) with ⟨hs, ht⟩ | h
    · exact .inl ⟨_, by rw [hs, ← he], ht⟩
    · exact .inr h
  obtain ⟨hdict, hpl⟩ := plainSettings_rest q
  cases hd : q.dcz_dict with
  | some dict =>
    refine key _ (by unfold set_dict; rw [hd]; exact Applies.set_dcz dict) ?_
    have hw := windowFor_dcz_pos A (q := q) (by simp [hd])
    have hfill := fill_dcz hd hm
    have hz := (fill_spec A q).1.zlcf
    refine settings_pledge ?_ ?_ ?_
    · intro p
      simp only [setParameter_param, hfill]
      rw [plainSettings_param]
      cases p <;> simp [settingsFor, hd, hw]
    · simp only [Settings.setParameter, hfill, hz, settingsFor, hd]
    · exact hpl
  | none =>
    have hwin : windowFor A q = q.zlcf.window_log := by simp only [windowFor, hd]
    cases hd' : q.zlcf.dict with
    | some dict =>
      refine key _ (by unfold set_dict; rw [hd, hd']; exact Applies.ref_dict (.cdict dict)) ?_
      refine settings_pledge ?_ ?_ hpl
      · intro p
        dsimp only
        rw [plainSettings_param]
        cases p <;> simp [settingsFor, hd, hd', hwin]
      · simp only [settingsFor, hd, hd', Option.map_some]
    | none =>
      refine key (fun s => s) (by unfold set_dict; rw [hd, hd']; exact fun s => .inl ⟨rfl, Touched.refl A s.2⟩) ?_
      refine settings_pledge ?_ ?_ hpl
      · intro p
        rw [plainSettings_param]
        cases p <;> simp [settingsFor, hd, hd', hwin]
      · simp only [settingsFor, hd, hd', hdict, Option.map_none]

/-- Configuring touches the settings of the one context. -/
theorem configure_spec {A : Abi} (ans : Answers) (ring : Ring n) {q : Req n} (hm : q.Memo A) (c : CCtx) :
    (configure_cctx A ans ring q c).2.1.slots = ring.slots ∧
      (configure_cctx A ans ring q c).2.1.created = ring.created ∧
      (configure_cctx A ans ring q c).2.1.freed = ring.freed ∧ Touched A q (configure_cctx A ans ring q c).2.2 ∧
      ((configure_cctx A ans ring q c).1 = .ok →
        (configure_cctx A ans ring q c).2.1.settings c = settingsFor A ans q) := by
  unfold configure_cctx
  rcases set_params_spec ans hm (ring.settings c) with ⟨q', he, ht⟩ | ⟨s', he, ht⟩
  · rw [he]
    exact ⟨rfl, rfl, rfl, ht, fun _ => Function.update_self ..⟩
  · rw [he]
    exact ⟨rfl, rfl, rfl, ht, by simp⟩

end NginxZstd
