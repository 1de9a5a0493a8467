import Mathlib.Data.List.Perm.Basic
import NginxZstd.VaryFusion
/-!
# Sequences of Vary helpers

The static handler and the filter may both run on one response, and each calls the
helpers it needs. What a sequence of successful calls adds to the header list
depends on the names that were asked for and not on the order or the number of
the calls. A list that a walk reads past takes no pushes at all.
-/

namespace NginxZstd

open Lib

/-! ## Calls -/

/-- A call of one of the helpers. -/
inductive VaryCall where
  | accept_encoding
  | dcz
  | ae_dcz (want_dcz : Bool)
deriving DecidableEq

def VaryCall.run (clcf : Option CoreLocConf) : VaryCall → Response → Except Abort Response
  | .accept_encoding => vary_accept_encoding clcf
  | .dcz => vary_dcz
  | .ae_dcz want_dcz => vary_ae_dcz clcf want_dcz

/-- The calls one after the other, as long as they return `NGX_OK`. -/
def run_calls (clcf : Option CoreLocConf) (calls : List VaryCall) (resp : Response) : Except Abort Response :=
  calls.foldlM (fun resp c => c.run clcf resp) resp

/-- The names the helpers deal in. -/
def varyTokens : List Bytes := [str "Accept-Encoding", str "Available-Dictionary", str "Sec-Fetch-Site"]

/-- The names a call asks for. -/
def VaryCall.requests : VaryCall → List Bytes
  | .accept_encoding => [str "Accept-Encoding"]
  | .dcz => [str "Available-Dictionary", str "Sec-Fetch-Site"]
  | .ae_dcz true => varyTokens
  | .ae_dcz false => [str "Accept-Encoding"]

/-- The names the calls ask for. -/
def requested (calls : List VaryCall) : List Bytes := calls.flatMap VaryCall.requests

/-- The names the list itself has to have: not Accept-Encoding where core emits it. -/
def listed (clcf : Option CoreLocConf) (names : List Bytes) : List Bytes :=
  names.filter fun n => !(core_emits clcf && n == str "Accept-Encoding")

/-- Those of the names that no live Vary line has. -/
def missing (names : List Bytes) (resp : Response) : List Bytes :=
  varyTokens.filter fun n => names.contains n && !decide (Names (varyNames resp.headers.toList) n)

theorem listed_append (clcf : Option CoreLocConf) (ns ms : List Bytes) :
    listed clcf (ns ++ ms) = listed clcf ns ++ listed clcf ms := List.filter_append ..

theorem listed_accept_encoding (clcf : Option CoreLocConf) :
    listed clcf [str "Accept-Encoding"] = if core_emits clcf then [] else [str "Accept-Encoding"] := by
  unfold listed
  cases core_emits clcf <;> rfl

theorem listed_dcz (clcf : Option CoreLocConf) : listed clcf VaryCall.dcz.requests = VaryCall.dcz.requests := by
  unfold listed
  cases core_emits clcf <;> decide

theorem listed_ae_dcz (clcf : Option CoreLocConf) (want_dcz : Bool) :
    listed clcf (VaryCall.ae_dcz want_dcz).requests =
      listed clcf [str "Accept-Encoding"] ++ if want_dcz then VaryCall.dcz.requests else [] := by
  cases want_dcz with
  | false => exact (List.append_nil _).symm
  | true =>
    rw [if_pos rfl, ← listed_dcz clcf, ← listed_append]
    rfl

/-! ## What a call adds -/

/-- What successful calls leave that looked for `names`: the lines that were there,
behind them Vary lines with the names that were missing, and nothing else changed. -/
structure Extended (names : List Bytes) (resp resp' : Response) : Prop where
  lines : ∃ lines, resp'.headers.toList = resp.headers.toList ++ lines ∧
    (∀ h ∈ lines, h.hash = 1 ∧ h.key = str "Vary") ∧ (varyNames lines).Perm (missing names resp)
  found : ∀ n ∈ names, Reached resp' n
  parts : resp.headers.WellFormed → resp'.headers.WellFormed
  broken : ¬resp.headers.WellFormed → resp'.headers = resp.headers
  others : resp' = { resp with headers := resp'.headers, gzip_vary := resp'.gzip_vary, pool := resp'.pool }

theorem Reached.names {resp : Response} {n : Bytes} (h : Reached resp n) : Names (varyNames resp.headers.toList) n := by
  obtain ⟨rest, hrest⟩ := resp.headers.reached_prefix
  rw [← hrest, varyNames_append, names_append]
  exact .inl h

theorem reached_iff {resp : Response} (hw : resp.headers.WellFormed) {n : Bytes} :
    Reached resp n ↔ Names (varyNames resp.headers.toList) n := by
  rw [Reached, PartList.reached_eq hw]

/-- The three names differ also up to case. -/
theorem varyTokens_inj : ∀ n ∈ varyTokens, ∀ m ∈ varyTokens, foldCase n = foldCase m → n = m := by decide

theorem mem_missing {names : List Bytes} {resp : Response} {n : Bytes} :
    n ∈ missing names resp ↔ n ∈ varyTokens ∧ n ∈ names ∧ ¬Names (varyNames resp.headers.toList) n := by
  simp [missing]

/-- Among the three, to be missing up to case is to be missing. -/
theorem names_missing {names : List Bytes} {resp : Response} {n : Bytes} (hn : n ∈ varyTokens) :
    Names (missing names resp) n ↔ n ∈ missing names resp := by
  constructor
  · rintro ⟨m, hm, hf⟩
    rwa [← varyTokens_inj m (mem_missing.1 hm).1 n hn hf]
  · intro h
    exact ⟨n, h, rfl⟩

section
variable {ns ms : List Bytes} {resp resp' resp'' : Response}

/-- Afterwards the lines name what they named and what was looked for. -/
theorem Extended.named (h : Extended ns resp resp') {n : Bytes} (hn : n ∈ varyTokens) :
    Names (varyNames resp'.headers.toList) n ↔ Names (varyNames resp.headers.toList) n ∨ n ∈ ns := by
  obtain ⟨lines, hl, -, hp⟩ := h.lines
  have hlines : Names (varyNames lines) n ↔ Names (missing ns resp) n := by
    simp only [Names, hp.mem_iff]
  rw [hl, varyNames_append, names_append, hlines, names_missing hn, mem_missing]
  by_cases hold : Names (varyNames resp.headers.toList) n
  · simp [hold]
  · simp [hold, hn]

theorem Extended.keeps (h : Extended ns resp resp') {n : Bytes} (hr : Reached resp n) : Reached resp' n := by
  by_cases hw : resp.headers.WellFormed
  · obtain ⟨lines, hl, -⟩ := h.lines
    rw [reached_iff (h.parts hw), hl, varyNames_append, names_append]
    exact .inl hr.names
  · rw [Reached, h.broken hw]
    exact hr

/-- What two disjoint filters keep. -/
theorem filter_or_perm {α : Type} {p q : α → Bool} {l : List α} (h : ∀ x ∈ l, p x = true → q x = false) :
    (l.filter p ++ l.filter q).Perm (l.filter fun x => p x || q x) := by
  have hsplit := List.filter_append_perm p (l.filter fun x => p x || q x)
  rw [List.filter_filter, List.filter_filter] at hsplit
  have hp : (l.filter fun x => p x && (p x || q x)) = l.filter p :=
    List.filter_congr fun x _ => by cases p x <;> simp
  have hq : (l.filter fun x => !p x && (p x || q x)) = l.filter q :=
    List.filter_congr fun x hx => by
      cases hpx : p x with
      | true => rw [h x hx hpx]; rfl
      | false => simp
  rwa [hp, hq] at hsplit

/-- What is missing for two calls is missing for the first, or for the second behind
it. -/
theorem Extended.missing_append (h : Extended ns resp resp') (ms : List Bytes) :
    (missing ns resp ++ missing ms resp').Perm (missing (ns ++ ms) resp) := by
  unfold missing
  refine (filter_or_perm fun n hn h1 => ?_).trans (List.Perm.of_eq (List.filter_congr fun n hn => ?_))
  · have hin : n ∈ ns := by
      simp only [Bool.and_eq_true, List.contains_iff_mem] at h1
      exact h1.1
    simp [(h.named hn).2 (.inr hin)]
  · rw [Bool.eq_iff_iff]
    simp only [Bool.or_eq_true, Bool.and_eq_true, List.contains_iff_mem, Bool.not_eq_true', decide_eq_false_iff_not,
      h.named hn, List.mem_append]
    tauto

theorem Extended.trans (h : Extended ns resp resp') (h' : Extended ms resp' resp'') :
    Extended (ns ++ ms) resp resp'' := by
  obtain ⟨lines, hl, hv, hp⟩ := h.lines
  obtain ⟨lines', hl', hv', hp'⟩ := h'.lines
  refine ⟨⟨lines ++ lines', ?_, ?_, ?_⟩, ?_, h'.parts ∘ h.parts, ?_, ?_⟩
  · rw [hl', hl, List.append_assoc]
  · intro e he
    rcases List.mem_append.1 he with he | he
    · exact hv e he
    · exact hv' e he
  · rw [varyNames_append]
    exact (hp.append hp').trans (h.missing_append ms)
  · intro n hn
    rcases List.mem_append.1 hn with hn | hn
    · exact h'.keeps (h.found n hn)
    · exact h'.found n hn
  · intro hw
    have hsame := h.broken hw
    rw [h'.broken (by rwa [hsame]), hsame]
  · rw [h'.others, h.others]

/-- Nothing is pushed where everything is found. -/
theorem Extended.of_found (resp : Response) {ns : List Bytes} (b : Bool) (h : ∀ n ∈ ns, Reached resp n) :
    Extended ns resp { resp with gzip_vary := b } := by
  have hnone : missing ns resp = [] := by
    rw [missing, List.filter_eq_nil_iff]
    intro n _ hm
    simp only [Bool.and_eq_true, List.contains_iff_mem, Bool.not_eq_true', decide_eq_false_iff_not] at hm
    exact hm.2 (h n hm.1).names
  exact ⟨⟨[], by simp, by simp, by rw [hnone]; rfl⟩, h, id, fun _ => rfl, rfl⟩

/-- A pushed line with what is missing. -/
theorem Extended.of_push {value : Bytes} (hw : resp.headers.WellFormed)
    (h : push_header resp (str "Vary") value = .ok resp') (hv : fieldNames value = missing ns resp)
    (hns : ∀ n ∈ ns, n ∈ varyTokens) : Extended ns resp resp' := by
  obtain ⟨hl, hp, -⟩ := push_header_spec h
  refine ⟨⟨_, hl, by simp, ?_⟩, fun n hn => ?_, hp, fun hb => absurd hw hb, ?_⟩
  · rw [varyNames_vary, hv]
  · rw [reached_iff (hp hw), hl, varyNames_append, names_append, varyNames_vary, hv]
    by_cases hold : Names (varyNames resp.headers.toList) n
    · exact .inl hold
    · exact .inr ((names_missing (hns n hn)).2 (mem_missing.2 ⟨hns n hn, hn, hold⟩))
  · rw [push_header_unfold] at h
    split at h
    · cases h
      rfl
    · cases h

end

/-! ## The helpers -/

/-- For names in the order of the three. -/
theorem missing_eq {ns : List Bytes} (h : varyTokens.filter (ns.contains ·) = ns) (resp : Response) :
    missing ns resp = ns.filter fun n => !decide (Names (varyNames resp.headers.toList) n) := by
  conv_rhs => rw [← h, List.filter_filter]
  exact List.filter_congr fun n _ => Bool.and_comm _ _

theorem vary_accept_encoding_extends {clcf : Option CoreLocConf} {resp resp' : Response}
    (h : vary_accept_encoding clcf resp = .ok resp') :
    Extended (listed clcf [str "Accept-Encoding"]) resp resp' ∧ resp'.gzip_vary = true := by
  rw [vary_accept_encoding_unfold, vary_has_token] at h
  rw [listed_accept_encoding]
  cases hc : core_emits clcf with
  | true =>
    rw [hc, if_pos rfl] at h
    cases h
    exact ⟨.of_found resp true fun _ hn => absurd hn List.not_mem_nil, rfl⟩
  | false =>
    rw [if_neg Bool.false_ne_true]
    simp only [hc, Bool.false_eq_true, if_false, vary_find_tokens_any { resp with gzip_vary := true }
      (List.cons_ne_nil (str "Accept-Encoding") []) (by decide)] at h
    split at h
    · next hok =>
      by_cases hr : Reached resp (str "Accept-Encoding")
      · have hr' : Reached { resp with gzip_vary := true } (str "Accept-Encoding") := hr
        simp only [List.map_cons, List.map_nil, hr', decide_true] at h
        cases h
        exact ⟨.of_found resp true (by simpa using hr), rfl⟩
      · have hr' : ¬Reached { resp with gzip_vary := true } (str "Accept-Encoding") := hr
        have hw : resp.headers.WellFormed := hok.resolve_right (by simpa using hr')
        simp only [List.map_cons, List.map_nil, hr', decide_false] at h
        have hpush : push_header { resp with gzip_vary := true } (str "Vary") (str "Accept-Encoding") = .ok resp' := h
        have hmissing : fieldNames (str "Accept-Encoding") =
            missing [str "Accept-Encoding"] { resp with gzip_vary := true } := by
          rw [missing_eq (by decide)]
          rw [@reached_iff { resp with gzip_vary := true } hw] at hr'
          simp only [List.filter_cons, hr', decide_false, Bool.not_false, if_true, List.filter_nil]
          decide
        have hgz := (push_header_spec hpush).2.2
        have hraised : Extended [] resp { resp with gzip_vary := true } :=
          .of_found resp true fun _ hn => absurd hn List.not_mem_nil
        exact ⟨hraised.trans (.of_push hw hpush hmissing (by decide)), hgz⟩
    · cases h

/-- The four shapes of the push, each with what is missing. -/
theorem push_dcz_extends {resp resp' : Response} (hw : resp.headers.WellFormed)
    (h : push_dcz resp (decide (Names (varyNames resp.headers.toList) (str "Available-Dictionary")))
      (decide (Names (varyNames resp.headers.toList) (str "Sec-Fetch-Site"))) = .ok resp') :
    Extended [str "Available-Dictionary", str "Sec-Fetch-Site"] resp resp' ∧ resp'.gzip_vary = resp.gzip_vary := by
  have hmissing := @missing_eq [str "Available-Dictionary", str "Sec-Fetch-Site"] (by decide) resp
  have hpush : ∀ value, push_header resp (str "Vary") value = .ok resp' →
      fieldNames value = missing [str "Available-Dictionary", str "Sec-Fetch-Site"] resp →
      Extended [str "Available-Dictionary", str "Sec-Fetch-Site"] resp resp' ∧ resp'.gzip_vary = resp.gzip_vary :=
    fun value hp hv => ⟨.of_push hw hp hv (by decide), (push_header_spec hp).2.2⟩
  rw [push_dcz_unfold] at h
  by_cases had : Names (varyNames resp.headers.toList) (str "Available-Dictionary")
  · by_cases hsfs : Names (varyNames resp.headers.toList) (str "Sec-Fetch-Site")
    · simp only [had, hsfs, decide_true, Bool.and_self, if_true] at h
      cases h
      refine ⟨.of_found resp resp.gzip_vary fun n hn => ?_, rfl⟩
      rw [reached_iff hw]
      rcases List.mem_pair.1 hn with rfl | rfl
      · exact had
      · exact hsfs
    · simp only [had, hsfs, decide_true, decide_false, Bool.and_false, Bool.false_eq_true, if_true, if_false] at h
      refine hpush _ h ?_
      rw [hmissing]
      simp only [List.filter_cons, had, hsfs, decide_true, decide_false, Bool.not_true, Bool.not_false, if_true,
        Bool.false_eq_true, if_false, List.filter_nil]
      decide
  · by_cases hsfs : Names (varyNames resp.headers.toList) (str "Sec-Fetch-Site")
    · simp only [had, hsfs, decide_true, decide_false, Bool.and_true, Bool.false_eq_true, if_true, if_false] at h
      refine hpush _ h ?_
      rw [hmissing]
      simp only [List.filter_cons, had, hsfs, decide_true, decide_false, Bool.not_true, Bool.not_false, if_true,
        Bool.false_eq_true, if_false, List.filter_nil]
      decide
    · simp only [had, hsfs, decide_false, Bool.and_false, Bool.false_eq_true, if_false] at h
      refine hpush _ h ?_
      rw [hmissing]
      simp only [List.filter_cons, had, hsfs, decide_false, Bool.not_false, if_true, List.filter_nil]
      decide

/-- A walk that reads past the list returns only if it finds all it looks for. -/
theorem vary_find_tokens_broken {resp : Response} {tokens : List Bytes} {has : List Bool}
    (hw : ¬resp.headers.WellFormed) (hne : tokens ≠ []) (ht : ∀ t ∈ tokens, t ≠ [] ∧ 0 ∉ t)
    (h : vary_find_tokens resp tokens = .ok has) :
    (∀ t ∈ tokens, Reached resp t) ∧ has = tokens.map fun _ => true := by
  rw [vary_find_tokens_any resp hne ht] at h
  split at h
  · next hok =>
    have hr := hok.resolve_left hw
    cases h
    exact ⟨hr, List.map_congr_left fun t hm => decide_eq_true (hr t hm)⟩
  · cases h

theorem vary_dcz_extends {resp resp' : Response} (h : vary_dcz resp = .ok resp') :
    Extended [str "Available-Dictionary", str "Sec-Fetch-Site"] resp resp' ∧ resp'.gzip_vary = resp.gzip_vary := by
  by_cases hw : resp.headers.WellFormed
  · rw [vary_dcz_unfold, vary_find_tokens_spec hw _ (by decide)] at h
    exact push_dcz_extends hw h
  · rw [vary_dcz_unfold] at h
    obtain ⟨has, hhas, h⟩ := bind_ok h
    obtain ⟨hr, rfl⟩ := vary_find_tokens_broken hw (List.cons_ne_nil _ _) (by decide) hhas
    cases h
    exact ⟨.of_found resp resp.gzip_vary hr, rfl⟩

theorem vary_ae_dcz_broken {clcf : Option CoreLocConf} {want_dcz : Bool} {resp resp' : Response}
    (hw : ¬resp.headers.WellFormed) (h : vary_ae_dcz clcf want_dcz resp = .ok resp') :
    (∀ n ∈ listed clcf (VaryCall.ae_dcz want_dcz).requests, Reached resp n) ∧ resp' = { resp with gzip_vary := true } := by
  rw [listed_ae_dcz, listed_accept_encoding]
  rw [vary_ae_dcz_unfold] at h
  cases hc : core_emits clcf with
  | true =>
    rw [hc] at h
    cases want_dcz with
    | false =>
      cases h
      exact ⟨nofun, rfl⟩
    | true =>
      obtain ⟨found, hfound, h⟩ := bind_ok h
      obtain ⟨has, hhas, hflags⟩ := bind_ok hfound
      obtain ⟨hr, rfl⟩ := vary_find_tokens_broken hw (List.cons_ne_nil _ _) (by decide) hhas
      cases hflags
      cases h
      exact ⟨hr, rfl⟩
  | false =>
    rw [hc] at h
    obtain ⟨found, hfound, h⟩ := bind_ok h
    obtain ⟨has, hhas, hflags⟩ := bind_ok hfound
    obtain ⟨hr, rfl⟩ := vary_find_tokens_broken hw (List.cons_ne_nil _ _) (by cases want_dcz <;> decide) hhas
    cases hflags
    refine ⟨hr, ?_⟩
    cases want_dcz with
    | false =>
      cases h
      rfl
    | true =>
      cases h
      rfl

theorem vary_ae_dcz_extends {clcf : Option CoreLocConf} {want_dcz : Bool} {resp resp' : Response}
    (h : vary_ae_dcz clcf want_dcz resp = .ok resp') :
    Extended (listed clcf (VaryCall.ae_dcz want_dcz).requests) resp resp' ∧ resp'.gzip_vary = true := by
  by_cases hw : resp.headers.WellFormed
  · rw [vary_ae_dcz_eq hw] at h
    obtain ⟨resp1, h1, h2⟩ := bind_ok h
    obtain ⟨hae, hgz⟩ := vary_accept_encoding_extends h1
    cases want_dcz with
    | false =>
      cases h2
      exact ⟨hae, hgz⟩
    | true =>
      obtain ⟨hdcz, hsame⟩ := vary_dcz_extends h2
      rw [listed_ae_dcz]
      exact ⟨hae.trans hdcz, hsame.trans hgz⟩
  · obtain ⟨hr, rfl⟩ := vary_ae_dcz_broken hw h
    exact ⟨.of_found resp true hr, rfl⟩

/-! ## One call -/

/-- What a call leaves. -/
theorem VaryCall.run_extends {clcf : Option CoreLocConf} {c : VaryCall} {resp resp' : Response}
    (h : c.run clcf resp = .ok resp') :
    Extended (listed clcf c.requests) resp resp' ∧
      resp'.gzip_vary = (resp.gzip_vary || c.requests.contains (str "Accept-Encoding")) := by
  cases c with
  | accept_encoding =>
    obtain ⟨he, hg⟩ := vary_accept_encoding_extends h
    exact ⟨he, by rw [hg, Bool.or_comm]; rfl⟩
  | dcz =>
    obtain ⟨he, hg⟩ := vary_dcz_extends h
    have hno : VaryCall.dcz.requests.contains (str "Accept-Encoding") = false := by decide
    rw [listed_dcz]
    exact ⟨he, by rw [hg, hno, Bool.or_false]⟩
  | ae_dcz want_dcz =>
    obtain ⟨he, hg⟩ := vary_ae_dcz_extends h
    have hyes : (VaryCall.ae_dcz want_dcz).requests.contains (str "Accept-Encoding") = true := by
      cases want_dcz <;> decide
    exact ⟨he, by rw [hg, hyes, Bool.or_true]⟩

theorem vary_find_tokens_all (resp : Response) {tokens : List Bytes} (hne : tokens ≠ [])
    (ht : ∀ t ∈ tokens, t ≠ [] ∧ 0 ∉ t) (hr : ∀ t ∈ tokens, Reached resp t) :
    vary_find_tokens resp tokens = .ok (tokens.map fun _ => true) := by
  rw [vary_find_tokens_any resp hne ht, if_pos (.inr hr)]
  exact congrArg _ (List.map_congr_left fun t hm => decide_eq_true (hr t hm))

theorem gzip_vary_raised {resp : Response} (h : resp.gzip_vary = true) : { resp with gzip_vary := true } = resp := by
  rw [← h]

/-- A call that finds all it asks for, in a response that has `gzip_vary` up if it
would raise it, changes nothing. -/
theorem VaryCall.run_settled {clcf : Option CoreLocConf} {c : VaryCall} {resp : Response}
    (hr : ∀ n ∈ listed clcf c.requests, Reached resp n)
    (hg : c.requests.contains (str "Accept-Encoding") = true → resp.gzip_vary = true) : c.run clcf resp = .ok resp := by
  cases c with
  | accept_encoding =>
    have hae : ∀ n ∈ listed clcf [str "Accept-Encoding"], Reached resp n := hr
    rw [listed_accept_encoding] at hae
    show vary_accept_encoding clcf resp = _
    rw [vary_accept_encoding_unfold, gzip_vary_raised (hg (by decide)), vary_has_token]
    cases hc : core_emits clcf with
    | true => rfl
    | false =>
      rw [hc] at hae
      rw [vary_find_tokens_all resp (List.cons_ne_nil _ _) (by decide) hae]
      rfl
  | dcz =>
    rw [listed_dcz] at hr
    show vary_dcz resp = _
    rw [vary_dcz_unfold, vary_find_tokens_all resp (List.cons_ne_nil _ _) (by decide) hr]
    rfl
  | ae_dcz want_dcz =>
    rw [listed_ae_dcz, listed_accept_encoding] at hr
    show vary_ae_dcz clcf want_dcz resp = _
    rw [vary_ae_dcz_unfold, gzip_vary_raised (hg (by cases want_dcz <;> decide))]
    cases hc : core_emits clcf with
    | true =>
      rw [hc] at hr
      cases want_dcz with
      | false => rfl
      | true =>
        have hdcz : ∀ n ∈ [str "Available-Dictionary", str "Sec-Fetch-Site"], Reached resp n := hr
        simp only [find_ae_dcz, vary_find_tokens_all resp (List.cons_ne_nil _ _) (by decide) hdcz]
        rfl
    | false =>
      rw [hc] at hr
      have hall : ∀ n ∈ str "Accept-Encoding" ::
          (if want_dcz then [str "Available-Dictionary", str "Sec-Fetch-Site"] else []),
          Reached resp n := hr
      simp only [find_ae_dcz, vary_find_tokens_all resp (List.cons_ne_nil _ _) (by cases want_dcz <;> decide) hall]
      cases want_dcz with
      | false => rfl
      | true => rfl

/-! ## Any sequence of calls -/

theorem mem_listed {clcf : Option CoreLocConf} {ns : List Bytes} {n : Bytes} :
    n ∈ listed clcf ns ↔ n ∈ ns ∧ ¬(core_emits clcf = true ∧ n = str "Accept-Encoding") := by
  unfold listed
  cases core_emits clcf <;> simp

theorem requested_cons (c : VaryCall) (calls : List VaryCall) : requested (c :: calls) = c.requests ++ requested calls :=
  List.flatMap_cons ..

/-- What the calls leave: what one call would that asked for everything. -/
theorem run_calls_extends {clcf : Option CoreLocConf} {calls : List VaryCall} : ∀ {resp resp' : Response},
    run_calls clcf calls resp = .ok resp' →
      Extended (listed clcf (requested calls)) resp resp' ∧
        resp'.gzip_vary = (resp.gzip_vary || (requested calls).contains (str "Accept-Encoding")) := by
  induction calls with
  | nil =>
    intro resp resp' h
    cases h
    exact ⟨.of_found resp resp.gzip_vary nofun, (Bool.or_false _).symm⟩
  | cons c calls ih =>
    intro resp resp' h
    obtain ⟨resp1, h1, h2⟩ := bind_ok h
    obtain ⟨he1, hg1⟩ := VaryCall.run_extends h1
    obtain ⟨he2, hg2⟩ := ih h2
    rw [requested_cons, listed_append]
    refine ⟨he1.trans he2, ?_⟩
    rw [hg2, hg1, List.contains_append, Bool.or_assoc]

/-- A call that asks for nothing new changes nothing. -/
theorem run_calls_settles {clcf : Option CoreLocConf} {calls : List VaryCall} {resp resp' : Response}
    (h : run_calls clcf calls resp = .ok resp') {c : VaryCall} (hc : ∀ n ∈ c.requests, n ∈ requested calls) :
    c.run clcf resp' = .ok resp' := by
  obtain ⟨he, hg⟩ := run_calls_extends h
  refine c.run_settled (fun n hn => ?_) fun hae => ?_
  · obtain ⟨hin, hout⟩ := mem_listed.1 hn
    exact he.found n (mem_listed.2 ⟨hc n hin, hout⟩)
  · have hae' := List.contains_iff_mem.2 (hc _ (List.contains_iff_mem.1 hae))
    rw [hg, hae', Bool.or_true]

/-- What is missing is decided by the lines and by which names are asked for. -/
theorem missing_congr {ns ms : List Bytes} {resp resp' : Response} (hl : resp.headers.toList = resp'.headers.toList)
    (hn : ∀ n, n ∈ ns ↔ n ∈ ms) : missing ns resp = missing ms resp' := by
  have hin : ∀ n, ns.contains n = ms.contains n := by
    intro n
    rw [Bool.eq_iff_iff, List.contains_iff_mem, List.contains_iff_mem, hn]
  simp only [missing, hl, hin]

theorem missing_nodup (ns : List Bytes) (resp : Response) : ((missing ns resp).map foldCase).Nodup := by
  have hall : (varyTokens.map foldCase).Nodup := by decide
  exact hall.sublist (List.filter_sublist.map foldCase)

/-- The flags a walk returns say which names the live Vary lines list. -/
theorem vary_find_tokens_exact {resp : Response} {tokens : List Bytes} {has : List Bool} (hne : tokens ≠ [])
    (ht : ∀ t ∈ tokens, t ≠ [] ∧ 0 ∉ t) (h : vary_find_tokens resp tokens = .ok has) :
    has = tokens.map fun t => decide (Names (varyNames resp.headers.toList) t) := by
  by_cases hw : resp.headers.WellFormed
  · rw [vary_find_tokens_spec hw tokens ht] at h
    cases h
    rfl
  · obtain ⟨hr, rfl⟩ := vary_find_tokens_broken hw hne ht h
    exact List.map_congr_left fun t hm => (decide_eq_true (hr t hm).names).symm

/-- For every header list, every `gzip_vary` setting and every sequence of successful
calls: the lines that were there stay as they are, and behind them stand Vary lines
with the names that were asked for and missing, each once. Asking again adds
nothing, the names depend on the lines and on which names were asked for, and the
walk over the list finds exactly the names on its live Vary lines. -/
theorem run_calls_vary (clcf : Option CoreLocConf) (calls : List VaryCall) (resp resp' : Response)
    (h : run_calls clcf calls resp = .ok resp') :
    (∃ lines, resp'.headers.toList = resp.headers.toList ++ lines ∧
      (∀ e ∈ lines, e.hash = 1 ∧ e.key = str "Vary") ∧
      (varyNames lines).Perm (missing (listed clcf (requested calls)) resp) ∧
      ((varyNames lines).map foldCase).Nodup ∧
      ∀ n ∈ varyNames lines, n ∈ requested calls ∧ ¬Names (varyNames resp.headers.toList) n) ∧
    resp' = { resp with
      headers := resp'.headers, pool := resp'.pool,
      gzip_vary := resp.gzip_vary || (requested calls).contains (str "Accept-Encoding") } ∧
    (∀ c : VaryCall, (∀ n ∈ c.requests, n ∈ requested calls) → c.run clcf resp' = .ok resp') ∧
    (∀ calls2 resp2 resp2', run_calls clcf calls2 resp2 = .ok resp2' →
      resp2.headers.toList = resp.headers.toList → (∀ n, n ∈ requested calls2 ↔ n ∈ requested calls) →
      (varyNames resp2'.headers.toList).Perm (varyNames resp'.headers.toList)) ∧
    ∀ tokens : List Bytes, tokens ≠ [] → (∀ t ∈ tokens, t ≠ [] ∧ 0 ∉ t) →
      (∀ has, vary_find_tokens resp' tokens = .ok has →
        has = tokens.map fun t => decide (Names (varyNames resp'.headers.toList) t)) ∧
      (resp.headers.WellFormed → ∃ has, vary_find_tokens resp' tokens = .ok has) := by
  obtain ⟨he, hg⟩ := run_calls_extends h
  obtain ⟨lines, hl, hv, hp⟩ := he.lines
  refine ⟨⟨lines, hl, hv, hp, ?_, ?_⟩, ?_, fun c hc => run_calls_settles h hc, ?_, ?_⟩
  · exact (hp.map foldCase).nodup_iff.2 (missing_nodup _ _)
  · intro n hn
    obtain ⟨-, hin, hout⟩ := mem_missing.1 (hp.mem_iff.1 hn)
    exact ⟨(mem_listed.1 hin).1, hout⟩
  · rw [← hg]
    exact he.others
  · intro calls2 resp2 resp2' h2 hsame hasked
    obtain ⟨lines2, hl2, -, hp2⟩ := (run_calls_extends h2).1.lines
    have hmiss : missing (listed clcf (requested calls2)) resp2 = missing (listed clcf (requested calls)) resp :=
      missing_congr hsame fun n => by simp only [mem_listed, hasked]
    rw [hl2, hl, hsame, varyNames_append, varyNames_append]
    exact (hp2.trans (hmiss ▸ hp.symm)).append_left _
  · intro tokens hne ht
    exact ⟨fun has hhas => vary_find_tokens_exact hne ht hhas, fun hw => ⟨_, vary_find_tokens_spec (he.parts hw) tokens ht⟩⟩

theorem VaryCall.run_onlyRefused (clcf : Option CoreLocConf) (c : VaryCall) {resp : Response}
    (hw : resp.headers.WellFormed) : OnlyRefused resp.pool Response.pool (c.run clcf resp) := by
  cases c with
  | accept_encoding => exact vary_accept_encoding_onlyRefused clcf hw
  | dcz => exact vary_dcz_onlyRefused hw
  | ae_dcz want_dcz => exact vary_ae_dcz_onlyRefused clcf want_dcz hw

/-- A run of calls fails for want of memory only. -/
theorem run_calls_onlyRefused (clcf : Option CoreLocConf) (calls : List VaryCall) : ∀ {resp : Response},
    resp.headers.WellFormed → OnlyRefused resp.pool Response.pool (run_calls clcf calls resp) := by
  induction calls with
  | nil => exact fun _ => .of_ok id
  | cons c calls ih =>
    intro resp hw
    rw [run_calls, List.foldlM_cons]
    apply (c.run_onlyRefused clcf hw).bind
    intro resp1 h1
    exact ih ((VaryCall.run_extends h1).1.parts hw)

/-- A response whose second Vary line names one of the two dcz names already. -/
def variedResponse : Response :=
  { sampleResponse with
    headers := ⟨2, [⟨1, str "Vary", str "Origin", none⟩, ⟨0, str "Vary", str "Accept-Encoding", none⟩],
      [[⟨1, str "vary", str " sec-fetch-SITE ,Cookie", none⟩]]⟩ }

/-- Both modules on one response: the name that is there is not pushed again, the line
that was deleted counts for nothing, and the names come out as they would from the
fused helper alone. -/
theorem run_calls_vary_both : ∃ resp' resp2',
    run_calls none [.dcz, .accept_encoding, .ae_dcz true, .dcz] variedResponse = .ok resp' ∧
    run_calls none [.ae_dcz true] variedResponse = .ok resp2' ∧
    missing (requested [.dcz, .accept_encoding]) variedResponse = [str "Accept-Encoding", str "Available-Dictionary"] ∧
    (varyNames resp2'.headers.toList).Perm (varyNames resp'.headers.toList) ∧
    vary_dcz resp' = .ok resp' := by
  have hw : variedResponse.headers.WellFormed := by decide
  have hp : Granting variedResponse.pool := by decide
  obtain ⟨resp', h', -⟩ := (run_calls_onlyRefused none [.dcz, .accept_encoding, .ae_dcz true, .dcz] hw).granted hp
  obtain ⟨resp2', h2, -⟩ := (run_calls_onlyRefused none [.ae_dcz true] hw).granted hp
  obtain ⟨-, -, hagain, hsame, -⟩ := run_calls_vary none _ variedResponse resp' h'
  have hone : ∀ n ∈ requested [.ae_dcz true], n ∈ requested [.dcz, .accept_encoding, .ae_dcz true, .dcz] := by decide
  have hall : ∀ n ∈ requested [.dcz, .accept_encoding, .ae_dcz true, .dcz], n ∈ requested [.ae_dcz true] := by decide
  exact ⟨resp', resp2', h', h2, by decide, hsame _ _ _ h2 rfl fun n => ⟨hone n, hall n⟩, hagain .dcz (by decide)⟩

end NginxZstd
