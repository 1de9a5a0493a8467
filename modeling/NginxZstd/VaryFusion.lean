import NginxZstd.Vary
/-!
# The fused Vary helper

`vary_ae_dcz` walks the header list once where `vary_accept_encoding` and `vary_dcz`
walk it twice, the second time with what the first has pushed. Here the response they
leave when a push fails counts too, and the list is any, also one that a walk reads past.
-/

namespace NginxZstd

open Lib

/-! ## What a walk finds in any list -/

/-- The walk reaches a live Vary line with the name. -/
def Reached (resp : Response) (name : Bytes) : Prop := Names (varyNames resp.headers.reached) name

instance (resp : Response) (name : Bytes) : Decidable (Reached resp name) := inferInstanceAs (Decidable (Names _ _))

/-- The tokens of the lines, until every flag is up. -/
theorem foldlM_note_token (tokens toks : List Bytes) : ∀ f : Bytes → Bool, (¬∀ t ∈ tokens, f t = true) →
    toks.foldlM (note_token tokens) (tokens.map f) =
      let has := tokens.map fun t => f t || toks.any fun tok => equals_nocase tok t
      if has.all id then .error has else .ok has := by
  induction toks with
  | nil =>
    intro f hf
    have : ¬(tokens.map f).all id = true := by simpa using hf
    simp [pure, Except.pure, this]
  | cons tok toks ih =>
    intro f hf
    have hz : List.zipWith (fun t b => b || equals_nocase tok t) tokens (tokens.map f) =
        tokens.map fun t => f t || equals_nocase tok t := by
      rw [List.zipWith_map_right, List.zipWith_self]
    simp only [List.foldlM_cons, List.any_cons, ← Bool.or_assoc, note_token, hz]
    by_cases hall : (tokens.map fun t => f t || equals_nocase tok t).all id = true
    · -- every flag is up, so what was not read could not have changed one
      have hup : ∀ t ∈ tokens, (f t || equals_nocase tok t) = true := by simpa using hall
      have hsame : (tokens.map fun t => f t || equals_nocase tok t || toks.any fun tok => equals_nocase tok t) =
          tokens.map fun t => f t || equals_nocase tok t :=
        List.map_congr_left fun t ht => by rw [hup t ht, Bool.true_or]
      rw [hsame, if_pos hall]
      rfl
    · rw [if_neg hall]
      exact ih _ fun h => hall (by simpa using h)

/-- Any list: the flags say what the lines reached name, unless some name is missing
there and the walk goes on to read past a part. -/
theorem vary_find_tokens_any (resp : Response) {tokens : List Bytes} (hne : tokens ≠ [])
    (ht : ∀ t ∈ tokens, t ≠ [] ∧ 0 ∉ t) :
    vary_find_tokens resp tokens =
      if resp.headers.WellFormed ∨ ∀ t ∈ tokens, Reached resp t then .ok (tokens.map fun t => decide (Reached resp t))
      else .error .fault := by
  have hnone : ¬∀ t ∈ tokens, (fun _ : Bytes => false) t = true := by
    obtain ⟨t, ht⟩ := List.exists_mem_of_ne_nil tokens hne
    exact fun h => Bool.false_ne_true (h t ht)
  have hflags : (tokens.map fun t => false || (((resp.headers.reached.filter vary_line).flatMap fun h =>
      vary_tokens h.value).any fun tok => equals_nocase tok t)) = tokens.map fun t => decide (Reached resp t) :=
    List.map_congr_left fun t htm => by rw [Bool.false_or, any_token_names _ (ht t htm).1 (ht t htm).2]; rfl
  have hall : (tokens.map fun t => decide (Reached resp t)).all id = true ↔ ∀ t ∈ tokens, Reached resp t := by simp
  simp only [vary_find_tokens, PartList.walk_reached, foldlM_note_vary]
  rw [foldlM_note_token tokens _ _ hnone]
  simp only [hflags]
  by_cases hr : ∀ t ∈ tokens, Reached resp t
  · rw [if_pos (hall.2 hr), if_pos (.inr hr)]
    rfl
  · rw [if_neg (mt hall.1 hr)]
    by_cases hw : resp.headers.WellFormed
    · rw [if_pos (.inl hw)]
      simp only [if_pos hw]
      rfl
    · rw [if_neg (not_or.2 ⟨hw, hr⟩)]
      simp only [if_neg hw]
      rfl

/-! ## One walk and two -/

theorem find_tokens_any (resp : Response) {tokens : List Bytes} (hne : tokens ≠ []) (ht : ∀ t ∈ tokens, t ≠ [] ∧ 0 ∉ t) :
    find_tokens tokens resp =
      if resp.headers.WellFormed ∨ ∀ t ∈ tokens, Reached resp t then
        .ok (tokens.map fun t => decide (Reached resp t)) resp
      else .error .fault resp := by
  unfold find_tokens
  rw [vary_find_tokens_any resp hne ht]
  by_cases h : resp.headers.WellFormed ∨ ∀ t ∈ tokens, Reached resp t
  · simp only [if_pos h]
  · simp only [if_neg h]

/-- The second walk, on any list. -/
theorem vary_dcz_rc_any (resp : Response) :
    vary_dcz_rc resp =
      if resp.headers.WellFormed ∨ Reached resp (str "Available-Dictionary") ∧ Reached resp (str "Sec-Fetch-Site") then
        push_dcz_rc (Reached resp (str "Available-Dictionary")) (Reached resp (str "Sec-Fetch-Site")) resp
      else .error .fault resp := by
  unfold vary_dcz_rc
  rw [bind_run, find_tokens_any resp (by simp) (by decide)]
  simp only [List.forall_mem_cons, List.not_mem_nil, false_implies, implies_true, and_true]
  by_cases h : resp.headers.WellFormed ∨ Reached resp (str "Available-Dictionary") ∧ Reached resp (str "Sec-Fetch-Site")
  · simp only [if_pos h]
    rfl
  · simp only [if_neg h]

/-- What the two names are found to be is not changed by a pushed Accept-Encoding
line. -/
theorem vary_dcz_rc_pushed {resp resp' : Response} (hw : resp.headers.WellFormed)
    (h : push_header_rc (str "Vary") (str "Accept-Encoding") resp = .ok () resp') :
    vary_dcz_rc resp' =
      push_dcz_rc (Reached resp (str "Available-Dictionary")) (Reached resp (str "Sec-Fetch-Site")) resp' := by
  have hpush : push_header resp (str "Vary") (str "Accept-Encoding") = .ok resp' := by
    rw [push_header, h]
    rfl
  obtain ⟨hl, hparts, -⟩ := push_header_spec hpush
  have hw' := hparts hw
  have hsame : ∀ name, foldCase (str "Accept-Encoding") ≠ foldCase name → (Reached resp' name ↔ Reached resp name) := by
    intro name hn
    rw [Reached, Reached, PartList.reached_eq hw, PartList.reached_eq hw', hl]
    exact names_push_ae hn
  have had := hsame (str "Available-Dictionary") (by decide)
  have hsfs := hsame (str "Sec-Fetch-Site") (by decide)
  rw [vary_dcz_rc_any, if_pos (.inl hw')]
  simp only [had, hsfs]

/-- For every header list, `gzip_vary` setting and schedule of failures, the fused
helper returns what the two helpers return one after the other, and leaves the
response they leave. -/
theorem vary_ae_dcz_two (clcf : Option CoreLocConf) (want_dcz : Bool) :
    vary_ae_dcz_rc clcf want_dcz =
      (do
        vary_accept_encoding_rc clcf
        if want_dcz then vary_dcz_rc else pure ()) := by
  funext resp
  unfold vary_ae_dcz_rc vary_accept_encoding_rc
  simp only [bind_run, set_gzip_vary]
  generalize { resp with gzip_vary := true } = r
  cases core_emits clcf with
  | true =>
    cases want_dcz with
    | false => rfl
    | true => rfl
  | false =>
    simp only [Bool.not_false, Bool.not_true, Bool.false_and, Bool.false_eq_true, if_true, if_false]
    cases want_dcz with
    | false =>
      simp only [Bool.false_eq_true, if_false, bind_run]
      cases find_tokens [str "Accept-Encoding"] r with
      | ok has r' => rfl
      | error e r' => rfl
    | true =>
      simp only [if_true, bind_run]
      rw [find_tokens_any r (by simp) (by decide), find_tokens_any r (by simp) (by decide)]
      simp only [List.forall_mem_cons, List.not_mem_nil, false_implies, implies_true, and_true, List.map_cons,
        List.map_nil]
      by_cases hae : Reached r (str "Accept-Encoding")
      · -- the first helper pushes nothing, and the second walk is what is left of the fused one
        simp only [hae, true_and, or_true, if_true]
        show _ = vary_dcz_rc r
        rw [vary_dcz_rc_any]
        by_cases h : r.headers.WellFormed ∨ Reached r (str "Available-Dictionary") ∧ Reached r (str "Sec-Fetch-Site")
        · simp only [if_pos h]
          rfl
        · simp only [if_neg h]
      · by_cases hw : r.headers.WellFormed
        · simp only [hae, hw, false_and, or_false, if_true, decide_false, List.getD_cons_zero, List.getD_cons_succ,
            push_ae_rc, Bool.false_eq_true, if_false]
          cases hpush : push_header_rc (str "Vary") (str "Accept-Encoding") r with
          | error e r' => rfl
          | ok u r' => exact (vary_dcz_rc_pushed hw hpush).symm
        · simp only [hae, hw, false_and, or_self, if_false]

end NginxZstd
