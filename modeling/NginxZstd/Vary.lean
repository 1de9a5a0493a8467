import Mathlib.Data.List.DropRight
import NginxZstd.Response
/-!
# Vary

The helpers that name request headers in the response's Vary field, with the walk
that keeps them from naming one twice. The walk is shown to decide membership in
the names of all live Vary lines, split at commas and trimmed.
-/

namespace NginxZstd

open Lib

/-! ## The walk -/

/-- The tokens of one Vary value, in the order the loop compares them. -/
def vary_tokens (value : Bytes) : List Bytes :=
  match value with
  | [] => []
  | c :: s =>
    let start := (c :: s).dropWhile fun c => is_ows c || c == comma
    (start.takeWhile (· != comma)).rdropWhile is_ows :: vary_tokens (start.dropWhile (· != comma))
termination_by value.length
decreasing_by
  rw [List.dropWhile_cons]
  split
  · have h1 := (List.dropWhile_sublist (· != comma) (l := s.dropWhile fun c => is_ows c || c == comma)).length_le
    have h2 := (List.dropWhile_sublist (fun c => is_ows c || c == comma) (l := s)).length_le
    simp only [List.length_cons]
    omega
  · next hc =>
    have hc' : (c != comma) = true := by
      simp only [Bool.or_eq_true, not_or] at hc
      simpa using hc.2
    rw [List.dropWhile_cons, if_pos hc']
    have := (List.dropWhile_sublist (· != comma) (l := s)).length_le
    simp only [List.length_cons]
    omega

/-- Raise the flag of every token `tok` spells, and leave the walk when all are up. -/
def note_token (tokens : List Bytes) (has : List Bool) (tok : Bytes) : Except (List Bool) (List Bool) :=
  let has := List.zipWith (fun t b => b || equals_nocase tok t) tokens has
  if has.all id then .error has else .ok has

/-- A line the walk looks into: not deleted, and named Vary. -/
def vary_line (h : TableElt) : Bool := h.hash != 0 && equals_nocase h.key (str "Vary")

def note_vary (tokens : List Bytes) (has : List Bool) (h : TableElt) : Except (List Bool) (List Bool) :=
  if vary_line h then (vary_tokens h.value).foldlM (note_token tokens) has else .ok has

/-- `ngx_http_zstd_vary_find_tokens`, with one flag for each token. -/
def vary_find_tokens (resp : Response) (tokens : List Bytes) : Except Abort (List Bool) := do
  match ← or_fault (resp.headers.walk (note_vary tokens) (tokens.map fun _ => false)) with
  | .ok has => return has
  | .error has => return has

/-- `ngx_http_zstd_vary_has_token`. -/
def vary_has_token (resp : Response) (token : Bytes) : Except Abort Bool := do
  let found ← vary_find_tokens resp [token]
  return found.getD 0 false

/-! ## The helpers -/

/-- `clcf != NULL && clcf->gzip_vary`: core emits the Accept-Encoding line. -/
def core_emits (clcf : Option CoreLocConf) : Bool := clcf.any CoreLocConf.gzip_vary

/-- `r->gzip_vary = 1`. -/
def set_gzip_vary : Helper Unit := fun resp => .ok () { resp with gzip_vary := true }

/-- `ngx_http_zstd_vary_find_tokens`, which writes nothing. -/
def find_tokens (tokens : List Bytes) : Helper (List Bool) := fun resp =>
  match vary_find_tokens resp tokens with
  | .ok has => .ok has resp
  | .error e => .error e resp

/-- What `vary_dcz` and `vary_ae_dcz` push, by the two flags. -/
def push_dcz_rc (has_available_dictionary has_sec_fetch_site : Bool) : Helper Unit :=
  if has_available_dictionary && has_sec_fetch_site then pure ()
  else if has_available_dictionary then push_header_rc (str "Vary") (str "Sec-Fetch-Site")
  else if has_sec_fetch_site then push_header_rc (str "Vary") (str "Available-Dictionary")
  else push_header_rc (str "Vary") (str "Available-Dictionary, Sec-Fetch-Site")

/-- `ngx_http_zstd_vary_dcz`. -/
def vary_dcz_rc : Helper Unit := do
  let has ← find_tokens [str "Available-Dictionary", str "Sec-Fetch-Site"]
  push_dcz_rc (has.getD 0 false) (has.getD 1 false)

def push_ae_rc (has_ae : Bool) : Helper Unit :=
  if has_ae then pure () else push_header_rc (str "Vary") (str "Accept-Encoding")

/-- `ngx_http_zstd_vary_accept_encoding`. -/
def vary_accept_encoding_rc (clcf : Option CoreLocConf) : Helper Unit := do
  set_gzip_vary
  if core_emits clcf then pure ()
  else do
    let found ← find_tokens [str "Accept-Encoding"]
    push_ae_rc (found.getD 0 false)

/-- `ngx_http_zstd_vary_ae_dcz`. -/
def vary_ae_dcz_rc (clcf : Option CoreLocConf) (want_dcz : Bool) : Helper Unit := do
  set_gzip_vary
  -- one walk for the tokens that are wanted; what it finds is read by position
  let need_ae := !core_emits clcf
  let dcz := [str "Available-Dictionary", str "Sec-Fetch-Site"]
  if !need_ae && !want_dcz then pure ()
  else if need_ae then do
    let has ← find_tokens (str "Accept-Encoding" :: if want_dcz then dcz else [])
    push_ae_rc (has.getD 0 false)
    if want_dcz then push_dcz_rc (has.getD 1 false) (has.getD 2 false) else pure ()
  else do
    let has ← find_tokens dcz
    push_dcz_rc (has.getD 0 false) (has.getD 1 false)

/-! ### Where a failure gives up the response -/

def push_dcz (resp : Response) (has_available_dictionary has_sec_fetch_site : Bool) : Except Abort Response :=
  kept (push_dcz_rc has_available_dictionary has_sec_fetch_site resp)

def push_ae (resp : Response) (has_ae : Bool) : Except Abort Response := kept (push_ae_rc has_ae resp)

def vary_dcz (resp : Response) : Except Abort Response := kept (vary_dcz_rc resp)

def vary_accept_encoding (clcf : Option CoreLocConf) (resp : Response) : Except Abort Response :=
  kept (vary_accept_encoding_rc clcf resp)

def vary_ae_dcz (clcf : Option CoreLocConf) (want_dcz : Bool) (resp : Response) : Except Abort Response :=
  kept (vary_ae_dcz_rc clcf want_dcz resp)

/-- A step, and then another. -/
theorem bind_run {α β : Type} (x : Helper α) (f : α → Helper β) (resp : Response) :
    (x >>= f) resp = match x resp with
      | .ok a resp => f a resp
      | .error e resp => .error e resp := by
  show EStateM.bind x f resp = _
  unfold EStateM.bind
  cases x resp <;> rfl

theorem push_dcz_unfold (resp : Response) (has_available_dictionary has_sec_fetch_site : Bool) :
    push_dcz resp has_available_dictionary has_sec_fetch_site =
      if has_available_dictionary && has_sec_fetch_site then .ok resp
      else if has_available_dictionary then push_header resp (str "Vary") (str "Sec-Fetch-Site")
      else if has_sec_fetch_site then push_header resp (str "Vary") (str "Available-Dictionary")
      else push_header resp (str "Vary") (str "Available-Dictionary, Sec-Fetch-Site") := by
  unfold push_dcz push_dcz_rc
  split
  · rfl
  split
  · rfl
  split <;> rfl

theorem push_ae_unfold (resp : Response) (has_ae : Bool) :
    push_ae resp has_ae = if has_ae then .ok resp else push_header resp (str "Vary") (str "Accept-Encoding") := by
  unfold push_ae push_ae_rc
  split <;> rfl

theorem vary_dcz_unfold (resp : Response) :
    vary_dcz resp = (do
      let has ← vary_find_tokens resp [str "Available-Dictionary", str "Sec-Fetch-Site"]
      push_dcz resp (has.getD 0 false) (has.getD 1 false)) := by
  unfold vary_dcz vary_dcz_rc
  rw [bind_run, find_tokens]
  cases vary_find_tokens resp [str "Available-Dictionary", str "Sec-Fetch-Site"] <;> rfl

theorem vary_accept_encoding_unfold (clcf : Option CoreLocConf) (resp : Response) :
    vary_accept_encoding clcf resp =
      if core_emits clcf then .ok { resp with gzip_vary := true }
      else (do
        let has_ae ← vary_has_token { resp with gzip_vary := true } (str "Accept-Encoding")
        push_ae { resp with gzip_vary := true } has_ae) := by
  unfold vary_accept_encoding vary_accept_encoding_rc
  simp only [bind_run, set_gzip_vary]
  generalize { resp with gzip_vary := true } = r
  cases core_emits clcf with
  | true => rfl
  | false =>
    simp only [Bool.false_eq_true, if_false, bind_run, find_tokens, vary_has_token]
    cases vary_find_tokens r [str "Accept-Encoding"] <;> rfl

/-- The one walk of `vary_ae_dcz`: the flags for Accept-Encoding, Available-Dictionary
and Sec-Fetch-Site. Without `need_ae` it leaves the first one set. -/
def find_ae_dcz (need_ae want_dcz : Bool) (resp : Response) : Except Abort (Bool × Bool × Bool) :=
  let dcz := [str "Available-Dictionary", str "Sec-Fetch-Site"]
  if need_ae then do
    let has ← vary_find_tokens resp (str "Accept-Encoding" :: if want_dcz then dcz else [])
    return (has.getD 0 false, has.getD 1 false, has.getD 2 false)
  else do
    let has ← vary_find_tokens resp dcz
    return (true, has.getD 0 false, has.getD 1 false)

theorem vary_ae_dcz_unfold (clcf : Option CoreLocConf) (want_dcz : Bool) (resp : Response) :
    vary_ae_dcz clcf want_dcz resp =
      if core_emits clcf && !want_dcz then .ok { resp with gzip_vary := true }
      else (do
        let has ← find_ae_dcz (!core_emits clcf) want_dcz { resp with gzip_vary := true }
        let resp ← push_ae { resp with gzip_vary := true } has.1
        if want_dcz then push_dcz resp has.2.1 has.2.2 else .ok resp) := by
  unfold vary_ae_dcz vary_ae_dcz_rc
  simp only [bind_run, set_gzip_vary]
  generalize { resp with gzip_vary := true } = r
  cases core_emits clcf with
  | true =>
    cases want_dcz with
    | false => rfl
    | true =>
      simp only [Bool.not_true, Bool.not_false, Bool.and_false, Bool.false_eq_true, if_false, bind_run, find_tokens,
        find_ae_dcz]
      cases vary_find_tokens r [str "Available-Dictionary", str "Sec-Fetch-Site"] <;> rfl
  | false =>
    simp only [Bool.not_false, Bool.not_true, Bool.false_and, Bool.false_eq_true, if_true, if_false, bind_run, find_tokens,
      find_ae_dcz]
    cases vary_find_tokens r
        (str "Accept-Encoding" :: if want_dcz then [str "Available-Dictionary", str "Sec-Fetch-Site"] else []) with
    | error e => rfl
    | ok has =>
      simp only [bind, Except.bind, pure, Except.pure, push_ae]
      cases push_ae_rc (has.getD 0 false) r with
      | error e r' => rfl
      | ok u r' => cases want_dcz <;> rfl

/-! ## Names -/

def trim (s : Bytes) : Bytes := (s.dropWhile is_ows).rdropWhile is_ows

/-- The names a Vary value lists. -/
def fieldNames (value : Bytes) : List Bytes := ((value.splitOn comma).map trim).filter (· ≠ [])

/-- The names on the live Vary lines of a header list. -/
def varyNames (hs : List TableElt) : List Bytes := (hs.filter vary_line).flatMap fun h => fieldNames h.value

/-- The names in the Vary fields as sent: nginx's header filter adds its own line
for `gzip_vary`. -/
def sentVary (clcf : Option CoreLocConf) (resp : Response) : List Bytes :=
  varyNames resp.headers.toList ++ if resp.gzip_vary && core_emits clcf then [str "Accept-Encoding"] else []

theorem trim_cons_ows {c : UInt8} (hc : is_ows c = true) (s : Bytes) : trim (c :: s) = trim s := by
  rw [trim, trim, List.dropWhile_cons, if_pos hc]

theorem fieldNames_cons_skip {c : UInt8} (hc : (is_ows c || c == comma) = true) (s : Bytes) :
    fieldNames (c :: s) = fieldNames s := by
  unfold fieldNames
  rw [List.splitOn_cons_eq_if_modifyHead]
  obtain ⟨hd, tl, hs⟩ := List.exists_cons_of_ne_nil (List.splitOn_ne_nil comma s)
  by_cases hcomma : (c == comma) = true
  · rw [if_pos hcomma, List.map_cons, List.filter_cons]
    simp [trim]
  · have hows : is_ows c = true := by simpa [hcomma] using hc
    rw [if_neg hcomma, hs, List.modifyHead_cons, List.map_cons, List.map_cons, trim_cons_ows hows]

theorem fieldNames_dropWhile (s : Bytes) :
    fieldNames (s.dropWhile fun c => is_ows c || c == comma) = fieldNames s := by
  induction s with
  | nil => rfl
  | cons c s ih =>
    rw [List.dropWhile_cons]
    split
    · next hc => rw [ih, fieldNames_cons_skip hc]
    · rfl

/-- The name in front of the first comma, and the names behind it. -/
theorem fieldNames_segment (s : Bytes) :
    fieldNames s = [trim (s.takeWhile (· != comma))].filter (· ≠ []) ++ fieldNames (s.dropWhile (· != comma)) := by
  have hseg : comma ∉ s.takeWhile (· != comma) := fun h => by simpa using List.mem_takeWhile_imp h
  conv_lhs => rw [← List.takeWhile_append_dropWhile (p := (· != comma)) (l := s)]
  cases hrest : s.dropWhile (· != comma) with
  | nil => simp [fieldNames, List.splitOn_eq_singleton hseg, trim]
  | cons c rest =>
    have hc : c = comma := by
      have := List.head_dropWhile_not (· != comma) (l := s) (by simp [hrest])
      simpa [hrest] using this
    subst hc
    rw [fieldNames_cons_skip (by simp)]
    unfold fieldNames
    rw [List.splitOn_append_cons_self_of_not_mem hseg, List.map_cons, ← List.singleton_append, List.filter_append]

/-- A token starts where the skipping stopped. -/
theorem dropWhile_takeWhile_start (s : Bytes) :
    ((s.dropWhile fun c => is_ows c || c == comma).takeWhile (· != comma)).dropWhile is_ows =
      (s.dropWhile fun c => is_ows c || c == comma).takeWhile (· != comma) := by
  cases hs : s.dropWhile fun c => is_ows c || c == comma with
  | nil => rfl
  | cons c t =>
    have hc := List.head_dropWhile_not (fun c => is_ows c || c == comma) (l := s) (by simp [hs])
    simp only [hs, List.head_cons, Bool.or_eq_false_iff] at hc
    rw [List.takeWhile_cons, if_pos (by simpa using hc.2), List.dropWhile_cons, if_neg (by simp [hc.1])]

/-- The loop visits the names, and now and then an empty token. -/
theorem vary_tokens_names (value : Bytes) : (vary_tokens value).filter (· ≠ []) = fieldNames value := by
  fun_induction vary_tokens value with
  | case1 => simp [fieldNames, trim]
  | case2 c s start ih =>
    have htrim : trim (start.takeWhile (· != comma)) = (start.takeWhile (· != comma)).rdropWhile is_ows := by
      unfold trim
      rw [dropWhile_takeWhile_start]
    rw [← List.singleton_append, List.filter_append, ih, ← htrim, ← fieldNames_segment]
    exact fieldNames_dropWhile (c :: s)

/-! ## What the walk finds -/

/-- `name` is one of the names, up to case. -/
def Names (names : List Bytes) (name : Bytes) : Prop := ∃ n ∈ names, foldCase n = foldCase name

instance (names : List Bytes) (name : Bytes) : Decidable (Names names name) :=
  inferInstanceAs (Decidable (∃ n ∈ names, _))

/-- The flags, whether the walk was left or ran to the end. -/
def flags : Except (List Bool) (List Bool) → List Bool
  | .ok has => has
  | .error has => has

theorem flags_note_token (tokens toks : List Bytes) : ∀ f : Bytes → Bool,
    flags (toks.foldlM (note_token tokens) (tokens.map f)) =
      tokens.map fun t => f t || toks.any fun tok => equals_nocase tok t := by
  induction toks with
  | nil => intro f; simp [flags, pure, Except.pure]
  | cons tok toks ih =>
    intro f
    have hz : List.zipWith (fun t b => b || equals_nocase tok t) tokens (tokens.map f) =
        tokens.map fun t => f t || equals_nocase tok t := by
      rw [List.zipWith_map_right, List.zipWith_self]
    simp only [List.foldlM_cons, List.any_cons, ← Bool.or_assoc, note_token, hz]
    split
    · next hall =>
      -- every flag is up, so what was not read could not have changed one
      simp only [List.all_map, List.all_eq_true, Function.comp_apply, id_eq] at hall
      exact List.map_congr_left fun t ht => by rw [hall t ht, Bool.true_or]
    · exact ih _

theorem foldlM_note_vary (tokens : List Bytes) (hs : List TableElt) : ∀ has,
    hs.foldlM (note_vary tokens) has =
      ((hs.filter vary_line).flatMap fun h => vary_tokens h.value).foldlM (note_token tokens) has := by
  induction hs with
  | nil => intro has; rfl
  | cons h hs ih =>
    intro has
    rw [List.foldlM_cons, note_vary, List.filter_cons]
    split
    · rw [List.flatMap_cons, List.foldlM_append]
      simp only [ih]
    · exact ih has

/-- A token spells `t` on one of the lines where the lines name it. -/
theorem any_token_names (hs : List TableElt) {t : Bytes} (hne : t ≠ []) (hz : 0 ∉ t) :
    (((hs.filter vary_line).flatMap fun h => vary_tokens h.value).any fun tok => equals_nocase tok t) =
      decide (Names (varyNames hs) t) := by
  rw [Bool.eq_iff_iff, decide_eq_true_iff, List.any_eq_true]
  have hmem : ∀ tok, tok ≠ [] → (tok ∈ (hs.filter vary_line).flatMap (fun h => vary_tokens h.value) ↔
      tok ∈ varyNames hs) := by
    intro tok htok
    simp only [varyNames, List.mem_flatMap, ← vary_tokens_names, List.mem_filter, decide_eq_true_eq, htok,
      ne_eq, not_false_eq_true, and_true]
  have hnil : ∀ tok : Bytes, foldCase tok = foldCase t → tok ≠ [] := by
    rintro _ hf rfl
    exact hne (by simpa [foldCase] using hf.symm)
  constructor
  · rintro ⟨tok, hm, he⟩
    have hf := (equals_nocase_iff hz).1 he
    exact ⟨tok, (hmem tok (hnil tok hf)).1 hm, hf⟩
  · rintro ⟨tok, hm, hf⟩
    exact ⟨tok, (hmem tok (hnil tok hf)).2 hm, (equals_nocase_iff hz).2 hf⟩

/-- The walk decides which of the tokens the live Vary lines name. -/
theorem vary_find_tokens_spec {resp : Response} (hw : resp.headers.WellFormed) (tokens : List Bytes)
    (ht : ∀ t ∈ tokens, t ≠ [] ∧ 0 ∉ t) :
    vary_find_tokens resp tokens =
      .ok (tokens.map fun t => decide (Names (varyNames resp.headers.toList) t)) := by
  have hflags : flags (resp.headers.toList.foldlM (note_vary tokens) (tokens.map fun _ => false)) =
      tokens.map fun t => decide (Names (varyNames resp.headers.toList) t) := by
    rw [foldlM_note_vary, flags_note_token]
    refine List.map_congr_left fun t htm => ?_
    rw [Bool.false_or, any_token_names _ (ht t htm).1 (ht t htm).2]
  simp only [vary_find_tokens, PartList.walk_eq _ _ hw, or_fault]
  rw [← hflags]
  cases resp.headers.toList.foldlM (note_vary tokens) (tokens.map fun _ => false) <;> rfl

theorem vary_has_token_spec {resp : Response} (hw : resp.headers.WellFormed) (token : Bytes)
    (ht : token ≠ [] ∧ 0 ∉ token) :
    vary_has_token resp token = .ok (decide (Names (varyNames resp.headers.toList) token)) := by
  simp only [vary_has_token, vary_find_tokens_spec hw [token] (by simpa using ht)]
  simp [bind, Except.bind, pure, Except.pure]

/-! ## What the helpers leave -/

theorem varyNames_append (hs hs' : List TableElt) : varyNames (hs ++ hs') = varyNames hs ++ varyNames hs' := by
  simp [varyNames]

@[simp] theorem names_append {ns ms : List Bytes} {name : Bytes} :
    Names (ns ++ ms) name ↔ Names ns name ∨ Names ms name := by
  simp only [Names, List.mem_append, or_and_right, exists_or]

@[simp] theorem names_nil {name : Bytes} : ¬Names [] name := by simp [Names]

theorem names_cons {n name : Bytes} {ns : List Bytes} :
    Names (n :: ns) name ↔ foldCase n = foldCase name ∨ Names ns name := by
  simp [Names]

theorem Names.congr {ns : List Bytes} {n name : Bytes} (h : Names ns n) (hf : foldCase n = foldCase name) :
    Names ns name := by
  obtain ⟨m, hm, he⟩ := h
  exact ⟨m, hm, he.trans hf⟩

/-- Naming what is named already adds nothing. -/
theorem names_known {ns ms : List Bytes} {n name : Bytes} (h : Names ns n) :
    Names ns name ∨ Names (n :: ms) name ↔ Names ns name ∨ Names ms name := by
  rw [names_cons, ← or_assoc, or_iff_left_of_imp (fun hf => h.congr hf)]

/-- What a response head has gained: the names on it now are those that were, and
`ns`. -/
structure Gained (clcf : Option CoreLocConf) (ns : List Bytes) (resp resp' : Response) : Prop where
  names : ∀ name, Names (sentVary clcf resp') name ↔ Names (sentVary clcf resp) name ∨ Names ns name
  parts : resp.headers.WellFormed → resp'.headers.WellFormed

section Gained

variable {clcf : Option CoreLocConf} {resp resp' resp'' : Response} {ns ms : List Bytes}

theorem Gained.of_same (hl : resp'.headers = resp.headers) (hg : resp'.gzip_vary = resp.gzip_vary) :
    Gained clcf [] resp resp' :=
  ⟨by simp [sentVary, hl, hg], by rw [hl]; exact id⟩

theorem Gained.refl (clcf : Option CoreLocConf) (resp : Response) : Gained clcf [] resp resp := .of_same rfl rfl

theorem Gained.trans (h : Gained clcf ns resp resp') (h' : Gained clcf ms resp' resp'') :
    Gained clcf (ns ++ ms) resp resp'' :=
  ⟨fun name => by rw [h'.names, h.names, names_append, or_assoc], h'.parts ∘ h.parts⟩

theorem Gained.keeps (h : Gained clcf ns resp resp') {name : Bytes} (hn : Names (sentVary clcf resp) name) :
    Names (sentVary clcf resp') name := (h.names name).2 (.inl hn)

theorem Gained.gains (h : Gained clcf ns resp resp') {name : Bytes} (hn : name ∈ ns) :
    Names (sentVary clcf resp') name := (h.names name).2 (.inr ⟨name, hn, rfl⟩)

theorem Gained.congr (h : Gained clcf ns resp resp')
    (hns : ∀ name, Names (sentVary clcf resp) name ∨ Names ns name ↔ Names (sentVary clcf resp) name ∨ Names ms name) :
    Gained clcf ms resp resp' :=
  ⟨fun name => (h.names name).trans (hns name), h.parts⟩

/-- Appending lines gains the names of the new lines. -/
theorem Gained.of_append {added : List TableElt} (hl : resp'.headers.toList = resp.headers.toList ++ added)
    (hp : resp.headers.WellFormed → resp'.headers.WellFormed) (hg : resp'.gzip_vary = resp.gzip_vary) :
    Gained clcf (varyNames added) resp resp' := by
  refine ⟨fun name => ?_, hp⟩
  simp only [sentVary, hl, hg, varyNames_append, names_append]
  exact or_right_comm

theorem push_header_gained (clcf : Option CoreLocConf) {key value : Bytes}
    (h : push_header resp key value = .ok resp') :
    Gained clcf (varyNames [⟨1, key, value, none⟩]) resp resp' := by
  obtain ⟨hl, hp, hg⟩ := push_header_spec h
  exact .of_append hl hp hg

theorem varyNames_vary (value : Bytes) : varyNames [⟨1, str "Vary", value, none⟩] = fieldNames value := by
  have : vary_line ⟨1, str "Vary", value, none⟩ = true := by
    simp only [vary_line]
    decide
  simp [varyNames, this]

theorem varyNames_content_encoding (value : Bytes) :
    varyNames [⟨1, str "Content-Encoding", value, none⟩] = [] := by
  have : vary_line ⟨1, str "Content-Encoding", value, none⟩ = false := by
    simp only [vary_line]
    decide
  simp [varyNames, this]

theorem push_vary_gained (clcf : Option CoreLocConf) {value : Bytes}
    (h : push_header resp (str "Vary") value = .ok resp') : Gained clcf (fieldNames value) resp resp' :=
  varyNames_vary value ▸ push_header_gained clcf h

/-- Raising `gzip_vary` gains the line core emits for it, if core does. -/
theorem gzip_vary_gained (clcf : Option CoreLocConf) (resp : Response) :
    Gained clcf (if core_emits clcf then [str "Accept-Encoding"] else []) resp { resp with gzip_vary := true } := by
  refine ⟨fun name => ?_, id⟩
  simp only [sentVary, names_append]
  cases resp.gzip_vary <;> cases core_emits clcf <;> simp

end Gained

theorem vary_accept_encoding_gained {clcf : Option CoreLocConf} {resp resp' : Response}
    (hw : resp.headers.WellFormed) (h : vary_accept_encoding clcf resp = .ok resp') :
    Gained clcf [str "Accept-Encoding"] resp resp' := by
  have hg := gzip_vary_gained clcf resp
  have hw' : { resp with gzip_vary := true }.headers.WellFormed := hw
  rw [vary_accept_encoding_unfold] at h
  simp only [vary_has_token_spec hw' (str "Accept-Encoding") (by decide)] at h
  split at h
  · next hon =>
    cases h
    simpa only [if_pos hon] using hg
  · next hoff =>
    rw [if_neg hoff] at hg
    obtain ⟨found, hf, h⟩ := bind_ok h
    cases hf
    rw [push_ae_unfold] at h
    split at h
    · next hin =>
      cases h
      refine hg.congr fun name => (names_known ?_).symm
      rw [sentVary, names_append]
      exact .inl (of_decide_eq_true hin)
    · have hpush := hg.trans (push_vary_gained clcf h)
      rwa [List.nil_append, show fieldNames (str "Accept-Encoding") = [str "Accept-Encoding"] by decide] at hpush

theorem push_dcz_gained {clcf : Option CoreLocConf} {resp resp' : Response} {ad sfs : Bool}
    (had : ad = true → Names (sentVary clcf resp) (str "Available-Dictionary"))
    (hsfs : sfs = true → Names (sentVary clcf resp) (str "Sec-Fetch-Site"))
    (h : push_dcz resp ad sfs = .ok resp') :
    Gained clcf [str "Available-Dictionary", str "Sec-Fetch-Site"] resp resp' := by
  have hswap : ∀ {m n name : Bytes}, Names [m, n] name ↔ Names [n, m] name := by
    intro m n name
    simp only [names_cons, names_nil, or_false]
    exact or_comm
  rw [push_dcz_unfold] at h
  cases ad <;> cases sfs <;> simp only [Bool.and_self, Bool.and_true, Bool.and_false, Bool.false_eq_true, if_true,
    if_false] at h
  · exact push_vary_gained clcf h
  · refine (push_vary_gained clcf h).congr fun name => ?_
    rw [hswap, names_known (hsfs rfl)]
    rfl
  · refine (push_vary_gained clcf h).congr fun name => ?_
    rw [names_known (had rfl)]
    rfl
  · cases h
    refine (Gained.refl clcf resp).congr fun name => ?_
    rw [names_known (had rfl), names_known (hsfs rfl)]

theorem vary_dcz_gained (clcf : Option CoreLocConf) {resp resp' : Response}
    (hw : resp.headers.WellFormed) (h : vary_dcz resp = .ok resp') :
    Gained clcf [str "Available-Dictionary", str "Sec-Fetch-Site"] resp resp' := by
  rw [vary_dcz_unfold] at h
  rw [vary_find_tokens_spec hw _ (by decide)] at h
  obtain ⟨has, hhas, h⟩ := bind_ok h
  cases hhas
  simp only [List.map_cons, List.map_nil, List.getD_cons_zero, List.getD_cons_succ] at h
  refine push_dcz_gained (fun hd => ?_) (fun hd => ?_) h <;>
  · rw [sentVary, names_append]
    exact .inl (of_decide_eq_true hd)

theorem find_ae_dcz_spec {resp : Response} (hw : resp.headers.WellFormed) (need_ae want_dcz : Bool)
    (h : need_ae = true ∨ want_dcz = true) :
    find_ae_dcz need_ae want_dcz resp =
      .ok (!need_ae || decide (Names (varyNames resp.headers.toList) (str "Accept-Encoding")),
        want_dcz && decide (Names (varyNames resp.headers.toList) (str "Available-Dictionary")),
        want_dcz && decide (Names (varyNames resp.headers.toList) (str "Sec-Fetch-Site"))) := by
  unfold find_ae_dcz
  cases need_ae <;> cases want_dcz
  · simp at h
  all_goals
    simp only [if_true, if_false, Bool.false_eq_true]
    rw [vary_find_tokens_spec hw _ (by decide)]
    rfl

/-- A pushed Accept-Encoding line is no news for the other two names. -/
theorem names_push_ae {hs : List TableElt} {name : Bytes}
    (hn : foldCase (str "Accept-Encoding") ≠ foldCase name) :
    Names (varyNames (hs ++ [⟨1, str "Vary", str "Accept-Encoding", none⟩])) name ↔ Names (varyNames hs) name := by
  rw [varyNames_append, names_append, varyNames_vary,
    show fieldNames (str "Accept-Encoding") = [str "Accept-Encoding"] by decide, names_cons]
  simp [hn]

/-- One walk does what the two helpers do with a walk each. -/
theorem vary_ae_dcz_eq {clcf : Option CoreLocConf} {resp : Response} (hw : resp.headers.WellFormed) (want_dcz : Bool) :
    vary_ae_dcz clcf want_dcz resp =
      (vary_accept_encoding clcf resp >>= fun resp => if want_dcz then vary_dcz resp else .ok resp) := by
  have hw' : { resp with gzip_vary := true }.headers.WellFormed := hw
  have hdcz : ∀ resp' : Response, resp'.headers.WellFormed → vary_dcz resp' =
      push_dcz resp' (decide (Names (varyNames resp'.headers.toList) (str "Available-Dictionary")))
        (decide (Names (varyNames resp'.headers.toList) (str "Sec-Fetch-Site"))) := by
    intro resp' hw
    rw [vary_dcz_unfold, vary_find_tokens_spec hw _ (by decide)]
    rfl
  rw [vary_ae_dcz_unfold, vary_accept_encoding_unfold]
  simp only [vary_has_token_spec hw' (str "Accept-Encoding") (by decide)]
  cases core_emits clcf with
  | true =>
    cases want_dcz with
    | false => rfl
    | true =>
      simp only [find_ae_dcz_spec hw' (!true) true (.inr rfl)]
      show push_dcz _ _ _ = vary_dcz _
      rw [hdcz _ hw']
      rfl
  | false =>
    simp only [find_ae_dcz_spec hw' (!false) want_dcz (.inl rfl)]
    by_cases hae : Names (varyNames resp.headers.toList) (str "Accept-Encoding")
    · cases want_dcz with
      | false => simp only [hae]; rfl
      | true =>
        simp only [hae]
        show push_dcz _ _ _ = vary_dcz _
        rw [hdcz _ hw']
        rfl
    · simp only [hae]
      show (push_header { resp with gzip_vary := true } (str "Vary") (str "Accept-Encoding") >>= _) =
        (push_header { resp with gzip_vary := true } (str "Vary") (str "Accept-Encoding") >>= _)
      cases hp : push_header { resp with gzip_vary := true } (str "Vary") (str "Accept-Encoding") with
      | error e => rfl
      | ok resp' =>
        obtain ⟨hl, hp', -⟩ := push_header_spec hp
        cases want_dcz with
        | false => rfl
        | true =>
          show push_dcz _ _ _ = vary_dcz _
          rw [hdcz _ (hp' hw')]
          have had : foldCase (str "Accept-Encoding") ≠ foldCase (str "Available-Dictionary") := by decide
          have hsfs : foldCase (str "Accept-Encoding") ≠ foldCase (str "Sec-Fetch-Site") := by decide
          simp only [hl, names_push_ae had, names_push_ae hsfs]
          rfl

theorem vary_ae_dcz_gained {clcf : Option CoreLocConf} {resp resp' : Response}
    (hw : resp.headers.WellFormed) (h : vary_ae_dcz clcf true resp = .ok resp') :
    Gained clcf [str "Accept-Encoding", str "Available-Dictionary", str "Sec-Fetch-Site"] resp resp' := by
  rw [vary_ae_dcz_eq hw] at h
  obtain ⟨resp1, h1, h2⟩ := bind_ok h
  have g1 := vary_accept_encoding_gained hw h1
  exact g1.trans (vary_dcz_gained clcf (g1.parts hw) h2)

/-! ## The helpers fail for want of memory only -/

theorem push_ae_onlyRefused (resp : Response) (has_ae : Bool) :
    OnlyRefused resp.pool Response.pool (push_ae resp has_ae) := by
  rw [push_ae_unfold]
  split
  · exact .of_ok id
  · exact push_header_onlyRefused _ _ _

theorem push_dcz_onlyRefused (resp : Response) (has_available_dictionary has_sec_fetch_site : Bool) :
    OnlyRefused resp.pool Response.pool (push_dcz resp has_available_dictionary has_sec_fetch_site) := by
  rw [push_dcz_unfold]
  split
  · exact .of_ok id
  split
  · exact push_header_onlyRefused _ _ _
  split
  · exact push_header_onlyRefused _ _ _
  · exact push_header_onlyRefused _ _ _

theorem vary_accept_encoding_onlyRefused (clcf : Option CoreLocConf) {resp : Response} (hw : resp.headers.WellFormed) :
    OnlyRefused resp.pool Response.pool (vary_accept_encoding clcf resp) := by
  have hw' : { resp with gzip_vary := true }.headers.WellFormed := hw
  rw [vary_accept_encoding_unfold, vary_has_token_spec hw' (str "Accept-Encoding") (by decide), ok_then]
  split
  · exact .of_ok id
  · exact push_ae_onlyRefused { resp with gzip_vary := true } _

theorem vary_dcz_onlyRefused {resp : Response} (hw : resp.headers.WellFormed) :
    OnlyRefused resp.pool Response.pool (vary_dcz resp) := by
  rw [vary_dcz_unfold, vary_find_tokens_spec hw _ (by decide), ok_then]
  exact push_dcz_onlyRefused _ _ _

theorem vary_ae_dcz_onlyRefused (clcf : Option CoreLocConf) (want_dcz : Bool) {resp : Response}
    (hw : resp.headers.WellFormed) : OnlyRefused resp.pool Response.pool (vary_ae_dcz clcf want_dcz resp) := by
  rw [vary_ae_dcz_eq hw]
  apply (vary_accept_encoding_onlyRefused clcf hw).bind
  intro resp1 h1
  cases want_dcz with
  | false => exact .of_ok id
  | true => exact vary_dcz_onlyRefused ((vary_accept_encoding_gained hw h1).parts hw)

end NginxZstd
