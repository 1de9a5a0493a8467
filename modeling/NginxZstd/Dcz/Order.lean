import NginxZstd.Dcz.Tree
import Mathlib.Data.List.Forall2
/-!
# The order of the dictionary directives

A dictionary is loaded when its line is parsed, and a flag that stands further
down is not known then. A load therefore leaves a record when the flag did not
read as on, and `init_main_conf` refuses a final "on" that has such a record. So
in a configuration that starts, every load went by the final value of both flags.
-/

namespace NginxZstd

open Lib

/-- A `zstd_dcz_dict_file` line: its path and its hash literal. -/
abbrev DictLine := Bytes × Option Bytes

/-- The line of a directive, if it is one. -/
def Directive.lines : Directive → List DictLine
  | .dict_strict_path _ => []
  | .dcz_dict_trust_hashes _ => []
  | .dcz_dict_file path hash => [(path, hash)]

/-- The lines of a file, at any level, in the order they are parsed. -/
def ConfFile.lines : ConfFile → List DictLine
  | .done => []
  | .directive d rest => d.lines ++ rest.lines
  | .block body rest => body.lines ++ rest.lines

/-- What a load does whatever the flags are. -/
structure LoadedBy (L : Loader) (line : DictLine) (load : Load) : Prop where
  path : L.full_name line.1 = some load.dict.file
  literal : supplied_hash line.2 = .ok load.literal
  bytes : read_dict L load.dict.file load.strict = .ok load.dict.bytes
  header : load.dict.frame_header = frame_header load.dict.hash
  computed : load.literal = none → load.dict.hash = L.sha256 load.dict.bytes

/-- The key was computed, and agrees with the literal. -/
def Verified (L : Loader) (load : Load) : Prop :=
  load.dict.hash = L.sha256 load.dict.bytes ∧ ∀ hash, load.literal = some hash → load.dict.hash = hash

/-- The parse after `lines`: what the records and the flags say of the loads so far. -/
structure Parsed (L : Loader) (lines : List DictLine) (s : Parse) : Prop where
  loads : List.Forall₂ (LoadedBy L) lines s.loads
  strict : s.zmcf.dcz_dict_loaded_before_strict_on = none → ∀ load ∈ s.loads, load.strict = true
  trusted : s.zmcf.dcz_dict_verified_before_trust_on = none →
    (∀ load ∈ s.loads, ∀ hash, load.literal = some hash → load.dict.hash = hash) ∧
      s.zmcf.dcz_dicts_hashed = s.loads.countP (·.literal.isNone)
  verified : s.zmcf.dcz_dict_trust_hashes ≠ some true → ∀ load ∈ s.loads, Verified L load

theorem Parsed.start (L : Loader) : Parsed L [] ⟨create_main_conf, []⟩ where
  loads := .nil
  strict := by simp
  trusted _ := ⟨by simp, rfl⟩
  verified := by simp

/-! ## One line -/

/-- No record of an unchecked load after this one: there was none, and it was strict. -/
theorem note_order_strict {zmcf : DictFlags} {path : Bytes} (have_hash : Bool)
    (h : (note_order zmcf path have_hash).dcz_dict_loaded_before_strict_on = none) :
    zmcf.dcz_dict_loaded_before_strict_on = none ∧ (zmcf.dict_strict_path == some true) = true := by
  unfold note_order at h
  dsimp only at h
  split at h
  · simp at h
  · next hc =>
    refine ⟨h, ?_⟩
    simpa [h] using hc

/-- No record of a verified literal after this line: there was none, and a literal
was trusted. -/
theorem note_order_trust {zmcf : DictFlags} {path : Bytes} (have_hash : Bool)
    (h : (note_order zmcf path have_hash).dcz_dict_verified_before_trust_on = none) :
    zmcf.dcz_dict_verified_before_trust_on = none ∧ (have_hash = true → zmcf.dcz_dict_trust_hashes = some true) := by
  unfold note_order at h
  dsimp only at h
  split at h
  · simp at h
  · next hc =>
    refine ⟨h, fun hh => ?_⟩
    simpa [h, hh] using hc

/-- What a line adds to what the records say. -/
theorem Parsed.line {L : Loader} {lines : List DictLine} {s : Parse} {own : Option (List DczDict)} {path : Bytes}
    {hash : Option Bytes} {zmcf : DictFlags} {dicts : List DczDict} {load : Load} (h : Parsed L lines s)
    (hd : dcz_dict_file L s.zmcf own path hash = .ok (zmcf, dicts, load)) :
    Parsed L (lines ++ [(path, hash)]) ⟨zmcf, s.loads ++ [load]⟩ := by
  obtain ⟨file, bytes, key, hashed, hpath, hlit, hstrict, hread, hkey, hpush, -, rfl⟩ := dcz_dict_file_cases hd
  obtain ⟨hdict, -⟩ := push_dict_spec hpush
  have hkey := dict_key_cases hkey
  obtain ⟨strict, literal, dict⟩ := load
  subst hdict
  simp only at hlit hstrict hread hkey
  have hflag : (note_order s.zmcf file literal.isSome).dcz_dict_trust_hashes = s.zmcf.dcz_dict_trust_hashes := rfl
  have hcount : (note_order s.zmcf file literal.isSome).dcz_dicts_hashed = s.zmcf.dcz_dicts_hashed := rfl
  rw [hflag, hcount] at hkey
  refine ⟨?_, fun hn => ?_, fun hn => ?_, fun ht => ?_⟩
  · refine List.rel_append h.loads (.cons ⟨hpath, hlit, hread, rfl, fun hnone => ?_⟩ .nil)
    rcases hkey with ⟨hsome, -⟩ | ⟨hk, -⟩
    · exact absurd (hsome.symm.trans hnone) (by simp)
    · exact hk
  · obtain ⟨hbefore, hnow⟩ := note_order_strict literal.isSome hn
    rw [List.forall_mem_append]
    refine ⟨h.strict hbefore, fun l hl => ?_⟩
    rw [List.mem_singleton.1 hl]
    exact hstrict.trans hnow
  · obtain ⟨hbefore, hnow⟩ := note_order_trust literal.isSome hn
    obtain ⟨hkeys, hold⟩ := h.trusted hbefore
    rw [List.forall_mem_append, List.countP_append, ← hold]
    rcases hkey with ⟨hsome, -, hh⟩ | ⟨-, hh, hnone | ⟨hsome, hoff⟩⟩
    · subst hsome
      refine ⟨⟨hkeys, by simp⟩, ?_⟩
      simp [hh]
    · subst hnone
      refine ⟨⟨hkeys, by simp⟩, ?_⟩
      simp [hh]
    · -- a verified literal leaves a record
      subst hsome
      exact absurd (hnow rfl) hoff
  · rw [List.forall_mem_append]
    refine ⟨h.verified ht, fun l hl => ?_⟩
    rw [List.mem_singleton.1 hl]
    rcases hkey with ⟨-, hon, -⟩ | ⟨hk, -, hnone | ⟨hsome, -⟩⟩
    · exact absurd hon ht
    · exact ⟨hk, fun d hd => absurd (hnone.symm.trans hd) (by simp)⟩
    · exact ⟨hk, fun d hd => Option.some.inj (hsome.symm.trans hd)⟩

/-! ## The whole file -/

/-- A flag is set once: one that is not on now has not been on before. -/
theorem set_flag_slot_unset {flag flag' : Option Bool} {on : Bool} (h : set_flag_slot flag on = .ok flag') :
    flag = none := by
  unfold set_flag_slot at h
  split at h
  · cases h
  · next hn => simpa using hn

theorem Parsed.directive {L : Loader} {http : Bool} {lines : List DictLine} {s s' : Parse}
    {own own' : Option (List DczDict)} {d : Directive} (h : Parsed L lines s)
    (hr : run_directive L http s own d = .ok (s', own')) : Parsed L (lines ++ d.lines) s' := by
  cases d with
  | dict_strict_path on =>
    simp only [run_directive] at hr
    split at hr
    · cases hr
    obtain ⟨flag, -, hr⟩ := bind_ok hr
    cases hr
    rw [Directive.lines, List.append_nil]
    exact ⟨h.loads, h.strict, h.trusted, h.verified⟩
  | dcz_dict_trust_hashes on =>
    simp only [run_directive] at hr
    split at hr
    · cases hr
    obtain ⟨flag, hf, hr⟩ := bind_ok hr
    cases hr
    rw [Directive.lines, List.append_nil]
    refine ⟨h.loads, h.strict, h.trusted, fun _ => h.verified ?_⟩
    rw [set_flag_slot_unset hf]
    simp
  | dcz_dict_file path hash =>
    obtain ⟨⟨zmcf, dicts, load⟩, hd, hr⟩ := bind_ok hr
    cases hr
    exact h.line hd

theorem conf_parse_parsed {L : Loader} (file : ConfFile) :
    ∀ {http : Bool} {s s' : Parse} {own own' : Option (List DczDict)} {inside : Confs} {lines : List DictLine},
      conf_parse L http s own file = .ok (s', own', inside) → Parsed L lines s → Parsed L (lines ++ file.lines) s' := by
  induction file with
  | done =>
    intro http s s' own own' inside lines h hp
    cases h
    rw [ConfFile.lines, List.append_nil]
    exact hp
  | directive d rest ih =>
    intro http s s' own own' inside lines h hp
    obtain ⟨⟨s1, own1⟩, h1, h⟩ := bind_ok h
    rw [ConfFile.lines, ← List.append_assoc]
    exact ih h (hp.directive h1)
  | block body rest ihb ihr =>
    intro http s s' own own' inside lines h hp
    obtain ⟨⟨s1, inner, sub⟩, h1, h⟩ := bind_ok h
    obtain ⟨⟨s2, own2, after⟩, h2, h⟩ := bind_ok h
    cases h
    rw [ConfFile.lines, ← List.append_assoc]
    exact ihr h2 (ihb h1 hp)

/-- The entries of a conf's own array and of those inside it. -/
def entries (own : Option (List DczDict)) (inside : Confs) : List DczDict :=
  (own :: inside.arrays).flatMap (·.getD [])

theorem run_directive_entries {L : Loader} {http : Bool} {s s' : Parse} {own own' : Option (List DczDict)}
    {d : Directive} (h : run_directive L http s own d = .ok (s', own')) :
    ∃ loads, s'.loads = s.loads ++ loads ∧ own'.getD [] = own.getD [] ++ loads.map (·.dict) := by
  cases d with
  | dict_strict_path on | dcz_dict_trust_hashes on =>
    simp only [run_directive] at h
    split at h
    · cases h
    obtain ⟨flag, -, h⟩ := bind_ok h
    cases h
    exact ⟨[], (List.append_nil _).symm, (List.append_nil _).symm⟩
  | dcz_dict_file path hash =>
    obtain ⟨⟨zmcf, dicts, load⟩, hd, h⟩ := bind_ok h
    cases h
    obtain ⟨rfl, -⟩ := dcz_dict_file_spec hd
    exact ⟨[load], rfl, rfl⟩

/-- Every load is an entry of one array, and every entry was loaded. -/
theorem conf_parse_entries {L : Loader} (file : ConfFile) :
    ∀ {http : Bool} {s s' : Parse} {own own' : Option (List DczDict)} {inside : Confs},
      conf_parse L http s own file = .ok (s', own', inside) →
      ∃ loads, s'.loads = s.loads ++ loads ∧ (entries own' inside).Perm (own.getD [] ++ loads.map (·.dict)) := by
  induction file with
  | done =>
    intro http s s' own own' inside h
    cases h
    exact ⟨[], (List.append_nil _).symm, by simp [entries, Confs.arrays]⟩
  | directive d rest ih =>
    intro http s s' own own' inside h
    obtain ⟨⟨s1, own1⟩, h1, h⟩ := bind_ok h
    obtain ⟨l1, hl1, ho⟩ := run_directive_entries h1
    obtain ⟨l2, hl2, hp⟩ := ih h
    refine ⟨l1 ++ l2, by rw [hl2, hl1, List.append_assoc], ?_⟩
    rw [ho, List.append_assoc, ← List.map_append] at hp
    exact hp
  | block body rest ihb ihr =>
    intro http s s' own own' inside h
    obtain ⟨⟨s1, inner, sub⟩, h1, h⟩ := bind_ok h
    obtain ⟨⟨s2, own2, after⟩, h2, h⟩ := bind_ok h
    cases h
    obtain ⟨l1, hl1, hp1⟩ := ihb h1
    obtain ⟨l2, hl2, hp2⟩ := ihr h2
    refine ⟨l1 ++ l2, by rw [hl2, hl1, List.append_assoc], ?_⟩
    have hsplit : (entries own' (.block inner sub after)).Perm (entries own' after ++ entries inner sub) := by
      simp only [entries, Confs.arrays, List.flatMap_cons, List.flatMap_append]
      rw [List.append_assoc (own'.getD []), ← List.append_assoc (inner.getD [])]
      exact List.perm_append_comm.append_left _
    refine hsplit.trans ((hp2.append hp1).trans ?_)
    rw [Option.getD_none, List.nil_append, List.append_assoc, List.map_append]
    exact List.perm_append_comm.append_left _

/-! ## The final flags -/

/-- A final "on" has no record against it. -/
theorem init_main_conf_spec {zmcf zmcf' : DictFlags} (h : init_main_conf zmcf = .ok zmcf') :
    zmcf'.dcz_dicts_hashed = zmcf.dcz_dicts_hashed ∧
      (zmcf'.dict_strict_path = some true → zmcf.dcz_dict_loaded_before_strict_on = none) ∧
      (zmcf'.dcz_dict_trust_hashes = some true → zmcf.dcz_dict_verified_before_trust_on = none) ∧
      (zmcf'.dcz_dict_trust_hashes ≠ some true → zmcf.dcz_dict_trust_hashes ≠ some true) := by
  obtain ⟨strict, before, trust, verified, hashed⟩ := zmcf
  have hnorm : ∀ {flag : Option Bool}, some (flag.getD false) = some true ↔ flag = some true := by
    intro flag
    cases flag <;> simp
  have hout : (strict = some true → before = none) ∧ (trust = some true → verified = none) ∧
      zmcf' = ⟨some (strict.getD false), before, some (trust.getD false), verified, hashed⟩ := by
    unfold init_main_conf at h
    simp only [hnorm] at h
    by_cases hs : strict = some true
    · rw [if_pos hs] at h
      cases before with
      | some path => cases h
      | none =>
        by_cases ht : trust = some true
        · simp only [if_pos ht] at h
          cases verified with
          | some path => cases h
          | none =>
            cases h
            exact ⟨fun _ => rfl, fun _ => rfl, rfl⟩
        · simp only [if_neg ht] at h
          cases h
          exact ⟨fun _ => rfl, fun he => absurd he ht, rfl⟩
    · rw [if_neg hs] at h
      by_cases ht : trust = some true
      · rw [if_pos ht] at h
        cases verified with
        | some path => cases h
        | none =>
          cases h
          exact ⟨fun he => absurd he hs, fun _ => rfl, rfl⟩
      · rw [if_neg ht] at h
        cases h
        exact ⟨fun he => absurd he hs, fun he => absurd he ht, rfl⟩
  obtain ⟨h1, h2, rfl⟩ := hout
  exact ⟨rfl, fun hs => h1 (hnorm.1 hs), fun ht => h2 (hnorm.1 ht), fun hn he => hn (hnorm.2 he)⟩

theorem supplied_hash_cases {literal : Option Bytes} {supplied : Option Digest}
    (h : supplied_hash literal = .ok supplied) :
    (literal = none ∧ supplied = none) ∨
      ∃ text hash, literal = some text ∧ supplied = some hash ∧ parse_literal text = .ok hash := by
  cases literal with
  | none =>
    cases h
    exact .inl ⟨rfl, rfl⟩
  | some text =>
    simp only [supplied_hash] at h
    cases hp : parse_literal text with
    | error e => simp [hp, Except.map] at h
    | ok hash =>
      simp only [hp, Except.map, Except.ok.injEq] at h
      exact .inr ⟨text, hash, rfl, h.symm, hp⟩

theorem countP_literal {L : Loader} {lines : List DictLine} {loads : List Load}
    (h : List.Forall₂ (LoadedBy L) lines loads) :
    loads.countP (·.literal.isNone) = lines.countP (·.2.isNone) := by
  induction h with
  | nil => rfl
  | cons hx _ ih =>
    rw [List.countP_cons, List.countP_cons, ih]
    rcases supplied_hash_cases hx.literal with ⟨h1, h2⟩ | ⟨text, hash, h1, h2, -⟩
    · rw [h1, h2]
      rfl
    · rw [h1, h2]
      rfl

/-- A line of a configuration that starts, and the entry it made: by the final flags
the file was opened strictly, and the key is the literal or the hash of the bytes. -/
structure LineLoaded (L : Loader) (zmcf : DictFlags) (line : DictLine) (dict : DczDict) : Prop where
  path : L.full_name line.1 = some dict.file
  bytes : ∃ strict, read_dict L dict.file strict = .ok dict.bytes
  strict : zmcf.dict_strict_path = some true → read_dict L dict.file true = .ok dict.bytes
  trusted : zmcf.dcz_dict_trust_hashes = some true → ∀ literal, line.2 = some literal →
    parse_literal literal = .ok dict.hash
  verified : zmcf.dcz_dict_trust_hashes ≠ some true → dict.hash = L.sha256 dict.bytes ∧
    ∀ literal, line.2 = some literal → parse_literal literal = .ok dict.hash
  computed : line.2 = none → dict.hash = L.sha256 dict.bytes
  header : dict.frame_header = [0x5e, 0x2a, 0x4d, 0x18, 0x20, 0x00, 0x00, 0x00] ++ dict.hash.1

/-- In a configuration that starts every line, wherever it stands, was loaded by the
final value of the two flags; the entries of all arrays are what the lines loaded;
what was hashed under trusted literals are the lines without one; and no array has a
key twice. -/
theorem directive_order_safe {L : Loader} {file : ConfFile} {c : Loaded} (h : load L file = .ok c) :
    ∃ dicts, List.Forall₂ (LineLoaded L c.zmcf) file.lines dicts ∧ (entries c.http c.servers).Perm dicts ∧
      (c.zmcf.dcz_dict_trust_hashes = some true → c.zmcf.dcz_dicts_hashed = file.lines.countP (·.2.isNone)) ∧
      ∀ ds, some ds ∈ c.http :: c.servers.arrays → DistinctHashes ds := by
  obtain ⟨⟨s, http, servers⟩, hparse, h'⟩ := bind_ok h
  obtain ⟨zmcf, hinit, h'⟩ := bind_ok h'
  cases h'
  have hp := conf_parse_parsed file hparse (.start L)
  rw [List.nil_append] at hp
  obtain ⟨loads, hl, hperm⟩ := conf_parse_entries file hparse
  obtain rfl : s.loads = loads := hl
  rw [Option.getD_none, List.nil_append] at hperm
  obtain ⟨hhashed, hstrict, htrust, hoff⟩ := init_main_conf_spec hinit
  refine ⟨s.loads.map (·.dict), ?_, hperm, fun ht => ?_, fun ds hds => ?_⟩
  · rw [List.forall₂_map_right_iff]
    have hmem := (List.forall₂_and_left _ _).2 ⟨fun load (h : load ∈ s.loads) => h, hp.loads.flip⟩
    refine hmem.flip.imp ?_
    rintro line load ⟨hload, hby⟩
    have hliteral : ∀ literal, line.2 = some literal →
        ∃ hash, load.literal = some hash ∧ parse_literal literal = .ok hash := by
      intro literal hline
      rcases supplied_hash_cases hby.literal with ⟨hnone, -⟩ | ⟨text, hash, htext, hl, hparsed⟩
      · exact absurd (hline.symm.trans hnone) (by simp)
      · obtain rfl := Option.some.inj (hline.symm.trans htext)
        exact ⟨hash, hl, hparsed⟩
    refine ⟨hby.path, ⟨load.strict, hby.bytes⟩, fun hon => ?_, fun hon literal hline => ?_, fun hn => ?_, fun hline => ?_,
      hby.header⟩
    · rw [← hp.strict (hstrict hon) load hload]
      exact hby.bytes
    · obtain ⟨hash, hl, hparsed⟩ := hliteral literal hline
      rw [(hp.trusted (htrust hon)).1 load hload hash hl]
      exact hparsed
    · obtain ⟨hkey, hsame⟩ := hp.verified (hoff hn) load hload
      refine ⟨hkey, fun literal hline => ?_⟩
      obtain ⟨hash, hl, hparsed⟩ := hliteral literal hline
      rw [hsame hash hl]
      exact hparsed
    · refine hby.computed ?_
      rcases supplied_hash_cases hby.literal with ⟨-, hnone⟩ | ⟨text, hash, htext, -, -⟩
      · exact hnone
      · exact absurd (hline.symm.trans htext) (by simp)
  · rw [hhashed, (hp.trusted (htrust ht)).2]
    exact countP_literal hp.loads
  · obtain ⟨hhttp, hservers⟩ := load_distinct h
    rcases List.mem_cons.1 hds with he | hin
    · exact hhttp ds he.symm
    · exact hservers ds hin

/-- A strict and trusting configuration: a line with a literal at http level, and one
without in a server. -/
def flags_first : ConfFile :=
  .directive (.dict_strict_path true) (.directive (.dcz_dict_trust_hashes true)
    (.directive (.dcz_dict_file (str "/a") (some (literal_f 1)))
      (.block (.directive (.dcz_dict_file (str "/b") none) .done) .done)))

theorem directive_order_safe_flags_first : ∃ c dicts, load one_byte_files flags_first = .ok c ∧
    c.zmcf.dict_strict_path = some true ∧ c.zmcf.dcz_dict_trust_hashes = some true ∧
      List.Forall₂ (LineLoaded one_byte_files c.zmcf) flags_first.lines dicts ∧ c.zmcf.dcz_dicts_hashed = 1 := by
  obtain ⟨c, hc, hs, ht⟩ : ∃ c, load one_byte_files flags_first = .ok c ∧ c.zmcf.dict_strict_path = some true ∧
      c.zmcf.dcz_dict_trust_hashes = some true := ⟨_, rfl, rfl, rfl⟩
  obtain ⟨dicts, hlines, -, hhashed, -⟩ := directive_order_safe hc
  exact ⟨c, dicts, hc, hs, ht, hlines, hhashed ht⟩

end NginxZstd
