import NginxZstd.Lib.Scan
/-!
# Splitting outside quotes

What it means to be outside a quoted-string, byte by byte, and the pieces of a text
between the separators that stand there. A scan that steps over a quoted-string as
a whole stops where the pieces end.
-/

namespace NginxZstd.Lib

/-- Where a byte stands: outside quoted-strings, inside one, or behind the backslash
of a quoted-pair. -/
inductive Quote where
  | outside
  | inside
  | escaped
deriving DecidableEq

def Quote.next : Quote → UInt8 → Quote
  | .outside, c => if c = dquote then .inside else .outside
  | .inside, c => if c = dquote then .outside else if c = backslash then .escaped else .inside
  | .escaped, _ => .inside

/-- The text in front of the first stop byte outside quotes. -/
def upTo (stop : UInt8 → Bool) : Quote → Bytes → Bytes
  | _, [] => []
  | q, c :: s => if q = .outside ∧ stop c = true then [] else c :: upTo stop (q.next c) s

/-- The pieces between the separators outside quotes. -/
def splitOutside (sep : UInt8 → Bool) : Quote → Bytes → List Bytes
  | _, [] => [[]]
  | q, c :: s =>
    if q = .outside ∧ sep c = true then [] :: splitOutside sep .outside s
    else (splitOutside sep (q.next c) s).modifyHead (c :: ·)

variable {stop : UInt8 → Bool}

/-- Looking for one stop byte in front of another is looking for either. -/
theorem upTo_upTo (stop stop' : UInt8 → Bool) (q : Quote) (s : Bytes) :
    upTo stop q (upTo stop' q s) = upTo (fun c => stop c || stop' c) q s := by
  induction s generalizing q with
  | nil => rfl
  | cons c s ih =>
    by_cases h' : q = .outside ∧ stop' c = true
    · rw [upTo, if_pos h', upTo, upTo, if_pos ⟨h'.1, by simp [h'.2]⟩]
    · rw [upTo, if_neg h', upTo, upTo, ih]
      by_cases h : q = .outside ∧ stop c = true
      · rw [if_pos h, if_pos ⟨h.1, by simp [h.2]⟩]
      · have hno : ¬(q = .outside ∧ (stop c || stop' c) = true) := by
          rintro ⟨hq, hc⟩
          rcases Bool.or_eq_true_iff.1 hc with hc | hc
          · exact h ⟨hq, hc⟩
          · exact h' ⟨hq, hc⟩
        rw [if_neg h, if_neg hno]

/-- Inside quotes nothing stops before the quoted-string is over. -/
theorem upTo_inside (stop : UInt8 → Bool) (s : Bytes) :
    ∃ q, s = q ++ quotedRest s ∧ upTo stop .inside s = q ++ upTo stop .outside (quotedRest s) := by
  have hstep : ∀ c s, upTo stop .inside (c :: s) = c :: upTo stop (Quote.inside.next c) s := fun c s => by
    rw [upTo, if_neg (by simp)]
  fun_induction quotedRest s with
  | case1 => exact ⟨[], rfl, rfl⟩
  | case2 s => exact ⟨[dquote], rfl, hstep dquote s⟩
  | case3 => exact ⟨[backslash], rfl, hstep backslash []⟩
  | case4 d s _ ih =>
    obtain ⟨q, hs, hu⟩ := ih
    refine ⟨backslash :: d :: q, congrArg (backslash :: d :: ·) hs, ?_⟩
    have hpair : upTo stop .inside (backslash :: d :: s) = backslash :: d :: upTo stop .inside s := by
      rw [hstep, show Quote.inside.next backslash = .escaped by decide, upTo, if_neg (by simp)]
      rfl
    rw [hpair, hu]
    rfl
  | case5 c s hq hb ih =>
    obtain ⟨q, hs, hu⟩ := ih
    refine ⟨c :: q, congrArg (c :: ·) hs, ?_⟩
    have hnext : Quote.inside.next c = .inside := by simp [Quote.next, hq, hb]
    rw [hstep, hnext, hu]
    rfl

theorem upTo_append_skipUntil (stop : UInt8 → Bool) (s : Bytes) : upTo stop .outside s ++ skipUntil stop s = s := by
  fun_induction skipUntil stop s with
  | case1 => rfl
  | case2 c s hc => rw [upTo, if_pos ⟨rfl, hc⟩, List.nil_append]
  | case3 s hc ih =>
    obtain ⟨q, hs, hu⟩ := upTo_inside stop s
    rw [upTo, if_neg (by simpa using hc), show Quote.outside.next dquote = .inside by decide, hu, List.cons_append,
      List.append_assoc, ih, ← hs]
  | case4 c s hc hq ih =>
    have hnext : Quote.outside.next c = .outside := by simp [Quote.next, hq]
    rw [upTo, if_neg (by simpa using hc), hnext, List.cons_append, ih]

theorem take_upTo (stop : UInt8 → Bool) (s : Bytes) :
    s.take (s.length - (skipUntil stop s).length) = upTo stop .outside s := by
  have h := upTo_append_skipUntil stop s
  have hlen : (upTo stop .outside s).length = s.length - (skipUntil stop s).length := by
    have := congrArg List.length h
    rw [List.length_append] at this
    omega
  calc s.take (s.length - (skipUntil stop s).length)
      = (upTo stop .outside s ++ skipUntil stop s).take (s.length - (skipUntil stop s).length) := by rw [h]
    _ = upTo stop .outside s := List.take_left' hlen

theorem drop_upTo (stop : UInt8 → Bool) (s : Bytes) : s.drop (upTo stop .outside s).length = skipUntil stop s := by
  calc s.drop (upTo stop .outside s).length
      = (upTo stop .outside s ++ skipUntil stop s).drop (upTo stop .outside s).length := by
        rw [upTo_append_skipUntil]
    _ = skipUntil stop s := List.drop_left

/-- Plain bytes in front of a text may be dropped before or after the cut. -/
theorem dropWhile_upTo {p : UInt8 → Bool} (hp : ∀ c, p c = true → stop c = false ∧ c ≠ dquote) (s : Bytes) :
    (upTo stop .outside s).dropWhile p = upTo stop .outside (s.dropWhile p) := by
  induction s with
  | nil => rfl
  | cons c s ih =>
    cases hc : p c with
    | true =>
      obtain ⟨hs, hq⟩ := hp c hc
      have hnext : Quote.outside.next c = .outside := by simp [Quote.next, hq]
      rw [upTo, if_neg (by simp [hs]), hnext, List.dropWhile_cons, if_pos hc, ih, List.dropWhile_cons, if_pos hc]
    | false =>
      rw [List.dropWhile_cons, if_neg (by simp [hc]), upTo]
      split
      · rfl
      · rw [List.dropWhile_cons, if_neg (by simp [hc])]

/-- The first piece, and the pieces behind the separator that ends it. -/
theorem splitOutside_eq (sep : UInt8 → Bool) (q : Quote) (s : Bytes) :
    splitOutside sep q s = upTo sep q s ::
      match s.drop (upTo sep q s).length with
      | [] => []
      | _ :: t => splitOutside sep .outside t := by
  induction s generalizing q with
  | nil => rfl
  | cons c s ih =>
    rw [splitOutside, upTo]
    split
    · rfl
    · rw [ih, List.modifyHead_cons]
      rfl

theorem splitOutside_outside (sep : UInt8 → Bool) (s : Bytes) :
    splitOutside sep .outside s = upTo sep .outside s ::
      match skipUntil sep s with
      | [] => []
      | _ :: t => splitOutside sep .outside t := by
  rw [splitOutside_eq, drop_upTo]
  cases skipUntil sep s with
  | nil => rfl
  | cons c t => rfl

end NginxZstd.Lib
