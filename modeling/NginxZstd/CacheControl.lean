import Mathlib.Data.List.DropRight
import Mathlib.Data.List.TakeWhile
import NginxZstd.Lib.Scan
import NginxZstd.Response
/-!
# Cache-Control: no-transform

The scan of the response's Cache-Control lines that keeps the filter from
re-encoding a response whose origin forbids it.
-/

namespace NginxZstd

open Lib

/-- `ngx_http_zstd_cache_control_directive_end`: where the directive's name ends and
where the directive does, as the rest of the value behind each. `name_end` is set
once the cut has been seen. -/
def directive_end (name_end : Option Bytes) (p : Bytes) : Bytes × Bytes :=
  match p with
  | [] => (name_end.getD [], [])
  | c :: s =>
    if c = dquote then directive_end name_end (quotedRest s)
    else if c = comma then (name_end.getD (c :: s), c :: s)
    else if name_end.isNone ∧ (c = semicolon ∨ c = equals) then directive_end (some (c :: s)) s
    else directive_end name_end s
termination_by p.length
decreasing_by
  · have := quotedRest_length_le s; simp only [List.length_cons]; omega
  · simp
  · simp

theorem directive_end_length_le (name_end : Option Bytes) (p : Bytes) :
    (directive_end name_end p).2.length ≤ p.length := by
  fun_induction directive_end name_end p with
  | case1 => exact Nat.le_refl _
  | case2 name_end s ih => have := quotedRest_length_le s; simp only [List.length_cons]; omega
  | case3 => exact Nat.le_refl _
  | case4 name_end c s _ _ _ ih => simp only [List.length_cons]; omega
  | case5 name_end c s _ _ _ ih => simp only [List.length_cons]; omega

/-- The directive name at `start`, right-trimmed. -/
def directive_name (start : Bytes) : Bytes :=
  (start.take (start.length - (directive_end none start).1.length)).rdropWhile is_ows

/-- `ngx_http_zstd_cache_control_value_no_transform`. -/
def value_no_transform (p : Bytes) : Bool :=
  match p with
  | [] => false
  | c :: s =>
    let start := (c :: s).dropWhile is_ows
    if equals_nocase (directive_name start) (str "no-transform") then true
    else value_no_transform (directive_end none start).2.tail
termination_by p.length
decreasing_by
  have h1 := directive_end_length_le none ((c :: s).dropWhile is_ows)
  have h2 := List.length_dropWhile_le is_ows (c :: s)
  rw [List.length_tail]
  simp only [List.length_cons] at h2 ⊢
  omega

/-- The loop body of the list walk, which returns 1 through the error. -/
def note_cache_control (_ : Unit) (h : TableElt) : Except Unit Unit :=
  if h.hash == 0 || h.key.length != (str "Cache-Control").length then .ok ()
  else if strncasecmp h.key (str "Cache-Control") (str "Cache-Control").length == 0 && value_no_transform h.value
  then .error ()
  else .ok ()

/-- `ngx_http_zstd_cache_control_no_transform`. -/
def cache_control_no_transform (resp : Response) : Except Abort Bool := do
  match ← or_fault (resp.headers.walk note_cache_control ()) with
  | .ok () => return false
  | .error () => return true

/-- The scan of a list as nginx builds it reads nothing past the list, and allocates nothing. -/
theorem cache_control_no_transform_total {resp : Response} (hw : resp.headers.WellFormed) :
    ∃ found, cache_control_no_transform resp = .ok found := by
  unfold cache_control_no_transform
  rw [PartList.walk_eq _ _ hw, or_fault, ok_then]
  split
  · exact ⟨_, rfl⟩
  · exact ⟨_, rfl⟩

end NginxZstd
