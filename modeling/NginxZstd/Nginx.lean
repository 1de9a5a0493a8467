import NginxZstd.Lib.Bytes
import NginxZstd.Lib.Parts
/-!
# What the module sees of nginx

The header list elements, the request and the response head as nginx core hands
them to a filter or a content handler. Only the fields the module reads are kept.
-/

namespace NginxZstd

open Lib

/-- `NGX_MAX_PATH`, the `PATH_MAX` of the platform. -/
def max_path : Nat := 4096

/-! ## Field syntax -/

def comma : UInt8 := 0x2c

def semicolon : UInt8 := 0x3b

def equals : UInt8 := 0x3d

/-- A space or a tab. -/
def is_ows (c : UInt8) : Bool := c == 0x20 || c == 0x09

/-- RFC 9110 `tchar`. -/
def is_tchar (c : UInt8) : Bool :=
  (0x30 ≤ c && c ≤ 0x39) || (0x41 ≤ c && c ≤ 0x5a) || (0x61 ≤ c && c ≤ 0x7a) ||
    (str "!#$%&'*+-.^_`|~").contains c

structure Token where
  bytes : Bytes
  nonempty : bytes ≠ []
  tchars : ∀ c ∈ bytes, is_tchar c = true

/-! ## Requests -/

/-- `ngx_table_elt_t`. `lowcase_key` is a pointer that core points at the folded
name of every parsed header. -/
structure TableElt where
  hash : Nat
  key : Bytes
  value : Bytes
  lowcase_key : Option Bytes
deriving DecidableEq

/-- The request methods the module tells apart. -/
inductive Method where
  | get
  | head
  | other
deriving DecidableEq

/-- `ngx_http_request_t`, the request's side of it. `accept_encoding` is the chain
nginx 1.23 and later link from `headers_in.accept_encoding`. -/
structure Request where
  method : Method
  uri : Bytes
  is_main : Bool
  ssl : Bool
  headers : PartList TableElt
  accept_encoding : List TableElt

/-- `ngx_strncasecmp`: stops early on a NUL both strings share. Its callers have
compared the lengths first, so the strings never run out before `n` does. -/
def strncasecmp : Bytes → Bytes → Nat → Int
  | c1 :: s1, c2 :: s2, n + 1 =>
    let c1 := lower c1
    let c2 := lower c2
    if c1 = c2 then (if c1 ≠ 0 then strncasecmp s1 s2 n else 0) else (c1.toNat : Int) - c2.toNat
  | _, _, _ => 0

/-- The length test and the comparison the module always makes together. -/
def equals_nocase (s lit : Bytes) : Bool := s.length == lit.length && strncasecmp s lit lit.length == 0

theorem strncasecmp_eq_zero : ∀ {s t : Bytes}, s.length = t.length → 0 ∉ t →
    (strncasecmp s t t.length = 0 ↔ foldCase s = foldCase t)
  | [], [], _, _ => by simp [strncasecmp]
  | c :: s, d :: t, hlen, hz => by
    have ih := strncasecmp_eq_zero (s := s) (t := t) (by simpa using hlen) (fun h => hz (List.mem_cons_of_mem _ h))
    have hd : lower d ≠ 0 := fun h => hz (by rw [lower_eq_zero.1 h]; exact List.mem_cons_self)
    simp only [List.length_cons, strncasecmp, foldCase_cons, List.cons.injEq]
    by_cases hcd : lower c = lower d
    · rw [if_pos hcd, if_pos (by rw [hcd]; exact hd), ih]
      simp [hcd]
    · have : (lower c).toNat ≠ (lower d).toNat := fun h => hcd (UInt8.toNat_inj.1 h)
      rw [if_neg hcd]
      simp only [hcd, false_and, iff_false]
      omega

/-- Against a literal without NUL bytes the comparison is equality up to case. -/
theorem equals_nocase_iff {s lit : Bytes} (hz : 0 ∉ lit) :
    equals_nocase s lit = true ↔ foldCase s = foldCase lit := by
  simp only [equals_nocase, Bool.and_eq_true, beq_iff_eq]
  constructor
  · rintro ⟨hlen, h⟩
    exact (strncasecmp_eq_zero hlen hz).1 h
  · intro h
    have hlen : s.length = lit.length := by simpa using congrArg List.length h
    exact ⟨hlen, (strncasecmp_eq_zero hlen hz).2 h⟩

/-- The header lines of one name, in received order. -/
def linesNamed (name : Bytes) (hs : List TableElt) : List TableElt :=
  hs.filter fun h => foldCase h.key = foldCase name

/-- The values of a request's lines of one name. -/
def Request.values (r : Request) (name : Bytes) : List Bytes :=
  (linesNamed name r.headers.toList).map TableElt.value

theorem Request.values_congr {name name' : Bytes} (r : Request) (h : foldCase name = foldCase name') :
    r.values name = r.values name' := by
  simp only [values, linesNamed, h]

/-- What nginx core guarantees of a request it parsed. -/
structure Request.CoreParsed (r : Request) : Prop where
  parts : r.headers.WellFormed
  lowcase : ∀ h ∈ r.headers.toList, h.lowcase_key = some (foldCase h.key)
  chain : r.accept_encoding = linesNamed (str "Accept-Encoding") r.headers.toList

/-- A main request on a TLS connection with the given header lines. -/
def requestOf (lines : List (String × String)) : Request :=
  let elts := lines.map fun l => ⟨1, str l.1, str l.2, some (foldCase (str l.1))⟩
  { method := .get, uri := str "/test", is_main := true, ssl := true, headers := ⟨20, elts, []⟩,
    accept_encoding := linesNamed (str "Accept-Encoding") elts }

theorem requestOf_coreParsed (lines : List (String × String)) : (requestOf lines).CoreParsed where
  parts := by simp [requestOf, PartList.WellFormed]
  lowcase := by
    simp only [requestOf, PartList.toList, List.flatten_nil, List.append_nil, List.mem_map]
    rintro _ ⟨l, -, rfl⟩
    rfl
  chain := by simp [requestOf, PartList.toList]

/-! ## Steps that can fail -/

/-- How a handler or filter ends without an answer: with `NGX_ERROR`, which only an
allocation failure causes, or by reading memory that is not there. -/
inductive Abort where
  | error
  | fault
deriving DecidableEq

/-- A loop over the header list that reads past an empty part is a fault. -/
def or_fault {α : Type} : Option α → Except Abort α
  | some a => .ok a
  | none => .error .fault

/-- Take a sequence of fallible steps that succeeded apart. -/
theorem bind_ok {ε α β : Type} {x : Except ε α} {f : α → Except ε β} {b : β} (h : (x >>= f) = .ok b) :
    ∃ a, x = .ok a ∧ f a = .ok b := by
  cases x with
  | error e => cases h
  | ok a => exact ⟨a, rfl, h⟩

theorem ok_then {ε α β : Type} (a : α) (f : α → Except ε β) : (Except.ok a >>= f) = f a := rfl

end NginxZstd
