import NginxZstd.Nginx
/-!
# Response heads

The response side of `ngx_http_request_t`, as far as the module reads or writes it,
and the pushes onto its header list. `pool` decides the allocations to come.
-/

namespace NginxZstd

open Lib

/-- `headers_out` and the flags of `ngx_http_request_t`. `content_encoding` is the
value of the header the pointer of that name points at. `pool` grants or refuses the
next allocations, and grants all once it has run out. -/
structure Response where
  status : Nat
  content_encoding : Option Bytes
  content_length_n : Int
  content_type : Bytes
  content_type_len : Nat
  header_only : Bool
  headers : PartList TableElt
  gzip_vary : Bool
  gzip_tested : Bool
  gzip_ok : Bool
  pool : List Bool

/-- The part of `ngx_http_core_loc_conf_t` the module asks for. -/
structure CoreLocConf where
  gzip_vary : Bool

/-- A helper returns a code and leaves a response, also when it fails. -/
abbrev Helper := EStateM Abort Response

/-- What is kept of a helper by a caller that gives up where it fails. -/
def kept : EStateM.Result Abort Response Unit → Except Abort Response
  | .ok _ resp => .ok resp
  | .error e _ => .error e

/-- `ngx_http_zstd_push_header`. A list that cannot grow stays as it is. -/
def push_header_rc (key value : Bytes) : Helper Unit := fun resp =>
  match resp.headers.push (resp.pool.headD true) { hash := 1, key, value, lowcase_key := none } with
  | some headers => .ok () { resp with headers, pool := resp.pool.tail }
  | none => .error .error { resp with pool := resp.pool.tail }

def push_header (resp : Response) (key value : Bytes) : Except Abort Response := kept (push_header_rc key value resp)

theorem push_header_unfold (resp : Response) (key value : Bytes) :
    push_header resp key value =
      match resp.headers.push (resp.pool.headD true) { hash := 1, key, value, lowcase_key := none } with
      | some headers => .ok { resp with headers, pool := resp.pool.tail }
      | none => .error .error := by
  unfold push_header push_header_rc
  cases resp.headers.push (resp.pool.headD true) { hash := 1, key, value, lowcase_key := none } <;> rfl

/-- Memory from the pool. -/
def alloc (resp : Response) : Except Abort Response :=
  if resp.pool.headD true then .ok { resp with pool := resp.pool.tail } else .error .error

theorem push_header_spec {resp resp' : Response} {key value : Bytes} (h : push_header resp key value = .ok resp') :
    resp'.headers.toList = resp.headers.toList ++ [⟨1, key, value, none⟩] ∧
      (resp.headers.WellFormed → resp'.headers.WellFormed) ∧ resp'.gzip_vary = resp.gzip_vary := by
  rw [push_header_unfold] at h
  split at h
  · next headers hp =>
    cases h
    exact ⟨(PartList.push_spec hp).1, (PartList.push_spec hp).2, rfl⟩
  · cases h

/-! ## Failures for want of memory -/

/-- Every allocation to come is granted. -/
def Granting (pool : List Bool) : Prop := false ∉ pool

instance (pool : List Bool) : Decidable (Granting pool) := inferInstanceAs (Decidable (false ∉ pool))

namespace Granting

variable {pool : List Bool}

theorem head (hp : Granting pool) : pool.headD true = true := by
  unfold Granting at hp
  cases pool with
  | nil => rfl
  | cons granted pool =>
    cases granted with
    | true => rfl
    | false => exact absurd List.mem_cons_self hp

theorem tail (hp : Granting pool) : Granting pool.tail := fun h => hp (List.mem_of_mem_tail h)

end Granting

/-- The step fails with `NGX_ERROR` only, and only where an allocation to come is refused;
where none is, none is refused behind it. -/
structure OnlyRefused {α : Type} (pool : List Bool) (left : α → List Bool) (x : Except Abort α) : Prop where
  fails : ∀ e, x = .error e → e = .error ∧ ¬Granting pool
  keeps : ∀ a, x = .ok a → Granting pool → Granting (left a)

namespace OnlyRefused

variable {α β : Type} {pool : List Bool} {left : α → List Bool} {left' : β → List Bool} {x : Except Abort α}

theorem of_ok {a : α} (h : Granting pool → Granting (left a)) : OnlyRefused pool left (.ok a) := by
  refine ⟨fun e he => (by cases he), fun b hb => ?_⟩
  cases hb
  exact h

theorem of_refused (h : ¬Granting pool) : OnlyRefused pool left (.error .error) := by
  refine ⟨fun e he => ?_, fun a ha => (by cases ha)⟩
  cases he
  exact ⟨rfl, h⟩

/-- A step, and then another with what it has left. -/
theorem bind {f : α → Except Abort β} (hx : OnlyRefused pool left x)
    (hf : ∀ a, x = .ok a → OnlyRefused (left a) left' (f a)) : OnlyRefused pool left' (x >>= f) := by
  cases hrun : x with
  | error e =>
    obtain ⟨rfl, hp⟩ := hx.fails e hrun
    exact of_refused hp
  | ok a =>
    rw [ok_then]
    refine ⟨fun e he => ?_, fun b hb hp => (hf a hrun).keeps b hb (hx.keeps a hrun hp)⟩
    obtain ⟨herr, hrefused⟩ := (hf a hrun).fails e he
    exact ⟨herr, fun hp => hrefused (hx.keeps a hrun hp)⟩

/-- Without a refusal to come, the step succeeds. -/
theorem granted (h : OnlyRefused pool left x) (hp : Granting pool) : ∃ a, x = .ok a ∧ Granting (left a) := by
  cases hrun : x with
  | error e => exact absurd hp (h.fails e hrun).2
  | ok a => exact ⟨a, rfl, h.keeps a hrun hp⟩

end OnlyRefused

theorem push_header_onlyRefused (resp : Response) (key value : Bytes) :
    OnlyRefused resp.pool Response.pool (push_header resp key value) := by
  rw [push_header_unfold]
  split
  · exact .of_ok Granting.tail
  · next hnone =>
    refine .of_refused fun hp => ?_
    obtain ⟨headers, hpush⟩ := PartList.push_granted resp.headers (⟨1, key, value, none⟩ : TableElt)
    rw [hp.head, hpush] at hnone
    cases hnone

theorem alloc_onlyRefused (resp : Response) : OnlyRefused resp.pool Response.pool (alloc resp) := by
  unfold alloc
  split
  · exact .of_ok Granting.tail
  · next hrefused => exact .of_refused fun hp => hrefused hp.head

/-- A response head with no header lines yet. -/
def sampleResponse : Response :=
  { status := 200, content_encoding := none, content_length_n := 1000, content_type := str "text/html",
    content_type_len := 9, header_only := false, headers := ⟨20, [], []⟩, gzip_vary := false, gzip_tested := false,
    gzip_ok := false, pool := [] }

end NginxZstd
