import Mathlib.Data.List.Basic
/-!
# Streaming encoders

An encoder is called again and again: a call takes a piece off the input, writes a
piece of the output, and says whether that completed the stream. How the input was
cut up and how much room there was for the output shows in the pieces only; a
session keeps what they add up to. An encoder is lossless when a completed session
decodes to its input, however it went.
-/

namespace NginxZstd.Lib

variable {S α β : Type}

/-- `call z x w fin z'`: a call from `z` may take `x`, write `w` and leave `z'`; with
`fin` the stream is complete. -/
abbrev Encoder (S α β : Type) : Type := S → List α → List β → Bool → S → Prop

/-- The calls of one stream, from `z₀` on: none follows the one that completed it. -/
inductive Session (call : Encoder S α β) (z₀ : S) : List α → List β → Bool → S → Prop
  | start : Session call z₀ [] [] false z₀
  | call {xs ws z x w fin z'} (h : Session call z₀ xs ws false z) (hc : call z x w fin z') :
      Session call z₀ (xs ++ x) (ws ++ w) fin z'

/-- Every completed stream decodes to what went in. -/
def Lossless (call : Encoder S α β) (z₀ : S) (decode : List β → Option (List α)) : Prop :=
  ∀ {xs ws z}, Session call z₀ xs ws true z → decode ws = some xs

variable {call : Encoder S α β} {z₀ : S} {decode : List β → Option (List α)}

/-- A relation between what went in, what came out and the state, kept by the calls that
leave the stream open and made good by the one that completes it. -/
theorem Lossless.of_invariant (I : List α → List β → S → Prop) (hstart : I [] [] z₀)
    (hopen : ∀ {xs ws z x w z'}, I xs ws z → call z x w false z' → I (xs ++ x) (ws ++ w) z')
    (hfin : ∀ {xs ws z x w z'}, I xs ws z → call z x w true z' → decode (ws ++ w) = some (xs ++ x)) :
    Lossless call z₀ decode := by
  intro xs ws z h
  have hinv : ∀ {xs ws fin z}, Session call z₀ xs ws fin z → fin = false → I xs ws z := by
    intro xs ws fin z h
    induction h with
    | start => exact fun _ => hstart
    | call _ hc ih =>
      rintro rfl
      exact hopen (ih rfl) hc
  cases h with
  | call h hc => exact hfin (hinv h rfl) hc

end NginxZstd.Lib
