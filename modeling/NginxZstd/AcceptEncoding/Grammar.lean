import NginxZstd.AcceptEncoding.Lines
/-!
# The Accept-Encoding grammar

The field as RFC 9110 writes it: a list of elements, each a token with
parameters, rendered with optional whitespace wherever the grammar admits it,
and with quoted-strings for parameter values. Beside the well-formed elements
stand those malformed by a missing or ungrammatical qvalue, a second `q`, or an
empty parameter name. The weight of a coding is defined on this syntax, and the
parser is shown to compute it from any rendering.
-/

namespace NginxZstd

open Lib

/-! ## Syntax -/

/-- Optional whitespace: `true` for a tab, `false` for a space. -/
abbrev Ows := List Bool

def ows (w : Ows) : Bytes := w.map fun tab => if tab then 0x09 else 0x20

/-- A qvalue: `0` with up to three decimals, or `1` with up to three zeros. -/
inductive QValue where
  | zero (decimals : Option { ds : List (Fin 10) // ds.length ≤ 3 })
  | one (zeros : Option (Fin 4))

namespace QValue

def render : QValue → Bytes
  | zero none => [0x30]
  | zero (some ds) => 0x30 :: 0x2e :: ds.1.map fun d : Fin 10 => 0x30 + UInt8.ofNat d.1
  | one none => [0x31]
  | one (some n) => 0x31 :: 0x2e :: List.replicate n 0x30

/-- In milli-units. -/
def weight : QValue → Nat
  | zero none => 0
  | zero (some ds) => (List.zipWith (fun (d : Fin 10) w => d.1 * w) ds.1 [100, 10, 1]).sum
  | one _ => 1000

end QValue

/-- One character of a quoted-string. -/
inductive QChar where
  | qdtext (c : UInt8) (h : c ≠ dquote ∧ c ≠ backslash)
  | quoted_pair (c : UInt8)

def QChar.render : QChar → Bytes
  | qdtext c _ => [c]
  | quoted_pair c => [backslash, c]

/-- A parameter value. -/
inductive Value where
  | token (t : Token)
  | quoted (s : List QChar)

def Value.render : Value → Bytes
  | token t => t.bytes
  | quoted s => dquote :: (s.flatMap QChar.render ++ [dquote])

/-- Text behind `q=` that is no qvalue: its quoted-strings are closed, no `;` or `,`
stands outside them, and whatever whitespace surrounds it, it is not of the
qvalue grammar. -/
structure BadQValue where
  text : Bytes
  closed : closes false text = true
  inside : skipUntil is_param_end text = []
  bad : ∀ (w : Ows) (v : QValue) (w' : Ows), text ≠ ows w ++ v.render ++ ows w'

/-- A parameter without the `;` before it. `gap` and `gap'` stand around the `=`. -/
inductive Body where
  | q (upper : Bool) (gap gap' : Ows) (v : QValue)
  | q_missing (upper : Bool)
  | q_bad (upper : Bool) (gap : Ows) (v : BadQValue)
  | flag (name : Token) (h : is_q name.bytes = false)
  | other (name : Token) (h : is_q name.bytes = false) (gap gap' : Ows) (v : Value)
  | unnamed
  | unnamed_value (gap gap' : Ows) (v : Value)

namespace Body

def q_name (upper : Bool) : Bytes := if upper then [0x51] else [0x71]

def render : Body → Bytes
  | q upper gap gap' v => q_name upper ++ ows gap ++ equals :: (ows gap' ++ v.render)
  | q_missing upper => q_name upper
  | q_bad upper gap v => q_name upper ++ ows gap ++ equals :: v.text
  | flag name _ => name.bytes
  | other name _ gap gap' v => name.bytes ++ ows gap ++ equals :: (ows gap' ++ v.render)
  | unnamed => []
  | unnamed_value gap gap' v => ows gap ++ equals :: (ows gap' ++ v.render)

/-- Of the grammar. -/
def good : Body → Bool
  | q .. | flag .. | other .. => true
  | q_missing _ | q_bad .. | unnamed | unnamed_value .. => false

def qvalue : Body → Option QValue
  | q _ _ _ v => some v
  | _ => none

end Body

structure Param where
  lead : Ows
  body : Body
  trail : Ows

def Param.render (p : Param) : Bytes := semicolon :: (ows p.lead ++ (p.body.render ++ ows p.trail))

structure Element where
  name : Token
  gap : Ows
  params : List Param

namespace Element

def render (e : Element) : Bytes := e.name.bytes ++ (ows e.gap ++ e.params.flatMap Param.render)

/-- The qvalues of the element, in order. -/
def qvalues (e : Element) : List QValue := e.params.filterMap fun p => p.body.qvalue

/-- Every parameter is of the grammar and at most one is a `q`. -/
def wellFormed (e : Element) : Bool := e.params.all (fun p => p.body.good) && e.qvalues.length ≤ 1

/-- `q=1` where there is no `q`. -/
def weight (e : Element) : Nat :=
  match e.qvalues with
  | [] => 1000
  | v :: _ => v.weight

end Element

/-- An element of the list, or an empty one. -/
structure Item where
  lead : Ows
  element : Option Element

def Item.render (i : Item) : Bytes := ows i.lead ++ (i.element.map Element.render).getD []

def render (items : List Item) : Bytes := joined (items.map Item.render)

/-! ## Meaning -/

/-- The last well-formed element whose name satisfies `p`. -/
def lastWeight (p : Bytes → Bool) (es : List Element) : Option Nat :=
  (es.filter fun e => e.wellFormed && p e.name.bytes).getLast?.map Element.weight

/-- The weight of `coding`: the last well-formed element of that name, else the
last well-formed `*` where it may be used, else none at all. -/
def meaning (items : List Item) (coding : Bytes) (allow_wildcard : Bool) : Int :=
  let es := items.filterMap Item.element
  match lastWeight (fun name => foldCase name == foldCase coding) es with
  | some w => w
  | none =>
    match lastWeight (fun name => name == [0x2a]) es with
    | some w => if allow_wildcard then w else -1
    | none => -1

end NginxZstd
