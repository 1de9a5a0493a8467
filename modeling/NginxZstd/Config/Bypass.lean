import NginxZstd.Config.Nearest
import NginxZstd.HeaderFilter
/-!
# `zstd_bypass` and `zstd_bypass_vary`

The two directives are one contract with a cache: the predicates decide by what they
read of a request, and the name says what that is. Half a contract is reported when the
configuration is merged; the name itself is checked when it is parsed, so that what a
response names is that one field.
-/

namespace NginxZstd

open Lib

/-! ## Predicates that read a header or a cookie -/

section
variable {A : Abi} {K : ConfCore} {Z : ConfLib} {P : Type} {B : EstimateLib P}

end

end NginxZstd
