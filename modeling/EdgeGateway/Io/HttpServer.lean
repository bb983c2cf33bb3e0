import EdgeGateway.Core.Config

set_option autoImplicit false

/-! # What the HTTP server shares with the application

The types of `HttpServer.h` and its two helpers. The texts of the embedded page are parameters.
-/

namespace EdgeGateway

structure HttpRequest where
  method : List UInt8
  target : List UInt8

structure HttpResponse where
  status : Nat
  contentType : String
  body : List UInt8
  deriving DecidableEq

structure HttpRuntimeConfig where
  idleTimeoutS : Int := 5
  reportN : Int := 10

def HttpResponse.json (status : Nat) (body : List UInt8) : HttpResponse :=
  ⟨status, "application/json", body⟩

/-! ## Helpers -/

/-- The embedded resources. -/
structure WebAsset where
  kIndexHtml : List UInt8
  kUplotJs : List UInt8
  kUplotCss : List UInt8

def staticHttpResponse (asset : WebAsset) (path : List UInt8) : Option HttpResponse :=
  if path = bytes "/" then some ⟨200, "text/html; charset=utf-8", asset.kIndexHtml⟩
  else if path = bytes "/uplot.js" then some ⟨200, "application/javascript", asset.kUplotJs⟩
  else if path = bytes "/uplot.css" then some ⟨200, "text/css", asset.kUplotCss⟩
  else none

def clampReportN (raw : List UInt8) (defaultN : Int) : Int :=
  let fallback := max 1 (min defaultN kMaxReportN)
  if raw = [] then fallback
  else
    match stoi raw with
    | some n => if n < 1 ∨ n > kMaxReportN then fallback else n
    | none => fallback

theorem clampReportN_range (raw : List UInt8) (defaultN : Int) :
    1 ≤ clampReportN raw defaultN ∧ clampReportN raw defaultN ≤ kMaxReportN := by
  unfold clampReportN kMaxReportN
  dsimp only
  split_ifs
  · omega
  · split
    · split_ifs <;> omega
    · omega

end EdgeGateway
