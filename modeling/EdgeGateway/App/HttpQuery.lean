import EdgeGateway.Io.HttpServer
import EdgeGateway.Pipeline.TelemetryPipeline
import Mathlib.Logic.Function.Basic

set_option autoImplicit false

/-! # HTTP requests and query results as text

The part of `GatewayCore::handleHttp` that depends on the request and the configuration alone, and
the rendering of rows. How a value is formatted is a parameter.
-/

namespace EdgeGateway

/-! ## Decoding -/

/-- The digit value of a hexadecimal character. -/
def hexDigit? (c : UInt8) : Option Nat :=
  let n := c.toNat
  if 48 ≤ n ∧ n ≤ 57 then some (n - 48)
  else if 97 ≤ n ∧ n ≤ 102 then some (n - 97 + 10)
  else if 65 ≤ n ∧ n ≤ 70 then some (n - 65 + 10)
  else none

/-- A decoded character; NUL is refused. -/
def decoded (c : UInt8) (rest : Option (List UInt8)) : Option (List UInt8) :=
  if c = 0 then none else rest.map (c :: ·)

/-- `%`, `+` and NUL are the characters that are not taken as they are. -/
def decodeUrl : List UInt8 → Option (List UInt8)
  | [] => some []
  | 37 :: hi :: lo :: rest =>
      match hexDigit? hi, hexDigit? lo with
      | some hi, some lo => decoded (UInt8.ofNat (hi * 16 + lo)) (decodeUrl rest)
      | _, _ => none
  | 37 :: _ => none
  | 43 :: rest => decoded 32 (decodeUrl rest)
  | c :: rest => decoded c (decodeUrl rest)

/-- The parameters of a query; one that is not there is empty. -/
abbrev Params := List UInt8 → List UInt8

/-- A part between two `&`. A part without `=` says nothing, one that is badly encoded ends the
loop. -/
def addParam (params : Params) (part : List UInt8) : Option Params :=
  if 61 ∈ part then do
    let key ← decodeUrl (part.takeWhile (· ≠ 61))
    let value ← decodeUrl ((part.dropWhile (· ≠ 61)).tail)
    some (Function.update params key value)
  else some params

/-- The loop over the query string; a last `&` begins one more part, which is empty. -/
def parseParams (query : List UInt8) : Option Params :=
  (query.splitOn 38).foldlM addParam fun _ => []

/-! ## Routing -/

def methodNotAllowed : HttpResponse := .json 405 (bytes "\x7b\"error\":\"method not allowed\"\x7d")

def notFound : HttpResponse := .json 404 (bytes "\x7b\"error\":\"not found\"\x7d")

def invalidQueryEncoding : HttpResponse :=
  .json 400 (bytes "\x7b\"error\":\"invalid query encoding\"\x7d")

def missingDevParam : HttpResponse := .json 400 (bytes "\x7b\"error\":\"missing dev param\"\x7d")

def queryQueueFull : HttpResponse := .json 503 (bytes "\x7b\"error\":\"query queue full\"\x7d")

def databaseUnavailable : HttpResponse :=
  .json 503 (bytes "\x7b\"error\":\"database unavailable\"\x7d")

def queryFailed : HttpResponse := .json 500 (bytes "\x7b\"error\":\"query failed\"\x7d")

/-- `handleHttp` up to the limit on queries: a response at once, or the device and the number of
rows to query. -/
def routeHttp (asset : WebAsset) (config : HttpRuntimeConfig) (request : HttpRequest) :
    Except HttpResponse (List UInt8 × Int) :=
  if request.method ≠ bytes "GET" ∧ request.method ≠ bytes "HEAD" then .error methodNotAllowed
  else
    let path := request.target.takeWhile (· ≠ 63)
    let query := (request.target.dropWhile (· ≠ 63)).tail
    match staticHttpResponse asset path with
    | some response => .error response
    | none =>
        if path ≠ bytes "/api/data" then .error notFound
        else
          match parseParams query with
          | none => .error invalidQueryEncoding
          | some params =>
              let device := params (bytes "dev")
              if device = [] then .error missingDevParam
              else .ok (device, clampReportN (params (bytes "n")) config.reportN)

/-! ## Rendering -/

/-- A character in a JSON string. -/
def escapeChar (c : UInt8) : List UInt8 :=
  let digits := bytes "0123456789abcdef"
  if c = 34 ∨ c = 92 then [92, c]
  else if c.toNat < 32 then
    bytes "\\u00" ++ [digits.getD (c.toNat / 16) 0, digits.getD (c.toNat % 16) 0]
  else [c]

def escapeJson (text : List UInt8) : List UInt8 := text.flatMap escapeChar

variable {ν : Type}

def rowToJson (formatValue : ν → List UInt8) (row : DataRow ν) : List UInt8 :=
  bytes "\x7b\"device_id\":\"" ++ escapeJson row.deviceId ++ bytes "\",\"value\":" ++
    formatValue row.value ++ bytes ",\"ts\":" ++ toDecimal row.ts ++ bytes "\x7d"

/-- The rows with commas between them. -/
def rowsToJson (formatValue : ν → List UInt8) (rows : List (DataRow ν)) : List UInt8 :=
  rows.foldl (fun body row =>
      (if body.length > 1 then body ++ bytes "," else body) ++ rowToJson formatValue row)
    (bytes "[") ++ bytes "]"

/-- The response to a query, or to one that threw. -/
def queryResponse (formatValue : ν → List UInt8) : Option (List (DataRow ν)) → HttpResponse
  | some rows => .json 200 (rowsToJson formatValue rows)
  | none => queryFailed

end EdgeGateway
