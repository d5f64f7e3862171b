import Paraxiom.Pallets.ParaOracle

/-!
# The off-chain worker of the para-oracle

`offchain_worker` of `pallets/para-oracle/src/lib.rs`: it fetches the endpoint of every
`ApiFeed`, in the order of the storage, and has every local account submit the values it
found in a `feed_data`.

The HTTP client of the host and the JSON crate are a parameter, which may answer each fetch
differently. So is the conversion of the number that a path leads to.
-/

namespace Paraxiom.ParaOracle

open Scale

/-- `http::Error`. -/
inductive HttpError where
  | deadlineReached
  | ioError
  | unknown
deriving DecidableEq

/-- `http::Response`. -/
structure Response where
  code : Nat
  body : Bytes

/-- What the host and the JSON crate do for one fetch. `tryWait` is `none` once the deadline
    is reached; `padded` multiplies by a million and converts to an `i64`. -/
structure Host where
  Pending : Type
  JValue : Type
  F64 : Type
  send : String → Option Pending
  tryWait : Pending → Option (Except HttpError Response)
  fromSlice : Bytes → Option JValue
  pointer : JValue → String → Option JValue
  asF64 : JValue → Option F64
  padded : F64 → Int

/-- A host whose every request is answered with a body, read as a JSON number without a
    fraction. -/
def sampleHost (body : Bytes) : Host where
  Pending := Unit
  JValue := Nat
  F64 := Nat
  send _ := some ()
  tryWait _ := some (.ok ⟨200, body⟩)
  fromSlice bytes :=
    if bytes ≠ [] ∧ bytes.all (fun b => 0x30 ≤ b ∧ b ≤ 0x39) then
      some (bytes.foldl (fun n b => 10 * n + (b.toNat - 0x30)) 0)
    else none
  pointer val path := if path = "" then some val else none
  asF64 val := some val
  padded val := val * 1000000

/-- `str::from_utf8`. -/
def fromUtf8 (bytes : Bytes) : Option String := String.fromUTF8? ⟨bytes.toArray⟩

/-- Fetch a URL and return the body of the response. -/
def fetchHttpGetResult (host : Host) (url : Bytes) : Exec HttpError Bytes := do
  let request ← expect (fromUtf8 url) "called `Result::unwrap()` on an `Err` value: Utf8Error"
  -- Every failure to send is an I/O error.
  let pending ← okOr (host.send request) .ioError
  let result ← okOr (host.tryWait pending) .deadlineReached
  let response ← result.mapError Failure.err
  ensure (response.code = 200) .unknown
  let body := response.body
  -- The string is a check only: its bytes are the body.
  let _bodyStr ← okOr (fromUtf8 body) .unknown
  return body

/-- The body of the worker's loop: the value that a feed's path leads to, unless the feed
    has no endpoint. -/
def fetchFeed (host : Host) (val : ApiFeed) : Exec String (Option Int) :=
  match val.url, val.vpath with
  | some url, some vpath => do
    -- A panic in the fetch passes `map_err`.
    let response ← (fetchHttpGetResult host url).mapErr fun _ => "Failed fetch http"
    let resJson ← okOr (host.fromSlice response) "Response JSON was not well-formatted"
    let path ← okOr (fromUtf8 vpath) "vpath contain invalid utf8 string"
    let found ← okOr (host.pointer resJson path) "vpath error"
    let fval ← okOr (host.asF64 found) "vpath value type error"
    return some (host.padded fval)
  -- A feed that lacks either is skipped.
  | _, _ => return none

variable {AccountId : Type} {cfg : Config AccountId}

/-- One round of the loop over `ApiFeeds`. -/
def collectFeed (host : CreatorId AccountId × OracleKey cfg.strLimit → Host)
    (values : List (OracleKey cfg.strLimit × Int))
    (entry : (CreatorId AccountId × OracleKey cfg.strLimit) × ApiFeed) :
    Exec String (List (OracleKey cfg.strLimit × Int)) := do
  let ((creator, key), val) := entry
  match ← fetchFeed (host (creator, key)) val with
  | some ival => return values ++ [(key, ival)]
  | none => return values

/-- Fetch every feed and submit the values from all local `accounts`: the signers and the
    lists of the `feed_data` transactions. -/
def fetchApiAndFeedData (accounts : List AccountId)
    (host : CreatorId AccountId × OracleKey cfg.strLimit → Host) (s : State cfg) :
    Exec String (List (AccountId × List (OracleKey cfg.strLimit × Int))) := do
  ensure (accounts.length > 0)
    "No local accounts available. Consider adding one via `author_insertKey` RPC."
  -- One failure ends the loop, and with it the whole submission.
  let values ← (s.apiFeeds.iter cfg.storageHash).foldlM (collectFeed host) []
  if values.length > 0 then
    return accounts.map fun account => (account, values)
  else
    return []

end Paraxiom.ParaOracle
