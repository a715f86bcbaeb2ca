import Relay.Api.Routes
import Relay.Delivery.Signing

/-!
# Keys, and the tenants that they open

`require_admin` and `require_tenant`, `POST /v1/tenants`, and a request to the API
with its header. The accounts are the columns of the tenants' rows that the store
leaves out.
-/

namespace Relay.Api

open Signing

structure TenantCreate where
  name : String
  ratePerSec : Option Int := none
  maxInflight : Option Int := none

/-- The constraints of the fields. -/
def TenantCreate.Valid (body : TenantCreate) : Prop :=
  (1 ≤ body.name.length ∧ body.name.length ≤ 200) ∧
    (∀ rate ∈ body.ratePerSec, 1 ≤ rate ∧ rate ≤ 10000) ∧
      ∀ most ∈ body.maxInflight, 1 ≤ most ∧ most ≤ 1000

instance (body : TenantCreate) : Decidable body.Valid := inferInstanceAs (Decidable (_ ∧ _ ∧ _))

structure Account where
  tenantId : Uuid
  name : String
  apiKeyHash : String
  deriving DecidableEq

structure Gateway where
  store : Store
  accounts : List Account

inductive HttpCall where
  | createTenant (body : TenantCreate)
  | api (request : ApiRequest)

/-- A request, and what serving it draws: `token` is that of `secrets.token_urlsafe`. -/
structure Http where
  authorization : Option String
  call : HttpCall
  draws : Draws
  token : String := ""
  tenantId : Uuid := 0

/-- `invalid` is the answer to a body that fails its constraints, `raised` to an exception
that no handler of the application catches. -/
inductive Answer where
  | error (e : ApiError)
  | invalid
  | raised
  | created (tenantId : Uuid) (name apiKey : String)
  | api (response : Response)

def unauthorized (message : String) : ApiError := ⟨401, "unauthorized", message⟩

def generateApiKey (token : String) : String := "rk_" ++ token

def hashApiKey (key : String) : String := hexdigest (Sha256.sha256 (encode key))

def scheme : String := "Bearer "

def bearerToken : Option String → Except ApiError String
  | none => .error (unauthorized "expected 'Authorization: Bearer <key>'")
  | some text =>
    if scheme.toList <+: text.toList then
      .ok (String.ofList (text.toList.drop scheme.toList.length))
    else .error (unauthorized "expected 'Authorization: Bearer <key>'")

def requireTenant (accounts : List Account) (authorization : Option String) :
    Except Answer Account :=
  match bearerToken authorization with
  | .error e => .error (.error e)
  | .ok token =>
    -- `scalar_one_or_none` raises on a second row
    match accounts.filter (fun a => a.apiKeyHash = hashApiKey token) with
    | [] => .error (.error (unauthorized "invalid API key"))
    | [a] => .ok a
    | _ => .error .raised

def requireAdmin (adminToken : String) (authorization : Option String) : Except Answer Unit :=
  match bearerToken authorization with
  | .error e => .error (.error e)
  | .ok token =>
    match compareDigest token adminToken with
    | .ok true => .ok ()
    | .ok false => .error (.error (unauthorized "invalid admin token"))
    | .error _ => .error .raised

/-- The keys of the row are unique, and its texts can be stored. -/
def Insertable (accounts : List Account) (a : Account) : Prop :=
  a.tenantId ∉ accounts.map Account.tenantId ∧
    a.apiKeyHash ∉ accounts.map Account.apiKeyHash ∧
    Char.ofNat 0 ∉ a.name.toList

instance (accounts : List Account) (a : Account) : Decidable (Insertable accounts a) :=
  inferInstanceAs (Decidable (_ ∧ _ ∧ _))

def createTenant (g : Gateway) (http : Http) (body : TenantCreate) : Gateway × Answer :=
  if body.Valid then
    let apiKey := generateApiKey http.token
    let a : Account := ⟨http.tenantId, body.name, hashApiKey apiKey⟩
    let tenant : Tenant := {
      id := http.tenantId
      ratePerSec := body.ratePerSec.map Int.toNat
      maxInflight := body.maxInflight.map Int.toNat }
    if Insertable g.accounts a then
      (⟨{ g.store with db := { g.store.db with tenants := g.store.db.tenants ++ [tenant] } },
        g.accounts ++ [a]⟩, .created http.tenantId body.name apiKey)
    else (g, .raised)
  else (g, .invalid)

/-- A dependency that fails ends the request before its body is looked at. -/
def handle (adminToken : String) (orders : Orders) (streamShards : Nat) (g : Gateway)
    (http : Http) : Gateway × Answer :=
  match http.call with
  | .createTenant body =>
    match requireAdmin adminToken http.authorization with
    | .error answer => (g, answer)
    | .ok _ => createTenant g http body
  | .api request =>
    match requireTenant g.accounts http.authorization with
    | .error answer => (g, answer)
    | .ok a =>
      let served := serve orders http.draws a.tenantId g.store streamShards request
      ({ g with store := served.1 }, .api served.2)

end Relay.Api
