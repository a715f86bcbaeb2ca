import Relay.Api.Auth
import Relay.Lib.Unwinding
import Relay.Properties.TenantNoninterference

/-!
# A key opens its own tenant, and nothing else is seen through it

Tenants are made with the admin token only, and a key opens the tenant that it was
issued for. So nothing that anyone sends without a tenant's key has any part in what
the tenant is answered, whatever the order in which requests are served.
-/

namespace Relay.Api

open Signing Unwinding

variable {adminToken : String} {orders : Orders} {streamShards : Nat} {g g' : Gateway}
  {http : Http} {trace trace' : List (Http × Answer)} {t : Uuid} {hash token : String}

/-! Headers -/

theorem bearerToken_ok {authorization : Option String} :
    bearerToken authorization = .ok token ↔ authorization = some (scheme ++ token) := by
  cases authorization with
  | none => exact ⟨nofun, nofun⟩
  | some text =>
    unfold bearerToken
    by_cases begins : scheme.toList <+: text.toList
    · obtain ⟨rest, whole⟩ := begins
      simp only [← whole, List.prefix_append, if_true, List.drop_left]
      constructor
      · intro same
        cases same
        refine congrArg some (String.toList_inj.mp ?_)
        rw [← whole, String.toList_append, String.toList_ofList]
      · intro same
        cases same
        rw [String.toList_append] at whole
        exact congrArg Except.ok (String.toList_inj.mp (by
          rw [String.toList_ofList, List.append_cancel_left whole]))
    · simp only [if_neg begins]
      refine ⟨nofun, fun same => absurd ?_ begins⟩
      cases same
      rw [String.toList_append]
      exact List.prefix_append _ _

/-- The admin token is compared in full. -/
theorem requireAdmin_ok {authorization : Option String}
    (admitted : requireAdmin adminToken authorization = .ok ()) :
    authorization = some (scheme ++ adminToken) := by
  unfold requireAdmin at admitted
  split at admitted
  · cases admitted
  · rename_i token bears
    split at admitted
    · rename_i same
      unfold compareDigest at same
      split at same
      · cases of_decide_eq_true (Except.ok.inj same)
        exact bearerToken_ok.mp bears
      · cases same
    · cases admitted
    · cases admitted

/-! Accounts -/

structure Keyed (accounts : List Account) : Prop where
  tenants : (accounts.map Account.tenantId).Nodup
  hashes : (accounts.map Account.apiKeyHash).Nodup

theorem nodup_insert {K : Type} {f : Account → K} {accounts : List Account} {a : Account}
    (nodup : (accounts.map f).Nodup) (new : f a ∉ accounts.map f) :
    ((accounts ++ [a]).map f).Nodup := by
  rw [List.map_append, List.map_singleton, ← List.concat_eq_append]
  exact nodup.concat new

theorem Keyed.insert {accounts : List Account} {a : Account} (keyed : Keyed accounts)
    (insertable : Insertable accounts a) : Keyed (accounts ++ [a]) where
  tenants := nodup_insert keyed.tenants insertable.1
  hashes := nodup_insert keyed.hashes insertable.2.1

/-- At most one account has the hash. -/
theorem Keyed.filter {accounts : List Account} {a : Account} (keyed : Keyed accounts)
    (listed : a ∈ accounts) : accounts.filter (fun b => b.apiKeyHash = a.apiKeyHash) = [a] := by
  have one : ∀ b ∈ accounts, b.apiKeyHash = a.apiKeyHash → b = a := fun b there same =>
    List.inj_on_of_nodup_map keyed.hashes there listed same
  have nodup : (accounts.filter (fun b => b.apiKeyHash = a.apiKeyHash)).Nodup :=
    (List.Nodup.of_map _ keyed.hashes).filter _
  refine List.perm_singleton.mp ((List.perm_ext_iff_of_nodup nodup (List.nodup_singleton a)).mpr ?_)
  intro b
  rw [List.mem_filter, List.mem_singleton]
  constructor
  · rintro ⟨there, same⟩
    exact one b there (of_decide_eq_true same)
  · rintro rfl
    exact ⟨listed, decide_eq_true rfl⟩

/-- Who is let in as whom, and how everyone else is refused. -/
theorem Keyed.requireTenant {accounts : List Account} (keyed : Keyed accounts)
    (authorization : Option String) :
    (∃ token a, authorization = some (scheme ++ token) ∧ a ∈ accounts ∧
        a.apiKeyHash = hashApiKey token ∧ Api.requireTenant accounts authorization = .ok a) ∨
      ((∀ token, authorization = some (scheme ++ token) →
          hashApiKey token ∉ accounts.map Account.apiKeyHash) ∧
        ∃ message, Api.requireTenant accounts authorization =
          .error (.error (unauthorized message))) := by
  cases bears : bearerToken authorization with
  | error e =>
    refine Or.inr ⟨fun token same => ?_, ?_⟩
    · exact nomatch bears.symm.trans (bearerToken_ok.mpr same)
    · have known : ∃ message, e = unauthorized message := by
        unfold bearerToken at bears
        split at bears
        · cases bears
          exact ⟨_, rfl⟩
        · split at bears <;> cases bears
          exact ⟨_, rfl⟩
      obtain ⟨message, rfl⟩ := known
      exact ⟨message, by simp only [Api.requireTenant, bears]⟩
  | ok token =>
    have header := bearerToken_ok.mp bears
    by_cases known : ∃ a ∈ accounts, a.apiKeyHash = hashApiKey token
    · obtain ⟨a, listed, same⟩ := known
      refine Or.inl ⟨token, a, header, listed, same, ?_⟩
      have one := keyed.filter listed
      rw [same] at one
      simp only [Api.requireTenant, bears, one]
    · have none : accounts.filter (fun a => a.apiKeyHash = hashApiKey token) = [] :=
        List.filter_eq_nil_iff.mpr
          (fun a listed same => known ⟨a, listed, of_decide_eq_true same⟩)
      refine Or.inr ⟨fun token' same listed => ?_, "invalid API key", ?_⟩
      · obtain rfl : token = token' := by
            exact Except.ok.inj ((bearerToken_ok.mpr header).symm.trans (bearerToken_ok.mpr same))
        obtain ⟨a, there, hash⟩ := List.mem_map.mp listed
        exact known ⟨a, there, hash⟩
      · simp only [Api.requireTenant, bears, none]

/-! One request -/

/-- What a request does, by the branch that serves it. -/
inductive Serves (adminToken : String) (orders : Orders) (streamShards : Nat) (g : Gateway)
    (http : Http) : Gateway × Answer → Prop
  | refused {answer : Answer} (uncreated : ∀ id name key, answer ≠ .created id name key) :
      Serves adminToken orders streamShards g http (g, answer)
  | created {body : TenantCreate} {g' : Gateway} (call : http.call = .createTenant body)
      (admin : http.authorization = some (scheme ++ adminToken))
      (insertable : Insertable g.accounts
        ⟨http.tenantId, body.name, hashApiKey (generateApiKey http.token)⟩)
      (accounts : g'.accounts = g.accounts ++
        [⟨http.tenantId, body.name, hashApiKey (generateApiKey http.token)⟩])
      (store : ∃ tenant : Tenant, g'.store = { g.store with
        db := { g.store.db with tenants := g.store.db.tenants ++ [tenant] } }) :
      Serves adminToken orders streamShards g http
        (g', .created http.tenantId body.name (generateApiKey http.token))
  | served {request : ApiRequest} {a : Account} (call : http.call = .api request)
      (found : requireTenant g.accounts http.authorization = .ok a) :
      Serves adminToken orders streamShards g http
        ({ g with store := (serve orders http.draws a.tenantId g.store streamShards request).1 },
          .api (serve orders http.draws a.tenantId g.store streamShards request).2)

theorem requireTenant_uncreated {accounts : List Account} {authorization : Option String}
    {answer : Answer} (refused : requireTenant accounts authorization = .error answer)
    (id : Uuid) (name key : String) : answer ≠ .created id name key := by
  rintro rfl
  unfold requireTenant at refused
  repeat' split at refused
  all_goals cases refused

theorem requireAdmin_uncreated {authorization : Option String} {answer : Answer}
    (refused : requireAdmin adminToken authorization = .error answer) (id : Uuid)
    (name key : String) : answer ≠ .created id name key := by
  rintro rfl
  unfold requireAdmin at refused
  repeat' split at refused
  all_goals cases refused

variable (adminToken orders streamShards) in
theorem handle_serves (g : Gateway) (http : Http) :
    Serves adminToken orders streamShards g http
      (handle adminToken orders streamShards g http) := by
  unfold handle
  cases call : http.call with
  | createTenant body =>
    dsimp only
    split
    · rename_i answer refused
      exact .refused (requireAdmin_uncreated refused)
    · rename_i admitted
      unfold createTenant
      split
      · dsimp only
        split
        · rename_i insertable
          exact .created call (requireAdmin_ok admitted) insertable rfl ⟨_, rfl⟩
        · exact .refused nofun
      · exact .refused nofun
  | api request =>
    dsimp only
    split
    · rename_i answer refused
      exact .refused (requireTenant_uncreated refused)
    · rename_i a found
      exact .served call found

variable (adminToken orders streamShards) in
theorem Keyed.handle (keyed : Keyed g.accounts) (http : Http) :
    Keyed (Api.handle adminToken orders streamShards g http).1.accounts := by
  have serves := handle_serves adminToken orders streamShards g http
  generalize Api.handle adminToken orders streamShards g http = after at serves ⊢
  cases serves with
  | refused | served => exact keyed
  | created _ _ insertable accounts => exact accounts ▸ keyed.insert insertable

/-! Who is let in -/

/-- The keys that were given out, and the accounts that they are for. -/
def issued (trace : List (Http × Answer)) : List (String × Account) :=
  trace.filterMap (fun e =>
    match e.2 with
    | .created id name key => some (key, ⟨id, name, hashApiKey key⟩)
    | _ => none)

theorem accounts_issued {guard : Gateway → Http → Prop}
    (run : Trace (handle adminToken orders streamShards) guard g trace g') :
    g'.accounts = g.accounts ++ (issued trace).map Prod.snd := by
  induction run with
  | nil => exact (List.append_nil _).symm
  | @cons g g' http more admitted rest ih =>
    have serves := handle_serves adminToken orders streamShards g http
    rw [ih]
    generalize handle adminToken orders streamShards g http = after at serves ⊢
    cases serves with
    | @refused answer uncreated =>
      have none : issued ((http, answer) :: more) = issued more := by
        refine List.filterMap_cons_none ?_
        cases answer with
        | created id name key => exact absurd rfl (uncreated id name key)
        | _ => rfl
      rw [none]
    | created _ _ _ accounts =>
      rw [accounts, List.append_assoc]
      rfl
    | served => rfl

theorem created_by_admin {guard : Gateway → Http → Prop}
    (run : Trace (handle adminToken orders streamShards) guard g trace g') {e : Http × Answer}
    (listed : e ∈ trace) {id : Uuid} {name key : String} (made : e.2 = .created id name key) :
    e.1.authorization = some (scheme ++ adminToken) := by
  induction run with
  | nil => exact absurd listed List.not_mem_nil
  | @cons g g' http more admitted rest ih =>
    rcases List.mem_cons.mp listed with rfl | later
    · have serves := handle_serves adminToken orders streamShards g http
      dsimp only at made
      generalize handle adminToken orders streamShards g http = after at serves made
      cases serves with
      | refused uncreated => exact absurd made (uncreated id name key)
      | created _ admin => exact admin
      | served => cases made
    · exact ih later

/-- A tenant is made with the admin token only, and a header opens the account for which a
key was given out that has the same hash as its token. All others are refused with 401. -/
theorem keys_open_own {guard : Gateway → Http → Prop} {s : Store}
    (run : Trace (handle adminToken orders streamShards) guard ⟨s, []⟩ trace g)
    (authorization : Option String) :
    (∀ e ∈ trace, ∀ id name key, e.2 = .created id name key →
      e.1.authorization = some (scheme ++ adminToken)) ∧
    (∀ a, requireTenant g.accounts authorization = .ok a ↔ ∃ token key,
      authorization = some (scheme ++ token) ∧ (key, a) ∈ issued trace ∧
        hashApiKey token = hashApiKey key) ∧
    ∀ answer, requireTenant g.accounts authorization = .error answer →
      ∃ message, answer = .error (unauthorized message) := by
  have none : Keyed [] := ⟨List.nodup_nil, List.nodup_nil⟩
  have keyed : Keyed g.accounts := run.invariant (I := fun g => Keyed g.accounts) none
    (fun keyed _ => keyed.handle adminToken orders streamShards _)
  have accounts : g.accounts = (issued trace).map Prod.snd := accounts_issued run
  have hashed : ∀ e ∈ issued trace, e.2.apiKeyHash = hashApiKey e.1 := by
    rintro ⟨key, a⟩ listed
    obtain ⟨e, _, given⟩ := List.mem_filterMap.mp listed
    split at given <;> cases given
    rfl
  refine ⟨fun e listed id name key made => created_by_admin run listed made,
    fun a => ⟨fun opened => ?_, ?_⟩, fun answer refused => ?_⟩
  · rcases keyed.requireTenant authorization with
      ⟨token, b, header, listed, same, found⟩ | ⟨_, m, refused⟩
    · cases Except.ok.inj (found.symm.trans opened)
      rw [accounts] at listed
      obtain ⟨⟨key, _⟩, given, rfl⟩ := List.mem_map.mp listed
      exact ⟨token, key, header, given, same.symm.trans (hashed _ given)⟩
    · exact nomatch refused.symm.trans opened
  · rintro ⟨token, key, rfl, given, same⟩
    have listed : a ∈ g.accounts := accounts ▸ List.mem_map_of_mem given
    have hash : a.apiKeyHash = hashApiKey token := (hashed _ given).trans same.symm
    rcases keyed.requireTenant (some (scheme ++ token)) with
      ⟨token', b, header, there, same', found⟩ | ⟨unknown, _⟩
    · have one : token = token' := by
        have both := (bearerToken_ok.mpr rfl).symm.trans (bearerToken_ok.mpr header)
        exact Except.ok.inj both
      subst one
      have equal : b = a :=
        List.inj_on_of_nodup_map keyed.hashes there listed (same'.trans hash.symm)
      exact equal ▸ found
    · exact absurd (hash ▸ List.mem_map_of_mem listed) (unknown token rfl)
  · rcases keyed.requireTenant authorization with ⟨_, _, _, _, _, found⟩ | ⟨_, m, same⟩
    · exact nomatch found.symm.trans refused
    · exact ⟨m, (Except.error.inj (same.symm.trans refused)).symm⟩

/-! What is seen with a key -/

/-- The request is for the API, with a token of this hash. -/
def bears (hash : String) (http : Http) : Bool :=
  match http.call, bearerToken http.authorization with
  | .api _, .ok token => hashApiKey token = hash
  | _, _ => false

/-- Tables are tidy, keys unique, and one account of the tenant has this hash. -/
structure Open (t : Uuid) (hash : String) (g : Gateway) : Prop where
  tidy : Tidy g.store.db
  keyed : Keyed g.accounts
  account : ∃ a ∈ g.accounts, a.tenantId = t ∧ a.apiKeyHash = hash

/-- What a request draws is new. -/
def DrawsNew (g : Gateway) (http : Http) : Prop := http.draws.Fresh g.store

theorem Open.handle (opened : Open t hash g) (fresh : DrawsNew g http) :
    Open t hash (Api.handle adminToken orders streamShards g http).1 := by
  obtain ⟨tidy, keyed, a, listed, own⟩ := opened
  have keyed' := keyed.handle adminToken orders streamShards http
  have serves := handle_serves adminToken orders streamShards g http
  generalize Api.handle adminToken orders streamShards g http = after at serves keyed' ⊢
  cases serves with
  | refused => exact ⟨tidy, keyed, a, listed, own⟩
  | created _ _ _ accounts store =>
    obtain ⟨tenant, store⟩ := store
    refine ⟨?_, keyed', a, accounts ▸ List.mem_append_left _ listed, own⟩
    rw [store]
    exact { tidy with }
  | served => exact ⟨tidy_serve orders tidy fresh _, keyed, a, listed, own⟩

theorem bears_token (owned : bears hash http = true) :
    ∃ request token, http.call = .api request ∧
    http.authorization = some (scheme ++ token) ∧ hashApiKey token = hash := by
  unfold bears at owned
  split at owned
  · rename_i request token call header
    exact ⟨request, token, call, bearerToken_ok.mp header, of_decide_eq_true owned⟩
  · cases owned

/-- The key opens the tenant. -/
theorem Open.requireTenant {authorization : Option String} (opened : Open t hash g)
    (header : authorization = some (scheme ++ token)) (same : hashApiKey token = hash) :
    ∃ a, Api.requireTenant g.accounts authorization = .ok a ∧ a.tenantId = t := by
  obtain ⟨_, keyed, a, listed, own, rfl⟩ := opened
  have one := keyed.filter listed
  refine ⟨a, ?_, own⟩
  rw [← same] at one
  simp only [Api.requireTenant, bearerToken_ok.mpr header, one]

theorem unwinds_bearing : Unwinds (handle adminToken orders streamShards) DrawsNew (bears hash)
    (Open t hash) (fun g g' => partOf t g.store = partOf t g'.store) where
  symm := Eq.symm
  kept := fun opened fresh => opened.handle fresh
  others := fun {g g' http} opened fresh other same => by
    have serves := handle_serves adminToken orders streamShards g http
    generalize handle adminToken orders streamShards g http = after at serves ⊢
    cases serves with
    | refused => exact same
    | created _ _ _ _ store =>
      obtain ⟨tenant, store⟩ := store
      rw [store]
      exact same
    | @served request a call found =>
      refine (part_serve_other orders opened.tidy fresh.unused (fun mine => ?_) request).trans same
      obtain ⟨_, keyed, b, listed, own, hashes⟩ := opened
      rcases keyed.requireTenant http.authorization with
        ⟨token, a', header, there, same', found'⟩ | ⟨_, _, refused⟩
      · cases Except.ok.inj (found'.symm.trans found)
        -- two accounts of one tenant are one
        have one : a = b := List.inj_on_of_nodup_map keyed.tenants there listed (mine ▸ own.symm)
        have owned : bears hash http = true := by
          unfold bears
          simp only [call, bearerToken_ok.mpr header, ← same', one, hashes, decide_true]
        exact nomatch other.symm.trans owned
      · exact nomatch refused.symm.trans found
  owned := fun {g g' http} opened opened' fresh fresh' owned same => by
    obtain ⟨request, token, call, header, hashes⟩ := bears_token owned
    obtain ⟨a, found, rfl⟩ := opened.requireTenant header hashes
    obtain ⟨a', found', one⟩ := opened'.requireTenant header hashes
    have alike : Alike a.tenantId (serve orders http.draws a.tenantId g.store streamShards request)
        (serve orders http.draws a.tenantId g'.store streamShards request) :=
      serve_alike orders opened.tidy opened'.tidy fresh.unused fresh'.unused same request
    simp only [Api.handle, call, found, found', one]
    exact ⟨congrArg Answer.api alike.response, alike.part⟩

/-- Two runs, from states that show a tenant the same, in which the same requests bear its
key: it is given the same answers and ends with the same part, whatever anyone else sends. -/
theorem strangers_unseen {start start' : Gateway} (opened : Open t hash start)
    (opened' : Open t hash start') (same : partOf t start.store = partOf t start'.store)
    (run : Trace (handle adminToken orders streamShards) DrawsNew start trace g)
    (run' : Trace (handle adminToken orders streamShards) DrawsNew start' trace' g')
    (requests : (mine (bears hash) trace).map Prod.fst = (mine (bears hash) trace').map Prod.fst) :
    mine (bears hash) trace = mine (bears hash) trace' ∧
      partOf t g.store = partOf t g'.store :=
  unwinds_bearing.noninterference run run' opened opened' same requests

/-! A key that was just given out -/

def firstTenant : Http := {
  authorization := some (scheme ++ "admin")
  call := .createTenant ⟨"shop", some 5, none⟩
  draws := drawing
  token := "k"
  tenantId := 7 }

theorem keys_open_own_first : ∃ g trace,
    Trace (handle "admin" unordered 8) (fun _ _ => True) ⟨storing {}, []⟩ trace g ∧
      requireTenant g.accounts (some (scheme ++ "rk_k")) = .ok
        ⟨7, "shop", hashApiKey "rk_k"⟩ := by
  have answered : (handle "admin" unordered 8 ⟨storing {}, []⟩ firstTenant).2 =
      .created 7 "shop" "rk_k" := rfl
  have run : Trace (handle "admin" unordered 8) (fun _ _ => True) ⟨storing {}, []⟩
      [(firstTenant, (handle "admin" unordered 8 ⟨storing {}, []⟩ firstTenant).2)]
      (handle "admin" unordered 8 ⟨storing {}, []⟩ firstTenant).1 := .cons trivial .nil
  refine ⟨_, _, run, ((keys_open_own run _).2.1 _).mpr ⟨"rk_k", "rk_k", rfl, ?_, rfl⟩⟩
  rw [answered]
  exact List.mem_singleton_self _

/-! A tenant that deletes its endpoint before another one lists its own -/

def several : Draws := ⟨fun n => if n < 9 then BitVec.ofNat 128 (40 + n) else 49, "secret", 0⟩

def bothOpen : Gateway :=
  ⟨storing bothRows, [⟨1, "one", hashApiKey "rk_1"⟩, ⟨2, "two", hashApiKey "rk_2"⟩]⟩

def ownOpen : Gateway := ⟨storing ownRows, [⟨1, "one", hashApiKey "rk_1"⟩]⟩

def listsOwn : Http := ⟨some (scheme ++ "rk_1"), .api .listEndpoints, several, "", 0⟩

def deletesOther : Http := ⟨some (scheme ++ "rk_2"), .api (.deleteEndpoint 11), several, "", 0⟩

/-- No row has an identifier that is drawn. -/
def Absent (db : Db) : Prop :=
  ∀ n, n < 10 → BitVec.ofNat 128 (40 + n) ∉ db.endpoints.map Endpoint.id ∧
    BitVec.ofNat 128 (40 + n) ∉ db.events.map Event.id ∧
      BitVec.ofNat 128 (40 + n) ∉ db.deliveries.map Delivery.id

instance (db : Db) : Decidable (Absent db) := Nat.decidableBallLT 10 _

theorem several_fresh {db : Db} (few : db.endpoints.length ≤ 8) (absent : Absent db) :
    several.Fresh (storing db) where
  unused := fun n => by
    have drawn : ∃ m, m < 10 ∧ several.fresh n = BitVec.ofNat 128 (40 + m) := by
      by_cases small : n < 9
      · exact ⟨n, by omega, if_pos small⟩
      · exact ⟨9, by omega, if_neg small⟩
    obtain ⟨m, low, drawn⟩ := drawn
    obtain ⟨endpoint, event, delivery⟩ := absent m low
    rw [drawn]
    exact ⟨endpoint, event, delivery, rfl, rfl, fun _ _ h => absurd h List.not_mem_nil,
      fun _ h => absurd h List.not_mem_nil⟩
  distinct := fun i small j small' same => by
    have low : i < 9 := Nat.lt_succ_of_le (Nat.le_trans small few)
    have low' : j < 9 := Nat.lt_succ_of_le (Nat.le_trans small' few)
    have first : several.fresh i = BitVec.ofNat 128 (40 + i) := if_pos low
    have second : several.fresh j = BitVec.ofNat 128 (40 + j) := if_pos low'
    rw [first, second] at same
    have values := congrArg BitVec.toNat same
    simp only [BitVec.toNat_ofNat] at values
    omega

theorem strangers_unseen_deleted : ∃ trace trace' : List (Http × Answer),
    trace.map Prod.fst = [deletesOther, listsOwn] ∧ trace'.map Prod.fst = [listsOwn] ∧
      mine (bears (hashApiKey "rk_1")) trace = mine (bears (hashApiKey "rk_1")) trace' := by
  have tidy₁ : Tidy (storing bothRows).db := by constructor <;> decide
  have tidy₂ : Tidy (storing ownRows).db := by constructor <;> decide
  have agree : partOf 1 bothOpen.store = partOf 1 ownOpen.store :=
    Part.ext (by decide) (by decide) (by decide) rfl rfl rfl rfl
      (funext fun _ => (ite_self _).trans (ite_self _).symm) rfl
      (funext fun _ => (ite_self _).trans (ite_self _).symm)
  have keyed : Keyed bothOpen.accounts := ⟨by decide, by decide +kernel⟩
  have opened : Open 1 (hashApiKey "rk_1") bothOpen :=
    ⟨tidy₁, keyed, _, List.mem_cons_self, rfl, rfl⟩
  have opened' : Open 1 (hashApiKey "rk_1") ownOpen :=
    ⟨tidy₂, ⟨by decide, by decide⟩, _, List.mem_cons_self, rfl, rfl⟩
  have other : Open 2 (hashApiKey "rk_2") bothOpen :=
    ⟨tidy₁, keyed, _, List.mem_cons_of_mem _ List.mem_cons_self, rfl, rfl⟩
  have emptied : (handle "admin" unordered 8 bothOpen deletesOther).1.store =
      storing (deleted bothRows 11) := by
    have header : some (scheme ++ "rk_2") = some (scheme ++ "rk_2") := rfl
    obtain ⟨a, found, own⟩ := other.requireTenant header rfl
    simp only [handle, deletesOther, found, own]
    rfl
  have absent : Absent bothRows := by decide +kernel
  have absent' : Absent ownRows := by decide +kernel
  have absent'' : Absent (deleted bothRows 11) := by decide +kernel
  have fresh : DrawsNew bothOpen deletesOther := several_fresh (by decide) absent
  have fresh' : DrawsNew ownOpen listsOwn := several_fresh (by decide) absent'
  have later : DrawsNew (handle "admin" unordered 8 bothOpen deletesOther).1 listsOwn := by
    unfold DrawsNew
    rw [emptied]
    exact several_fresh (by decide) absent''
  have run : Trace (handle "admin" unordered 8) DrawsNew bothOpen
      [(deletesOther, _), (listsOwn, _)] _ := .cons fresh (.cons later .nil)
  have run' : Trace (handle "admin" unordered 8) DrawsNew ownOpen [(listsOwn, _)] _ :=
    .cons fresh' .nil
  have stranger : bears (hashApiKey "rk_1") deletesOther = false := by decide +kernel
  have bearer : bears (hashApiKey "rk_1") listsOwn = true := by decide +kernel
  have requests : ∀ x y z : Answer,
      (mine (bears (hashApiKey "rk_1")) [(deletesOther, x), (listsOwn, y)]).map Prod.fst =
        (mine (bears (hashApiKey "rk_1")) [(listsOwn, z)]).map Prod.fst := fun x y z => by
    rw [mine_cons_other stranger, mine_cons_own bearer, mine_cons_own bearer]
    rfl
  have seen := (strangers_unseen opened opened' agree run run' (requests _ _ _)).1
  refine ⟨_, _, ?_, ?_, seen⟩
  · rw [List.map_cons, List.map_cons, List.map_nil]
  · rw [List.map_cons, List.map_nil]

end Relay.Api
