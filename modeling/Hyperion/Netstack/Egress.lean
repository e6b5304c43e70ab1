import Hyperion.Lib.HashMap
import Hyperion.Netstack.Canonical

/-!
# Egress

The calls of the semantic networking layer that fetch: `web_research` up to the page it resolves, with its redirect
loop, and `web_fetch_raw`.
-/

namespace Hyperion.Netstack
open Lib List

abbrev TokenId := Nat

structure DomainEgressGrant where
  domainPatterns : List (List Char)
  rateLimitPerWindow : Nat
  windowSecs : Nat
  maxDepth : Nat
  expiry : Option Nat
deriving DecidableEq, Repr

structure GrantState where
  grant : DomainEgressGrant
  callsThisWindow : Nat
  windowStartedAt : Nat
deriving DecidableEq, Repr

inductive NetstackError
  | unauthorized
  | noGrant
  | grantExpired
  | depthExceeded (depth maxDepth : Nat)
  | domainNotPermitted (domain : List Char)
  | rateLimited
  | circuitOpen (domain : List Char)
  | ssrfBlocked (domain : List Char)
  | fetch (error : List Char)
deriving DecidableEq, Repr

structure CircuitState where
  consecutiveFailures : Nat
  openedAt : Option Nat
deriving DecidableEq, Repr

structure ResolutionCacheEntry where
  objectId : Nat
  ttlExpiry : Nat
deriving DecidableEq, Repr

structure AuditEntry where
  timestamp : Nat
  agentId : Nat
  kind : String
  detail : List Char
deriving DecidableEq, Repr

structure Hub where
  grants : HashMap TokenId GrantState
  cache : HashMap Url ResolutionCacheEntry
  circuitBreakers : HashMap (List Char) CircuitState
  auditLog : List AuditEntry

def circuitThreshold : Nat := 3

def circuitCooldownSecs : Nat := 30

def maxRedirects : Nat := 8

def domainMatches (pattern domain : List Char) : Bool :=
  if pattern = ['*'] then true
  else
    match stripStart ['*', '.'] pattern with
    | some suffix => domain == suffix || ('.' :: suffix).isSuffixOf domain
    | none => domain == pattern

namespace Hub

def audit (hub : Hub) (agentId now : Nat) (kind : String) (detail : List Char) : Hub :=
  { hub with auditLog := hub.auditLog ++ [⟨now, agentId, kind, detail⟩] }

def authorizeAndCharge (hub : Hub) (token : TokenId) (domain : List Char) (depth now : Nat) :
    Except NetstackError Unit × Hub :=
  match hub.grants[token]? with
  | none => (.error .noGrant, hub)
  | some state =>
    if state.grant.expiry.any (now > ·) then (.error .grantExpired, hub)
    else if depth > state.grant.maxDepth then (.error (.depthExceeded depth state.grant.maxDepth), hub)
    else if !state.grant.domainPatterns.any (domainMatches · domain) then
      (.error (.domainNotPermitted domain), hub)
    else
      let state :=
        if now - state.windowStartedAt ≥ state.grant.windowSecs then
          { state with windowStartedAt := now, callsThisWindow := 0 }
        else state
      -- a window that was started again stays so, also when the call is refused
      if state.callsThisWindow ≥ state.grant.rateLimitPerWindow then
        (.error .rateLimited, { hub with grants := hub.grants.insert token state })
      else
        let charged := { state with callsThisWindow := state.callsThisWindow + 1 }
        (.ok (), { hub with grants := hub.grants.insert token charged })

/-- Whether the breaker of the domain is open, and the breakers after the look. -/
def circuitOpen (hub : Hub) (domain : List Char) (now : Nat) : Bool × Hub :=
  match hub.circuitBreakers[domain]? with
  | none => (false, hub)
  | some state =>
    match state.openedAt with
    | none => (false, hub)
    | some openedAt =>
      if now - openedAt ≥ circuitCooldownSecs then
        (false, { hub with circuitBreakers := hub.circuitBreakers.insert domain ⟨0, none⟩ })
      else (true, hub)

def recordFailure (hub : Hub) (domain : List Char) (now : Nat) : Hub :=
  let state := hub.circuitBreakers[domain]?.getD ⟨0, none⟩
  let failures := state.consecutiveFailures + 1
  let openedAt := if failures ≥ circuitThreshold then some now else state.openedAt
  { hub with circuitBreakers := hub.circuitBreakers.insert domain ⟨failures, openedAt⟩ }

def recordSuccess (hub : Hub) (domain : List Char) : Hub :=
  match hub.circuitBreakers[domain]? with
  | none => hub
  | some _ => { hub with circuitBreakers := hub.circuitBreakers.insert domain ⟨0, none⟩ }

end Hub

/-! ## The calls -/

structure FetchedPage where
  finalUrl : Option Url
  text : List Char
deriving DecidableEq, Repr

inductive Answer
  | page (page : FetchedPage)
  | failed (error : List Char)
deriving DecidableEq, Repr

inductive FreshnessPolicy
  | useCache
  | forceRevalidate
deriving DecidableEq, Repr

structure WebResolutionRequest where
  origin : Url
  agentId : Nat
  freshness : FreshnessPolicy
  depth : Nat
deriving DecidableEq, Repr

/-- How a call goes on: it is refused, it answers from the cache, it degrades to a stale entry or a stub, it waits for
the backend, or it has the page that it goes on to scan and merge. -/
inductive Ending
  | refused (error : NetstackError)
  | cached (entry : ResolutionCacheEntry)
  | degraded (form : Url) (stale : Option ResolutionCacheEntry)
  | waiting
  | fetched (form : Url) (page : FetchedPage)
deriving DecidableEq, Repr

/-- What a call does: the URLs that it hands to the backend, in order, and how it goes on. -/
structure Effect where
  hub : Hub
  urls : List Url
  ending : Ending

/-- `degrade_to_stale_or_stub`, up to the node that is written for a stub. -/
def degradeToStaleOrStub (hub : Hub) (form : Url) (cacheHit : Option ResolutionCacheEntry) (agentId now : Nat)
    (urls : List Url) : Effect :=
  match cacheHit with
  | some entry => ⟨hub.audit agentId now "stale_fallback" form, urls, .degraded form (some entry)⟩
  | none => ⟨hub.audit agentId now "stub_fallback" form, urls, .degraded form none⟩

section
variable (lower : List Char → List Char)

/-- The redirect loop. The backend's answers are taken one by one; the call waits when there is none yet. -/
def follow (agentId now : Nat) (origin : CanonicalUrl) (cacheHit : Option ResolutionCacheEntry) :
    List Answer → Hub → List Url → CanonicalUrl → Effect
  | answers, hub, visited, current =>
    if current.canonicalForm ∈ visited ∨ current.redirectChain.length > maxRedirects then
      degradeToStaleOrStub (hub.recordFailure current.domain now) origin.canonicalForm cacheHit agentId now []
    else if isPrivateOrLocal current.domain then
      ⟨hub.audit agentId now "ssrf_blocked" current.domain, [], .refused (.ssrfBlocked current.domain)⟩
    else
      match answers with
      | [] => ⟨hub, [current.canonicalForm], .waiting⟩
      | .failed error :: _ =>
        degradeToStaleOrStub
          ((hub.recordFailure current.domain now).audit agentId now "fetch_failed"
            (current.canonicalForm ++ ": ".toList ++ error))
          origin.canonicalForm cacheHit agentId now [current.canonicalForm]
      | .page page :: answers =>
        match page.finalUrl with
        | none =>
          ⟨hub.recordSuccess current.domain, [current.canonicalForm], .fetched current.canonicalForm page⟩
        | some finalUrl =>
          let next := canonicalize lower finalUrl
          let effect := follow agentId now origin cacheHit answers hub (current.canonicalForm :: visited)
            { rawUrl := origin.rawUrl
              canonicalForm := next.canonicalForm
              redirectChain := current.redirectChain ++ [current.canonicalForm]
              domain := next.domain }
          { effect with urls := current.canonicalForm :: effect.urls }

/-- `web_research`, up to the page. `allowed` says whether the token carries EXEC. -/
def webResearch (hub : Hub) (token : TokenId) (allowed : Bool) (request : WebResolutionRequest) (now : Nat)
    (answers : List Answer) : Effect :=
  if !allowed then ⟨hub, [], .refused .unauthorized⟩
  else
    let canonical := canonicalize lower request.origin
    match hub.authorizeAndCharge token canonical.domain request.depth now with
    | (.error e, hub) => ⟨hub, [], .refused e⟩
    | (.ok (), hub) =>
      match hub.circuitOpen canonical.domain now with
      | (true, hub) =>
        ⟨hub.audit request.agentId now "circuit_open" canonical.domain, [], .refused (.circuitOpen canonical.domain)⟩
      | (false, hub) =>
        if isPrivateOrLocal canonical.domain then
          ⟨hub.audit request.agentId now "ssrf_blocked" canonical.domain, [],
            .refused (.ssrfBlocked canonical.domain)⟩
        else
          let cacheHit := hub.cache[canonical.canonicalForm]?
          match cacheHit.filter fun entry => request.freshness = .useCache ∧ now ≤ entry.ttlExpiry with
          | some entry =>
            ⟨hub.audit request.agentId now "cache_hit" canonical.canonicalForm, [], .cached entry⟩
          | none => follow lower request.agentId now canonical cacheHit answers hub [] canonical

def webFetchRaw (hub : Hub) (token : TokenId) (allowed : Bool) (url : Url) (agentId now : Nat)
    (answers : List Answer) : Effect :=
  if !allowed then ⟨hub, [], .refused .unauthorized⟩
  else
    let canonical := canonicalize lower url
    match hub.authorizeAndCharge token canonical.domain 0 now with
    | (.error e, hub) => ⟨hub, [], .refused e⟩
    | (.ok (), hub) =>
      if isPrivateOrLocal canonical.domain then
        ⟨hub.audit agentId now "ssrf_blocked" canonical.domain, [], .refused (.ssrfBlocked canonical.domain)⟩
      else
        match answers with
        | [] => ⟨hub, [canonical.canonicalForm], .waiting⟩
        | .failed error :: _ => ⟨hub, [canonical.canonicalForm], .refused (.fetch error)⟩
        | .page page :: _ =>
          ⟨hub.audit agentId now "fetch_raw" canonical.canonicalForm, [canonical.canonicalForm],
            .fetched canonical.canonicalForm page⟩

inductive Call
  | webResearch (request : WebResolutionRequest)
  | webFetchRaw (url : Url) (agentId : Nat)
deriving DecidableEq, Repr

def Call.origin : Call → Url
  | .webResearch request => request.origin
  | .webFetchRaw url _ => url

def call (hub : Hub) (token : TokenId) (allowed : Bool) (c : Call) (now : Nat) (answers : List Answer) : Effect :=
  match c with
  | .webResearch request => webResearch lower hub token allowed request now answers
  | .webFetchRaw url agentId => webFetchRaw lower hub token allowed url agentId now answers

end

/-! ## Containment -/

def DomainEgressGrant.Permits (grant : DomainEgressGrant) (domain : List Char) : Prop :=
  ∃ pattern ∈ grant.domainPatterns, domainMatches pattern domain = true

instance (grant : DomainEgressGrant) (domain : List Char) : Decidable (grant.Permits domain) :=
  inferInstanceAs (Decidable (∃ pattern ∈ grant.domainPatterns, _))

/-- The URL names a host that the grant permits and that is not local. -/
def DomainEgressGrant.Names (grant : DomainEgressGrant) (url : Url) : Prop :=
  ∃ host, rfcHost url = some host ∧ grant.Permits host ∧ isLocalHost host = false

/-- The caller has a grant that has not expired, and the URL names a host within it. -/
def Contained (hub : Hub) (token : TokenId) (now : Nat) (url : Url) : Prop :=
  ∃ state, hub.grants[token]? = some state ∧ (∀ expiry, state.grant.expiry = some expiry → now ≤ expiry) ∧
    state.grant.Names url

def redirects (answers : List Answer) : List Url :=
  answers.filterMap fun
    | .page page => page.finalUrl
    | .failed _ => none

/-- The URLs that a call goes to, as they stand in the call and in the answers. -/
def Effect.followed (effect : Effect) (origin : Url) (answers : List Answer) : List Url :=
  (origin :: redirects answers).take effect.urls.length

/-- A plain URL is that of the call, or what the code takes for its host is permitted. Another one names a
permitted host that is not local, whatever the code takes for its host. -/
structure StaysWithin (lower : List Char → List Char) (grant : DomainEgressGrant) (origin url : Url) : Prop where
  plain : PlainUrl url → url = origin ∨ grant.Permits (canonicalize lower url).domain
  other : ¬ PlainUrl url → grant.Names (canonicalize lower url).canonicalForm

section
variable {lower : List Char → List Char}

@[simp]
theorem urls_degradeToStaleOrStub (hub : Hub) (form : Url) (cacheHit : Option ResolutionCacheEntry)
    (agentId now : Nat) (urls : List Url) :
    (degradeToStaleOrStub hub form cacheHit agentId now urls).urls = urls := by
  cases cacheHit <;> rfl

variable {token : TokenId}

theorem authorizeAndCharge_ok {hub hub' : Hub} {domain : List Char} {depth now : Nat}
    (h : hub.authorizeAndCharge token domain depth now = (.ok (), hub')) :
    ∃ state, hub.grants[token]? = some state ∧ (∀ expiry, state.grant.expiry = some expiry → now ≤ expiry) ∧
      state.grant.Permits domain := by
  unfold Hub.authorizeAndCharge at h
  split at h
  · cases h
  · next state hstate =>
    split at h
    · cases h
    · next hexpiry =>
      split at h
      · cases h
      · split at h
        · cases h
        · next hpatterns =>
          refine ⟨state, hstate, fun expiry heq => ?_, ?_⟩
          · rw [heq] at hexpiry
            simpa using hexpiry
          · simpa [DomainEgressGrant.Permits] using hpatterns

/-! ## The hops of a call -/

/-- The URLs are handed over in their canonical form, past the check for private hosts. -/
structure Hops (lower : List Char → List Char) (raws urls : List Url) : Prop where
  urls : urls = raws.map fun raw => (canonicalize lower raw).canonicalForm
  checked : ∀ raw ∈ raws, isPrivateOrLocal (canonicalize lower raw).domain = false

namespace Hops

theorem nil : Hops lower [] [] := ⟨rfl, fun _ hraw => absurd hraw not_mem_nil⟩

theorem cons {raw : Url} {raws urls : List Url} (hchecked : isPrivateOrLocal (canonicalize lower raw).domain = false)
    (h : Hops lower raws urls) : Hops lower (raw :: raws) ((canonicalize lower raw).canonicalForm :: urls) where
  urls := by rw [map_cons, h.urls]
  checked := forall_mem_cons.mpr ⟨hchecked, h.checked⟩

theorem single {raw : Url} (raws : List Url) (hchecked : isPrivateOrLocal (canonicalize lower raw).domain = false) :
    Hops lower ((raw :: raws).take 1) [(canonicalize lower raw).canonicalForm] :=
  cons hchecked nil

end Hops

/-- The loop goes to the URL that it is at, and on from redirect to redirect. -/
theorem follow_hops {agentId now : Nat} {origin : CanonicalUrl} {cacheHit : Option ResolutionCacheEntry}
    (answers : List Answer) (hub : Hub) (visited : List Url) {current : CanonicalUrl} {raw : Url}
    (hform : current.canonicalForm = (canonicalize lower raw).canonicalForm)
    (hdomain : current.domain = (canonicalize lower raw).domain) :
    Hops lower ((follow lower agentId now origin cacheHit answers hub visited current).followed raw answers)
      (follow lower agentId now origin cacheHit answers hub visited current).urls := by
  unfold Effect.followed
  induction answers generalizing hub visited current raw with
  | nil =>
    unfold follow
    split
    · rw [urls_degradeToStaleOrStub]
      exact .nil
    · split
      · exact .nil
      · next hlocal =>
        rw [hdomain] at hlocal
        rw [hform]
        exact .single _ (Bool.eq_false_iff.mpr hlocal)
  | cons answer answers ih =>
    unfold follow
    split
    · rw [urls_degradeToStaleOrStub]
      exact .nil
    · split
      · exact .nil
      · next hlocal =>
        have hchecked : isPrivateOrLocal (canonicalize lower raw).domain = false := by
          rw [← hdomain]
          exact Bool.eq_false_iff.mpr hlocal
        cases answer with
        | failed error =>
          dsimp only
          rw [urls_degradeToStaleOrStub, hform]
          exact .single _ hchecked
        | page page =>
          cases hfinal : page.finalUrl with
          | none =>
            simp only [hfinal]
            rw [hform]
            exact .single _ hchecked
          | some finalUrl =>
            have hredirects : redirects (.page page :: answers) = finalUrl :: redirects answers := by
              rw [redirects, filterMap_cons]
              simp only [hfinal]
              rfl
            simp only [hfinal]
            rw [hredirects, length_cons, take_succ_cons, hform]
            exact .cons hchecked (ih hub _ rfl rfl)

/-- A call hands nothing to the backend, or it is past the authorization of its origin. -/
theorem call_hops (lower : List Char → List Char) (hub : Hub) (token : TokenId) (allowed : Bool) (c : Call)
    (now : Nat) (answers : List Answer) :
    (call lower hub token allowed c now answers).urls = [] ∨
    (∃ state, hub.grants[token]? = some state ∧
      (∀ expiry, state.grant.expiry = some expiry → now ≤ expiry) ∧
      state.grant.Permits (canonicalize lower c.origin).domain) ∧
    Hops lower ((call lower hub token allowed c now answers).followed c.origin answers)
      (call lower hub token allowed c now answers).urls := by
  cases c with
  | webResearch request =>
    simp only [call, webResearch]
    split
    · exact .inl rfl
    · split
      · exact .inl rfl
      · next hcharged =>
        split
        · exact .inl rfl
        · split
          · exact .inl rfl
          · split
            · exact .inl rfl
            · exact .inr ⟨authorizeAndCharge_ok hcharged, follow_hops answers _ [] rfl rfl⟩
  | webFetchRaw url agentId =>
    simp only [call, webFetchRaw]
    split
    · exact .inl rfl
    · split
      · exact .inl rfl
      · next hcharged =>
        split
        · exact .inl rfl
        · next hlocal =>
          have hchecked := Bool.eq_false_iff.mpr hlocal
          refine .inr ⟨authorizeAndCharge_ok hcharged, ?_⟩
          split
          · exact .single _ hchecked
          · exact .single _ hchecked
          · exact .single _ hchecked

/-- For a plain URL past the check for private hosts, the patterns are what is left. -/
theorem names_iff (hlower : IsLowercase lower) {grant : DomainEgressGrant} {url : Url} (hplain : PlainUrl url)
    (hchecked : isPrivateOrLocal (canonicalize lower url).domain = false) :
    grant.Names (canonicalize lower url).canonicalForm ↔ grant.Permits (canonicalize lower url).domain := by
  have hhost := canonicalize_rfcHost hlower hplain
  constructor
  · rintro ⟨host, hnamed, hpermits, -⟩
    cases hhost.symm.trans hnamed
    exact hpermits
  · intro hpermits
    exact ⟨_, hhost, hpermits, not_isLocalHost (notMem_parse_host hlower hplain (by decide)) hchecked⟩

/-- **Whatever the backend answers, each URL that is handed to it is contained if and only if each URL that the
call goes to stays within the grant.** -/
theorem egress_contained_iff (hlower : IsLowercase lower) (hub : Hub) (token : TokenId) (allowed : Bool) (c : Call)
    (now : Nat) (answers : List Answer) :
    (∀ url ∈ (call lower hub token allowed c now answers).urls, Contained hub token now url) ↔
    ∀ state, hub.grants[token]? = some state →
      ∀ url ∈ (call lower hub token allowed c now answers).followed c.origin answers,
        StaysWithin lower state.grant c.origin url := by
  rcases call_hops lower hub token allowed c now answers with hnone | ⟨⟨state, hstate, hexpiry, hpermits⟩, hhops⟩
  · simp [Effect.followed, hnone]
  · rw [hhops.urls, forall_mem_map]
    constructor
    · intro hcontained state' hstate' url hurl
      obtain ⟨_, hgrant, -, hnames⟩ := hcontained url hurl
      cases hstate'.symm.trans hgrant
      exact ⟨fun hplain => .inr ((names_iff hlower hplain (hhops.checked url hurl)).mp hnames), fun _ => hnames⟩
    · intro hwithin url hurl
      refine ⟨state, hstate, hexpiry, ?_⟩
      by_cases hplain : PlainUrl url
      · rw [names_iff hlower hplain (hhops.checked url hurl)]
        -- the patterns were looked at for the URL of the call, and only for it
        rcases (hwithin state hstate url hurl).plain hplain with rfl | hpermitted
        · exact hpermits
        · exact hpermitted
      · exact (hwithin state hstate url hurl).other hplain

end

/-! ## Samples -/

section Samples

def sampleHub (patterns : List String) : Hub where
  grants := (∅ : HashMap TokenId GrantState).insert 1 ⟨⟨patterns.map String.toList, 10, 60, 2, none⟩, 0, 0⟩
  cache := ∅
  circuitBreakers := ∅
  auditLog := []

def research (origin : String) : Call := .webResearch ⟨origin.toList, 7, .useCache, 0⟩

def redirect (finalUrl : String) : Answer := .page ⟨some finalUrl.toList, []⟩

end Samples

theorem sampleHub_grants (patterns : List String) : (sampleHub patterns).grants[(1 : TokenId)]? =
    some ⟨⟨patterns.map String.toList, 10, 60, 2, none⟩, 0, 0⟩ := by
  rw [sampleHub, HashMap.get_insert, if_pos rfl]

variable {host : List Char}

theorem plainUrl_of_hostPart {url : Url} (hscheme : isScheme (splitScheme url).1 = true)
    (hhost : hostPart url = host) (h : host.all fun c => !(['@', '?', '#', '['].contains c)) : PlainUrl url := by
  refine ⟨hscheme, fun c hc => ?_⟩
  rw [hhost] at hc
  simpa using all_eq_true.mp h c hc

theorem egress_contained_redirect :
    (call toAsciiLowercase (sampleHub ["*.good.example"]) 1 true (research "HTTP://Good.example/a") 5
        [redirect "https://www.good.example:444/b"]).urls =
      ["http://good.example/a".toList, "https://www.good.example:444/b".toList] ∧
    ∀ url ∈ (call toAsciiLowercase (sampleHub ["*.good.example"]) 1 true (research "HTTP://Good.example/a") 5
        [redirect "https://www.good.example:444/b"]).urls, Contained (sampleHub ["*.good.example"]) 1 5 url := by
  have hurls : (call toAsciiLowercase (sampleHub ["*.good.example"]) 1 true (research "HTTP://Good.example/a") 5
      [redirect "https://www.good.example:444/b"]).urls =
        ["http://good.example/a".toList, "https://www.good.example:444/b".toList] := by decide +kernel
  refine ⟨hurls, (egress_contained_iff isLowercase_toAsciiLowercase _ _ _ _ _ _).mpr fun state hstate url hurl => ?_⟩
  rw [Effect.followed, hurls] at hurl
  rw [sampleHub_grants] at hstate
  cases hstate
  rcases mem_pair.mp hurl with rfl | rfl
  · have hhost : hostPart "HTTP://Good.example/a".toList = "Good.example".toList := by decide +kernel
    exact ⟨fun _ => .inl rfl, absurd (plainUrl_of_hostPart (by decide +kernel) hhost (by decide +kernel))⟩
  · have hhost : hostPart "https://www.good.example:444/b".toList = "www.good.example".toList := by decide +kernel
    exact ⟨fun _ => .inr (by decide +kernel),
      absurd (plainUrl_of_hostPart (by decide +kernel) hhost (by decide +kernel))⟩

theorem not_contained {hub : Hub} {token : TokenId} {now : Nat} {url : Url} {state : GrantState}
    (hstate : hub.grants[token]? = some state) (hhost : rfcHost url = some host)
    (h : ¬ (state.grant.Permits host ∧ isLocalHost host = false)) : ¬ Contained hub token now url := by
  rintro ⟨state', hstate', -, host', hhost', hpermits, hlocal⟩
  rw [hstate] at hstate'
  rw [hhost] at hhost'
  cases hstate'
  cases hhost'
  exact h ⟨hpermits, hlocal⟩

/-- A redirect leads out of the grant, userinfo hides a loopback address, and a query hides a foreign host. -/
theorem egress_escapes :
    (∃ url ∈ (call toAsciiLowercase (sampleHub ["good.example"]) 1 true (research "http://good.example/") 5
        [redirect "http://evil.example/"]).urls, ¬ Contained (sampleHub ["good.example"]) 1 5 url) ∧
    (∃ url ∈ (call toAsciiLowercase (sampleHub ["*"]) 1 true (.webFetchRaw "http://user@127.0.0.1/".toList 7) 5
        []).urls, ¬ Contained (sampleHub ["*"]) 1 5 url) ∧
    ∃ url ∈ (call toAsciiLowercase (sampleHub ["*.good.example"]) 1 true
        (.webFetchRaw "http://evil.example?.good.example/".toList 7) 5 []).urls,
      ¬ Contained (sampleHub ["*.good.example"]) 1 5 url := by
  refine ⟨⟨"http://evil.example/".toList, by decide +kernel, ?_⟩,
    ⟨"http://user@127.0.0.1/".toList, by decide +kernel, ?_⟩,
    ⟨"http://evil.example?.good.example/".toList, by decide +kernel, ?_⟩⟩
  · have hhost : rfcHost "http://evil.example/".toList = some "evil.example".toList := by decide +kernel
    exact not_contained (sampleHub_grants _) hhost (by decide +kernel)
  · have hhost : rfcHost "http://user@127.0.0.1/".toList = some "127.0.0.1".toList := by decide +kernel
    exact not_contained (sampleHub_grants _) hhost (by decide +kernel)
  · have hhost : rfcHost "http://evil.example?.good.example/".toList = some "evil.example".toList := by
      decide +kernel
    exact not_contained (sampleHub_grants _) hhost (by decide +kernel)

end Hyperion.Netstack
