import SynaMcp.Auth.CodeDelivery
import SynaMcp.Auth.TokenEndpoint
import SynaMcp.Lib.Baton

/-! Refresh rotation. The chain of a code is carried on by the code, by the request that
exchanges it, by the refresh token this leaves, and so on. Each of them answers for the
live access token of the chain, which is revoked before the next is made. -/
namespace SynaMcp
open Keyed List OAuthStore SingleUse Table Function TokenServer

namespace TokenServer

/-- Every string that the records name as a code or as an access token of a chain
is one of those drawn. -/
structure Recorded (drawn : List String) (σ : TokenServer) : Prop where
  codes : ∀ row ∈ σ.oauth.codes.rows, row.code ∈ drawn
  origins : ∀ i c, (σ.flights i).origin = some c → c ∈ drawn
  lineage : ∀ h c, σ.lineage h = some c → c ∈ drawn
  minted : ∀ c t, (some c, t) ∈ σ.minted → c ∈ drawn ∧ t ∈ drawn

section
variable {σ σ' : TokenServer} {drawn drawn' : List String} {i : Nat} {f : Flight}

theorem Recorded.mono (h : Recorded drawn σ) (sub : drawn ⊆ drawn') : Recorded drawn' σ where
  codes row mem := sub (h.codes row mem)
  origins i c origin := sub (h.origins i c origin)
  lineage x c descends := sub (h.lineage x c descends)
  minted c t mem := ⟨sub (h.minted c t mem).1, sub (h.minted c t mem).2⟩

theorem Recorded.setFlight (h : Recorded drawn σ) (origin : ∀ c, f.origin = some c → c ∈ drawn) :
    Recorded drawn (σ.setFlight i f) :=
  { h with
    origins := setFlight_flights_all (P := fun _ f => ∀ c, f.origin = some c → c ∈ drawn) origin
      fun j _ => h.origins j }

theorem Recorded.putCode (h : Recorded drawn σ) {codes code}
    (written : codes = σ.oauth.codes.put code) (known : code.code ∈ drawn) :
    ∀ row ∈ codes.rows, row.code ∈ drawn := by
  intro row mem
  rw [written] at mem
  rcases Table.mem_put.mp mem with rfl | ⟨old, _⟩
  · exact known
  · exact h.codes row old

variable [Digests] [GoLib] {cfg : OAuthConfig} {env : AuthEnv}

section
variable (h : Recorded drawn σ) (id : (env.uuid 0).val ∈ drawn)
include h id

theorem Recorded.move (move : Move cfg env σ i σ') : Recorded drawn σ' := by
  cases move with
  | still => exact h
  | failed | lookedUp phase | listed phase => exact h.setFlight (h.origins i)
  | @exchanged req _ _ _ _ used =>
    obtain ⟨codes, consumed, rfl⟩ := consumeAuthorizationCode_ok used
    have key := key_of_consume_ok consumed
    obtain ⟨row, found, _, _, _, written⟩ := consume_ok consumed
    have known : req.code ∈ drawn := key_of_get? found ▸ h.codes row (mem_of_get? found)
    refine Recorded.setFlight { h with codes := h.putCode written (key ▸ known) } fun c origin => ?_
    exact Option.some.inj origin ▸ known
  | rotated phase request used =>
    obtain ⟨_, _, rfl⟩ := consumeRefreshToken_ok used
    exact Recorded.setFlight { h with } (h.lineage _)
  | revoked phase | ensured phase => exact Recorded.setFlight { h with } (h.origins i)
  | @created _ _ _ _ _ _ made =>
    obtain ⟨rfl, _, _⟩ := Store.createToken_ok made
    refine Recorded.setFlight { h with minted := fun c t mem => ?_ } (h.origins i)
    rcases List.mem_cons.mp mem with new | old
    · obtain ⟨origin, rfl⟩ := Prod.mk.inj new
      exact ⟨h.origins i c origin.symm, id⟩
    · exact h.minted c t old
  | saved =>
    refine Recorded.setFlight { h with lineage := fun x c descends => ?_ } (h.origins i)
    by_cases same : x = hashOpaque env.random
    · subst same
      simp only [update_self] at descends
      exact h.origins i c descends
    · simp only [update_of_ne same] at descends
      exact h.lineage x c descends

theorem recorded_apply (random : env.random ∈ drawn)
    (event : TokenEvent) : Recorded drawn (apply cfg env σ event) := by
  cases event with
  | login req =>
    obtain ⟨_, _, same | ⟨_, drawn, put⟩⟩ := @serve_records _ _ cfg env σ req
    · exact { h with codes := same ▸ h.codes }
    · exact { h with codes := h.putCode put (drawn ▸ random) }
  | access => exact { h with }
  | arrive =>
    simp only [apply, arrive]
    split
    · exact h.setFlight (fun c origin => by cases origin)
    · exact h
  | advance => exact h.move id advance_move

end

end

inductive Holder where
  | code
  | flight (i : Nat)
  | refresh (hash : String)
  deriving DecidableEq

end TokenServer

def Phase.credential : Phase → Option (Option String)
  | .revoke existing => some (some existing.accessTokenID)
  | .lookup _ | .ensure _ | .readable _ _ | .create _ _ => some none
  | .save _ token _ => some (some token.id)
  | .idle | .consume | .failed _ _ _ | .answered _ => none

namespace TokenServer
variable (σ : TokenServer)

def Unconsumed (c hash : String) (row : RefreshToken) : Prop :=
  σ.lineage hash = some c ∧ σ.oauth.refresh.get? hash = some row ∧ row.revokedAt = none

def Unrevoked (c t : String) : Prop :=
  (some c, t) ∈ σ.minted ∧ ∃ row, σ.access.tokens.get? t = some row ∧ row.revokedAt = none

/-- Who carries the chain of the code `c` on, and for which access token. -/
def Holds (c : String) : Holder → Option String → Prop
  | .code, k => SingleUse.Unused authorizationCodes σ.oauth.codes c ∧ k = none
  | .flight i, k => (σ.flights i).origin = some c ∧ (σ.flights i).phase.credential = some k
  | .refresh hash, k => ∃ row, Unconsumed σ c hash row ∧ k = some row.accessTokenID

abbrev Linear : Prop := Baton.Linear (Holds σ) (Unrevoked σ)

section
variable {σ σ' : TokenServer} {i : Nat} {f : Flight}
  {c t : String} {drawn : List String} {τ : TokenServer} {code : AuthorizationCode} {existing : RefreshToken} {now : Time}

/-- The holders after a flight is set: those that were there, but for the flight, and the flight. -/
theorem holds_setFlight {x k} (h : Holds (σ.setFlight i f) c x k) :
    (Holds σ c x k ∧ x ≠ .flight i) ∨ (x = .flight i ∧ f.origin = some c ∧ f.phase.credential = some k) := by
  cases x with
  | code | refresh hash => exact .inl ⟨h, by simp⟩
  | flight j =>
    by_cases same : j = i
    · subst same
      simp only [Holds, setFlight_flights_self] at h
      exact .inr ⟨rfl, h⟩
    · simp only [Holds, setFlight_flights_of_ne same] at h
      exact .inl ⟨h, by simpa using same⟩

theorem Recorded.unheld (recorded : Recorded drawn σ) (fresh : c ∉ drawn)
    (x : Holder) (k : Option String) : ¬ Holds σ c x k := by
  intro held
  cases x with
  | code =>
    obtain ⟨⟨row, found, _⟩, _⟩ := held
    exact fresh (key_of_get? found ▸ recorded.codes row (mem_of_get? found))
  | flight i => exact fresh (recorded.origins i c held.1)
  | refresh hash =>
    obtain ⟨_, ⟨descends, _⟩, _⟩ := held
    exact fresh (recorded.lineage hash c descends)

theorem Unrevoked.of_age (h : Unrevoked σ' c t) (age : TokensAge σ.access σ'.access)
    (minted : σ'.minted = σ.minted) : Unrevoked σ c t := by
  obtain ⟨mem, row, found, live⟩ := h
  obtain ⟨old, had, later⟩ := age row (mem_of_get? found)
  refine ⟨minted ▸ mem, old, ?_, ?_⟩
  · rw [← key_of_get? found, later.id]
    exact get?_of_mem had
  · by_contra revoked
    have still := later.revoked (Option.isSome_iff_ne_none.mpr revoked)
    rw [live] at still
    cases still

theorem Unrevoked.of_put {token}
    (recorded : Recorded drawn σ) (new : token.id ∉ drawn) (put : σ'.access.tokens = σ.access.tokens.put token)
    (mem : (some c, t) ∈ σ.minted) (live : Unrevoked σ' c t) : Unrevoked σ c t := by
  obtain ⟨_, row, found, unrevoked⟩ := live
  have other : token.id ≠ t := by
    rintro rfl
    exact new (recorded.minted c _ mem).2
  rw [put, get?_put_of_ne _ other] at found
  exact ⟨mem, row, found, unrevoked⟩

theorem Linear.drop (linear : Linear σ) (nothing : f.phase.credential = none) : Linear (σ.setFlight i f) := by
  refine linear.mono (fun c x k held => ?_) (fun c t live => live)
  rcases holds_setFlight held with ⟨old, _⟩ | ⟨_, _, new⟩
  · exact old
  · rw [nothing] at new
    cases new

/-- A flight goes on with its chain: it may answer for another access token, if
that is the one live afterwards. -/
theorem Linear.carry {k l} (linear : Linear σ)
    (had : (σ.flights i).phase.credential = some k) (origin : f.origin = (σ.flights i).origin)
    (has : f.phase.credential = some l) (holders : ∀ c x m, x ≠ .flight i → Holds τ c x m → Holds σ c x m)
    (others : ∀ c t, (σ.flights i).origin ≠ some c → Unrevoked τ c t → Unrevoked σ c t)
    (own : ∀ c t, (σ.flights i).origin = some c → Unrevoked τ c t → l = some t) : Linear (τ.setFlight i f) := by
  cases start : (σ.flights i).origin with
  | none =>
    refine linear.mono (fun c x m held => ?_) (fun c t live => others c t (by rw [start]; simp) live)
    rcases holds_setFlight held with ⟨old, other⟩ | ⟨_, new, _⟩
    · exact holders c x m other old
    · rw [origin, start] at new
      cases new
  | some c₀ =>
    refine linear.pass (b := .flight i) (l := l) (show Holds σ c₀ (.flight i) k from ⟨start, had⟩) ?_ ?_ ?_
    · intro c x m held
      rcases holds_setFlight held with ⟨old, other⟩ | ⟨rfl, new, credential⟩
      · exact .inl ⟨holders c x m other old, fun both => other both.2⟩
      · rw [origin, start] at new
        rw [has] at credential
        exact .inr ⟨(Option.some.inj new).symm, rfl, (Option.some.inj credential).symm⟩
    · intro c t other live
      exact others c t (by rw [start]; simpa using Ne.symm other) live
    · exact fun t live => own c₀ t start live

theorem Linear.pause {k} (linear : Linear σ)
    (had : (σ.flights i).phase.credential = some k) (origin : f.origin = (σ.flights i).origin)
    (has : f.phase.credential = some k) (holders : ∀ c x m, Holds τ c x m → Holds σ c x m)
    (live : ∀ c t, Unrevoked τ c t → Unrevoked σ c t) : Linear (τ.setFlight i f) :=
  linear.carry had origin has (fun c x m _ held => holders c x m held) (fun c t _ l => live c t l)
    fun c t start l => linear.answers (a := .flight i) ⟨start, had⟩ (live c t l)

theorem afterExchange_credential [GoLib] {req k} (h : (afterExchange req code).credential = some k) : k = none := by
  unfold afterExchange at h
  split at h
  · cases h
  · split at h
    · cases h
    · split at h
      · cases h
      · exact (Option.some.inj h).symm

theorem afterRotation_credential {req k}
    (h : (afterRotation req existing).credential = some k) : k = some existing.accessTokenID := by
  unfold afterRotation at h
  split at h
  · cases h
  · exact (Option.some.inj h).symm

theorem Linear.exchange [GoLib] {req codes} (linear : Linear σ)
    (used : SingleUse.consume authorizationCodes now σ.oauth.codes req.code = .ok (codes, code)) :
    Linear ({ σ with oauth := { σ.oauth with codes := codes } }.setFlight i
      { σ.flights i with origin := some req.code, phase := afterExchange req code }) := by
  have had : Holds σ req.code .code none := ⟨unused_of_consume_ok used, rfl⟩
  refine linear.pass (b := .flight i) (l := none) had ?_ (fun _ _ _ live => live)
    (fun t live => linear.answers had live)
  intro c x m held
  rcases holds_setFlight held with ⟨old, _⟩ | ⟨rfl, new, credential⟩
  · cases x with
    | code =>
      obtain ⟨unused, none⟩ := old
      obtain ⟨before, ne⟩ := (unused_consume_iff used).mp unused
      exact .inl ⟨⟨before, none⟩, fun both => ne both.1⟩
    | flight j | refresh hash => exact .inl ⟨old, by simp⟩
  · exact .inr ⟨(Option.some.inj new).symm, rfl, afterExchange_credential credential⟩

/-- The flight that consumes a refresh token takes over the chain that the token carries on. -/
theorem Linear.rotate {req hash refresh} (linear : Linear σ)
    (used : SingleUse.consume refreshTokens now σ.oauth.refresh hash = .ok (refresh, existing)) :
    Linear ({ σ with oauth := { σ.oauth with refresh := refresh } }.setFlight i
      { σ.flights i with origin := σ.lineage hash, phase := afterRotation req existing }) := by
  -- what is left of the other refresh tokens was there before
  have before : ∀ {c x m},
      Holds { σ with oauth := { σ.oauth with refresh := refresh } } c x m → Holds σ c x m ∧ x ≠ .refresh hash := by
    intro c x m held
    cases x with
    | code | flight j => exact ⟨held, by simp⟩
    | refresh other =>
      obtain ⟨row, ⟨descends, found, live⟩, rfl⟩ := held
      have ne : other ≠ hash := by
        rintro rfl
        cases (get?_consume_self used).symm.trans found
        cases (usedAt_of_consume_ok used).symm.trans live
      have old := (get?_consume_of_ne used ne).symm.trans found
      exact ⟨⟨row, ⟨descends, old, live⟩, rfl⟩, by simpa using ne⟩
  cases chain : σ.lineage hash with
  | none =>
    refine linear.mono (fun c x m held => ?_) (fun _ _ live => live)
    rcases holds_setFlight held with ⟨old, _⟩ | ⟨_, new, _⟩
    · exact (before old).1
    · cases new
  | some c₀ =>
    obtain ⟨row, found, unused, _, marked, _⟩ := consume_ok used
    have had : Holds σ c₀ (.refresh hash) (some existing.accessTokenID) :=
      ⟨row, ⟨chain, found, unused⟩, by rw [marked]; rfl⟩
    refine linear.pass (b := .flight i) (l := some existing.accessTokenID) had ?_ (fun _ _ _ live => live)
      (fun t live => linear.answers had live)
    intro c x m held
    rcases holds_setFlight held with ⟨old, _⟩ | ⟨rfl, new, credential⟩
    · exact .inl ⟨(before old).1, fun both => (before old).2 both.2⟩
    · exact .inr ⟨(Option.some.inj new).symm, rfl, afterRotation_credential credential⟩

theorem Linear.revoke {env} (linear : Linear σ) (phase : (σ.flights i).phase = .revoke existing) :
    Linear ({ σ with access := σ.access.revokeToken env existing.accessTokenID }.setFlight i
      { σ.flights i with phase := .lookup existing }) := by
  have later : TokensAge σ.access (σ.access.revokeToken env existing.accessTokenID) :=
    tokensAge_updateToken fun _ => ⟨rfl, rfl, fun _ => rfl⟩
  have age : ∀ {c t}, Unrevoked { σ with access := σ.access.revokeToken env existing.accessTokenID } c t →
      Unrevoked σ c t := fun live => live.of_age later rfl
  refine linear.carry (k := some existing.accessTokenID) (l := none) (by rw [phase]; rfl) rfl rfl
    (fun _ _ _ _ held => held) (fun _ _ _ live => age live) ?_
  intro c t origin live
  -- what was live of the chain is the token that is revoked here
  have answers := linear.answers (a := .flight i) ⟨origin, by rw [phase]; rfl⟩ (age live)
  obtain ⟨_, _, found, unrevoked⟩ := live
  cases answers
  have revoked := @Store.get?_updateToken σ.access existing.accessTokenID
    (fun t => { t with revokedAt := some env.now }) (fun _ => rfl) existing.accessTokenID
  rw [if_pos rfl] at revoked
  obtain ⟨_, _, rfl⟩ := Option.map_eq_some_iff.mp (revoked.symm.trans found)
  cases unrevoked

end

section
variable [Digests] {cfg : OAuthConfig} {env : AuthEnv} {σ : TokenServer} {i : Nat}
  {input : MintInput} {token : AccessToken} {raw : String} {drawn : List String}

theorem Linear.leave (linear : Linear σ) (phase : (σ.flights i).phase = .save input token raw) :
    Linear (saveRefresh cfg env σ i (σ.flights i) input token raw) := by
  -- the flight is done; of the refresh tokens only the new one is new
  have before : ∀ {c x m}, Holds (saveRefresh cfg env σ i (σ.flights i) input token raw) c x m →
      (Holds σ c x m ∧ x ≠ .flight i) ∨
        ((σ.flights i).origin = some c ∧ x = .refresh (hashOpaque env.random) ∧ m = some token.id) := by
    intro c x m held
    rcases holds_setFlight held with ⟨old, other⟩ | ⟨_, _, credential⟩
    · cases x with
      | code | flight j => exact .inl ⟨old, other⟩
      | refresh hash =>
        obtain ⟨row, ⟨descends, found, live⟩, rfl⟩ := old
        by_cases same : hash = hashOpaque env.random
        · subst same
          simp only [update_self] at descends
          refine .inr ⟨descends, rfl, ?_⟩
          have new := get?_put_self σ.oauth.refresh
            { newRefreshToken cfg env input token with createdAt := zeroTime 0 env.now }
          cases new.symm.trans found
          rfl
        · simp only [update_of_ne same] at descends
          have kept := get?_put_of_ne σ.oauth.refresh
            (show ({ newRefreshToken cfg env input token with createdAt := zeroTime 0 env.now } :
              RefreshToken).tokenHash ≠ hash from Ne.symm same)
          exact .inl ⟨⟨row, ⟨descends, kept.symm.trans found, live⟩, rfl⟩, other⟩
    · cases credential
  cases start : (σ.flights i).origin with
  | none =>
    refine linear.mono (fun c x m held => ?_) (fun _ _ live => live)
    rcases before held with ⟨old, _⟩ | ⟨new, _⟩
    · exact old
    · cases start.symm.trans new
  | some c₀ =>
    have had : Holds σ c₀ (.flight i) (some token.id) := ⟨start, by rw [phase]; rfl⟩
    refine linear.pass (b := .refresh (hashOpaque env.random)) (l := some token.id) had ?_
      (fun _ _ _ live => live) (fun t live => linear.answers had live)
    intro c x m held
    rcases before held with ⟨old, other⟩ | ⟨new, holder, credential⟩
    · exact .inl ⟨old, fun both => other both.2⟩
    · exact .inr ⟨Option.some.inj (new.symm.trans start), holder, credential⟩

theorem Linear.create {ids access} (linear : Linear σ) (recorded : Recorded drawn σ)
    (fresh : (env.uuid 0).val ∉ drawn) (phase : (σ.flights i).phase = .create input ids)
    (made : σ.access.createToken env.toEnv (oauthTokenInput cfg env.now input ids) = .ok (access, token, raw)) :
    Linear ({ σ with access := access, minted := ((σ.flights i).origin, token.id) :: σ.minted }.setFlight i
      { σ.flights i with phase := .save input token raw }) := by
  obtain ⟨rfl, _, rfl⟩ := Store.createToken_ok made
  refine linear.carry (k := none) (l := some _) (by rw [phase]; rfl) rfl rfl (fun _ _ _ _ held => held) ?_ ?_
  · intro c t other live
    rcases List.mem_cons.mp live.1 with new | old
    · exact absurd (Prod.mk.inj new).1.symm other
    · exact live.of_put recorded fresh rfl old
  · intro c t origin live
    rcases List.mem_cons.mp live.1 with new | old
    · rw [(Prod.mk.inj new).2]
    · -- the flight answers for no token that was live before
      have had : Holds σ c (.flight i) none := ⟨origin, by rw [phase]; rfl⟩
      cases linear.answers had (live.of_put recorded fresh rfl old)

variable [GoLib]

theorem Linear.move {σ'} (linear : Linear σ) (recorded : Recorded drawn σ)
    (fresh : (env.uuid 0).val ∉ drawn) (move : Move cfg env σ i σ') : Linear σ' := by
  cases move with
  | still => exact linear
  | failed => exact linear.drop rfl
  | exchanged phase request used =>
    obtain ⟨_, consumed, rfl⟩ := consumeAuthorizationCode_ok used
    exact linear.exchange consumed
  | rotated phase request used =>
    obtain ⟨_, consumed, rfl⟩ := consumeRefreshToken_ok used
    exact linear.rotate consumed
  | revoked phase => exact linear.revoke phase
  | lookedUp phase | listed phase =>
    exact linear.pause (k := none) (by rw [phase]; rfl) rfl rfl (fun _ _ _ held => held) fun _ _ live => live
  | @ensured input phase =>
    have later : TokensAge σ.access (ensurePrincipal env.toEnv σ.access input.principal cfg.bucket).1 :=
      .of_eq ensurePrincipal_tokens
    exact linear.pause (k := none) (by rw [phase]; rfl) rfl rfl (fun _ _ _ held => held)
      fun _ _ live => live.of_age later rfl
  | created phase made => exact linear.create recorded fresh phase made
  | saved phase => exact linear.leave phase

theorem Linear.login (linear : Linear σ) (recorded : Recorded drawn σ)
    (fresh : env.random ∉ drawn) (req : LoginRequest) : Linear (apply cfg env σ (.login req)) := by
  obtain ⟨refresh, tokens, codes⟩ := @serve_records _ _ cfg env σ req
  have live : ∀ c t, Unrevoked (apply cfg env σ (.login req)) c t → Unrevoked σ c t :=
    fun _ _ live => live.of_age (.of_eq tokens) rfl
  have kept : ∀ c x m, x ≠ .code → Holds (apply cfg env σ (.login req)) c x m → Holds σ c x m := by
    intro c x m other held
    cases x with
    | code => exact absurd rfl other
    | flight => exact held
    | refresh =>
      simp only [Holds, Unconsumed, apply, refresh] at held ⊢
      exact held
  rcases codes with same | ⟨code, drew, put⟩
  · refine linear.mono (fun c x m held => ?_) live
    by_cases own : x = .code
    · subst own
      simp only [Holds, apply, same] at held ⊢
      exact held
    · exact kept c x m own held
  · rw [← drew] at fresh
    refine linear.start (b := .code) (recorded.unheld fresh) ?_ ?_ live
    · intro t live
      exact fresh (recorded.minted _ t live.1).1
    · intro c x m held
      by_cases own : x = .code
      · subst own
        by_cases same : c = code.code
        · exact .inr ⟨same, rfl, held.2⟩
        · simp only [Holds, apply, put, unused_put_of_ne (Ne.symm same)] at held
          exact .inl held
      · exact .inl (kept c x m own held)

theorem Linear.access (linear : Linear σ) (recorded : Recorded drawn σ)
    (fresh : (env.uuid 0).val ∉ drawn) (call : StoreCall) : Linear (apply cfg env σ (.access call)) := by
  refine linear.mono (fun _ _ _ held => held) (fun c t live => ?_)
  rcases call_tokens call with age | ⟨_, _, _, put⟩
  · exact live.of_age age rfl
  · exact live.of_put recorded fresh put live.1

end

structure Rotating (σ : TokenServer) : Prop where
  recorded : Recorded σ.drawn σ
  linear : Linear σ

theorem rotating_start (access : Store) : Rotating (start access) where
  recorded :=
    { codes := fun _ mem => absurd mem not_mem_nil
      origins := fun _ _ origin => nomatch origin
      lineage := fun _ _ descends => nomatch descends
      minted := fun _ _ mem => absurd mem not_mem_nil }
  linear := by
    refine .empty (fun c x k held => ?_) (fun c t live => absurd live.1 not_mem_nil)
    cases x with
    | code =>
      obtain ⟨⟨_, found, _⟩, _⟩ := held
      cases found
    | flight => cases held.1
    | refresh =>
      obtain ⟨_, ⟨descends, _⟩, _⟩ := held
      cases descends

theorem rotating_step [Digests] [GoLib] {cfg σ} (input : AuthEnv × TokenEvent)
    (h : Rotating σ) (fresh : Fresh σ input) : Rotating (step cfg σ input) := by
  obtain ⟨env, event⟩ := input
  have recorded : Recorded ((env.uuid 0).val :: env.random :: σ.drawn) (apply cfg env σ event) := by
    apply recorded_apply
    · exact h.recorded.mono fun _ mem => mem_cons_of_mem _ (mem_cons_of_mem _ mem)
    · exact mem_cons_self
    · exact mem_cons_of_mem _ mem_cons_self
  have linear : Linear (apply cfg env σ event) := by
    cases event with
    | login req => exact h.linear.login h.recorded fresh.2 req
    | access call => exact h.linear.access h.recorded fresh.1 call
    | arrive =>
      simp only [apply, arrive]
      split
      · exact h.linear.drop rfl
      · exact h.linear
    | advance => exact h.linear.move h.recorded fresh.1 advance_move
  exact { recorded := { recorded with }, linear := linear.mono (fun _ _ _ held => held) fun _ _ live => live }

end TokenServer

/-- In every interleaving of logins, token requests and calls of the access store, with
freshly drawn strings: of the refresh tokens that descend from a code at most one is not
consumed, and of the access tokens minted along its chain at most one is not revoked. -/
theorem rotation_keeps_one_credential [Digests] [GoLib] (cfg : OAuthConfig) (access : Store)
    (inputs : List (AuthEnv × TokenEvent))
    (fresh : Runs.Guarded TokenServer.Fresh (TokenServer.step cfg) (.start access) inputs) (c : String) :
    let σ := Runs.run (step cfg) (.start access) inputs
    (∀ hash hash' row row', σ.Unconsumed c hash row → σ.Unconsumed c hash' row' → hash = hash') ∧
      ∀ t t', σ.Unrevoked c t → σ.Unrevoked c t' → t = t' := by
  have rotating : TokenServer.Rotating (Runs.run (step cfg) (.start access) inputs) :=
    @Runs.run_invariant _ _ _ _ TokenServer.Rotating (fun _ input h ok => rotating_step input h ok)
      _ _ fresh (rotating_start access)
  constructor
  · intro hash hash' row row' live live'
    have same := rotating.linear.one_holder (a := .refresh hash) (b := .refresh hash')
      ⟨row, live, rfl⟩ ⟨row', live', rfl⟩
    exact TokenServer.Holder.refresh.inj same
  · exact fun t t' live live' => rotating.linear.one_live live live'

/-- `adminConfig` with refresh tokens that live for an hour. -/
def adminRotationConfig : OAuthConfig := { adminConfig with accessTokenTTLHours := 1, refreshTokenTTLHours := 1 }

/-- The code of `adminLogin` is exchanged, and the refresh token `e` that comes of it is used. -/
def adminRotation : List (AuthEnv × TokenEvent) :=
  adminLogin.map (fun step => (step.1, .login step.2)) ++
    ["0", "1", "2", "3", "4", "e"].map
      (fun x => ({ toEnv := draws x },
        if x = "0" then .arrive 0 (.exchange { code := "k", redirectURI := "cb", clientID := "c", codeVerifier := "v" })
        else .advance 0)) ++
    ["5", "6", "7", "8", "9", "10", "11", "f"].map
      (fun x => ({ toEnv := draws x }, if x = "5" then .arrive 1 (.refresh { refreshToken := "e" }) else .advance 1))

/-- The chain is then carried on by the refresh token `f`, with one access token. -/
theorem admin_rotation_keeps_one :
    let σ := Runs.run (@TokenServer.step .plain .plain adminRotationConfig) (.start .empty) adminRotation
    (σ.lineage (@TokenServer.hashOpaque .plain "f") = some "k" ∧
      (σ.oauth.refresh.get? (@TokenServer.hashOpaque .plain "f")).map RefreshToken.revokedAt = some none) ∧
      ∀ t t', σ.Unrevoked "k" t → σ.Unrevoked "k" t' → t = t' :=
  ⟨by decide, (@rotation_keeps_one_credential .plain .plain adminRotationConfig .empty adminRotation
    (by decide) "k").2⟩

end SynaMcp
