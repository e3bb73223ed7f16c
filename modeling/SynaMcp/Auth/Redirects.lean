import SynaMcp.Auth.Store

/-! Redirect URIs and PKCE, as `pkce.go` checks them. Parsing and printing URLs,
letter case and SHA-256 in base64url come from Go's library and are a class of
functions here. -/
namespace SynaMcp
open Keyed GoStrings

/-- `url.URL`, with the user information as its text. -/
structure URL where
  (scheme opaqueData user host path rawPath : String := "")
  forceQuery : Bool := false
  (rawQuery fragment rawFragment : String := "")
  deriving DecidableEq, Repr

/-- `url.Values`: the values of each name. -/
abbrev Values := Table (Prod.fst : String × List String → String)

/-- The functions of Go's library that the OAuth server calls. Nothing below relies
on more than that they are functions. -/
class GoLib where
  parseURL : String → Option URL
  (hostname renderURL : URL → String)
  parseQuery : String → Values
  encodeQuery : Values → String
  toLower : String → String
  equalFold : String → String → Bool
  /-- `base64.RawURLEncoding` of `sha256.Sum256`. -/
  s256 : String → String

/-- Stand-ins for closed evaluations: every text is the path of an `https` URL. -/
@[reducible] def GoLib.plain : GoLib where
  parseURL text := some { scheme := "https", host := "host", path := text }
  hostname := URL.host
  renderURL u := u.path ++ "?" ++ u.rawQuery
  parseQuery _ := .empty
  encodeQuery values := String.join (values.rows.map fun (name, vs) => name ++ "=" ++ String.join vs ++ "&")
  toLower := id
  equalFold a b := a == b
  s256 verifier := "s256:" ++ verifier

/-- A single trailing `*` is a wildcard. -/
def matchSimpleGlob (pattern value : String) : Bool :=
  if pattern = "*" then true
  else if hasSuffix pattern "*" then hasPrefix value (trimSuffix pattern "*")
  else decide (pattern = value)

def matchPatterns (value : String) (patterns : List String) : Bool :=
  patterns.isEmpty || patterns.any (fun pattern => matchSimpleGlob pattern value)

def clientHasRedirectURI (client : OAuthClient) (redirectURI : String) : Bool :=
  decide (redirectURI ∈ client.redirectURIs)

variable [GoLib]

def verifyPKCES256 (codeVerifier codeChallenge : String) : Bool :=
  if codeVerifier = "" ∨ codeChallenge = "" then false
  else decide (GoLib.s256 codeVerifier = codeChallenge)

def isLocalHost (u : URL) : Bool :=
  let host := GoLib.toLower (GoLib.hostname u)
  decide (host = "localhost") || decide (host = "127.0.0.1") || decide (host = "::1")

/-- `https`, or `http` on the local host. -/
def secureScheme (u : URL) : Bool :=
  let scheme := GoLib.toLower u.scheme
  decide (scheme = "https") || (decide (scheme = "http") && isLocalHost u)

def redirectURIAllowed (redirectURI : String) (registered patterns : List String) : Bool :=
  if redirectURI = "" then false
  else
    match GoLib.parseURL redirectURI with
    | none => false
    | some u =>
      if u.scheme = "" ∨ u.host = "" then false
      else if u.fragment ≠ "" then false
      else if !secureScheme u then false
      else if registered ≠ [] then decide (redirectURI ∈ registered) && matchPatterns redirectURI patterns
      else matchPatterns redirectURI patterns

/-- The redirect of `completeAuthorize`: the parsed URI with another query. -/
def codeLocation (u : URL) (code state : String) : String :=
  let q := (GoLib.parseQuery u.rawQuery).put ("code", [code])
  let q := if state ≠ "" then q.put ("state", [state]) else q
  GoLib.renderURL { u with rawQuery := GoLib.encodeQuery q }

/-- An allowed URI: parsed, without a fragment, `https` or local, and matched by a
pattern where there are any. -/
structure AllowedURI (patterns : List String) (redirectURI : String) (u : URL) : Prop where
  parsed : GoLib.parseURL redirectURI = some u
  fragment : u.fragment = ""
  secure : GoLib.toLower u.scheme = "https" ∨
    (GoLib.toLower u.scheme = "http" ∧ GoLib.toLower (GoLib.hostname u) ∈ ["localhost", "127.0.0.1", "::1"])
  pattern : patterns ≠ [] → ∃ pattern ∈ patterns, matchSimpleGlob pattern redirectURI = true

theorem allowedURI_of_redirectURIAllowed {redirectURI registered patterns}
    (h : redirectURIAllowed redirectURI registered patterns = true) : ∃ u, AllowedURI patterns redirectURI u := by
  unfold redirectURIAllowed at h
  split at h
  · cases h
  · split at h
    · cases h
    · next u parsed =>
      split at h
      · cases h
      · split at h
        · cases h
        · next unfragmented =>
          split at h
          · cases h
          · next unrefused =>
            have secure : secureScheme u = true := by simpa using unrefused
            have matched : matchPatterns redirectURI patterns = true := by
              split at h
              · exact (Bool.and_eq_true_iff.mp h).2
              · exact h
            refine ⟨u, parsed, by simpa using unfragmented, ?_, ?_⟩
            · simpa [secureScheme, isLocalHost, or_assoc] using secure
            · intro some
              simpa [matchPatterns, some] using matched

end SynaMcp
