import SynaMcp.Lib.GoMaps
import SynaMcp.Services.Scope

/-! The keys of agents: a challenge, a registration that proves possession of the
private key, and revocation. -/
namespace SynaMcp
open Keyed Sections List

abbrev Bytes := List UInt8

inductive Field where
  | text (s : String)
  | number (n : Int)
  | object (o : JsonObject)
  deriving DecidableEq, Repr

/-- A signed envelope, with its fields in the order in which the code sets them. -/
abbrev Envelope := List (String × Field)

/-- The cryptographic functions and encodings. `hashCanonical` is the digest of the
canonical JSON; the verifications are those of one algorithm, over a digest. -/
class Signing where
  hashCanonical : Envelope → Bytes
  signEd25519 : (priv digest : Bytes) → Bytes
  verifyEd25519 : (pub digest sig : Bytes) → Bool
  parseECDSAP256 : Bytes → Bool
  verifyECDSAP256 : (pub digest sig : Bytes) → Bool
  b64 : Bytes → String
  decodeB64 : String → Option Bytes
  quote : String → String
  (rfc3339 rfc3339Nano : Time → String)

@[reducible] def Signing.plain : Signing where
  hashCanonical _ := []
  signEd25519 _ digest := digest
  verifyEd25519 _ _ _ := false
  parseECDSAP256 _ := false
  verifyECDSAP256 _ _ _ := false
  b64 _ := ""
  decodeB64 _ := none
  quote s := s
  rfc3339 _ := ""
  rfc3339Nano _ := ""

/-- Stand-ins for closed evaluations in which a signature is the digest itself, and a
digest the number of fields. -/
@[reducible] def Signing.echo : Signing where
  hashCanonical e := [.ofNat (97 + e.length)]
  signEd25519 _ digest := digest
  verifyEd25519 _ digest sig := digest = sig
  parseECDSAP256 _ := false
  verifyECDSAP256 _ _ _ := false
  b64 bytes := String.ofList (bytes.map fun b => Char.ofNat b.toNat)
  decodeB64 s := some (s.toList.map fun c => .ofNat c.toNat)
  quote s := s
  rfc3339 _ := "now"
  rfc3339Nano _ := "now"

theorem Signing.echo_b64_ne {bytes} (some : bytes ≠ []) : Signing.echo.b64 bytes ≠ "" := by
  intro empty
  have chars : (String.ofList (bytes.map fun b => Char.ofNat b.toNat)).toList = "".toList := congrArg String.toList empty
  rw [String.toList_ofList] at chars
  exact some (List.map_eq_nil_iff.mp chars)

theorem Signing.echo_digests (e : Envelope) : Signing.echo.b64 (Signing.echo.hashCanonical e) ≠ "" :=
  echo_b64_ne (cons_ne_nil _ _)

theorem Signing.echo_roundTrip (bytes : Bytes) : Signing.echo.decodeB64 (Signing.echo.b64 bytes) = some bytes := by
  have same : ∀ b : UInt8, UInt8.ofNat (Char.ofNat b.toNat).toNat = b := by
    intro b
    have valid : b.toNat.isValidChar := .inl (Nat.lt_trans b.toNat_lt (by decide))
    rw [Char.ofNat, dif_pos valid]
    exact UInt8.ofNat_toNat
  show some ((String.ofList (bytes.map fun b => Char.ofNat b.toNat)).toList.map fun c => .ofNat c.toNat) = some bytes
  rw [String.toList_ofList, map_map]
  exact congrArg some ((map_congr_left fun b _ => same b).trans (map_id bytes))

structure AgentKey where
  (keyID subjectKey tokenID algorithm : String)
  publicKey : Bytes
  publicKeyB64 : String
  createdAt : Time
  revokedAt : Option Time := none
  deriving DecidableEq, Repr

/-- Ownership: the same subject, not revoked, and the token the key is bound to. -/
def AgentKey.belongsToCaller (k : AgentKey) (subjectKey tokenID : String) : Bool :=
  if k.subjectKey ≠ subjectKey then false
  else if k.revokedAt.isSome then false
  else if k.tokenID ≠ "" ∧ tokenID ≠ "" ∧ k.tokenID ≠ tokenID then false
  else if k.tokenID ≠ "" ∧ tokenID = "" then false
  else true

structure Challenge where
  nonce : String
  expiresAt : Time
  binder : String
  deriving DecidableEq, Repr

structure RegisterInput where
  (subjectKey tokenID algorithm : String)
  publicKey : Bytes
  nonce : String
  signature : Bytes
  binder : String
  deriving DecidableEq, Repr

def RegisterInput.envelope [Signing] (input : RegisterInput) : Envelope :=
  [("nonce", .text input.nonce), ("publicKey", .text (Signing.b64 input.publicKey)),
    if input.tokenID ≠ "" then ("tokenId", .text input.tokenID) else ("sessionId", .text input.binder)]

structure AgentKeys where
  mem : Table AgentKey.keyID
  challs : Table Challenge.nonce

namespace AgentKeys

def createChallenge (env : Env) (binder : String) (ttl : Int) (s : AgentKeys) :
    AgentKeys × Except String Challenge :=
  if binder = "" then (s, .error "binder required")
  else
    let ttl := if ttl ≤ 0 then 5 * minute else ttl
    let ch : Challenge := { nonce := (env.uuid 0).val, expiresAt := env.now + ttl, binder := binder }
    ({ s with challs := s.challs.put ch }, .ok ch)

/-- A challenge of another binder is left; one that is used or expired is removed. -/
def consumeChallenge (now : Time) (nonce binder : String) (s : AgentKeys) : AgentKeys × Except String Unit :=
  if nonce = "" then (s, .error "nonce required")
  else
    match s.challs.get? nonce with
    | none => (s, .error "challenge not found or expired")
    | some ch =>
      if ch.expiresAt < now then
        ({ s with challs := s.challs.delete nonce }, .error "challenge not found or expired")
      else if ch.binder ≠ binder then (s, .error "challenge binder mismatch")
      else ({ s with challs := s.challs.delete nonce }, .ok ())

def get (keyID : String) (s : AgentKeys) : Option AgentKey := s.mem.get? keyID

/-- In the order of the range over the keys. -/
def listForSubject (choose : Nat → Nat) (subjectKey : String) (s : AgentKeys) : List AgentKey :=
  (GoMaps.range choose s.mem.rows).filter fun k => k.subjectKey = subjectKey

def revoke (now : Time) (keyID subjectKey : String) (s : AgentKeys) : AgentKeys × Except String Unit :=
  match s.mem.get? keyID with
  | none => (s, .error "key not found")
  | some k =>
    if k.subjectKey ≠ subjectKey then (s, .error "key not found")
    else ({ s with mem := s.mem.put { k with revokedAt := some now } }, .ok ())

section
variable [Signing]

def checkAlgorithm (input : RegisterInput) : Except String String :=
  let alg := if input.algorithm = "" then "ed25519" else input.algorithm
  if alg = "ed25519" then if input.publicKey.length ≠ 32 then .error "invalid ed25519 public key length" else .ok alg
  else if alg = "ecdsa-p256" then
    if Signing.parseECDSAP256 input.publicKey then .ok alg else .error "invalid ecdsa-p256 public key"
  else .error ("unsupported algorithm " ++ Signing.quote alg)

def provesPossession (alg : String) (input : RegisterInput) : Bool :=
  let digest := Signing.hashCanonical input.envelope
  if alg = "ed25519" then Signing.verifyEd25519 input.publicKey digest input.signature
  else if alg = "ecdsa-p256" then Signing.verifyECDSAP256 input.publicKey digest input.signature
  else false

def newKey (env : Env) (alg : String) (input : RegisterInput) : AgentKey :=
  { keyID := "k_" ++ (env.uuid 0).val, subjectKey := input.subjectKey, tokenID := input.tokenID, algorithm := alg,
    publicKey := input.publicKey, publicKeyB64 := Signing.b64 input.publicKey, createdAt := env.now }

/-- The challenge is used up before the signature is checked. -/
def register (checkedAt : Time) (env : Env) (input : RegisterInput) : Try AgentKeys AgentKey := do
  .require (input.subjectKey ≠ "" ∧ input.publicKey ≠ [] ∧ input.nonce ≠ "" ∧ input.signature ≠ [])
    "subjectKey, publicKey, nonce, and signature required"
  let alg ← .ofExcept (checkAlgorithm input)
  .atomic (consumeChallenge checkedAt input.nonce input.binder)
  .require (provesPossession alg input) "invalid proof-of-possession signature"
  let key := newKey env alg input
  .atomic fun s => ({ s with mem := s.mem.put key }, .ok key)

end
end AgentKeys
end SynaMcp
