/-
# Tokens and sessions

`JWT::Token` (`DataFormat_JWT/jwt_token.cpp`) is the decoded payload of a signed
token with two marks: whether its signature was verified and whether it was
revoked.  `Session` (`Sessions/session.cpp`) is what a verified token becomes when
a user logs in: the token, the names taken from it, and two activity stamps.

`time_t` is a 64-bit signed integer.  It is an integer here, and the only
conversion that can wrap, the cast of an unsigned claim, goes through `toTimeT`.
-/
import Mantids.Json

namespace Mantids

/-! ## Token -/

/-- `static_cast<std::time_t>` of an unsigned 64-bit value. -/
def toTimeT (n : ℕ) : ℤ := (BitVec.ofNat 64 n).toInt

/-- `JWT::Token`. -/
structure Token where
  /-- `m_claims`. -/
  claims : Json.Members := []
  /-- `m_signatureVerified`. -/
  signatureVerified : Bool := false
  /-- `m_revoked`. -/
  revoked : Bool := false

namespace Token

def getClaim (t : Token) (name : String) : Json := t.claims.get name

def hasClaim (t : Token) (name : String) : Bool := t.claims.isMember name

def getSubject (t : Token) : String := (t.getClaim "sub").asStringD ""

def getDomain (t : Token) : String := (t.getClaim "domain").asStringD ""

def getImpersonator (t : Token) : String := (t.getClaim "impersonator").asStringD ""

/-- A token without the claim never expires: the default is `0xFFFFFFFFFFFFFFFF`. -/
def getExpirationTime (t : Token) : ℤ :=
  toTimeT ((t.getClaim "exp").asUInt64D 0xFFFFFFFFFFFFFFFF)

def getNotBefore (t : Token) : ℤ := toTimeT ((t.getClaim "nbf").asUInt64D 0)

/-- The names listed by an array claim; an element that is not a string reads as
the empty name. -/
def claimNames (t : Token) (claim : String) : List String :=
  (t.getClaim claim).elements.map (fun j => j.asStringD "")

def hasRole (t : Token) (roleId : String) : Bool := roleId ∈ t.claimNames "roles"

def hasPermission (t : Token) (permissionId : String) : Bool :=
  permissionId ∈ t.claimNames "permissions"

def getAllRoles (t : Token) : Finset String := (t.claimNames "roles").toFinset

def getAllPermissions (t : Token) : Finset String := (t.claimNames "permissions").toFinset

def isAdmin (t : Token) : Bool := t.hasClaim "isAdmin" && (t.getClaim "isAdmin").asBoolD false

/-- `isValid()` at the clock value `now`. -/
def isValid (t : Token) (now : ℤ) : Bool :=
  if t.hasClaim "exp" ∧ t.getExpirationTime ≤ now then false
  else if t.hasClaim "nbf" ∧ now < t.getNotBefore then false
  else t.signatureVerified && !t.revoked

/-- Whatever the clock says, a valid token was verified and is not revoked. -/
theorem verified_of_isValid {t : Token} {now : ℤ} (h : t.isValid now = true) :
    t.signatureVerified = true ∧ t.revoked = false := by
  unfold isValid at h
  split_ifs at h
  simpa using h

end Token

/-! ## Session -/

/-- `Sessions::Session`. -/
structure Session where
  jwtAuthenticatedInfo : Token
  user : String
  domain : String
  impersonator : String
  firstActivity : ℤ
  lastActivity : ℤ

namespace Session

/-- The constructor from a token, at the clock value `now`. -/
def ofToken (t : Token) (now : ℤ) : Session where
  jwtAuthenticatedInfo := t
  user := t.getSubject
  domain := t.getDomain
  impersonator := t.getImpersonator
  firstActivity := now
  lastActivity := now

def updateLastActivity (s : Session) (now : ℤ) : Session := { s with lastActivity := now }

/-- `isLastActivityExpired(expSeconds)`: a stamp in the future counts as expired,
and the age is cut to 32 bits before it is compared. -/
def isLastActivityExpired (s : Session) (expSeconds : ℕ) (now : ℤ) : Bool :=
  if now < s.lastActivity then true
  else decide (expSeconds < (now - s.lastActivity).toNat % 2 ^ 32)

end Session

end Mantids
