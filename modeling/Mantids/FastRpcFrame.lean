/-
# The frames of FastRPC3

A query goes out as the letter `Q`, the request id, the flags, the method name, the text of the
payload and, with `EXEC_FLAG_EXTRAAUTH`, a token; an answer as the letter `A`, the request id,
the execution status and the text of the answer.

* `writeQuery` — what `RemoteMethods::executeTask` writes on the socket;
* `sendRPCAnswer` — what the other side writes;
* `readExecutionRequest`, `readAnswer`, `readMessage` — what the receiving thread reads;
* `queryFrame_roundTrip_iff` — when a query is read as it was written.

The token is written through `c_str()`, and it is read under the limit that the reading of the
payload left behind: the length of the payload.  The buffer of a payload of `2 ^ 32 - 1` bytes has
no byte at all.
-/
import Mantids.Lib.Cut
import Mantids.SocketStream

namespace Mantids

namespace FastRPC3

open SocketStream SocketStream.Writer

/-! ## Writing -/

/-- `FastRPC3::Config`. -/
structure Config where
  maxMessageSize : UInt32 := 10 * 1024 * 1024
  remoteExecutionDisconnectedTries : UInt32 := 10

def execFlagNormal : UInt8 := 1

def execFlagExtraAuth : UInt8 := 2

/-- The letter `Q`. -/
def letterQ : UInt8 := 81

/-- The letter `A`. -/
def letterA : UInt8 := 65

/-- What a callee sees of a string through `c_str()`. -/
def cStr (s : List UInt8) : List UInt8 := s.takeWhile (· ≠ 0)

/-- The flags of a query. -/
def queryFlags (extraJWTTokenAuth : List UInt8) : UInt8 :=
  if extraJWTTokenAuth ≠ [] then execFlagNormal ||| execFlagExtraAuth else execFlagNormal

/-- The writes of `executeTask`, and `dataTransmitOK` after them. -/
def writeQuery (config : Config) (requestId : UInt64)
    (methodName output extraJWTTokenAuth : List UInt8) (w : Writer) : Bool × Writer :=
  let r :=
    andThen (w.writeU 1 letterQ.toNat) fun w =>
    andThen (w.writeU 8 requestId.toNat) fun w =>
    andThen (w.writeU 1 (queryFlags extraJWTTokenAuth).toNat) fun w =>
    andThen (w.writeStringEx 1 methodName (defaultMax 1)) fun w =>
      w.writeStringEx 4 output config.maxMessageSize.toNat
  if queryFlags extraJWTTokenAuth &&& execFlagExtraAuth ≠ 0 then
    andThen r fun w => w.writeStringEx 4 (cStr extraJWTTokenAuth) extraJWTTokenAuth.length
  else r

/-- `sendRPCAnswer`: an answer that is too long goes out empty. -/
def sendRPCAnswer (config : Config) (requestId : UInt64) (answer : List UInt8)
    (executionStatus : UInt8) (w : Writer) : Bool × Writer :=
  andThen (w.writeU 1 letterA.toNat) fun w =>
  andThen (w.writeU 8 requestId.toNat) fun w =>
  andThen (w.writeU 1 executionStatus.toNat) fun w =>
    w.writeStringEx 4 (if answer.length ≤ config.maxMessageSize.toNat then answer else [])
      config.maxMessageSize.toNat

/-! ## Reading -/

/-- `eConnectionHandlerReturn`. -/
inductive HandlerReturn where
  | shutdownOk
  | readTimeout
  | invalidProtocol
  | failedReadingRequestId
  | failedReadingFlags
  | failedReadingMethodName
  | failedReadingPayload
  | failedReadingExtraAuth
  | failedParsingPayload
  | continue
deriving DecidableEq

/-- The value of a return code. -/
def HandlerReturn.code : HandlerReturn → ℤ
  | shutdownOk => 0
  | readTimeout => -101
  | invalidProtocol => -100
  | failedReadingRequestId => -1
  | failedReadingFlags => -2
  | failedReadingMethodName => -3
  | failedReadingPayload => -4
  | failedReadingExtraAuth => -5
  | failedParsingPayload => -6
  | .continue => 1

/-- The local variables of `processIncomingExecutionRequest` once the query was read. -/
structure ExecutionRequest where
  requestId : UInt64
  flags : UInt8
  methodName : List UInt8
  payloadBytes : List UInt8
  /-- No token is read without `EXEC_FLAG_EXTRAAUTH`. -/
  extraAuthToken : Option (List UInt8)
deriving DecidableEq

/-- What the reading of a message leads to.  Behind its buffer it overwrites what is there, and
nothing is known of the process from then on. -/
inductive Reading (ε α : Type) where
  | ok (a : α)
  | error (ret : ε)
  | outOfBounds
deriving DecidableEq

/-- The reading of the token under the limit `maxAlloc`: none without the flag. -/
def readExtraAuthToken (flags : UInt8) (maxAlloc : ℕ) (s : List UInt8) :
    Reading HandlerReturn (Option (List UInt8)) × List UInt8 :=
  if flags &&& execFlagExtraAuth ≠ 0 then
    match readBlockWAllocEx 4 maxAlloc s with
    | (.failed, _, s) => (.error .failedReadingExtraAuth, s)
    | (.outOfBounds, _, s) => (.outOfBounds, s)
    | (.read extraAuthToken, _, s) => (.ok (some extraAuthToken), s)
  else (.ok none, s)

/-- The reading part of `processIncomingExecutionRequest`, and what arrives after it. -/
def readExecutionRequest (config : Config) (s : List UInt8) :
    Reading HandlerReturn ExecutionRequest × List UInt8 :=
  let (requestId, _, s) := readU 8 s
  if requestId = 0 then (.error .failedReadingRequestId, s) else
  let (flags, _, s) := readU 1 s
  if flags = 0 then (.error .failedReadingFlags, s) else
  match readStringEx 1 (defaultMax 1) s with
  | (.failed, s) => (.error .failedReadingMethodName, s)
  | (.outOfBounds, s) => (.outOfBounds, s)
  | (.read methodName, s) =>
    match readBlockWAllocEx 4 config.maxMessageSize.toNat s with
    | (.failed, _, s) => (.error .failedReadingPayload, s)
    | (.outOfBounds, _, s) => (.outOfBounds, s)
    | (.read payloadBytes, maxAlloc, s) =>
      -- `maxAlloc` is now the length of the payload, and it limits the token.
      match readExtraAuthToken (.ofNat flags) maxAlloc s with
      | (.error ret, s) => (.error ret, s)
      | (.outOfBounds, s) => (.outOfBounds, s)
      | (.ok extraAuthToken, s) =>
        (.ok ⟨.ofNat requestId, .ofNat flags, methodName, payloadBytes, extraAuthToken⟩, s)

/-- An answer, as `processIncomingAnswer` has read it. -/
structure AnswerFrame where
  requestId : UInt64
  executionStatus : UInt8
  payloadBytes : List UInt8
deriving DecidableEq

/-- The reading part of `processIncomingAnswer`; a failure carries its return value. -/
def readAnswer (config : Config) (s : List UInt8) : Reading ℤ AnswerFrame × List UInt8 :=
  let (requestId, _, s) := readU 8 s
  if requestId = 0 then (.error (-1), s) else
  let (executionStatus, _, s) := readU 1 s
  match readBlockWAllocEx 4 config.maxMessageSize.toNat s with
  | (.failed, _, s) => (.error (-3), s)
  | (.outOfBounds, _, s) => (.outOfBounds, s)
  | (.read payloadBytes, _, s) => (.ok ⟨.ofNat requestId, .ofNat executionStatus, payloadBytes⟩, s)

/-- What one turn of the loop in `handleConnection` reads. -/
inductive Message where
  | answer (r : Reading ℤ AnswerFrame)
  | query (r : Reading HandlerReturn ExecutionRequest)
  | ended (ret : HandlerReturn)

def readMessage (config : Config) (s : List UInt8) : Message × List UInt8 :=
  let (requestType, readOK, s) := readU 1 s
  if requestType = letterA.toNat then
    let (r, s) := readAnswer config s
    (.answer r, s)
  else if requestType = letterQ.toNat then
    let (r, s) := readExecutionRequest config s
    (.query r, s)
  else if requestType = 0 then
    (.ended (if readOK then .shutdownOk else .readTimeout), s)
  else (.ended .invalidProtocol, s)

/-! ## What a query that was read has gone through -/

/-- The fields of a query that was read, one after the other. -/
structure QueryRead (config : Config) (s : List UInt8) (q : ExecutionRequest) (rest : List UInt8)
    (s₁ s₂ : List UInt8) (maxAlloc : ℕ) : Prop where
  requestId_ne : (readU 8 s).1 ≠ 0
  requestId : q.requestId = .ofNat (readU 8 s).1
  flags_ne : (readU 1 (readU 8 s).2.2).1 ≠ 0
  flags : q.flags = .ofNat (readU 1 (readU 8 s).2.2).1
  methodName :
    readStringEx 1 (defaultMax 1) (readU 1 (readU 8 s).2.2).2.2 = (.read q.methodName, s₁)
  payloadBytes :
    readBlockWAllocEx 4 config.maxMessageSize.toNat s₁ = (.read q.payloadBytes, maxAlloc, s₂)
  extraAuthToken : readExtraAuthToken q.flags maxAlloc s₂ = (.ok q.extraAuthToken, rest)

theorem readExecutionRequest_ok_iff {config : Config} {s rest : List UInt8} {q : ExecutionRequest} :
    readExecutionRequest config s = (.ok q, rest) ↔
      ∃ s₁ s₂ maxAlloc, QueryRead config s q rest s₁ s₂ maxAlloc := by
  constructor
  · intro h
    simp only [readExecutionRequest] at h
    split_ifs at h with hid hflags
    · cases h
    · cases h
    split at h
    · cases h
    · cases h
    · rename_i methodName s₁ hname
      split at h
      · cases h
      · cases h
      · rename_i payloadBytes maxAlloc s₂ hpayload
        split at h
        · cases h
        · cases h
        · rename_i extraAuthToken s₃ htoken
          cases h
          exact ⟨s₁, s₂, maxAlloc, hid, rfl, hflags, rfl, hname, hpayload, htoken⟩
  · rintro ⟨s₁, s₂, maxAlloc, h⟩
    have htoken := h.extraAuthToken
    rw [h.flags] at htoken
    simp only [readExecutionRequest, if_neg h.requestId_ne, if_neg h.flags_ne, h.methodName,
      h.payloadBytes, htoken]
    rw [← h.requestId, ← h.flags]

/-! ## The bytes of a query -/

/-- The two flags a query can have are told apart by the token's bit. -/
theorem queryFlags_extraAuth (extraJWTTokenAuth : List UInt8) :
    queryFlags extraJWTTokenAuth &&& execFlagExtraAuth ≠ 0 ↔ extraJWTTokenAuth ≠ [] := by
  by_cases h : extraJWTTokenAuth ≠ []
  · rw [queryFlags, if_pos h]
    exact ⟨fun _ => h, fun _ => by decide⟩
  · rw [queryFlags, if_neg h]
    exact ⟨fun hne => absurd hne (by decide), fun hne => absurd hne h⟩

theorem queryFlags_ne_zero (extraJWTTokenAuth : List UInt8) :
    (queryFlags extraJWTTokenAuth).toNat ≠ 0 := by
  rw [queryFlags]
  split_ifs
  · decide
  · decide

/-- The token as it is on the wire: none, or what `c_str()` shows of it. -/
def tokenBytes (extraJWTTokenAuth : List UInt8) : List UInt8 :=
  if extraJWTTokenAuth ≠ [] then blockBytes 4 (cStr extraJWTTokenAuth) else []

/-- A query on the wire. -/
def queryFrame (requestId : UInt64) (methodName output extraJWTTokenAuth : List UInt8) :
    List UInt8 :=
  BigEndian.encode 1 letterQ.toNat ++ (BigEndian.encode 8 requestId.toNat ++
    (BigEndian.encode 1 (queryFlags extraJWTTokenAuth).toNat ++ (blockBytes 1 methodName ++
      (blockBytes 4 output ++ tokenBytes extraJWTTokenAuth))))

variable {config : Config} {requestId : UInt64} {methodName output token : List UInt8} {w : Writer}

theorem length_cStr_le (s : List UInt8) : (cStr s).length ≤ s.length :=
  (List.takeWhile_sublist _).length_le

/-- A length under `maxMessageSize` fits the four bytes of a length. -/
theorem length_fits {s : List UInt8} (h : s.length ≤ config.maxMessageSize.toNat) :
    s.length < 256 ^ 4 :=
  Nat.lt_of_le_of_lt h config.maxMessageSize.toNat_lt

/-- The writes that a token takes. -/
def tokenWrites (extraJWTTokenAuth : List UInt8) : ℕ :=
  if extraJWTTokenAuth ≠ [] then blockWrites 4 (cStr extraJWTTokenAuth) else 0

/-- The writes that a query takes. -/
def queryWrites (methodName output extraJWTTokenAuth : List UInt8) : ℕ :=
  1 + (1 + (1 +
    (blockWrites 1 methodName + (blockWrites 4 output + tokenWrites extraJWTTokenAuth))))

/-- `executeTask` writes the whole frame if every write gets through. -/
theorem sends_writeQuery (hmethod : methodName.length ≤ 254)
    (houtput : output.length ≤ config.maxMessageSize.toNat) :
    Sends (writeQuery config requestId methodName output token)
      (queryFrame requestId methodName output token) (queryWrites methodName output token) := by
  have hmethodMax : methodName.length ≤ defaultMax 1 := hmethod
  -- The five fields that every query has.
  have hfields :=
    (sends_writeU 1 letterQ.toNat).andThen <| (sends_writeU 8 requestId.toNat).andThen <|
      (sends_writeU 1 (queryFlags token).toNat).andThen <|
        (sends_writeStringEx 1 hmethodMax).andThen (sends_writeStringEx 4 houtput)
  by_cases hnil : token ≠ []
  · have hframe : queryFrame requestId methodName output token
        = (BigEndian.encode 1 letterQ.toNat ++ (BigEndian.encode 8 requestId.toNat ++
          (BigEndian.encode 1 (queryFlags token).toNat ++ (blockBytes 1 methodName ++
            blockBytes 4 output)))) ++ blockBytes 4 (cStr token) := by
      simp [queryFrame, tokenBytes, hnil]
    have hwrites : queryWrites methodName output token
        = 1 + (1 + (1 + (blockWrites 1 methodName + blockWrites 4 output)))
          + blockWrites 4 (cStr token) := by
      rw [queryWrites, tokenWrites, if_pos hnil]
      omega
    rw [hframe, hwrites]
    unfold writeQuery
    simp only [if_pos ((queryFlags_extraAuth token).mpr hnil)]
    exact hfields.andThen (sends_writeStringEx 4 (length_cStr_le token))
  · have hframe : queryFrame requestId methodName output token
        = BigEndian.encode 1 letterQ.toNat ++ (BigEndian.encode 8 requestId.toNat ++
          (BigEndian.encode 1 (queryFlags token).toNat ++ (blockBytes 1 methodName ++
            blockBytes 4 output))) := by
      simp [queryFrame, tokenBytes, hnil]
    have hwrites : queryWrites methodName output token
        = 1 + (1 + (1 + (blockWrites 1 methodName + blockWrites 4 output))) := by
      rw [queryWrites, tokenWrites, if_neg hnil, Nat.add_zero]
    rw [hframe, hwrites]
    unfold writeQuery
    simp only [if_neg (mt (queryFlags_extraAuth token).mp hnil)]
    exact hfields

/-- A name or a payload over its limit is not sent. -/
theorem writeQuery_over (w : Writer)
    (h : 254 < methodName.length ∨ config.maxMessageSize.toNat < output.length) :
    (writeQuery config requestId methodName output token w).1 = false := by
  have hlast : ∀ w : Writer, (andThen (w.writeStringEx 1 methodName (defaultMax 1)) fun w =>
      w.writeStringEx 4 output config.maxMessageSize.toNat).1 = false := by
    intro w
    obtain hmethod | houtput := h
    · exact andThen_of_false (writeStringEx_over hmethod w) _
    · exact andThen_of_next_false (writeStringEx_over houtput) _
  have hflags : ∀ w : Writer, (andThen (w.writeU 1 (queryFlags token).toNat) _).1 = false :=
    fun w => andThen_of_next_false hlast (w.writeU 1 (queryFlags token).toNat)
  have hid : ∀ w : Writer, (andThen (w.writeU 8 requestId.toNat) _).1 = false :=
    fun w => andThen_of_next_false hflags (w.writeU 8 requestId.toNat)
  have hfields := andThen_of_next_false hid (w.writeU 1 letterQ.toNat)
  unfold writeQuery
  dsimp only
  split_ifs
  · exact andThen_of_false hfields _
  · exact hfields

/-- `executeTask` gets its frame through exactly when the name and the payload are within their
limits and no write fails. -/
theorem writeQuery_ok_iff (config : Config) (requestId : UInt64)
    (methodName output token : List UInt8) (w : Writer) :
    (writeQuery config requestId methodName output token w).1 = true ↔
      methodName.length ≤ 254 ∧ output.length ≤ config.maxMessageSize.toNat ∧
        w.Working (queryWrites methodName output token) := by
  by_cases hlimits : methodName.length ≤ 254 ∧ output.length ≤ config.maxMessageSize.toNat
  · rw [(sends_writeQuery hlimits.1 hlimits.2).fst_iff w]
    exact ⟨fun h => ⟨hlimits.1, hlimits.2, h⟩, fun h => h.2.2⟩
  · have hover : 254 < methodName.length ∨ config.maxMessageSize.toNat < output.length := by
      omega
    rw [writeQuery_over w hover]
    exact ⟨fun h => absurd h Bool.false_ne_true, fun h => absurd ⟨h.1, h.2.1⟩ hlimits⟩

/-! ## A query is read -/

/-- The bytes of a query behind its letter. -/
def queryBody (requestId : UInt64) (methodName output tokenField : List UInt8) (flags : UInt8) :
    List UInt8 :=
  BigEndian.encode 8 requestId.toNat ++ (BigEndian.encode 1 flags.toNat ++
    (blockBytes 1 methodName ++ (blockBytes 4 output ++ tokenField)))

/-- The fields before the payload are read as they were written. -/
theorem readExecutionRequest_fields (hid : requestId ≠ 0) (hmethod : methodName.length ≤ 254)
    {flags : UInt8} (hflags : flags.toNat ≠ 0) (rest : List UInt8) :
    readExecutionRequest config (queryBody requestId methodName output rest flags)
      = match readBlockWAllocEx 4 config.maxMessageSize.toNat (blockBytes 4 output ++ rest) with
        | (.failed, _, s) => (.error .failedReadingPayload, s)
        | (.outOfBounds, _, s) => (.outOfBounds, s)
        | (.read payloadBytes, maxAlloc, s) =>
          match readExtraAuthToken flags maxAlloc s with
          | (.error ret, s) => (.error ret, s)
          | (.outOfBounds, s) => (.outOfBounds, s)
          | (.ok extraAuthToken, s) =>
            (.ok ⟨requestId, flags, methodName, payloadBytes, extraAuthToken⟩, s) := by
  have hidNat : requestId.toNat ≠ 0 := by
    intro h
    exact hid (UInt64.toNat_inj.mp h)
  have hidFits : requestId.toNat < 256 ^ 8 := requestId.toNat_lt
  have hflagsFits : flags.toNat < 256 ^ 1 := flags.toNat_lt
  have hmethodRoom : methodName.length + 1 < 256 ^ 1 := by omega
  have hmethodRead : readStringEx 1 (defaultMax 1)
      (blockBytes 1 methodName ++ (blockBytes 4 output ++ rest))
        = (.read methodName, blockBytes 4 output ++ rest) :=
    readStringEx_blockBytes (by omega) (allocated_of_lt hmethodRoom) hmethod _
  rw [readExecutionRequest, queryBody]
  simp only [readU_encode hidFits, readU_encode hflagsFits, if_neg hidNat, if_neg hflags,
    hmethodRead, UInt64.ofNat_toNat, UInt8.ofNat_toNat]

/-- A payload with a buffer is read as it was written, and the token is read under its length. -/
theorem readExecutionRequest_queryBody (hid : requestId ≠ 0) (hmethod : methodName.length ≤ 254)
    (houtput : output.length ≤ config.maxMessageSize.toNat) (hroom : output.length + 1 < 2 ^ 32)
    {flags : UInt8} (hflags : flags.toNat ≠ 0) (rest : List UInt8) :
    readExecutionRequest config (queryBody requestId methodName output rest flags)
      = match readExtraAuthToken flags output.length rest with
        | (.error ret, s) => (.error ret, s)
        | (.outOfBounds, s) => (.outOfBounds, s)
        | (.ok extraAuthToken, s) =>
          (.ok ⟨requestId, flags, methodName, output, extraAuthToken⟩, s) := by
  rw [readExecutionRequest_fields hid hmethod hflags,
    readBlockWAllocEx_blockBytes (length_fits houtput) (allocated_of_lt hroom) houtput]

/-- A payload of the maximum length is written behind its buffer. -/
theorem readExecutionRequest_wraps (hid : requestId ≠ 0) (hmethod : methodName.length ≤ 254)
    (houtput : output.length ≤ config.maxMessageSize.toNat) (hroom : ¬ output.length + 1 < 2 ^ 32)
    {flags : UInt8} (hflags : flags.toNat ≠ 0) (rest : List UInt8) :
    (readExecutionRequest config (queryBody requestId methodName output rest flags)).1
      = .outOfBounds := by
  have hfits : output.length < 2 ^ 32 := length_fits houtput
  have hmaximum : output.length = 256 ^ 4 - 1 := by omega
  have hwraps : allocated 4 output.length < output.length + 1 := by
    rw [hmaximum, allocated_wraps le_rfl]
    decide
  have hread := readBlockWAllocEx_wraps hfits hwraps houtput rest
  obtain ⟨data, maxAlloc, s, hpayload⟩ : ∃ data maxAlloc s,
    readBlockWAllocEx 4 config.maxMessageSize.toNat (blockBytes 4 output ++ rest)
      = (data, maxAlloc, s) := ⟨_, _, _, rfl⟩
  rw [hpayload] at hread
  obtain rfl : data = .outOfBounds := hread
  rw [readExecutionRequest_fields hid hmethod hflags, hpayload]

/-- A query is taken for a query. -/
theorem readMessage_queryFrame (rest : List UInt8) :
    readMessage config (queryFrame requestId methodName output token ++ rest)
      = (.query (readExecutionRequest config
          (queryBody requestId methodName output (tokenBytes token ++ rest)
            (queryFlags token))).1,
        (readExecutionRequest config
          (queryBody requestId methodName output (tokenBytes token ++ rest)
            (queryFlags token))).2) := by
  have hletter : letterQ.toNat < 256 ^ 1 := letterQ.toNat_lt
  have hne : letterQ.toNat ≠ letterA.toNat := by decide
  have hbody : queryFrame requestId methodName output token ++ rest
      = BigEndian.encode 1 letterQ.toNat ++ queryBody requestId methodName output
          (tokenBytes token ++ rest) (queryFlags token) := by
    simp [queryFrame, queryBody]
  rw [hbody, readMessage]
  simp only [readU_encode hletter, if_neg hne, if_true]

/-- Without a token nothing more is read. -/
theorem readExtraAuthToken_nil (maxAlloc : ℕ) (rest : List UInt8) :
    readExtraAuthToken (queryFlags []) maxAlloc (tokenBytes [] ++ rest) = (.ok none, rest) := by
  rfl

/-- What is read of a token: what `c_str()` showed of it, if the limit allows that. -/
theorem readExtraAuthToken_token (hne : token ≠ []) {maxAlloc : ℕ}
    (hroom : (cStr token).length + 1 < 2 ^ 32) (hmax : (cStr token).length ≤ maxAlloc)
    (rest : List UInt8) :
    readExtraAuthToken (queryFlags token) maxAlloc (tokenBytes token ++ rest)
      = (.ok (some (cStr token)), rest) := by
  have hfits : (cStr token).length < 256 ^ 4 := Nat.lt_of_succ_lt hroom
  rw [readExtraAuthToken, if_pos ((queryFlags_extraAuth token).mpr hne), tokenBytes, if_pos hne,
    readBlockWAllocEx_blockBytes hfits (allocated_of_lt hroom) hmax]

/-- A token over the limit is refused. -/
theorem readExtraAuthToken_over (hne : token ≠ [])
    (htoken : token.length ≤ config.maxMessageSize.toNat) {maxAlloc : ℕ}
    (hmax : maxAlloc < (cStr token).length) (rest : List UInt8) :
    (readExtraAuthToken (queryFlags token) maxAlloc (tokenBytes token ++ rest)).1
      = .error .failedReadingExtraAuth := by
  have hfits : (cStr token).length < 256 ^ 4 :=
    Nat.lt_of_le_of_lt (length_cStr_le token) (length_fits htoken)
  have hover := readBlockWAllocEx_over hfits hmax rest
  obtain ⟨data, maxAlloc', s, hread⟩ : ∃ data maxAlloc' s,
    readBlockWAllocEx 4 maxAlloc (blockBytes 4 (cStr token) ++ rest) = (data, maxAlloc', s) :=
      ⟨_, _, _, rfl⟩
  rw [hread] at hover
  obtain rfl : data = .failed := hover
  rw [readExtraAuthToken, if_pos ((queryFlags_extraAuth token).mpr hne), tokenBytes, if_pos hne,
    hread]

/-- `c_str()` shows the whole string exactly when it has no null. -/
theorem cStr_eq_self_iff (s : List UInt8) : cStr s = s ↔ 0 ∉ s := by
  rw [cStr, Cut.takeWhile_ne_eq_self_iff]

/-- The query as the receiver should see it. -/
def sentRequest (requestId : UInt64) (methodName output token : List UInt8) : ExecutionRequest :=
  ⟨requestId, queryFlags token, methodName, output, if token ≠ [] then some token else none⟩

/-- **Round trip of a query.**  What `executeTask` writes is read back as the same query, with
nothing read behind it, exactly when the payload has a buffer, and there is no token, or the token
has no null and is no longer than the payload. -/
theorem queryFrame_roundTrip_iff (config : Config) (requestId : UInt64) (hid : requestId ≠ 0)
    (methodName : List UInt8) (hmethod : methodName.length ≤ 254) (output : List UInt8)
    (houtput : output.length ≤ config.maxMessageSize.toNat) (token : List UInt8)
    (htoken : token.length ≤ config.maxMessageSize.toNat) (rest : List UInt8) :
    readMessage config ((writeQuery config requestId methodName output token {}).2.sent ++ rest)
        = (.query (.ok (sentRequest requestId methodName output token)), rest)
      ↔ output.length + 1 < 2 ^ 32 ∧
        (token = [] ∨ 0 ∉ token ∧ token.length ≤ output.length) := by
  have hsent : (writeQuery config requestId methodName output token {}).2.sent
      = queryFrame requestId methodName output token := by
    have hsends : Sends (writeQuery config requestId methodName output token)
        (queryFrame requestId methodName output token) (queryWrites methodName output token) :=
      sends_writeQuery hmethod houtput
    rw [(hsends {}).1 (fun _ _ => rfl)]
    rfl
  rw [hsent, readMessage_queryFrame]
  by_cases hroom : output.length + 1 < 2 ^ 32
  swap
  · -- The payload is written behind its buffer.
    have hwraps := readExecutionRequest_wraps hid hmethod houtput hroom (queryFlags_ne_zero token)
      (tokenBytes token ++ rest)
    rw [hwraps]
    refine ⟨fun h => ?_, fun h => absurd h.1 hroom⟩
    cases h
  rw [and_iff_right hroom,
    readExecutionRequest_queryBody hid hmethod houtput hroom (queryFlags_ne_zero token)]
  by_cases hnil : token = []
  · subst hnil
    rw [readExtraAuthToken_nil]
    exact ⟨fun _ => .inl rfl, fun _ => rfl⟩
  by_cases hmax : (cStr token).length ≤ output.length
  · rw [readExtraAuthToken_token hnil (by omega) hmax]
    simp only [sentRequest, if_pos hnil, Prod.mk.injEq, Message.query.injEq, Reading.ok.injEq,
      ExecutionRequest.mk.injEq, Option.some.injEq, true_and, and_true, cStr_eq_self_iff, hnil,
      false_or]
    constructor
    · intro hnull
      refine ⟨hnull, ?_⟩
      rwa [(cStr_eq_self_iff token).mpr hnull] at hmax
    · exact And.left
  · have hover := readExtraAuthToken_over hnil htoken (Nat.not_le.mp hmax) rest
    constructor
    · intro h
      exfalso
      revert h
      obtain ⟨r, s, hr⟩ : ∃ r s, readExtraAuthToken (queryFlags token) output.length
        (tokenBytes token ++ rest) = (r, s) := ⟨_, _, rfl⟩
      rw [hr] at hover ⊢
      subst hover
      simp
    · rintro (h | ⟨hnull, hle⟩)
      · exact absurd h hnil
      · rw [(cStr_eq_self_iff token).mpr hnull] at hmax
        exact absurd hle hmax

/-- A query with a token as long as its payload. -/
theorem queryFrame_roundTrip_short :
    readMessage {} ((writeQuery {} 7 [112] [123, 125] [97, 98] {}).2.sent ++ [65])
      = (.query (.ok (sentRequest 7 [112] [123, 125] [97, 98])), [65]) :=
  (queryFrame_roundTrip_iff {} 7 (by decide) [112] (by decide) [123, 125] (by decide) [97, 98]
    (by decide) [65]).mpr ⟨by decide, .inr ⟨by decide, by decide⟩⟩

/-- A token of three bytes behind the payload `{}`: the receiver closes the connection. -/
theorem token_longer_than_payload_refused :
    readMessage {} ((writeQuery {} 7 [112] [123, 125] [97, 98, 99] {}).2.sent ++ [])
        = (.query (.error .failedReadingExtraAuth), [97, 98, 99])
      ∧ readMessage {} ((writeQuery {} 7 [112] [123, 125] [97, 98, 99] {}).2.sent ++ [])
        ≠ (.query (.ok (sentRequest 7 [112] [123, 125] [97, 98, 99])), []) := by
  have hread : readMessage {} ((writeQuery {} 7 [112] [123, 125] [97, 98, 99] {}).2.sent ++ [])
      = (.query (.error .failedReadingExtraAuth), [97, 98, 99]) := by rfl
  refine ⟨hread, ?_⟩
  rw [hread]
  simp

end FastRPC3

end Mantids
