/-
# The stream between two FastRPC3 peers

Everything a peer writes goes on one stream: queries, answers, and the zero byte of a remote close.
The other peer reads it message by message.  A write that fails shuts the socket down
(`Socket_Stream::writeFull`), so at most the last message of a stream is cut off.

* `Frame` — what a peer writes, with its bytes and what the other side makes of it;
* `stable_readIncoming`, `delimited_bytes` — messages are read off the stream one by one;
* `Leaves` — what an operation leaves on the stream, whether it gets through or not.
-/
import Mantids.FastRpcErrorAnswer
import Mantids.Lib.Framing

namespace Mantids

/-! ## Reading a part of a stream -/

namespace SocketStream

/-- A number that has arrived as a whole is not changed by what arrives behind it. -/
theorem readU_append {size : ℕ} {s : List UInt8} (h : size ≤ s.length) (t : List UInt8) :
    readU size (s ++ t) = ((readU size s).1, true, (readU size s).2.2 ++ t) := by
  have hle : size ≤ (s ++ t).length := by
    rw [List.length_append]
    omega
  simp only [readU, List.take_append_of_le_length h, List.drop_append_of_le_length h,
    decide_eq_true hle, Nat.sub_eq_zero_of_le h, Nat.sub_eq_zero_of_le hle]

/-- Nothing is left behind a number that is cut off. -/
theorem rest_readU_of_short {size : ℕ} {s : List UInt8} (h : s.length < size) :
    (readU size s).2.2 = [] :=
  List.drop_eq_nil_of_le (Nat.le_of_lt h)

theorem readBlockWAllocEx_nil {size : ℕ} (hsize : 0 < size) (datalen : ℕ) :
    (readBlockWAllocEx size datalen []).1 = .failed := by
  have hshort : decide (size ≤ ([] : List UInt8).length) = false :=
    decide_eq_false (Nat.not_le.mpr hsize)
  simp only [readBlockWAllocEx, readU, hshort, Bool.false_eq_true, if_false]

/-- A block that was read is not changed by what arrives behind it. -/
theorem readBlockWAllocEx_append {size datalen maxAlloc : ℕ} {s data rest : List UInt8}
    (h : readBlockWAllocEx size datalen s = (.read data, maxAlloc, rest)) (t : List UInt8) :
    readBlockWAllocEx size datalen (s ++ t) = (.read data, maxAlloc, rest ++ t) := by
  by_cases hsize : size ≤ s.length
  · have hok : (readU size s).2.1 = true := decide_eq_true hsize
    simp only [readBlockWAllocEx, hok, if_true] at h
    simp only [readBlockWAllocEx, readU_append hsize, if_true]
    split_ifs at h with hlong hwraps hzero hle
    · cases h
    · cases h
    · rw [if_neg hlong, if_neg hwraps, if_pos hzero]
      cases h
      rfl
    · have hle' : (readU size s).1 ≤ ((readU size s).2.2 ++ t).length := by
        rw [List.length_append]
        exact Nat.le_trans hle (Nat.le_add_right _ _)
      rw [if_neg hlong, if_neg hwraps, if_neg hzero, if_pos hle',
        List.take_append_of_le_length hle, List.drop_append_of_le_length hle]
      cases h
      rfl
    · cases h
  · have hok : (readU size s).2.1 = false := decide_eq_false hsize
    simp only [readBlockWAllocEx, hok, Bool.false_eq_true, if_false] at h
    cases h

theorem readStringEx_append {size maxLength : ℕ} {s str rest : List UInt8}
    (h : readStringEx size maxLength s = (.read str, rest)) (t : List UInt8) :
    readStringEx size maxLength (s ++ t) = (.read str, rest ++ t) := by
  obtain ⟨data, maxAlloc, s', hread⟩ : ∃ data maxAlloc s',
    readBlockWAllocEx size maxLength s = (data, maxAlloc, s') := ⟨_, _, _, rfl⟩
  simp only [readStringEx, hread] at h
  cases h
  simp only [readStringEx, readBlockWAllocEx_append hread]

end SocketStream

namespace FastRPC3

open SocketStream SocketStream.Writer Framing

theorem readExtraAuthToken_append {flags : UInt8} {maxAlloc : ℕ} {s rest : List UInt8}
    {extraAuthToken : Option (List UInt8)}
    (h : readExtraAuthToken flags maxAlloc s = (.ok extraAuthToken, rest)) (t : List UInt8) :
    readExtraAuthToken flags maxAlloc (s ++ t) = (.ok extraAuthToken, rest ++ t) := by
  unfold readExtraAuthToken at h ⊢
  split_ifs at h ⊢
  · obtain ⟨data, maxAlloc', s', hread⟩ : ∃ data maxAlloc' s',
      readBlockWAllocEx 4 maxAlloc s = (data, maxAlloc', s') := ⟨_, _, _, rfl⟩
    simp only [hread] at h
    cases data with
    | failed => cases h
    | outOfBounds => cases h
    | read data =>
      cases h
      simp only [readBlockWAllocEx_append hread]
  · cases h
    rfl

/-- A query that was read is not changed by what arrives behind it: a number that is cut off leaves
nothing for the fields behind it. -/
theorem readExecutionRequest_append {config : Config} {s rest : List UInt8} {q : ExecutionRequest}
    (h : readExecutionRequest config s = (.ok q, rest)) (t : List UInt8) :
    readExecutionRequest config (s ++ t) = (.ok q, rest ++ t) := by
  obtain ⟨s₁, s₂, maxAlloc, hq⟩ := readExecutionRequest_ok_iff.mp h
  have hid : 8 ≤ s.length := by
    by_contra hshort
    apply hq.flags_ne
    rw [rest_readU_of_short (Nat.not_le.mp hshort)]
    rfl
  have hflags : 1 ≤ (readU 8 s).2.2.length := by
    by_contra hshort
    apply hq.flags_ne
    rw [List.length_eq_zero_iff.mp (Nat.lt_one_iff.mp (Nat.not_le.mp hshort))]
    rfl
  refine readExecutionRequest_ok_iff.mpr ⟨s₁ ++ t, s₂ ++ t, maxAlloc, ?_⟩
  constructor
  case methodName =>
    rw [readU_append hid, readU_append hflags]
    exact readStringEx_append hq.methodName t
  case payloadBytes => exact readBlockWAllocEx_append hq.payloadBytes t
  case extraAuthToken => exact readExtraAuthToken_append hq.extraAuthToken t
  all_goals simp only [readU_append hid, readU_append hflags]
  · exact hq.requestId_ne
  · exact hq.requestId
  · exact hq.flags_ne
  · exact hq.flags

theorem readAnswer_append {config : Config} {s rest : List UInt8} {f : AnswerFrame}
    (h : readAnswer config s = (.ok f, rest)) (t : List UInt8) :
    readAnswer config (s ++ t) = (.ok f, rest ++ t) := by
  have hfailed : (readBlockWAllocEx 4 config.maxMessageSize.toNat []).1 = .failed :=
    readBlockWAllocEx_nil (by decide) _
  -- What is cut off leaves nothing for the text.
  have htext : (readU 1 (readU 8 s).2.2).2.2 ≠ [] := by
    intro hnil
    simp only [readAnswer, hnil] at h
    split_ifs at h
    · cases h
    · split at h
      · cases h
      · cases h
      · rename_i hread
        rw [hread] at hfailed
        cases hfailed
  have hid : 8 ≤ s.length := by
    by_contra hshort
    apply htext
    rw [rest_readU_of_short (Nat.not_le.mp hshort)]
    rfl
  have hstatus : 1 ≤ (readU 8 s).2.2.length := by
    by_contra hshort
    exact htext (rest_readU_of_short (Nat.not_le.mp hshort))
  simp only [readAnswer] at h
  simp only [readAnswer, readU_append hid, readU_append hstatus]
  split_ifs at h ⊢
  · cases h
  · split at h
    · cases h
    · cases h
    · rename_i payloadBytes maxAlloc s' hpayload
      rw [readBlockWAllocEx_append hpayload]
      cases h
      rfl

/-- A message that the loop of `handleConnection` goes on after. -/
inductive Incoming where
  | answer (f : AnswerFrame)
  | query (q : ExecutionRequest)

/-- What one turn of the loop reads, if that is an answer or a query. -/
def readIncoming (config : Config) (s : List UInt8) : Option (Incoming × List UInt8) :=
  match readMessage config s with
  | (.answer (.ok f), rest) => some (.answer f, rest)
  | (.query (.ok q), rest) => some (.query q, rest)
  | _ => none

/-- **The reader does not look ahead.**  An answer or a query is read in the same way whatever
arrives behind it, and none is read of one that is cut off. -/
theorem stable_readIncoming (config : Config) : Stable (readIncoming config) := by
  constructor
  · intro s rest m h t
    have htype : 1 ≤ s.length := by
      by_contra hshort
      have hnil : s = [] := List.length_eq_zero_iff.mp (by omega)
      subst hnil
      cases h
    simp only [readIncoming, readMessage] at h
    simp only [readIncoming, readMessage, readU_append htype]
    split_ifs at h ⊢
    · obtain ⟨r, s', hread⟩ : ∃ r s', readAnswer config (readU 1 s).2.2 = (r, s') := ⟨_, _, rfl⟩
      simp only [hread] at h
      cases r with
      | error e => cases h
      | outOfBounds => cases h
      | ok f =>
        cases h
        simp only [readAnswer_append hread]
    · obtain ⟨r, s', hread⟩ : ∃ r s', readExecutionRequest config (readU 1 s).2.2 = (r, s') :=
        ⟨_, _, rfl⟩
      simp only [hread] at h
      cases r with
      | error e => cases h
      | outOfBounds => cases h
      | ok q =>
        cases h
        simp only [readExecutionRequest_append hread]
  · rfl

/-! ## The frames on a stream -/

/-- A token as the other side sees it: what `c_str()` shows of it, cut to the length that goes
out. -/
def wireToken (token : List UInt8) : List UInt8 :=
  (cStr token).take ((cStr token).length % 256 ^ 4)

theorem length_wireToken_lt (token : List UInt8) : (wireToken token).length < 256 ^ 4 := by
  have hmod : (cStr token).length % 256 ^ 4 < 256 ^ 4 := Nat.mod_lt _ (by decide)
  rw [wireToken, List.length_take]
  exact Nat.lt_of_le_of_lt (Nat.min_le_left _ _) hmod

theorem tokenBytes_eq {token : List UInt8} (hne : token ≠ []) :
    tokenBytes token = blockBytes 4 (wireToken token) := by
  have hlength : (wireToken token).length = (cStr token).length % 256 ^ 4 := by
    rw [wireToken, List.length_take]
    exact Nat.min_eq_left (Nat.mod_le _ _)
  rw [tokenBytes, if_pos hne, blockBytes_of_fits (length_wireToken_lt token), hlength]
  rfl

/-- What a peer writes on the stream: a query with the arguments of its call, an answer with its
text, or the byte of a remote close. -/
inductive Frame where
  | query (requestId : UInt64) (args : CallArgs)
  | answer (requestId : UInt64) (executionStatus : UInt8) (text : List UInt8)
  | close

namespace Frame

def bytes : Frame → List UInt8
  | query requestId args =>
    queryFrame requestId args.methodName args.output args.extraJWTTokenAuth
  | answer requestId executionStatus text => answerBytes requestId executionStatus text
  | close => BigEndian.encode 1 0

/-- The frame has an id, and its fields are not longer than their lengths can say. -/
def Fits : Frame → Prop
  | query requestId args =>
    requestId ≠ 0 ∧ args.methodName.length ≤ 254 ∧ args.output.length < 256 ^ 4
  | answer requestId _ text => requestId ≠ 0 ∧ text.length < 256 ^ 4
  | close => True

/-- What the other side makes of the frame if it takes it. -/
def incoming : Frame → Option Incoming
  | query requestId args =>
    some (.query
      { requestId := requestId
        flags := queryFlags args.extraJWTTokenAuth
        methodName := args.methodName
        payloadBytes := args.output
        extraAuthToken :=
          if args.extraJWTTokenAuth ≠ [] then some (wireToken args.extraJWTTokenAuth) else none })
  | answer requestId executionStatus text => some (.answer ⟨requestId, executionStatus, text⟩)
  | close => none

end Frame

/-- A token that is read is the one on the wire. -/
theorem readExtraAuthToken_eq {token t rest : List UInt8} {maxAlloc : ℕ}
    {extraAuthToken : Option (List UInt8)}
    (h : readExtraAuthToken (queryFlags token) maxAlloc (tokenBytes token ++ t)
      = (.ok extraAuthToken, rest)) :
    extraAuthToken = (if token ≠ [] then some (wireToken token) else none) ∧ rest = t := by
  by_cases hne : token ≠ []
  · rw [readExtraAuthToken, if_pos ((queryFlags_extraAuth token).mpr hne), tokenBytes_eq hne] at h
    obtain ⟨data, maxAlloc', s, hread⟩ : ∃ data maxAlloc' s,
      readBlockWAllocEx 4 maxAlloc (blockBytes 4 (wireToken token) ++ t) = (data, maxAlloc', s) :=
        ⟨_, _, _, rfl⟩
    rw [hread] at h
    cases data with
    | failed => cases h
    | outOfBounds => cases h
    | read data =>
      obtain ⟨rfl, rfl, rfl⟩ := eq_of_readBlockWAllocEx (length_wireToken_lt token) hread
      cases h
      exact ⟨(if_pos hne).symm, rfl⟩
  · rw [not_not] at hne
    subst hne
    rw [readExtraAuthToken_nil] at h
    cases h
    exact ⟨rfl, rfl⟩

theorem readIncoming_query {config : Config} {requestId : UInt64} {args : CallArgs}
    (h : (Frame.query requestId args).Fits) {t rest : List UInt8} {m : Incoming}
    (hread : readIncoming config ((Frame.query requestId args).bytes ++ t) = some (m, rest)) :
    rest = t ∧ (Frame.query requestId args).incoming = some m := by
  obtain ⟨hid, hmethod, houtput⟩ := h
  have hflags := queryFlags_ne_zero args.extraJWTTokenAuth
  simp only [readIncoming, Frame.bytes, readMessage_queryFrame] at hread
  rw [readExecutionRequest_fields hid hmethod hflags] at hread
  obtain ⟨data, maxAlloc, s, hpayload⟩ : ∃ data maxAlloc s,
    readBlockWAllocEx 4 config.maxMessageSize.toNat
      (blockBytes 4 args.output ++ (tokenBytes args.extraJWTTokenAuth ++ t))
        = (data, maxAlloc, s) := ⟨_, _, _, rfl⟩
  rw [hpayload] at hread
  cases data with
  | failed => cases hread
  | outOfBounds => cases hread
  | read payloadBytes =>
    obtain ⟨rfl, rfl, rfl⟩ := eq_of_readBlockWAllocEx houtput hpayload
    obtain ⟨extraAuthToken, s, htoken⟩ : ∃ extraAuthToken s, readExtraAuthToken
      (queryFlags args.extraJWTTokenAuth) args.output.length
      (tokenBytes args.extraJWTTokenAuth ++ t) = (extraAuthToken, s) := ⟨_, _, rfl⟩
    dsimp only at hread
    rw [htoken] at hread
    cases extraAuthToken with
    | error ret => cases hread
    | outOfBounds => cases hread
    | ok extraAuthToken =>
      obtain ⟨rfl, rfl⟩ := readExtraAuthToken_eq htoken
      cases hread
      exact ⟨rfl, rfl⟩

theorem readIncoming_answer {config : Config} {requestId : UInt64} {executionStatus : UInt8}
    {text : List UInt8} (h : (Frame.answer requestId executionStatus text).Fits)
    {t rest : List UInt8} {m : Incoming}
    (hread : readIncoming config ((Frame.answer requestId executionStatus text).bytes ++ t)
      = some (m, rest)) :
    rest = t ∧ (Frame.answer requestId executionStatus text).incoming = some m := by
  obtain ⟨hid, htext⟩ := h
  rw [Frame.bytes, readIncoming, readMessage_fields hid] at hread
  obtain ⟨data, maxAlloc, s, hpayload⟩ : ∃ data maxAlloc s,
    readBlockWAllocEx 4 config.maxMessageSize.toNat (blockBytes 4 text ++ t)
      = (data, maxAlloc, s) := ⟨_, _, _, rfl⟩
  rw [hpayload] at hread
  cases data with
  | failed => cases hread
  | outOfBounds => cases hread
  | read payloadBytes =>
    obtain ⟨rfl, rfl, rfl⟩ := eq_of_readBlockWAllocEx htext hpayload
    cases hread
    exact ⟨rfl, rfl⟩

/-- **Frames are read one by one.**  What is read of a stream that begins with a frame is that
frame, and what is behind the frame is left. -/
theorem readIncoming_bytes {config : Config} {frame : Frame} (h : frame.Fits)
    {t rest : List UInt8} {m : Incoming}
    (hread : readIncoming config (frame.bytes ++ t) = some (m, rest)) :
    rest = t ∧ frame.incoming = some m := by
  cases frame with
  | query requestId args => exact readIncoming_query h hread
  | answer requestId executionStatus text => exact readIncoming_answer h hread
  | close =>
    have hzero : (0 : ℕ) < 256 ^ 1 := by decide
    have hclose : readMessage config (Frame.close.bytes ++ t) = (.ended .shutdownOk, t) := by
      rw [Frame.bytes, readMessage]
      simp only [readU_encode hzero, if_true]
      rfl
    rw [readIncoming, hclose] at hread
    cases hread

theorem delimited_bytes (config : Config) {frame : Frame} (h : frame.Fits) :
    Delimited (readIncoming config) frame.bytes := by
  intro t rest m hread
  exact (readIncoming_bytes h hread).1

/-! ## What a write leaves on the stream -/

/-- Nothing gets onto the stream any more. -/
def Shut (w : Writer) : Prop := ∀ n, w.writes ≤ n → w.fails n = some 0

/-- A write that fails shuts the socket down: all later ones fail, and none of their bytes
leave. -/
def ShutsDown (fails : ℕ → Option ℕ) : Prop :=
  ∀ m n, m < n → fails m ≠ none → fails n = some 0

/-- From one writer to the next, a part of the data gets onto the stream: all of it if the operation
succeeds, and nothing if the socket was shut down. -/
structure Leaves (w w' : Writer) (ok : Bool) (data part : List UInt8) : Prop where
  sent : w'.sent = w.sent ++ part
  isPrefix : part <+: data
  whole : ok = true → part = data
  shut : Shut w → part = []
  fails : w'.fails = w.fails
  writes : w.writes ≤ w'.writes

/-- An operation that leaves a part of its data on the stream. -/
def Puts (op : Writer → Bool × Writer) (data : List UInt8) : Prop :=
  ∀ w, ∃ part, Leaves w (op w).2 (op w).1 data part

/-- An operation that only fails when the socket is shut down. -/
def Closes (op : Writer → Bool × Writer) : Prop :=
  ∀ w, ShutsDown w.fails → (op w).1 = false → Shut (op w).2

/-- A socket that is shut down stays shut down. -/
theorem Leaves.stays_shut {w w' : Writer} {ok : Bool} {data part : List UInt8}
    (h : Leaves w w' ok data part) (hshut : Shut w) : Shut w' := by
  intro n hn
  rw [h.fails]
  exact hshut n (h.writes.trans hn)

theorem puts_nothing (ok : Bool) : Puts (fun w => (ok, w)) [] :=
  fun _ => ⟨[], (List.append_nil _).symm, List.prefix_rfl, fun _ => rfl, fun _ => rfl, rfl, le_rfl⟩

theorem closes_true : Closes fun w => (true, w) := by
  intro w _ hfalse
  cases hfalse

theorem puts_writeFull (data : List UInt8) : Puts (fun w => w.writeFull data) data := by
  intro w
  show ∃ part, Leaves w (w.writeFull data).2 (w.writeFull data).1 data part
  unfold Writer.writeFull
  cases hfails : w.fails w.writes with
  | none =>
    refine ⟨data, rfl, List.prefix_rfl, fun _ => rfl, fun hshut => ?_, rfl, Nat.le_succ _⟩
    have hsome := hshut w.writes le_rfl
    rw [hfails] at hsome
    cases hsome
  | some n =>
    refine ⟨data.take n, rfl, List.take_prefix n data, fun hfalse => ?_, fun hshut => ?_, rfl,
      Nat.le_succ _⟩
    · cases hfalse
    · have hzero := hshut w.writes le_rfl
      rw [hfails] at hzero
      rw [Option.some.inj hzero, List.take_zero]

theorem closes_writeFull (data : List UInt8) : Closes fun w => w.writeFull data := by
  intro w hdown hfalse
  change (w.writeFull data).1 = false at hfalse
  show Shut (w.writeFull data).2
  unfold Writer.writeFull at hfalse ⊢
  cases hfails : w.fails w.writes with
  | none =>
    rw [hfails] at hfalse
    cases hfalse
  | some k =>
    intro n hn
    apply hdown w.writes n hn
    rw [hfails]
    exact Option.some_ne_none k

theorem Puts.andThen {op next : Writer → Bool × Writer} {d e : List UInt8} (hop : Puts op d)
    (hnext : Puts next e) : Puts (fun w => Writer.andThen (op w) next) (d ++ e) := by
  intro w
  show ∃ part, Leaves w (Writer.andThen (op w) next).2 (Writer.andThen (op w) next).1 (d ++ e) part
  obtain ⟨part, hpart⟩ := hop w
  unfold Writer.andThen
  split_ifs with hok
  · obtain ⟨part', hpart'⟩ := hnext (op w).2
    refine ⟨part ++ part', ?_, ?_, ?_, ?_, ?_, hpart.writes.trans hpart'.writes⟩
    · rw [hpart'.sent, hpart.sent, List.append_assoc]
    · rw [hpart.whole hok]
      exact (List.prefix_append_right_inj d).mpr hpart'.isPrefix
    · intro htrue
      rw [hpart.whole hok, hpart'.whole htrue]
    · intro hshut
      rw [hpart.shut hshut, hpart'.shut (hpart.stays_shut hshut), List.append_nil]
    · rw [hpart'.fails, hpart.fails]
  · refine ⟨part, hpart.sent, hpart.isPrefix.trans (List.prefix_append d e), fun htrue => ?_,
      hpart.shut, hpart.fails, hpart.writes⟩
    exact absurd htrue hok

theorem Closes.andThen {op next : Writer → Bool × Writer} {d : List UInt8} (hputs : Puts op d)
    (hop : Closes op) (hnext : Closes next) :
    Closes fun w => Writer.andThen (op w) next := by
  intro w hdown hfalse
  change (Writer.andThen (op w) next).1 = false at hfalse
  show Shut (Writer.andThen (op w) next).2
  obtain ⟨part, hpart⟩ := hputs w
  unfold Writer.andThen at hfalse ⊢
  split_ifs at hfalse ⊢ with hok
  · exact hnext (op w).2 (by rw [hpart.fails]; exact hdown) hfalse
  · exact hop w hdown hfalse

/-- An operation that gets its data onto the stream unless the socket is shut down. -/
structure Writes (op : Writer → Bool × Writer) (data : List UInt8) : Prop where
  puts : Puts op data
  closes : Closes op

theorem writes_writeFull (data : List UInt8) : Writes (fun w => w.writeFull data) data :=
  ⟨puts_writeFull data, closes_writeFull data⟩

theorem writes_writeU (size c : ℕ) :
    Writes (fun w => w.writeU size c) (BigEndian.encode size c) :=
  writes_writeFull _

theorem Writes.andThen {op next : Writer → Bool × Writer} {d e : List UInt8} (hop : Writes op d)
    (hnext : Writes next e) : Writes (fun w => Writer.andThen (op w) next) (d ++ e) :=
  ⟨hop.puts.andThen hnext.puts, Closes.andThen hop.puts hop.closes hnext.closes⟩

theorem writes_writeBlockEx (size : ℕ) (data : List UInt8) :
    Writes (fun w => w.writeBlockEx size data) (blockBytes size data) := by
  simp only [Writer.writeBlockEx]
  by_cases hnil : data.length % 256 ^ size = 0
  · simp only [if_pos hnil]
    rw [blockBytes, hnil, List.take_zero]
    exact (writes_writeU size 0).andThen ⟨puts_nothing true, closes_true⟩
  · simp only [if_neg hnil]
    exact (writes_writeU size _).andThen (writes_writeFull _)

theorem writes_writeStringEx (size : ℕ) {maxSize : ℕ} {str : List UInt8}
    (hmax : str.length ≤ maxSize) :
    Writes (fun w => w.writeStringEx size str maxSize) (blockBytes size str) := by
  simp only [Writer.writeStringEx, if_neg (Nat.not_lt.mpr hmax)]
  exact writes_writeBlockEx size str

/-- An answer is always within its limit. -/
theorem writes_sendRPCAnswer (config : Config) (requestId : UInt64) (answer : List UInt8)
    (executionStatus : UInt8) :
    Writes (sendRPCAnswer config requestId answer executionStatus)
      (Frame.answer requestId executionStatus (sentText config answer)).bytes :=
  (writes_writeU 1 letterA.toNat).andThen <| (writes_writeU 8 requestId.toNat).andThen <|
    (writes_writeU 1 executionStatus.toNat).andThen <|
      writes_writeStringEx 4 (length_sentText_le config answer)

/-- A query within its limits. -/
theorem writes_writeQuery {config : Config} {requestId : UInt64} {args : CallArgs}
    (hmethod : args.methodName.length ≤ 254)
    (houtput : args.output.length ≤ config.maxMessageSize.toNat) :
    Writes (writeQuery config requestId args.methodName args.output args.extraJWTTokenAuth)
      (Frame.query requestId args).bytes := by
  have hmethodMax : args.methodName.length ≤ defaultMax 1 := hmethod
  have hfields :=
    (writes_writeU 1 letterQ.toNat).andThen <| (writes_writeU 8 requestId.toNat).andThen <|
      (writes_writeU 1 (queryFlags args.extraJWTTokenAuth).toNat).andThen <|
        (writes_writeStringEx 1 hmethodMax).andThen (writes_writeStringEx 4 houtput)
  by_cases hnil : args.extraJWTTokenAuth ≠ []
  · have hbytes : (Frame.query requestId args).bytes
        = (BigEndian.encode 1 letterQ.toNat ++ (BigEndian.encode 8 requestId.toNat ++
          (BigEndian.encode 1 (queryFlags args.extraJWTTokenAuth).toNat ++
            (blockBytes 1 args.methodName ++ blockBytes 4 args.output)))) ++
          blockBytes 4 (cStr args.extraJWTTokenAuth) := by
      simp [Frame.bytes, queryFrame, tokenBytes, hnil]
    rw [hbytes]
    unfold writeQuery
    simp only [if_pos ((queryFlags_extraAuth args.extraJWTTokenAuth).mpr hnil)]
    exact hfields.andThen (writes_writeStringEx 4 (length_cStr_le args.extraJWTTokenAuth))
  · have hbytes : (Frame.query requestId args).bytes
        = BigEndian.encode 1 letterQ.toNat ++ (BigEndian.encode 8 requestId.toNat ++
          (BigEndian.encode 1 (queryFlags args.extraJWTTokenAuth).toNat ++
            (blockBytes 1 args.methodName ++ blockBytes 4 args.output))) := by
      simp [Frame.bytes, queryFrame, tokenBytes, hnil]
    rw [hbytes]
    unfold writeQuery
    simp only [if_neg (mt (queryFlags_extraAuth args.extraJWTTokenAuth).mp hnil)]
    exact hfields

/-- The fields that every query begins with, and what is written behind them. -/
def writeHeader (requestId : UInt64) (extraJWTTokenAuth : List UInt8)
    (next : Writer → Bool × Writer) (w : Writer) : Bool × Writer :=
  andThen (w.writeU 1 letterQ.toNat) fun w =>
  andThen (w.writeU 8 requestId.toNat) fun w =>
  andThen (w.writeU 1 (queryFlags extraJWTTokenAuth).toNat) next

/-- The bytes of the fields that every query begins with. -/
def headerBytes (requestId : UInt64) (extraJWTTokenAuth : List UInt8) : List UInt8 :=
  BigEndian.encode 1 letterQ.toNat ++ (BigEndian.encode 8 requestId.toNat ++
    BigEndian.encode 1 (queryFlags extraJWTTokenAuth).toNat)

theorem Puts.header {requestId : UInt64} {extraJWTTokenAuth data : List UInt8}
    {next : Writer → Bool × Writer} (h : Puts next data) :
    Puts (writeHeader requestId extraJWTTokenAuth next)
      (headerBytes requestId extraJWTTokenAuth ++ data) := by
  have hputs := (writes_writeU 1 letterQ.toNat).puts.andThen <|
    (writes_writeU 8 requestId.toNat).puts.andThen <|
      (writes_writeU 1 (queryFlags extraJWTTokenAuth).toNat).puts.andThen h
  rw [headerBytes, List.append_assoc, List.append_assoc]
  exact hputs

/-- Where the name or the payload is not written, nothing is written behind. -/
theorem writeQuery_eq_header {config : Config} {requestId : UInt64} {args : CallArgs}
    {next : Writer → Bool × Writer} (hfalse : ∀ w, (next w).1 = false)
    (hnext : ∀ w, (Writer.andThen (w.writeStringEx 1 args.methodName (defaultMax 1)) fun w =>
      w.writeStringEx 4 args.output config.maxMessageSize.toNat) = next w) (w : Writer) :
    writeQuery config requestId args.methodName args.output args.extraJWTTokenAuth w
      = writeHeader requestId args.extraJWTTokenAuth next w := by
  have hheader : (writeHeader requestId args.extraJWTTokenAuth next w).1 = false := by
    apply andThen_of_next_false
    intro w
    apply andThen_of_next_false
    intro w
    exact andThen_of_next_false hfalse _
  have hfields : (andThen (w.writeU 1 letterQ.toNat) fun w =>
      andThen (w.writeU 8 requestId.toNat) fun w =>
      andThen (w.writeU 1 (queryFlags args.extraJWTTokenAuth).toNat) fun w =>
      andThen (w.writeStringEx 1 args.methodName (defaultMax 1)) fun w =>
        w.writeStringEx 4 args.output config.maxMessageSize.toNat)
      = writeHeader requestId args.extraJWTTokenAuth next w := by
    unfold writeHeader
    simp only [hnext]
  unfold writeQuery
  simp only [hfields]
  split_ifs
  · rw [Writer.andThen, if_neg (by rw [hheader]; exact Bool.false_ne_true)]
  · rfl

/-- An operation that always fails leaves a part of its data. -/
theorem Puts.leaves_of_false {op : Writer → Bool × Writer} {data : List UInt8} (h : Puts op data)
    (w : Writer) : ∃ part, Leaves w (op w).2 false part part ∧ part <+: data := by
  obtain ⟨part, hpart⟩ := h w
  refine ⟨part, ⟨hpart.sent, List.prefix_rfl, fun _ => rfl, hpart.shut, hpart.fails,
    hpart.writes⟩, hpart.isPrefix⟩

/-- A query over one of its limits leaves a part of a frame that is not the whole frame: the field
over the limit is not written, and nothing behind it. -/
theorem writeQuery_over_leaves {config : Config} {requestId : UInt64} {args : CallArgs}
    (hover : 254 < args.methodName.length ∨ config.maxMessageSize.toNat < args.output.length)
    (w : Writer) :
    ∃ part, Leaves w
        (writeQuery config requestId args.methodName args.output args.extraJWTTokenAuth w).2 false
        part part ∧
      ∃ methodName, methodName.length ≤ 254 ∧
        part <+: (Frame.query requestId { args with methodName, output := [] }).bytes ∧
        part ≠ (Frame.query requestId { args with methodName, output := [] }).bytes := by
  obtain ⟨next, methodName, data, hlength, hfalse, hnext, hputs, hdata⟩ :
      ∃ (next : Writer → Bool × Writer) (methodName data : List UInt8),
        methodName.length ≤ 254 ∧ (∀ w, (next w).1 = false) ∧
        (∀ w : Writer, (Writer.andThen (w.writeStringEx 1 args.methodName (defaultMax 1)) fun w =>
          w.writeStringEx 4 args.output config.maxMessageSize.toNat) = next w) ∧
        Puts next data ∧ data <+: blockBytes 1 methodName := by
    by_cases hmethod : args.methodName.length ≤ 254
    · have houtput : config.maxMessageSize.toNat < args.output.length := by omega
      have hrefused : ∀ w : Writer, w.writeStringEx 4 args.output config.maxMessageSize.toNat
          = (false, w) := fun w => if_pos houtput
      refine ⟨_, args.methodName, blockBytes 1 args.methodName ++ [], hmethod, ?_,
        fun w => by simp only [hrefused]; rfl, (writes_writeStringEx 1 hmethod).puts.andThen
          (puts_nothing false), by rw [List.append_nil]⟩
      exact fun w => andThen_of_next_false (fun _ => rfl) _
    · have hmethodMax : defaultMax 1 < args.methodName.length := Nat.not_le.mp hmethod
      have hrefused : ∀ w : Writer, w.writeStringEx 1 args.methodName (defaultMax 1)
          = (false, w) := fun w => if_pos hmethodMax
      refine ⟨fun w => (false, w), [], [], by decide, fun _ => rfl, fun w => ?_,
        puts_nothing false, List.nil_prefix⟩
      rw [hrefused]
      rfl
  have hbytes : (Frame.query requestId { args with methodName, output := [] }).bytes
      = headerBytes requestId args.extraJWTTokenAuth ++ (blockBytes 1 methodName ++
        (blockBytes 4 [] ++ tokenBytes args.extraJWTTokenAuth)) := by
    simp [Frame.bytes, queryFrame, headerBytes]
  obtain ⟨part, hpart, hprefix⟩ :=
    (@Puts.header requestId args.extraJWTTokenAuth data next hputs).leaves_of_false w
  rw [← writeQuery_eq_header hfalse hnext] at hpart
  have hshort : part <+: headerBytes requestId args.extraJWTTokenAuth ++ blockBytes 1 methodName :=
    hprefix.trans ((List.prefix_append_right_inj _).mpr hdata)
  refine ⟨part, hpart, methodName, hlength, ?_, ?_⟩
  · rw [hbytes, ← List.append_assoc]
    exact hshort.trans (List.prefix_append _ _)
  · intro heq
    have hle := hshort.length_le
    have hfour : (blockBytes 4 []).length = 4 := by rfl
    rw [heq, hbytes] at hle
    simp only [List.length_append, hfour] at hle
    omega

end FastRPC3

end Mantids
