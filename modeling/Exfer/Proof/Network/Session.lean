import Exfer.Proof.Wire.Message
import Mathlib

/-!
# Frames of a session are read in order

`session_frames`: what a reader returns is what the other end wrote, in order and without repetition.
The parts are

* `ReadsOff`: which bytes a read takes off the stream, with a rule for each construct;
* `readerRecv_spec`: a call of `reader_recv` that returns a message has found a counter, a frame and
  an accepted tag next to each other in the stream;
* `SessionInv`: the messages returned were written, before the counter the reader is at.
-/

namespace Exfer.Proof

open Lib Impl Spec

/-! ## Reads -/

section Reads

variable {α β : Type}

/-- The read takes bytes off the front of the stream, which are as `P` says where it has a result. -/
def ReadsOff (m : ReadM α) (P : α → List UInt8 → Prop) : Prop :=
  ∀ l, match m l with
    | .ok a l' => ∃ bytes, l.stream = bytes ++ l'.stream ∧ P a bytes
    | .error _ l' => ∃ bytes, l.stream = bytes ++ l'.stream

namespace ReadsOff

variable {P : α → List UInt8 → Prop}

theorem pure {a : α} (h : P a []) : ReadsOff (pure a) P :=
  fun _ => ⟨[], rfl, h⟩

theorem throw (e : ReadStop) : ReadsOff (throw e) P :=
  fun _ => ⟨[], rfl⟩

theorem bind (hm : ReadsOff m P) (hf : ∀ a front, P a front → ReadsOff (f a) fun b back => R b (front ++ back)) :
    ReadsOff (m >>= f) R := by
  intro l
  have hfirst := hm l
  simp only [Bind.bind, EStateM.bind]
  cases hrun : m l with
  | error e l' =>
    rw [hrun] at hfirst
    exact hfirst
  | ok a l' =>
    rw [hrun] at hfirst
    obtain ⟨front, hfront, ha⟩ := hfirst
    have hsecond := hf a front ha l'
    dsimp only
    cases hrun' : f a l' with
    | error e l'' =>
      rw [hrun'] at hsecond
      obtain ⟨back, hback⟩ := hsecond
      exact ⟨front ++ back, by rw [hfront, hback, List.append_assoc]⟩
    | ok b l'' =>
      rw [hrun'] at hsecond
      obtain ⟨back, hback, hb⟩ := hsecond
      exact ⟨front ++ back, by rw [hfront, hback, List.append_assoc], hb⟩

end ReadsOff

/-- The given number of bytes, which are the result. -/
def Taken (n : Nat) (a bytes : List UInt8) : Prop :=
  bytes = a ∧ a.length = n

theorem nextWait_reads : ReadsOff nextWait fun _ bytes => bytes = [] := by
  intro l
  cases hwaits : l.waits with
  | nil =>
    simp only [nextWait, Bind.bind, EStateM.bind, get, getThe, MonadStateOf.get, EStateM.get, hwaits]
    exact ⟨[], rfl⟩
  | cons w ws =>
    simp only [nextWait, Bind.bind, EStateM.bind, get, getThe, MonadStateOf.get, EStateM.get, hwaits]
    exact ⟨[], rfl, rfl⟩

theorem takeBytes_reads (n : Nat) : ReadsOff (takeBytes n) (Taken n) := by
  intro l
  by_cases hlen : n ≤ l.stream.length
  · simp only [takeBytes, Bind.bind, EStateM.bind, get, getThe, MonadStateOf.get, EStateM.get, if_pos hlen]
    exact ⟨l.stream.take n, (List.take_append_drop n _).symm, rfl, List.length_take_of_le hlen⟩
  · simp only [takeBytes, Bind.bind, EStateM.bind, get, getThe, MonadStateOf.get, EStateM.get, if_neg hlen]
    exact ⟨l.stream, (List.append_nil _).symm⟩

theorem readExact_reads (n : Nat) : ReadsOff (readExact n) (Taken n) := by
  refine nextWait_reads.bind fun w front hfront => ?_
  subst hfront
  cases w with
  | ready more now => exact takeBytes_reads n
  | timedOut | deadline | failed => exact .throw _

theorem readChunk_reads (n received total : Nat) : ReadsOff (readChunk n received total) (Taken n) := by
  refine nextWait_reads.bind fun w front hfront => ?_
  subst hfront
  cases w with
  | ready more now => exact takeBytes_reads n
  | timedOut | deadline | failed => exact .throw _

theorem readPayloadChunked_reads (total remaining : Nat) :
    ReadsOff (readPayloadChunked total remaining) (Taken remaining) := by
  induction remaining using Nat.strongRecOn with
  | _ remaining ih =>
    unfold readPayloadChunked
    split
    · rename_i hzero
      subst hzero
      exact .pure ⟨rfl, rfl⟩
    · rename_i hzero
      have hchunk : 0 < min remaining readChunkSize := by
        simp only [readChunkSize]
        omega
      refine (readChunk_reads _ _ _).bind fun chunk front hfront => ?_
      obtain ⟨rfl, hlen⟩ := hfront
      refine (ih (remaining - min remaining readChunkSize) (by omega)).bind fun rest back hback => ?_
      obtain ⟨rfl, hlen'⟩ := hback
      refine .pure ⟨by rw [List.append_nil], ?_⟩
      rw [List.length_append, hlen, hlen']
      omega

theorem readPayload_reads (payloadLen : Nat) : ReadsOff (readPayload payloadLen) (Taken payloadLen) := by
  unfold readPayload
  split
  · split
    · rename_i hzero
      exact .pure ⟨rfl, hzero.symm⟩
    · exact readExact_reads payloadLen
  · exact readPayloadChunked_reads payloadLen payloadLen

theorem failReadIf_reads (p : Prop) [Decidable p] (text : String) :
    ReadsOff (failReadIf p text) fun _ bytes => bytes = [] ∧ ¬ p := by
  unfold failReadIf
  split
  · exact .throw _
  · rename_i hp
    exact .pure ⟨rfl, hp⟩

end Reads

section

variable [PeerCrypto] {m : Message} {delivered : List UInt8} {state : ReaderState}
  {written returned : List Message} {s : Side → Endpoint}

/-- The bytes are a frame, read as the message, and a tag that is accepted for it. -/
def AcceptedFrame (key : Hash256) (counter : UInt64) (m : Message) (bytes : List UInt8) : Prop :=
  ∃ frame tag, bytes = frame ++ tag ∧ tag.length = hmacTagSize ∧
    verifyFrameHmac key counter frame tag = true ∧ Message.deserialize frame = .ok (m, frame.length)

omit [PeerCrypto] in
theorem deserialize_length (hlen : payload.length ≤ maxMessageSize)
    (h : Message.deserialize (msgType :: (leBytes 4 payload.length ++ payload)) = .ok (m, n)) :
    n = (msgType :: (leBytes 4 payload.length ++ payload)).length := by
  obtain ⟨_, _, h⟩ := bind_eq_ok.mp h
  obtain ⟨_, _, h⟩ := bind_eq_ok.mp h
  obtain ⟨_, _, h⟩ := bind_eq_ok.mp h
  obtain ⟨_, _, h⟩ := bind_eq_ok.mp h
  obtain ⟨rfl, rfl⟩ := Prod.mk.inj (Except.ok.inj h)
  have hlt : payload.length < 256 ^ 4 := hlen.trans_lt (by decide)
  have hcount : leNat (((msgType :: (leBytes 4 payload.length ++ payload)).drop 1).take 4) =
      payload.length := leNat_take_append hlt payload
  rw [hcount, List.length_cons, List.length_append, length_leBytes]
  omega

theorem readMessageAfterType_reads (msgType : UInt8) (allowHeavy : Bool) (key : Hash256)
    (counter : UInt64) (reserve : Nat → Except String Unit) :
    ReadsOff (readMessageAfterType msgType allowHeavy key counter reserve)
      fun m bytes => AcceptedFrame key counter m (msgType :: bytes) := by
  refine (readExact_reads 4).bind fun len front hfront => ?_
  obtain ⟨rfl, hlen⟩ := hfront
  refine (failReadIf_reads _ _).bind fun _ _ hbound => ?_
  obtain ⟨rfl, hbound⟩ := hbound
  refine (failReadIf_reads _ _).bind fun _ _ hmax => ?_
  obtain ⟨rfl, -⟩ := hmax
  split
  · exact .throw _
  refine (readPayload_reads _).bind fun payload back hback => ?_
  obtain ⟨rfl, hpayload⟩ := hback
  refine (readExact_reads hmacTagSize).bind fun tag last hlast => ?_
  obtain ⟨rfl, htag⟩ := hlast
  refine (failReadIf_reads _ _).bind fun _ _ hverify => ?_
  obtain ⟨rfl, hverify⟩ := hverify
  have hframe : leBytes 4 (leNat front) = front := hlen ▸ leBytes_leNat front
  have hverify : verifyFrameHmac key counter (msgType :: (leBytes 4 (leNat front) ++ back)) last = true := by
    simpa using hverify
  split
  · rename_i m n hread
    rw [← hpayload] at hread hbound hverify
    refine .pure ⟨_, last, ?_, htag, hverify, ?_⟩
    · rw [hpayload, hframe]
      simp
    · rw [← deserialize_length (Nat.not_lt.mp hbound) hread]
      exact hread
  · exact .throw _

theorem readMessage_reads (allowHeavy : Bool) (key : Hash256) (counter : UInt64)
    (reserve : Nat → Except String Unit) :
    ReadsOff (readMessage allowHeavy key counter reserve) (AcceptedFrame key counter) := by
  refine (readExact_reads 1).bind fun type front hfront => ?_
  obtain ⟨rfl, hlen⟩ := hfront
  obtain ⟨msgType, rfl⟩ := List.length_eq_one_iff.mp hlen
  exact readMessageAfterType_reads msgType allowHeavy key counter reserve

/-! ## Calls of the reader -/

/-- What a call of `reader_recv` has done, where `delivered` ends with what the reader had of a counter
and the stream: the same holds after it, the key is kept, and with a message it has found a counter and
an accepted frame. -/
structure Recvd (delivered : List UInt8) (state : ReaderState) (r : RecvEnd) : Prop where
  length : r.state.counterBuf.length ≤ 8
  stream : (r.state.counterBuf ++ r.link.stream) <:+ delivered
  key : r.state.recvKey = state.recvKey
  counter : ∀ m, r.result = some (.ok (some m)) → ∃ counter : UInt64, ∃ bytes,
    (leBytes 8 counter.toNat ++ bytes) <:+: delivered ∧ AcceptedFrame state.recvKey counter m bytes ∧
    state.recvCounter ≤ counter ∧ r.state.recvCounter.toNat = counter.toNat + 1
  still : (∀ m, r.result ≠ some (.ok (some m))) → r.state.recvCounter = state.recvCounter

/-- A call that returns no message. -/
theorem Recvd.quiet (hlen : r.state.counterBuf.length ≤ 8)
    (hstream : (r.state.counterBuf ++ r.link.stream) <:+ delivered)
    (hkey : r.state.recvKey = state.recvKey) (hcounter : r.state.recvCounter = state.recvCounter)
    (hresult : ∀ m, r.result ≠ some (.ok (some m))) : Recvd delivered state r where
  length := hlen
  stream := hstream
  key := hkey
  counter m hm := absurd hm (hresult m)
  still _ := hcounter

omit [PeerCrypto] in
theorem toNat_checkedSucc (h : checkedSucc n = some next) : next.toNat = n.toNat + 1 := by
  unfold checkedSucc at h
  split at h
  · rename_i hlt
    rw [← Option.some.inj h, UInt64.toNat_add]
    exact Nat.mod_eq_of_lt hlt
  · exact absurd h (by simp)

theorem recvFrame_spec (reserve : Nat → Except String Unit) (hlen : state.counterBuf.length = 8)
    (hstream : (state.counterBuf ++ link.stream) <:+ delivered) :
    Recvd delivered state (recvFrame reserve state link) := by
  have hread := readMessage_reads true state.recvKey (UInt64.ofNat (leNat state.counterBuf)) reserve link
  have hcounter : leBytes 8 (UInt64.ofNat (leNat state.counterBuf)).toNat = state.counterBuf := by
    rw [toNat_leNat64 hlen, ← hlen, leBytes_leNat]
  -- what is left of the stream ends what was delivered
  have hrest {bytes : List UInt8} {l' : Link} (h : link.stream = bytes ++ l'.stream) :
      l'.stream <:+ delivered := by
    rw [h, ← List.append_assoc] at hstream
    exact (List.suffix_append _ _).trans hstream
  unfold recvFrame
  dsimp only
  generalize readMessage true state.recvKey (UInt64.ofNat (leNat state.counterBuf)) reserve link = run
    at hread
  cases run with
  | error e l' =>
    obtain ⟨bytes, hbytes⟩ := hread
    cases e with
    | pending | elapsed => exact .quiet (Nat.zero_le 8) (hrest hbytes) rfl rfl (by simp)
    | io e => exact .quiet (Nat.zero_le 8) (hrest hbytes) rfl rfl (by simp)
  | ok m l' =>
    obtain ⟨bytes, hbytes, haccepted⟩ := hread
    dsimp only
    split
    · exact .quiet (Nat.zero_le 8) (hrest hbytes) rfl rfl (by simp)
    rename_i hlt
    split
    · exact .quiet (Nat.zero_le 8) (hrest hbytes) rfl rfl (by simp)
    rename_i next hnext
    refine ⟨Nat.zero_le 8, hrest hbytes, rfl, fun m' hm' => ?_, fun h => absurd rfl (h m)⟩
    obtain rfl : m = m' := by simpa using hm'
    refine ⟨_, bytes, ?_, haccepted, UInt64.not_lt.mp hlt, toNat_checkedSucc hnext⟩
    rw [hcounter]
    rw [hbytes, ← List.append_assoc] at hstream
    obtain ⟨pre, hpre⟩ := hstream
    exact ⟨pre, l'.stream, by rw [← hpre, List.append_assoc]⟩

theorem recvCounter_spec (reserve : Nat → Except String Unit) (hadPartial : Bool)
    (hlen : state.counterBuf.length ≤ 8) (hstream : (state.counterBuf ++ stream) <:+ delivered) :
    Recvd delivered state (recvCounter reserve hadPartial state stream waits) := by
  induction waits generalizing state stream with
  | nil =>
    unfold recvCounter
    split
    · exact recvFrame_spec reserve (by omega) hstream
    · exact .quiet hlen hstream rfl rfl (by simp)
  | cons w waits ih =>
    unfold recvCounter
    split
    · exact recvFrame_spec reserve (by omega) hstream
    cases w with
    | ready more now =>
      dsimp only
      split
      · exact .quiet hlen hstream rfl rfl (by simp)
      · -- the bytes that came move from the stream to the counter
        let n := min (1 + more) (8 - state.counterBuf.length)
        let state' := { state with
          counterBuf := state.counterBuf ++ stream.take n
          counterStarted := some (state.counterStarted.getD now) }
        have hlen' : state'.counterBuf.length ≤ 8 := by
          rw [List.length_append, List.length_take]
          omega
        have hstream' : (state'.counterBuf ++ stream.drop n) <:+ delivered := by
          rwa [List.append_assoc, List.take_append_drop]
        have hmoved := ih hlen' hstream'
        exact ⟨hmoved.length, hmoved.stream, hmoved.key, hmoved.counter, hmoved.still⟩
    | failed e => exact .quiet hlen hstream rfl rfl (by simp)
    | timedOut | deadline =>
      dsimp only
      split
      · exact .quiet hlen hstream rfl rfl (by simp)
      · exact .quiet hlen hstream rfl rfl (by simp)

theorem readerRecv_spec (now : Nat) (reserve : Nat → Except String Unit)
    (hlen : state.counterBuf.length ≤ 8) (hstream : (state.counterBuf ++ link.stream) <:+ delivered) :
    Recvd delivered state (readerRecv now reserve state link) := by
  unfold readerRecv
  dsimp only
  split
  · exact .quiet (Nat.zero_le 8) ((List.suffix_append _ _).trans hstream) rfl rfl (by simp)
  · exact recvCounter_spec reserve _ hlen hstream

/-! ## Runs -/

/-- The messages returned were read from frames of messages of the list, in order and without
repetition. -/
def ReadInOrder (written returned : List Message) : Prop :=
  ∃ msgs, msgs.Sublist written ∧ List.Forall₂ ReadBackAs msgs returned

section

omit [PeerCrypto]

theorem ReadInOrder.mono (h : ReadInOrder written returned) (hsub : written.Sublist written') :
    ReadInOrder written' returned := by
  obtain ⟨msgs, hmsgs, hread⟩ := h
  exact ⟨msgs, hmsgs.trans hsub, hread⟩

/-- The next message, of a later index. -/
theorem ReadInOrder.next (h : ReadInOrder (written.take i) returned) (hle : i ≤ j)
    (hm : written[j]? = some m) (hr : ReadBackAs m r) : ReadInOrder (written.take (j + 1)) (returned ++ [r]) := by
  obtain ⟨msgs, hmsgs, hread⟩ := h
  refine ⟨msgs ++ [m], ?_, List.rel_append hread (.cons hr .nil)⟩
  rw [List.take_add_one, hm]
  exact (hmsgs.trans (List.take_sublist_take_left hle)).append (.refl _)

/-- At an end and its other: the counters are those of the messages written, the reader's part of the
stream ends it, and what was returned was written before the reader's counter. -/
structure EndInv (e other : Endpoint) : Prop where
  count : e.writer.sendCounter.toNat = e.written.length
  keys : e.reader.recvKey = other.writer.sendKey
  length : e.reader.counterBuf.length ≤ 8
  stream : (e.reader.counterBuf ++ e.unread) <:+ e.delivered
  returned : ReadInOrder (other.written.take e.reader.recvCounter.toNat) e.returned

/-- Both ends, with keys that differ. -/
structure SessionInv (s : Side → Endpoint) : Prop where
  ends : ∀ side, EndInv (s side) (s side.other)
  distinct : ∀ side, (s side).writer.sendKey ≠ (s side.other).writer.sendKey

theorem SessionInv.update (h : SessionInv s) (side : Side) (hself : EndInv e (s side.other))
    (hother : EndInv (s side.other) e) (hkey : e.writer.sendKey = (s side).writer.sendKey) :
    SessionInv (Function.update s side e) := by
  have hdistinct := h.distinct side
  rw [← hkey] at hdistinct
  cases side with
  | initiator =>
    refine ⟨fun side' => ?_, fun side' => ?_⟩
    · cases side' with
      | initiator => exact hself
      | responder => exact hother
    · cases side' with
      | initiator => exact hdistinct
      | responder => exact hdistinct.symm
  | responder =>
    refine ⟨fun side' => ?_, fun side' => ?_⟩
    · cases side' with
      | initiator => exact hother
      | responder => exact hself
    · cases side' with
      | initiator => exact hdistinct.symm
      | responder => exact hdistinct

end

theorem write_eq (e : Endpoint) (m : Message) (outcome : WriteOutcome) : ∃ writer msgs,
    e.write m outcome = { e with writer, written := e.written ++ msgs } ∧
    writer.sendKey = e.writer.sendKey ∧
    writer.sendCounter.toNat = e.writer.sendCounter.toNat + msgs.length := by
  unfold Endpoint.write writeFramedMessage
  cases m.serialize with
  | error err => exact ⟨e.writer, [], by rw [List.append_nil], rfl, rfl⟩
  | ok frame =>
    cases hnext : checkedSucc e.writer.sendCounter with
    | none => exact ⟨e.writer, [], by rw [List.append_nil], rfl, rfl⟩
    | some next => exact ⟨_, [m], rfl, rfl, toNat_checkedSucc hnext⟩

theorem SessionInv.write (h : SessionInv s) (side : Side) (m : Message) (outcome : WriteOutcome) :
    SessionInv (Function.update s side ((s side).write m outcome)) := by
  obtain ⟨writer, msgs, heq, hkey, hcount⟩ := write_eq (s side) m outcome
  have hself := h.ends side
  have hother : EndInv (s side.other) (s side) := by
    have := h.ends side.other
    cases side <;> exact this
  rw [heq]
  refine h.update side ⟨?_, hself.keys, hself.length, hself.stream, hself.returned⟩
    ⟨hother.count, hother.keys.trans hkey.symm, hother.length, hother.stream, ?_⟩ hkey
  · show writer.sendCounter.toNat = ((s side).written ++ msgs).length
    rw [hcount, hself.count, List.length_append]
  · refine hother.returned.mono ?_
    rw [List.take_append]
    exact List.sublist_append_left _ _

theorem SessionInv.recv (h : SessionInv s) (side : Side) (bytes : List UInt8) (waits : List Wait)
    (now : Nat) (reserve : Nat → Except String Unit) (result : Except PeerError (Option Message))
    (hunforged : Unforged (Function.update s side ((s side).deliver bytes)) side)
    (hresult : (readerRecv now reserve (s side).reader ⟨(s side).unread ++ bytes, waits⟩).result =
      some result) : SessionInv (Function.update s side { (s side).deliver bytes with
      reader := (readerRecv now reserve (s side).reader ⟨(s side).unread ++ bytes, waits⟩).state
      unread := (readerRecv now reserve (s side).reader ⟨(s side).unread ++ bytes, waits⟩).link.stream
      returned := (s side).returned ++ returnedBy result }) := by
  have hself := h.ends side
  have hother : EndInv (s side.other) (s side) := by
    have := h.ends side.other
    cases side <;> exact this
  have hstream : ((s side).reader.counterBuf ++ ((s side).unread ++ bytes)) <:+
      (s side).delivered ++ bytes := by
    obtain ⟨pre, hpre⟩ := hself.stream
    exact ⟨pre, by rw [← hpre]; simp⟩
  have hrecvd : Recvd ((s side).delivered ++ bytes) (s side).reader
      (readerRecv now reserve (s side).reader ⟨(s side).unread ++ bytes, waits⟩) :=
    readerRecv_spec now reserve hself.length hstream
  generalize readerRecv now reserve (s side).reader ⟨(s side).unread ++ bytes, waits⟩ = r at *
  refine h.update side ⟨hself.count, hrecvd.key.trans hself.keys, hrecvd.length, hrecvd.stream, ?_⟩
    ⟨hother.count, hother.keys, hother.length, hother.stream, hother.returned⟩ rfl
  by_cases hmessage : ∃ m, result = .ok (some m)
  · obtain ⟨m, rfl⟩ := hmessage
    obtain ⟨counter, front, hfront, ⟨frame, tag, rfl, htag, hverify, hread⟩, hle, hnext⟩ :=
      hrecvd.counter m hresult
    -- the tag is one of the two ends', and by its key the other one's
    obtain ⟨writer, hkey, sent, hsent, hframe⟩ := hunforged counter frame tag
      (by rwa [Function.update_self]) htag (by rwa [Function.update_self])
    have hwriter : writer = side.other := by
      by_contra hne
      have : writer = side := by cases writer <;> cases side <;> simp_all [Side.other]
      subst this
      rw [Function.update_self] at hkey
      exact h.distinct writer (hkey.symm.trans hself.keys)
    subst hwriter
    rw [Function.update_of_ne (by cases side <;> simp [Side.other])] at hsent
    rw [hnext]
    exact hself.returned.next (UInt64.le_iff_toNat_le.mp hle) hsent ⟨frame, hframe, hread⟩
  · have hquiet : returnedBy result = [] := by
      unfold returnedBy
      split
      · exact absurd ⟨_, rfl⟩ hmessage
      · rfl
    rw [hquiet, List.append_nil, hrecvd.still fun m hm => hmessage ⟨m, ?_⟩]
    · exact hself.returned
    · exact Option.some.inj (hresult.symm.trans hm)

theorem SessionInv.step (h : SessionInv s) (hstep : SessionStep s s') : SessionInv s' := by
  cases hstep with
  | write side m outcome => exact h.write side m outcome
  | recv side bytes waits now reserve result hunforged hresult =>
    exact h.recv side bytes waits now reserve result hunforged hresult

omit [PeerCrypto] in
theorem sessionInv_established [Crypto]
    (hkeys : (deriveDirectionalKeys sessionKey).1 ≠ (deriveDirectionalKeys sessionKey).2) :
    SessionInv (established sessionKey) := by
  have hnothing : ReadInOrder [] [] := ⟨[], .refl _, .nil⟩
  refine ⟨fun side => ?_, fun side => ?_⟩
  · cases side with
    | initiator | responder => exact ⟨rfl, rfl, Nat.zero_le 8, List.suffix_refl _, hnothing⟩
  · cases side with
    | initiator => exact hkeys
    | responder => exact hkeys.symm

end

/-! ## Tags -/

theorem foldl_diff_eq_zero {as bs : List UInt8} (hlen : as.length = bs.length) (d : UInt8) :
    (as.zip bs).foldl (fun diff ab => diff ||| (ab.1 ^^^ ab.2)) d = 0 ↔ d = 0 ∧ as = bs := by
  induction as generalizing bs d with
  | nil =>
    obtain rfl := List.length_eq_zero_iff.mp hlen.symm
    simp
  | cons a as ih =>
    obtain ⟨b, bs, rfl⟩ := List.exists_cons_of_length_eq_add_one hlen.symm
    rw [List.zip_cons_cons, List.foldl_cons, ih (Nat.succ.inj hlen), UInt8.or_eq_zero_iff,
      UInt8.xor_eq_zero_iff, List.cons.injEq, and_assoc]

theorem verifyFrameHmac_iff [PeerCrypto] (htag : tag.length = hmacTagSize) :
    verifyFrameHmac key counter frame tag = true ↔ computeFrameHmac key counter frame = tag := by
  have hlen : (computeFrameHmac key counter frame).length = tag.length := by
    rw [htag]
    simp [computeFrameHmac, hmacTagSize]
  rw [verifyFrameHmac, beq_iff_eq, foldl_diff_eq_zero hlen]
  exact and_iff_right rfl

/-! ## A session -/

/-- An `Addr` message with an IPv4 address in its form for IPv6. -/
def mappedAddr : Message :=
  .addr [⟨.v6 (arrayOfBytes 16 (ipv4Mapped ++ [1, 2, 3, 4])) 80 0 0, 0⟩]

/-- The frame of this message. -/
def mappedFrame : List UInt8 :=
  [23, 30, 0, 0, 0, 1, 0, 0, 0] ++ ipv4Mapped ++ [1, 2, 3, 4, 80, 0] ++ leBytes 8 0

/-- Keys that differ. -/
@[reducible] def sessionCrypto : Crypto :=
  .ofHash fun x => Vector.replicate 32 (x.getD 10 0)

/-- Tags that only the first frame gets, if it is that of `mappedAddr`. -/
@[reducible] def sessionMac : PeerCrypto where
  verifyingKey key := key
  ed25519Sign _ _ := Vector.replicate 64 0
  x25519 _ _ := Vector.replicate 32 0
  hmacSha256 _ message :=
    if message = leBytes 8 0 ++ mappedFrame then Vector.replicate 32 187 else Vector.replicate 32 170

/-- What `write_framed_message` writes for it. -/
def mappedBuf : List UInt8 :=
  leBytes 8 0 ++ mappedFrame ++ List.replicate 16 187

theorem mappedAddr_serialize : mappedAddr.serialize = .ok mappedFrame := by
  decide

theorem mappedBuf_read : let _ := sessionCrypto
    let _ := sessionMac
    (readerRecv 0 (fun _ => .ok ()) (established Hash256.zero .responder).reader
      ⟨mappedBuf, List.replicate 5 (.ready 7 0)⟩).result =
      some (.ok (some (.addr [⟨.v4 #v[1, 2, 3, 4] 80, 0⟩]))) := by
  decide

/-- A session in which the initiator writes `mappedAddr` and the responder reads it. -/
theorem exists_mappedRun : let _ := sessionCrypto
    let _ := sessionMac
    ∃ s, SessionRun (established Hash256.zero) s ∧ (s .initiator).written = [mappedAddr] ∧
      (s .responder).returned = [.addr [⟨.v4 #v[1, 2, 3, 4] 80, 0⟩]] := by
  intro _ _
  let s := Function.update (established Hash256.zero) .initiator
    ((established Hash256.zero .initiator).write mappedAddr .written)
  have hwritten : (s .initiator).written = [mappedAddr] := by rfl
  have hunforged : Unforged (Function.update s .responder ((s .responder).deliver mappedBuf))
      .responder := by
    intro counter frame tag hfound htag hverify
    have htags : (if leBytes 8 counter.toNat ++ frame = leBytes 8 0 ++ mappedFrame
        then Vector.replicate 32 187 else Vector.replicate 32 170 : Vector UInt8 32).toList.take 16 =
        tag := (verifyFrameHmac_iff htag).mp hverify
    by_cases hframe : leBytes 8 counter.toNat ++ frame = leBytes 8 0 ++ mappedFrame
    · obtain ⟨hcounter, rfl⟩ := List.append_inj hframe (by simp)
      have hzero : counter.toNat = 0 := leBytes_inj counter.toNat_lt (by decide) hcounter
      refine ⟨.initiator, rfl, mappedAddr, ?_, mappedAddr_serialize⟩
      rw [hzero]
      rfl
    · -- a tag of any other frame is not in the stream
      rw [if_neg hframe] at htags
      have hmem : (170 : UInt8) ∈ tag := htags ▸ by decide
      have hnot : (170 : UInt8) ∉ mappedBuf := by decide
      exact absurd (hfound.subset (List.mem_append_right _ hmem)) hnot
  have hwrite : SessionRun (established Hash256.zero) s :=
    .single (.write .initiator mappedAddr .written)
  exact ⟨_, hwrite.tail (.recv .responder mappedBuf _ 0 _ _ hunforged mappedBuf_read), hwritten, by rfl⟩

/-! ## The result -/

/-- In every run of a session whose two keys differ, what a reader returns was written by the other
end: the messages are read from frames of messages that it wrote, in the order in which it wrote them
and each once, and are these messages as they are on the wire. -/
theorem session_frames [Crypto] [PeerCrypto] {sessionKey : Hash256}
    (hkeys : (deriveDirectionalKeys sessionKey).1 ≠ (deriveDirectionalKeys sessionKey).2)
    {s : Side → Endpoint} (hrun : SessionRun (established sessionKey) s) (side : Side) :
    ∃ msgs, msgs.Sublist (s side.other).written ∧
      List.Forall₂ (fun m r => ReadBackAs m r ∧ (Witnessed m → r = onWire m)) msgs
        (s side).returned := by
  have hinv : SessionInv s := by
    induction hrun with
    | refl => exact sessionInv_established hkeys
    | tail _ hstep ih => exact ih.step hstep
  obtain ⟨msgs, hsub, hread⟩ := (hinv.ends side).returned
  refine ⟨msgs, hsub.trans (List.take_sublist _ _), hread.imp fun m r h => ⟨h, ?_⟩⟩
  exact onWire_of_readBack h

/-- In the session of `exists_mappedRun` the message that the responder returns was written. -/
theorem session_frames_mapped : let _ := sessionCrypto
    let _ := sessionMac
    ∃ s : Side → Endpoint, (s .responder).returned = [.addr [⟨.v4 #v[1, 2, 3, 4] 80, 0⟩]] ∧
      ∃ msgs, msgs.Sublist (s .initiator).written ∧
        List.Forall₂ (fun m r => ReadBackAs m r ∧ (Witnessed m → r = onWire m)) msgs
          (s .responder).returned := by
  intro _ _
  obtain ⟨s, hrun, -, hreturned⟩ := exists_mappedRun
  exact ⟨s, hreturned, session_frames (by decide) hrun .responder⟩

/-- And it is not the message that was written. -/
theorem session_frames_counterexample : let _ := sessionCrypto
    let _ := sessionMac
    (deriveDirectionalKeys Hash256.zero).1 ≠ (deriveDirectionalKeys Hash256.zero).2 ∧
    ∃ s, SessionRun (established Hash256.zero) s ∧
      ¬ (s .responder).returned.Sublist (s .initiator).written := by
  intro _ _
  obtain ⟨s, hrun, hwritten, hreturned⟩ := exists_mappedRun
  refine ⟨by decide, s, hrun, ?_⟩
  rw [hwritten, hreturned]
  decide

end Exfer.Proof
