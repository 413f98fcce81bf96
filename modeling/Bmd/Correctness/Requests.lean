import Bmd.Correctness.Bystanders
import Bmd.Correctness.Sending

/-!
# `Correctness.Requests` — the requests of a connection

`recv_sock_buf` cuts the stream of a client into frames. What it has read and not yet handed to `recv_command` is
the beginning of the next frame, wherever `recv` cut the stream, and while a response is pending the read event is
disabled. Both are one invariant of the connection that every step of the daemon keeps.
-/

namespace Bmd

open Lib Lib.Prog

variable {s s' t t' : Daemon} {a b : Addr} {env : Env} {sb sb' : SockBuf} {r : RecvResult} {now rc : Int} {ok : Bool}
  {p : List UInt8} {u : Unit} {n : Nat} {f : SockBuf → SockBuf} {R : Daemon → Daemon → Prop}

/-! ## Headers -/

theorem ntohl_htonl (h : n < 2 ^ 32) : ntohl (htonl n) = n := by
  simp only [ntohl, htonl, List.foldl_cons, List.foldl_nil, UInt8.toNat_ofNat']
  omega

theorem htonl_ntohl {l : List UInt8} (h : l.length = 4) : htonl (ntohl l) = l := by
  match l, h with
  | [b0, b1, b2, b3], _ =>
    have h0 := b0.toNat_lt
    have h1 := b1.toNat_lt
    have h2 := b2.toNat_lt
    have h3 := b3.toNat_lt
    simp only [ntohl, htonl, List.foldl_cons, List.foldl_nil, List.cons.injEq, and_true, ← UInt8.toNat_inj,
      UInt8.toNat_ofNat']
    omega

theorem htonl_coded : Framing.Coded htonl 4 (· < 2 ^ 32) where
  pos := by decide
  length := length_htonl
  inj k m hk hm h := by rw [← ntohl_htonl hk, h, ntohl_htonl hm]

/-- The sizes a request may have. -/
def validSize (n : Nat) : Prop := 1 ≤ n ∧ n ≤ maxRequest

instance : DecidablePred validSize := fun n => inferInstanceAs (Decidable (1 ≤ n ∧ n ≤ maxRequest))

theorem validSize.lt (h : validSize n) : n < 2 ^ 32 := by
  have hmax := h.2
  unfold maxRequest at hmax
  omega

theorem htonl_coded_valid : Framing.Coded htonl 4 validSize where
  pos := by decide
  length := length_htonl
  inj k m hk hm := htonl_coded.inj k m hk.lt hm.lt

/-! ## Reading -/

/-- The bytes that `recv_sock_buf` takes; when nothing is missing, it asks for one byte. -/
def SockBuf.consumes (sb : SockBuf) : RecvResult → List UInt8
  | .again | .error => []
  | .data bytes => bytes.take (if sb.missing = 0 then 1 else sb.missing)

/-- A request was handed over and `recv_command` failed: the buffer is full. -/
def SockBuf.Stuck (sb : SockBuf) : Prop := sb.readState = 1 ∧ sb.readBytes = sb.bufSize

/-- What the buffer holds of the next frame. -/
inductive SockBuf.Reading (sb : SockBuf) : List UInt8 → Prop where
  | size (hs : sb.readState = 0) (hz : sb.readBytes = 0) (hlt : sb.readSize < 4)
      (hl : (sb.size.take sb.readSize).length = sb.readSize) : Reading sb (sb.size.take sb.readSize)
  | body (hs : sb.readState = 1) (hb : sb.bufSize = ntohl sb.size) (hl4 : sb.size.length = 4)
      (hmax : sb.bufSize ≤ maxRequest) (hlt : sb.bufSize = 0 ∨ sb.readBytes < sb.bufSize)
      (hl : (sb.buf.take sb.readBytes).length = sb.readBytes) : Reading sb (sb.size ++ sb.buf.take sb.readBytes)
  | stuck (h : sb.Stuck) : Reading sb []

/-- It holds no whole request. -/
theorem SockBuf.Reading.incomplete (h : sb.Reading p) : Framing.Incomplete htonl validSize p := by
  cases h with
  | size _ _ hlt hl => exact htonl_coded_valid.incomplete_header (hl.symm ▸ hlt)
  | body _ hb hl4 hmax hlt hl =>
    rw [← htonl_ntohl hl4, ← hb]
    refine htonl_coded.incomplete_body (fun _ => validSize.lt) ?_ fun hv => ?_
    · unfold maxRequest at hmax
      omega
    · have hpos := hv.1
      omega
  | stuck => exact htonl_coded_valid.incomplete_header (by decide)

/-- **What `recv_sock_buf` does.** -/
inductive Received (sb : SockBuf) (p : List UInt8) (r : RecvResult) (sb' : SockBuf) : Int → Prop where
  | more (h : sb'.Reading (p ++ sb.consumes r)) (hstuck : sb.Stuck → sb'.Stuck) : Received sb p r sb' 1
  | whole {body : List UInt8} (hv : validSize body.length) (hp : p ++ sb.consumes r = Framing.frame htonl body)
      (hbuf : sb'.buf.take sb'.bufSize = body) (hfull : sb'.Stuck) (hns : ¬sb.Stuck) : Received sb p r sb' 2
  | failed {rc : Int} (h1 : rc ≠ 1) (h2 : rc ≠ 2) : Received sb p r sb' rc

theorem Received.minusOne : Received sb p r sb' (-1) := .failed (by decide) (by decide)

theorem Received.zero : Received sb p r sb' 0 := .failed (by decide) (by decide)

theorem SockBuf.missing_of_stuck (h : sb.Stuck) : sb.missing = 0 := by
  unfold missing
  rw [if_neg (by rw [h.1]; decide), h.2, Nat.sub_self]

theorem recvSize_received {got : List UInt8} (hs : sb.readState = 0) (hz : sb.readBytes = 0) (hlt : sb.readSize < 4)
    (hl : (sb.size.take sb.readSize).length = sb.readSize) (hc : sb.consumes r = got) (hle : got.length ≤ sb.missing) :
    Received sb (sb.size.take sb.readSize) r (({ sb with eventTime := now } : SockBuf).recvSize ok got).1
      (({ sb with eventTime := now } : SockBuf).recvSize ok got).2 := by
  rw [SockBuf.missing, if_pos hs] at hle
  have hlen : (sb.size.take sb.readSize ++ got).length = sb.readSize + got.length := by rw [List.length_append, hl]
  have hns : ¬sb.Stuck := fun h => by
    have hst := h.1
    omega
  simp only [SockBuf.recvSize]
  split
  · next h4 =>
    split
    · exact .minusOne
    · next hmax =>
      split
      · exact .minusOne
      · refine .more ?_ fun h => (hns h).elim
        rw [hc]
        -- the header is complete
        have hR : SockBuf.Reading { sb with
            eventTime := now, size := sb.size.take sb.readSize ++ got, readSize := sb.readSize + got.length,
            readState := 1, bufSize := ntohl (sb.size.take sb.readSize ++ got) } _ :=
          .body rfl rfl (hlen.trans h4) (Nat.le_of_not_lt hmax) ?_ ?_
        · simpa [hz] using hR
        · simp only [hz]
          omega
        · simp [hz]
  · next h4 =>
    refine .more ?_ fun h => (hns h).elim
    rw [hc]
    have htake := List.take_of_length_le (Nat.le_of_eq hlen)
    have hR : SockBuf.Reading { sb with
        eventTime := now, size := sb.size.take sb.readSize ++ got, readSize := sb.readSize + got.length } _ :=
      .size hs hz (by show sb.readSize + _ < 4; omega) (by show (List.take _ _).length = _; rw [htake, hlen])
    rwa [htake] at hR

theorem recvBody_received {got : List UInt8} (hs : sb.readState = 1) (hb : sb.bufSize = ntohl sb.size)
    (hl4 : sb.size.length = 4) (hmax : sb.bufSize ≤ maxRequest) (hlt : sb.readBytes < sb.bufSize)
    (hl : (sb.buf.take sb.readBytes).length = sb.readBytes) (hc : sb.consumes r = got) (hle : got.length ≤ sb.missing) :
    Received sb (sb.size ++ sb.buf.take sb.readBytes) r (({ sb with eventTime := now } : SockBuf).recvBody got).1
      (({ sb with eventTime := now } : SockBuf).recvBody got).2 := by
  rw [SockBuf.missing, if_neg (by rw [hs]; decide)] at hle
  have hlen : (sb.buf.take sb.readBytes ++ got).length = sb.readBytes + got.length := by rw [List.length_append, hl]
  have hns : ¬sb.Stuck := fun h => by
    have hst := h.2
    omega
  have htake := List.take_of_length_le (Nat.le_of_eq hlen)
  simp only [SockBuf.recvBody]
  split
  · next hend =>
    have hend : sb.readBytes + got.length = sb.bufSize := hend
    rw [hend] at hlen htake
    refine .whole (hlen.symm ▸ ⟨by omega, hmax⟩) ?_ htake ⟨hs, hend⟩ hns
    rw [hc, Framing.frame, hlen, hb, htonl_ntohl hl4, List.append_assoc]
  · next hend =>
    refine .more ?_ fun h => (hns h).elim
    have hR : SockBuf.Reading { sb with
        eventTime := now, buf := sb.buf.take sb.readBytes ++ got, readBytes := sb.readBytes + got.length } _ :=
      .body hs hb hl4 hmax (.inr (by show sb.readBytes + _ < sb.bufSize; omega))
        (by show (List.take _ _).length = _; rw [htake, hlen])
    rw [hc, List.append_assoc]
    rwa [htake] at hR

theorem SockBuf.Reading.received (h : sb.Reading p) (ok : Bool) (now : Int) (r : RecvResult) :
    Received sb p r (sb.received ok now r).1 (sb.received ok now r).2 := by
  unfold SockBuf.received
  split
  · refine .more ?_ id
    rw [consumes, List.append_nil]
    exact h
  · exact .minusOne
  · exact .zero
  · next bytes _ =>
    split
    · exact .minusOne
    · next hm =>
      have hc : sb.consumes (.data bytes) = bytes.take sb.missing := by rw [consumes, if_neg hm]
      have hle := List.length_take_le sb.missing bytes
      cases h with
      | size hs hz hlt hl =>
        rw [if_pos hs]
        exact recvSize_received hs hz hlt hl hc hle
      | body hs hb hl4 hmax hlt hl =>
        have hlt' : sb.readBytes < sb.bufSize := by
          rw [missing, if_neg (by rw [hs]; decide)] at hm
          omega
        rw [if_neg (by rw [hs]; decide)]
        exact recvBody_received hs hb hl4 hmax hlt' hl hc hle
      | stuck h => exact (hm (missing_of_stuck h)).elim

/-- The body that `on_recv_sock_buf` passes to `recv_command`. -/
def SockBuf.hands (sb : SockBuf) (r : RecvResult) : List (List UInt8) :=
  if (sb.received true 0 r).2 = 2 then [(sb.received true 0 r).1.buf.take (sb.received true 0 r).1.bufSize] else []

theorem SockBuf.recvSize_rc_ne_two (sb : SockBuf) (ok : Bool) (bytes : List UInt8) : (sb.recvSize ok bytes).2 ≠ 2 := by
  simp only [recvSize]
  split
  · split
    · exact fun h => by cases h
    · split <;> exact fun h => by cases h
  · exact fun h => by cases h

/-- Neither the clock nor `malloc` decides whether a request is complete. -/
theorem SockBuf.received_two (ok : Bool) (now : Int) : ((sb.received ok now r).2 = 2 ↔ (sb.received true 0 r).2 = 2) ∧
    ((sb.received ok now r).2 = 2 → (sb.received ok now r).1.buf = (sb.received true 0 r).1.buf ∧
      (sb.received ok now r).1.bufSize = (sb.received true 0 r).1.bufSize) := by
  unfold received
  split
  · simp
  · simp
  · simp
  · split
    · simp
    · split
      · refine ⟨iff_of_false (recvSize_rc_ne_two _ _ _) (recvSize_rc_ne_two _ _ _), fun h => ?_⟩
        exact (recvSize_rc_ne_two _ _ _ h).elim
      · exact ⟨Iff.rfl, fun _ => ⟨rfl, rfl⟩⟩

theorem SockBuf.hands_of_two (ok : Bool) (now : Int) (h : (sb.received ok now r).2 = 2) :
    sb.hands r = [(sb.received ok now r).1.buf.take (sb.received ok now r).1.bufSize] := by
  obtain ⟨hiff, heq⟩ := sb.received_two (r := r) ok now
  rw [hands, if_pos (hiff.mp h), (heq h).1, (heq h).2]

theorem SockBuf.hands_of_ne (ok : Bool) (now : Int) (h : (sb.received ok now r).2 ≠ 2) : sb.hands r = [] := by
  rw [hands, if_neg (mt (received_two ok now).1.mpr h)]

/-- Reading leaves the response alone. -/
theorem SockBuf.received_response (sb : SockBuf) (ok : Bool) (now : Int) (r : RecvResult) :
    (sb.received ok now r).1.resSize = sb.resSize ∧ (sb.received ok now r).1.resBuf = sb.resBuf := by
  unfold received
  split
  · exact ⟨rfl, rfl⟩
  · exact ⟨rfl, rfl⟩
  · exact ⟨rfl, rfl⟩
  · split
    · exact ⟨rfl, rfl⟩
    · split
      · simp only [recvSize]
        split
        · split
          · exact ⟨rfl, rfl⟩
          · split <;> exact ⟨rfl, rfl⟩
        · exact ⟨rfl, rfl⟩
      · exact ⟨rfl, rfl⟩

/-! ## Answering -/

/-- The buffer without its response. -/
def SockBuf.sansResponse (sb : SockBuf) : SockBuf :=
  { sb with sentSize := 0, resFd := -1, resSize := 0, resBytes := 0, resBuf := [], eventTime := 0 }

theorem SockBuf.stuck_of_sansResponse (h : sb'.sansResponse = sb.sansResponse) (hs : sb.Stuck) : sb'.Stuck := by
  have h1 : sb'.readState = sb.readState := (congrArg SockBuf.readState h :)
  have h2 : sb'.readBytes = sb.readBytes := (congrArg SockBuf.readBytes h :)
  have h3 : sb'.bufSize = sb.bufSize := (congrArg SockBuf.bufSize h :)
  exact ⟨h1.trans hs.1, by rw [h2, h3, hs.2]⟩

theorem SockBuf.reading_of_sansResponse (h : sb'.sansResponse = sb.sansResponse) (hr : sb.Reading p) : sb'.Reading p := by
  have h1 : sb'.readState = sb.readState := (congrArg SockBuf.readState h :)
  have h2 : sb'.readBytes = sb.readBytes := (congrArg SockBuf.readBytes h :)
  have h3 : sb'.bufSize = sb.bufSize := (congrArg SockBuf.bufSize h :)
  have h4 : sb'.size = sb.size := (congrArg SockBuf.size h :)
  have h5 : sb'.readSize = sb.readSize := (congrArg SockBuf.readSize h :)
  have h6 : sb'.buf = sb.buf := (congrArg SockBuf.buf h :)
  cases hr with
  | size hs hz hlt hl =>
    rw [← h4, ← h5] at hl ⊢
    exact .size (h1.trans hs) (h2.trans hz) (h5 ▸ hlt) hl
  | body hs hb hl4 hmax hlt hl =>
    rw [← h2, ← h6] at hl
    rw [← h4] at hb hl4
    rw [← h3] at hb hmax
    rw [← h2, ← h3] at hlt
    rw [← h4, ← h2, ← h6]
    exact .body (h1.trans hs) hb hl4 hmax hlt hl
  | stuck hs => exact .stuck (stuck_of_sansResponse h hs)

/-- Only the response of the connection at `a` was written. -/
structure Answers (a : Addr) (s s' : Daemon) : Prop where
  sock : (s'.sock? a).map (·.sansResponse) = (s.sock? a).map (·.sansResponse)
  lines : s'.linesOf a = s.linesOf a
  next : s.next ≤ s'.next

instance (a : Addr) : IsPreorder Daemon (Answers a) where
  refl _ := ⟨rfl, rfl, Nat.le_refl _⟩
  trans _ _ _ h h' := ⟨h'.sock.trans h.sock, h'.lines.trans h.lines, Nat.le_trans h.next h'.next⟩

theorem ConnKept.answers (h : ConnKept a s s') : Answers a s s' := ⟨by rw [h.sock], h.lines, h.next⟩

theorem keeps_answers {α : Type} {m : Prog α} (h : Keeps (ConnKept a) m) : Keeps (Answers a) m :=
  h.mono fun _ _ => ConnKept.answers

theorem modSock_answers (hf : ∀ x, (f x).addr = x.addr ∧ (f x).sansResponse = x.sansResponse) :
    Keeps (Answers a) (modSock a f) := by
  refine .modify fun s => ⟨?_, rfl, Nat.le_refl _⟩
  have hkey : (s.modSock a f).sock? a = (s.sock? a).map f :=
    Keyed.find?_update_self (k := SockBuf.addr) (fun x => (hf x).1) s.sockList a
  rw [hkey, Option.map_map]
  congr 1
  funext x
  exact (hf x).2

theorem modSock_other (hf : ∀ x, (f x).addr = x.addr) (hab : a ≠ b) : Keeps (ConnKept a) (modSock b f) :=
  .modify fun s => ⟨Keyed.find?_update_of_ne (k := SockBuf.addr) hf s.sockList hab, rfl, Nat.le_refl _⟩

/-- A property of all writes to a connection is one of answering it. -/
theorem respondError_keeps [IsPreorder Daemon R]
    (h : ∀ f : SockBuf → SockBuf, (∀ x, (f x).addr = x.addr ∧ (f x).sansResponse = x.sansResponse) →
      Keeps R (modSock b f)) (reason : String) : Keeps R (respondError env b reason) := by
  unfold respondError
  split
  · exact .bind (h _ fun _ => ⟨rfl, rfl⟩) fun _ => .pure _
  · exact .bind (h _ fun _ => ⟨rfl, rfl⟩) fun _ => .pure _

theorem recvCommand_keeps [IsPreorder Daemon R]
    (h : ∀ f : SockBuf → SockBuf, (∀ x, (f x).addr = x.addr ∧ (f x).sansResponse = x.sansResponse) →
      Keeps R (modSock sb.addr f))
    (hk : ∀ nv load cmd, Keeps R (runCommand env nv sb.peer load cmd)) (load : Option (List LoadedConf)) :
    Keeps R (recvCommand env sb load) := by
  unfold recvCommand
  split
  · exact .pure _
  · refine .bind ?_ fun c => ?_
    · unfold nvlistGetString
      split
      · exact .throw _
      · exact .pure _
    · split
      · exact respondError_keeps h _
      · refine .bind (hk _ _ _) fun res => .bind (h _ fun _ => ⟨rfl, rfl⟩) fun _ => ?_
        split
        · exact respondError_keeps h _
        · exact .bind (h _ fun _ => ⟨rfl, rfl⟩) fun _ => .pure _

theorem recvCommand_answers (load : Option (List LoadedConf)) : Keeps (Answers sb.addr) (recvCommand env sb load) :=
  recvCommand_keeps (fun _ => modSock_answers) (fun _ _ _ => keeps_answers keeps) load

theorem recvCommand_other (hab : a ≠ sb.addr) (load : Option (List LoadedConf)) :
    Keeps (ConnKept a) (recvCommand env sb load) :=
  recvCommand_keeps (fun _ hf => modSock_other (fun x => (hf x).1) hab) (fun _ _ _ => keeps) load

end Bmd
