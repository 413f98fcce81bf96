import Bmd.Correctness.Sending

/-!
# `Correctness.Descriptor` — the descriptor that goes with a response

A response of `showcomport` or `boot` carries the descriptor of the console. `send_sock_buf` attaches it to every
`sendmsg` while `res_fd` holds it, and its exit label closes it after the first one, whatever that one has answered.
-/

namespace Bmd

open Lib Lib.Prog

variable {s t t' : Daemon} {a : Addr} {env : Env} {sb sb' : SockBuf} {r : SendResult} {now rc : Int} {ok : Bool}
  {fd : Fd} {cs : List SendCall} {sb₀ : SockBuf}

/-! ## Calls -/

/-- A call of `send_sock_buf`: the answer of `sendmsg`, if it was called, the bytes it has taken, the descriptor that
    went with them, whether `res_fd` was closed, and the return value. -/
structure SendCall where
  answer : Option SendResult
  bytes : List UInt8
  fd : Fd
  closes : Bool
  rc : Int
  deriving DecidableEq, Repr

/-- The call got as far as `sendmsg`. -/
def SockBuf.sends (sb : SockBuf) (ok : Bool) : Bool :=
  !(sb.resSize == 0 || sb.sentSize == sb.resSize + 4) && (sb.resFd == -1 || ok)

/-- What is observed of a call; `ok` is the answer of `calloc`. -/
def SockBuf.sendCall (sb : SockBuf) (ok : Bool) (r : SendResult) (rc : Int) : SendCall :=
  { answer := if sb.sends ok then some r else none
    bytes := sb.writes ok r
    fd := if sb.writes ok r = [] then -1 else sb.resFd
    closes := sb.sends ok && sb.resFd != -1
    rc := rc }

/-- `sendmsg` would have blocked. -/
def SendCall.blocked (c : SendCall) : Prop := c.answer = some .again

/-- Calls for one response that all asked to be continued. In between the daemon does other things. -/
inductive SendCalls (env : Env) (a : Addr) (s : Daemon) : List SendCall → Daemon → Prop where
  | start : SendCalls env a s [] s
  | other {cs : List SendCall} {t t' : Daemon} (h : SendCalls env a s cs t) (ht : t'.sock? a = t.sock? a) :
      SendCalls env a s cs t'
  | call {cs : List SendCall} {t t' : Daemon} {sb : SockBuf} {r : SendResult} {now : Int} (h : SendCalls env a s cs t)
      (hs : t.sock? a = some sb) (hc : sendSockBuf env sb r now t = .ok (1, t')) :
      SendCalls env a s (cs ++ [sb.sendCall (env.malloc t.tick) r 1]) t'

/-- What one call does to the descriptor, and what its return value tells. -/
structure FdCall (env : Env) (sb : SockBuf) (r : SendResult) (t : Daemon) (rc : Int) (t' : Daemon) (sb' : SockBuf) :
    Prop where
  resFd : sb'.resFd = if sb.sends (env.malloc t.tick) then -1 else sb.resFd
  fds : t'.fds = if sb.sends (env.malloc t.tick) && sb.resFd != -1 then t.fds.erase sb.resFd else t.fds
  unsent : sb.sends (env.malloc t.tick) = false → rc ≠ 1
  refused : sb.sends (env.malloc t.tick) = true → sb.writes (env.malloc t.tick) r = [] → r = .again ∨ rc ≤ 0
  blocked : sb.sends (env.malloc t.tick) = true → r = .again → rc = 1

theorem vmClose_fds {u : Unit} (h : vmClose fd s = .ok (u, t)) :
    t.fds = if fd != -1 then s.fds.erase fd else s.fds := by
  unfold vmClose whenever at h
  split at h <;> cases h <;> simp_all

theorem SockBuf.sends_eq_true : sb.sends ok = true ↔
    ¬(sb.resSize = 0 ∨ sb.sentSize = sb.resSize + 4) ∧ ¬(sb.resFd ≠ -1 ∧ !ok) := by
  cases ok <;> simp [sends]

/-- Without progress the return value of `sendmsg` is passed on. -/
theorem SockBuf.sendDone_refused (h : sb.accepted r = []) : r = .again ∨ (sb.sendDone now r).2 ≤ 0 := by
  cases r with
  | again => exact .inl rfl
  | error => exact .inr (show (-1 : Int) ≤ 0 by decide)
  | sent n =>
    have hzero : min n sb.offered.length = 0 := by
      rw [← List.length_take]
      exact List.length_eq_zero_iff.mpr h
    refine .inr ?_
    simp [sendDone, hzero]

/-- **A call that gets as far as `sendmsg` closes the descriptor.** -/
theorem sendSockBuf_fd (hs : t.sock? a = some sb) (h : sendSockBuf env sb r now t = .ok (rc, t')) :
    ∃ sb', t'.sock? a = some sb' ∧ FdCall env sb r t rc t' sb' := by
  have ha : sb.addr = a := Keyed.key_of_find? (k := SockBuf.addr) hs
  have hunsent : ∀ {x : Daemon}, x.fds = t.fds → rc ≠ 1 → sb.sends (env.malloc t.tick) = false →
      FdCall env sb r t rc x sb := by
    intro x hfds hrc hno
    have hyes : sb.sends (env.malloc t.tick) ≠ true := Bool.eq_false_iff.mp hno
    exact ⟨by rw [hno]; rfl, by rw [hno]; exact hfds, fun _ => hrc, fun h => absurd h hyes, fun h => absurd h hyes⟩
  unfold sendSockBuf at h
  split at h
  · next hend =>
    cases h
    refine ⟨sb, hs, hunsent rfl (by decide) ?_⟩
    exact Bool.eq_false_iff.mpr fun hyes => (SockBuf.sends_eq_true.mp hyes).1 hend
  · next hend =>
    obtain ⟨ok, t1, h1, h⟩ := of_bind h
    cases h1
    split at h
    · next hok =>
      cases h
      refine ⟨sb, hs, hunsent rfl (by decide) ?_⟩
      exact Bool.eq_false_iff.mpr fun hyes => (SockBuf.sends_eq_true.mp hyes).2 hok
    · next hok =>
      have hsends : sb.sends (env.malloc t.tick) = true := SockBuf.sends_eq_true.mpr ⟨hend, hok⟩
      obtain ⟨_, t2, h2, h⟩ := of_bind h
      obtain ⟨_, t3, h3, h⟩ := of_bind h
      cases h
      obtain ⟨_, t4, h4, h3⟩ := of_bind h3
      have hs2 := modSock_lookup h2 (fun b => b.sendDone_addr now r) (ha ▸ hs)
      have hs4 := (vmClose_sock? h4).trans hs2
      have hs3 := modSock_lookup h3 (f := ({ · with resFd := -1 })) (fun _ => rfl) hs4
      rw [ha] at hs3
      have hfds : t'.fds = t4.fds := (congrArg Daemon.fds (of_modify h3) :)
      have hfds2 : t2.fds = t.fds := (congrArg Daemon.fds (of_modify h2) :)
      refine ⟨_, hs3, by rw [hsends]; rfl, ?_, fun hno => ?_, fun _ hw => ?_, fun _ hr => by rw [hr]; rfl⟩
      · rw [hfds, vmClose_fds h4, hfds2, hsends, Bool.true_and]
      · rw [hsends] at hno
        cases hno
      · rw [SockBuf.writes, if_neg hend, if_neg hok] at hw
        exact SockBuf.sendDone_refused hw

/-! ## All calls for one response -/

/-- The calls so far: none, or the first one was made with the descriptor and all others without. -/
inductive FdCalls (sb₀ : SockBuf) : List SendCall → SockBuf → Prop where
  | none : FdCalls sb₀ [] sb₀
  | some {c : SendCall} {cs : List SendCall} {sb : SockBuf} (ok : Bool) (r : SendResult) (hc : c = sb₀.sendCall ok r 1)
      (hsends : sb₀.sends ok = true) (hagain : c.bytes = [] → c.blocked)
      (hcs : ∀ x ∈ cs, x.fd = -1 ∧ x.closes = false) (hfd : sb.resFd = -1) : FdCalls sb₀ (c :: cs) sb

/-- A call without a descriptor. -/
theorem SockBuf.sendCall_bare (h : sb.resFd = -1) :
    (sb.sendCall ok r rc).fd = -1 ∧ (sb.sendCall ok r rc).closes = false := by
  simp [sendCall, h]

theorem SendCalls.fdCalls (h₀ : s.sock? a = some sb₀)
    (h : SendCalls env a s cs t) (hs : t.sock? a = some sb) : FdCalls sb₀ cs sb := by
  induction h generalizing sb with
  | start =>
    rw [h₀] at hs
    obtain rfl := Option.some.inj hs
    exact .none
  | other _ ht ih => exact ih (ht ▸ hs)
  | @call cs t t' sb₁ r now _ hs' hc ih =>
    obtain ⟨sb', hs'', hcall⟩ := sendSockBuf_fd hs' hc
    rw [hs] at hs''
    obtain rfl := Option.some.inj hs''
    -- the call returned 1, so `sendmsg` was called
    have hsends : sb₁.sends (env.malloc t.tick) = true := by
      by_contra hno
      exact hcall.unsent (Bool.eq_false_iff.mpr hno) rfl
    have hfd : sb.resFd = -1 := by rw [hcall.resFd, hsends]; rfl
    cases ih hs' with
    | none =>
      refine .some _ r rfl hsends (fun hnil => ?_) (fun x hx => absurd hx List.not_mem_nil) hfd
      obtain rfl := (hcall.refused hsends hnil).resolve_right (by decide)
      exact if_pos hsends
    | some ok r' hc' hsends' hagain hcs hfd' =>
      refine .some ok r' hc' hsends' hagain (fun x hx => ?_) hfd
      rcases List.mem_append.mp hx with hold | hnew
      · exact hcs x hold
      · rw [List.mem_singleton.mp hnew]
        exact SockBuf.sendCall_bare hfd'

/-- The descriptor is delivered with the first byte, once, and is closed only then or with the connection. -/
structure DeliveredOnce (fd : Fd) (response : List UInt8) (cs : List SendCall) : Prop where
  once : (cs.map (·.bytes)).flatten = response → ∃ pre c post, cs = pre ++ c :: post ∧ (∀ x ∈ pre, x.bytes = []) ∧
    c.bytes ≠ [] ∧ c.fd = fd ∧ ∀ x ∈ pre ++ post, x.fd = -1
  closed : ∀ c ∈ cs, c.closes = true → c.fd = fd ∨ c.rc ≤ 0

/-- The first call decides. -/
theorem deliveredOnce_first {response : List UInt8} {c : SendCall} (hres : response ≠ [])
    (hcs : ∀ x ∈ cs, x.fd = -1 ∧ x.closes = false) (hfd : c.bytes ≠ [] → c.fd = fd)
    (hlast : c.bytes = [] → ¬c.blocked → cs = [] ∧ (c.closes = true → c.rc ≤ 0))
    (hblocked : c.blocked → c.closes = true ∧ c.fd ≠ fd ∧ c.rc = 1) :
    DeliveredOnce fd response (c :: cs) ↔ ¬c.blocked := by
  constructor
  · intro D hb
    obtain ⟨hclose, hne, hrc⟩ := hblocked hb
    rcases D.closed c List.mem_cons_self hclose with heq | hle
    · exact hne heq
    · rw [hrc] at hle
      exact absurd hle (by decide)
  · intro hnb
    by_cases hbytes : c.bytes = []
    · -- nothing was sent, so the connection goes down
      obtain ⟨rfl, hrc⟩ := hlast hbytes hnb
      constructor
      · intro hall
        simp only [List.map_cons, List.map_nil, List.flatten_cons, hbytes] at hall
        exact absurd hall.symm hres
      · intro x hx hclose
        obtain rfl := List.mem_singleton.mp hx
        exact .inr (hrc hclose)
    · constructor
      · intro _
        exact ⟨[], c, cs, rfl, fun x hx => absurd hx List.not_mem_nil, hbytes, hfd hbytes, fun x hx => (hcs x hx).1⟩
      · intro x hx hclose
        rcases List.mem_cons.mp hx with rfl | hmem
        · exact .inl (hfd hbytes)
        · rw [(hcs x hmem).2] at hclose
          cases hclose

/-- The first call, with the descriptor. -/
theorem SockBuf.sendCall_first (hfd : sb₀.resFd ≠ -1) (hrc : sb₀.sends ok = true → r = .again → rc = 1) :
    ((sb₀.sendCall ok r rc).bytes ≠ [] → (sb₀.sendCall ok r rc).fd = sb₀.resFd) ∧
      ((sb₀.sendCall ok r rc).blocked → (sb₀.sendCall ok r rc).closes = true ∧
        (sb₀.sendCall ok r rc).fd ≠ sb₀.resFd ∧ (sb₀.sendCall ok r rc).rc = 1) := by
  constructor
  · intro hbytes
    exact if_neg hbytes
  · intro hblocked
    obtain ⟨hsends, rfl⟩ : sb₀.sends ok = true ∧ r = .again := by
      simpa [SendCall.blocked, sendCall] using hblocked
    have hbytes : sb₀.writes ok .again = [] := by simp [writes, accepted]
    have hnone : (sb₀.sendCall ok .again rc).fd = -1 := if_pos hbytes
    refine ⟨?_, fun heq => hfd (heq.symm.trans hnone), hrc hsends rfl⟩
    simp [sendCall, hsends, hfd]

/-- **A descriptor is delivered once exactly if the first `sendmsg` of the response does not block.** -/
theorem descriptor_once_iff {sb₀ : SockBuf} {cs : List SendCall} (h₀ : s.sock? a = some sb₀) (hfd : sb₀.resFd ≠ -1)
    (h : SendCalls env a s cs t) (hs : t.sock? a = some sb) (hc : sendSockBuf env sb r now t = .ok (rc, t')) :
    DeliveredOnce sb₀.resFd sb₀.response (cs ++ [sb.sendCall (env.malloc t.tick) r rc]) ↔
      ∀ c, (cs ++ [sb.sendCall (env.malloc t.tick) r rc]).head? = some c → ¬c.blocked := by
  have hres : sb₀.response ≠ [] := by
    intro hnil
    have hlen := congrArg List.length hnil
    rw [SockBuf.response, Framing.frame, List.length_append, length_htonl] at hlen
    simp at hlen
  obtain ⟨sb', -, hcall⟩ := sendSockBuf_fd hs hc
  cases h.fdCalls h₀ hs with
  | none =>
    -- the only call
    obtain ⟨hattached, hblocked⟩ := SockBuf.sendCall_first (r := r) hfd hcall.blocked
    have hlast (hnil : sb.writes (env.malloc t.tick) r = []) (hnb : ¬(sb.sendCall (env.malloc t.tick) r rc).blocked)
        (hclose : (sb.sendCall (env.malloc t.tick) r rc).closes = true) : rc ≤ 0 := by
      have hsends := (Bool.and_eq_true_iff.mp hclose).1
      refine (hcall.refused hsends hnil).resolve_left fun hr => hnb ?_
      rw [hr]
      exact if_pos hsends
    have hiff : DeliveredOnce sb.resFd sb.response [sb.sendCall (env.malloc t.tick) r rc] ↔ _ :=
      deliveredOnce_first hres (fun x hx => absurd hx List.not_mem_nil) hattached
        (fun hnil hnb => ⟨rfl, hlast hnil hnb⟩) hblocked
    simpa using hiff
  | @some c cs _ ok r' hc' hsends hagain hcs hbare =>
    obtain ⟨hattached, hblocked⟩ := SockBuf.sendCall_first (r := r') hfd (fun _ _ => rfl)
    rw [← hc'] at hattached hblocked
    have hothers : ∀ x ∈ cs ++ [sb.sendCall (env.malloc t.tick) r rc], x.fd = -1 ∧ x.closes = false := by
      intro x hx
      rcases List.mem_append.mp hx with hold | hnew
      · exact hcs x hold
      · rw [List.mem_singleton.mp hnew]
        exact SockBuf.sendCall_bare hbare
    have hiff := deliveredOnce_first hres hothers hattached (fun hnil hnb => absurd (hagain hnil) hnb) hblocked
    simpa using hiff

/-! ## Runs -/

/-- The calls that these answers of `sendmsg` lead to, as long as the transfer goes on. -/
def callAll (env : Env) (a : Addr) : List SendResult → Daemon → Option (List SendCall × Daemon)
  | [], t => some ([], t)
  | r :: rest, t =>
    match t.sock? a with
    | none => none
    | some sb =>
      match sendSockBuf env sb r 0 t with
      | .ok (1, t') => (callAll env a rest t').map fun p => (sb.sendCall (env.malloc t.tick) r 1 :: p.1, p.2)
      | _ => none

theorem callAll_sendCalls : ∀ {rs : List SendResult} {pre cs : List SendCall} {t t' : Daemon},
    SendCalls env a s pre t → callAll env a rs t = some (cs, t') → SendCalls env a s (pre ++ cs) t' := by
  intro rs
  induction rs with
  | nil =>
    intro pre cs t t' hpre h
    obtain ⟨rfl, rfl⟩ := Prod.mk.inj (Option.some.inj h)
    rw [List.append_nil]
    exact hpre
  | cons r rest ih =>
    intro pre cs t t' hpre h
    unfold callAll at h
    split at h
    · cases h
    · next sb hs =>
      split at h
      · next t₁ hc =>
        obtain ⟨p, hp, heq⟩ := Option.map_eq_some_iff.mp h
        obtain ⟨rfl, rfl⟩ := Prod.mk.inj heq
        have hcalls := ih (hpre.call hs hc) hp
        rwa [List.append_assoc] at hcalls
      · cases h

/-- A system in which every request asks for the console. -/
def consoleEnv : Env := { Env.ideal with nvlistUnpack := fun _ => some (request "showcomport" "a") }

/-- A VM with a console. -/
def consoleVm : LoadedConf := VmConf.load { VmConf.section "a" "csm" .yes with comport := some "/dev/nmdm0A" }

/-- The requests for it. -/
def consoleInputs : List Input := clientSends 10 12 0

/-- The whole response goes with the first `sendmsg`. -/
theorem descriptor_once_iff_console : ∃ s, Reach (bmd consoleEnv) anyStep s ∧ ∃ sb, s.sock? 11 = some sb ∧
    sb.resFd ≠ -1 ∧ ∃ cs, (cs.map (·.bytes)).flatten = sb.response ∧ DeliveredOnce sb.resFd sb.response cs := by
  obtain ⟨s, hr, h⟩ : ∃ s, Reach (bmd consoleEnv) anyStep s ∧ ((s.sock? 11).any fun sb => sb.resFd != -1 &&
      ((sendSockBuf consoleEnv sb (.sent 5) 0 s).toOption.any fun p =>
        sb.writes true (.sent 5) == sb.response && p.1 == 1)) = true :=
    exists_reach [consoleVm] consoleInputs (by decide +kernel)
  obtain ⟨sb, hsb, h⟩ := (Option.any_eq_true _ _).mp h
  obtain ⟨hfd, hcall⟩ := Bool.and_eq_true_iff.mp h
  obtain ⟨p, hp, hq⟩ := (Option.any_eq_true _ _).mp hcall
  obtain ⟨hbytes, hrc⟩ := Bool.and_eq_true_iff.mp hq
  have hfd : sb.resFd ≠ -1 := by simpa using hfd
  have hbytes : sb.writes true (.sent 5) = sb.response := eq_of_beq hbytes
  have hrun : sendSockBuf consoleEnv sb (.sent 5) 0 s = .ok (p.1, p.2) := by
    cases hr : sendSockBuf consoleEnv sb (.sent 5) 0 s with
    | error e =>
      rw [hr] at hp
      cases hp
    | ok q =>
      rw [hr] at hp
      exact congrArg Except.ok (Option.some.inj hp)
  refine ⟨s, hr, sb, hsb, hfd, _, ?_, (descriptor_once_iff hsb hfd .start hsb hrun).mpr ?_⟩
  · show sb.writes true (.sent 5) ++ [] = sb.response
    rw [List.append_nil]
    exact hbytes
  · intro c hc hblocked
    obtain rfl := Option.some.inj hc
    simp [SendCall.blocked, SockBuf.sendCall] at hblocked

/-- **The descriptor is closed before it is sent.** The first `sendmsg` of the response would block; the second one
    takes the whole response, and no descriptor goes with it. -/
theorem descriptor_lost_when_blocked : ∃ s, Reach (bmd consoleEnv) anyStep s ∧ ∃ sb, s.sock? 11 = some sb ∧
    sb.resFd ≠ -1 ∧ sb.sentSize = 0 ∧ ∃ cs t, SendCalls consoleEnv 11 s cs t ∧
      (cs.map (·.bytes)).flatten = sb.response ∧ ∀ c ∈ cs, c.fd = -1 := by
  obtain ⟨s, hr, h⟩ : ∃ s, Reach (bmd consoleEnv) anyStep s ∧ ((s.sock? 11).any fun sb => sb.resFd != -1 &&
      sb.sentSize == 0 && ((callAll consoleEnv 11 [.again, .sent 5] s).any fun p =>
        (p.1.map (·.bytes)).flatten == sb.response && p.1.all fun c => c.fd == -1)) = true :=
    exists_reach [consoleVm] consoleInputs (by decide +kernel)
  obtain ⟨sb, hsb, h⟩ := (Option.any_eq_true _ _).mp h
  simp only [Bool.and_eq_true, beq_iff_eq, bne_iff_ne] at h
  obtain ⟨⟨hfd, hsent⟩, hcalls⟩ := h
  obtain ⟨p, hp, hq⟩ := (Option.any_eq_true _ _).mp hcalls
  simp only [Bool.and_eq_true, beq_iff_eq, List.all_eq_true] at hq
  exact ⟨s, hr, sb, hsb, hfd, hsent, p.1, p.2, callAll_sendCalls .start hp, hq.1, hq.2⟩

end Bmd
