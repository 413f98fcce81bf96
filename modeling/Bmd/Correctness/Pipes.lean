import Bmd.Correctness.Methods
import Mathlib.Data.Finset.Card

/-!
# `Correctness.Pipes` — the pipes to loaders and to `bhyve`

`bhyve_load`, `grub_load` and `exec_bhyve` make pipes and leave the read ends in the fields of the VM; the end of a
file and `cleanup_bhyve` close them. A start writes the fields whatever is in them. `Plumbing` describes the VM while
it is being started: its fields, and the descriptors among which its open pipes are. Between two steps of the daemon
`Daemon.Piped` holds: every open pipe is in a field of its VM.
-/

namespace Bmd

open Lib Lib.Prog

variable {s s' t : Daemon} {a b : Addr} {v : VmEntry} {w w' : Wires} {l l' : List Fd} {env : Env} {u : Unit} {r : Int}
  {fd : Fd} {p : Option ((Fd × Fd) × (Fd × Fd))} {f : VmEntry → VmEntry} {v' : VmEntry} {o : Option (Fd × Fd)}

/-! ## Fields and pipes -/

/-- The descriptor is in one of the fields. -/
def Wires.Has (w : Wires) (fd : Fd) : Prop := fd = w.infd ∨ fd = w.outfd ∨ fd = w.errfd

/-- No field holds a descriptor. -/
def Wires.Vacant (w : Wires) : Prop := w.infd = -1 ∧ w.outfd = -1 ∧ w.errfd = -1

/-- A VM at rest has no pipes, and one that runs has no pipe to its standard input. -/
def VmEntry.Settled (v : VmEntry) : Prop := (v.state = .terminate → v.wires.Vacant) ∧ (v.state = .run → v.infd = -1)

/-- Every open pipe is in a field of its VM. -/
structure Daemon.Piped (s : Daemon) : Prop where
  nodup : (s.vmList.map (·.addr)).Nodup
  valid : ∀ p ∈ s.pipes, 0 ≤ p.2
  settled : ∀ v ∈ s.vmList, v.Settled
  held : ∀ p ∈ s.pipes, ∃ v, s.vm? p.1 = some v ∧ v.wires.Has p.2

/-- The VM at `a` is being started. Its fields are `w` and its open pipes are in `l`; nothing is amiss with the
    others. -/
structure Plumbing (a : Addr) (w : Wires) (l : List Fd) (s : Daemon) : Prop where
  nodup : (s.vmList.map (·.addr)).Nodup
  valid : ∀ p ∈ s.pipes, 0 ≤ p.2
  entry : ∃ v, s.vm? a = some v ∧ v.wires = w
  mine : ∀ fd, (a, fd) ∈ s.pipes → fd ∈ l
  others : ∀ p ∈ s.pipes, p.1 ≠ a → ∃ v, s.vm? p.1 = some v ∧ v.wires.Has p.2
  settled : ∀ v ∈ s.vmList, v.addr ≠ a → v.Settled

theorem Unpiped.addrs (h : Unpiped s s') : s'.vmList.map (·.addr) = s.vmList.map (·.addr) := by
  have hm := congrArg (List.map Wires.addr) h.vms
  rw [List.map_map, List.map_map] at hm
  exact hm

/-- A field of a VM keeps its descriptor. -/
theorem Unpiped.has (h : Unpiped s s') (hv : ∃ v, s.vm? a = some v ∧ v.wires.Has fd) :
    ∃ v, s'.vm? a = some v ∧ v.wires.Has fd := by
  obtain ⟨v, hv, hfd⟩ := hv
  have hw := h.wires? a
  rw [hv] at hw
  obtain ⟨v', hv', heq⟩ := Option.map_eq_some_iff.mp hw
  exact ⟨v', hv', heq ▸ hfd⟩

theorem VmEntry.Settled.of_wires (h : v.Settled) (hw : v.wires = v'.wires) (hst : v.state = v'.state) :
    v'.Settled := by
  refine ⟨fun hterm => ?_, fun hrun => ?_⟩
  · rw [← hw]
    exact h.1 (hst.trans hterm)
  · exact (congrArg Wires.infd hw).symm.trans (h.2 (hst.trans hrun))

theorem Unpiped.settles (h : Unpiped s s') (hv' : v' ∈ s'.vmList)
    (hs : ∀ v ∈ s.vmList, v.addr = v'.addr → v.Settled) : v'.Settled := by
  refine ⟨fun hterm => ?_, fun hrun => ?_⟩
  · obtain ⟨v, hv, hw, hst⟩ := h.settled v' hv' (.inl hterm)
    exact ((hs v hv (congrArg Wires.addr hw)).of_wires hw hst).1 hterm
  · obtain ⟨v, hv, hw, hst⟩ := h.settled v' hv' (.inr hrun)
    exact ((hs v hv (congrArg Wires.addr hw)).of_wires hw hst).2 hrun

theorem vm?_modVm_of_ne (hf : ∀ v, (f v).addr = v.addr) (h : b ≠ a) : (s.modVm a f).vm? b = s.vm? b :=
  Keyed.find?_update_of_ne (k := VmEntry.addr) hf s.vmList h

/-! ## Between two starts -/

namespace Daemon.Piped

theorem unpiped (h : s.Piped) (hu : Unpiped s s') : s'.Piped where
  nodup := by
    rw [hu.addrs]
    exact h.nodup
  valid p hp := h.valid p (hu.pipes hp)
  settled v hv := hu.settles hv fun v hv _ => h.settled v hv
  held p hp := hu.has (h.held p (hu.pipes hp))

theorem run {α : Type} {m : Bmd.Prog α} [hm : Preserves Unpiped m] {x : α} (h : s.Piped) (hr : m s = .ok (x, s')) :
    s'.Piped :=
  h.unpiped (hm.keeps _ _ _ hr)

theorem plumbing (h : s.Piped) (hv : s.vm? a = some v) : Plumbing a v.wires [v.infd, v.outfd, v.errfd] s where
  nodup := h.nodup
  valid := h.valid
  entry := ⟨v, hv, rfl⟩
  mine fd hfd := by
    obtain ⟨v', hv', hhas⟩ := h.held _ hfd
    obtain rfl := Option.some.inj (hv.symm.trans hv')
    rcases hhas with rfl | rfl | rfl <;> simp [VmEntry.wires]
  others p hp _ := h.held p hp
  settled v hv _ := h.settled v hv

/-- Without a descriptor in its fields a VM has no pipes. -/
theorem vacant (h : s.Piped) (hv : s.vm? a = some v) (hw : v.wires.Vacant) : Plumbing a v.wires [] s := by
  have hp := h.plumbing hv
  refine ⟨hp.nodup, hp.valid, hp.entry, fun fd hfd => ?_, hp.others, hp.settled⟩
  have hpos : 0 ≤ fd := h.valid _ hfd
  have hmem := hp.mine fd hfd
  obtain ⟨hin, hout, herr⟩ : v.infd = -1 ∧ v.outfd = -1 ∧ v.errfd = -1 := hw
  rw [hin, hout, herr] at hmem
  have hneg : fd = -1 := by simpa using hmem
  exact absurd hpos (by rw [hneg]; decide)

end Daemon.Piped

/-! ## While a VM is started or cleaned up -/

namespace Plumbing

theorem mono (h : Plumbing a w l s) (hl : ∀ x ∈ l, 0 ≤ x → x ∈ l') : Plumbing a w l' s :=
  { h with mine := fun fd hfd => hl fd (h.mine fd hfd) (h.valid _ hfd) }

theorem unpiped (h : Plumbing a w l s) (hu : Unpiped s s') : Plumbing a w l s' where
  nodup := by
    rw [hu.addrs]
    exact h.nodup
  valid p hp := h.valid p (hu.pipes hp)
  entry := by
    obtain ⟨v, hv, hw⟩ := h.entry
    have hwires := hu.wires? a
    rw [hv] at hwires
    obtain ⟨v', hv', heq⟩ := Option.map_eq_some_iff.mp hwires
    exact ⟨v', hv', heq.trans hw⟩
  mine fd hfd := h.mine fd (hu.pipes hfd)
  others p hp hpa := hu.has (h.others p (hu.pipes hp) hpa)
  settled v hv hva := hu.settles hv fun v' hv' heq => h.settled v' hv' (heq ▸ hva)

theorem run {α : Type} {m : Bmd.Prog α} [hm : Preserves Unpiped m] {x : α} (h : Plumbing a w l s)
    (hr : m s = .ok (x, s')) : Plumbing a w l s' :=
  h.unpiped (hm.keeps _ _ _ hr)

/-- The entry of the VM itself may be written. -/
theorem modVm (h : Plumbing a w l s) (hf : ∀ v, (f v).addr = v.addr)
    (hw : ∀ v, v.wires = w → (f v).wires = w') : Plumbing a w' l (s.modVm a f) where
  nodup := by
    rw [addrs_modVm hf]
    exact h.nodup
  valid := h.valid
  entry := by
    obtain ⟨v, hv, heq⟩ := h.entry
    exact ⟨f v, by rw [vm?_modVm hf, hv]; rfl, hw v heq⟩
  mine := h.mine
  others p hp hpa := by
    rw [vm?_modVm_of_ne hf hpa]
    exact h.others p hp hpa
  settled v' hv' hva := by
    obtain ⟨v, hv, rfl⟩ := List.mem_map.mp hv'
    split at hva
    · next heq => exact (hva ((hf v).trans (beq_iff_eq.mp heq))).elim
    · next heq =>
      rw [if_neg heq]
      exact h.settled v hv hva

theorem congr (h : Plumbing a w l s) (hv : s'.vmList = s.vmList) (hp : s'.pipes = s.pipes) : Plumbing a w l s' :=
  h.unpiped (.of_eq hv fun _ hx => hp ▸ hx)

theorem write (h : Plumbing a w l s) (hr : Bmd.modVm a f s = .ok (u, s'))
    (hf : ∀ v, (f v).addr = v.addr) (hw : ∀ v, v.wires = w → (f v).wires = w') : Plumbing a w' l s' := by
  rw [of_modify hr]
  exact h.modVm hf hw

theorem setState {st : State} (h : Plumbing a w l s) (hr : setState a st s = .ok (u, s')) :
    Plumbing a w l s' ∧ ∃ v, s'.vm? a = some v ∧ v.wires = w ∧ v.state = st := by
  obtain ⟨v, hv, hw⟩ := h.entry
  have hs' := of_modify hr
  simp only [hv] at hs'
  rw [hs']
  have hset : Plumbing a w l (s.modVm a ({ · with state := st })) := h.modVm (fun _ => rfl) fun _ => id
  refine ⟨hset.congr rfl rfl, { v with state := st }, ?_, hw, rfl⟩
  refine (vm?_modVm (f := ({ · with state := st })) fun _ => rfl).trans ?_
  rw [hv]
  rfl

/-- A descriptor is closed. -/
theorem close (h : Plumbing a w l s) (hl : ∀ x ∈ l, x ≠ fd → x ∈ l') (hr : closeFd fd s = .ok (u, s')) :
    Plumbing a w l' s' := by
  refine { h.run hr with mine := fun x hx => ?_ }
  rw [of_modify hr] at hx
  obtain ⟨hx, hne⟩ := List.mem_filter.mp hx
  exact hl x (h.mine x hx) (by simpa using hne)

theorem vmClose (h : Plumbing a w l s) (hl : ∀ x ∈ l, x ≠ fd → x ∈ l') (hr : vmClose fd s = .ok (u, s')) :
    Plumbing a w l' s' := by
  unfold Bmd.vmClose whenever at hr
  split at hr
  · exact h.close hl hr
  · next hfd =>
    -- the field is empty, and `-1` is not open
    cases hr
    have hfd : fd = -1 := by simpa using hfd
    refine h.mono fun x hx hpos => hl x hx ?_
    rintro rfl
    exact absurd hpos (by rw [hfd]; decide)

/-- The VM is started, and its pipes are in its fields. -/
theorem piped (h : Plumbing a w l s) (hv : s.vm? a = some v) (hw : v.wires = w) (hl : ∀ x ∈ l, w.Has x)
    (hset : v.Settled) : s.Piped where
  nodup := h.nodup
  valid := h.valid
  settled v' hv' := by
    by_cases hva : v'.addr = a
    · have hfind := Keyed.find?_of_mem (k := VmEntry.addr) h.nodup hv'
      rw [hva] at hfind
      obtain rfl := Option.some.inj (hv.symm.trans hfind)
      exact hset
    · exact h.settled v' hv' hva
  held p hp := by
    by_cases hpa : p.1 = a
    · obtain ⟨b, fd⟩ := p
      cases hpa
      exact ⟨v, hv, hw ▸ hl fd (h.mine fd hp)⟩
    · exact h.others p hp hpa

end Plumbing

/-! ## Pipes are made -/

/-- The two ends of a pipe. -/
def pipeEnd : Option (Fd × Fd) → List Fd
  | none => []
  | some p => [p.1, p.2]

/-- The ends of the two output pipes. -/
def pipeEnds : Option ((Fd × Fd) × (Fd × Fd)) → List Fd
  | none => []
  | some (out, err) => [err.1, err.2, out.1, out.2]

theorem pipe_plumbing (h : Plumbing a w l s) (hr : pipe env a s = .ok (o, s')) :
    Plumbing a w (pipeEnd o ++ l) s' := by
  obtain ⟨ok, s1, h1, hr⟩ := of_bind hr
  have hp1 := h.run h1
  split at hr
  · cases hr
    exact hp1
  obtain ⟨x, s2, h2, hr⟩ := of_bind hr
  obtain ⟨y, s3, h3, hr⟩ := of_bind hr
  obtain ⟨_, s4, h4, hr⟩ := of_bind hr
  obtain ⟨rfl, rfl⟩ := pure_ok.mp hr
  have hp3 := (hp1.run h2).run h3
  have hx : 0 ≤ x := by
    cases h2
    exact (env.fdFresh _ _).1
  have hy : 0 ≤ y := by
    cases h3
    exact (env.fdFresh _ _).1
  rw [of_modify h4]
  refine ⟨hp3.nodup, fun p hp => ?_, hp3.entry, fun fd hfd => ?_, fun p hp hpa => ?_, hp3.settled⟩
  · rcases List.mem_cons.mp hp with rfl | hp
    · exact hx
    rcases List.mem_cons.mp hp with rfl | hp
    · exact hy
    · exact hp3.valid p hp
  · rcases List.mem_cons.mp hfd with heq | hfd
    · simp [(Prod.mk.inj heq).2, pipeEnd]
    rcases List.mem_cons.mp hfd with heq | hfd
    · simp [(Prod.mk.inj heq).2, pipeEnd]
    · exact List.mem_cons_of_mem _ (List.mem_cons_of_mem _ (hp3.mine fd hfd))
  · rcases List.mem_cons.mp hp with rfl | hp
    · exact (hpa rfl).elim
    rcases List.mem_cons.mp hp with rfl | hp
    · exact (hpa rfl).elim
    · exact hp3.others p hp hpa

theorem outputPipes_plumbing {x : Bool} {o : Option (Option ((Fd × Fd) × (Fd × Fd)))} (h : Plumbing a w [] s)
    (hr : outputPipes env a x s = .ok (o, s')) : Plumbing a w (pipeEnds o.join) s' := by
  unfold outputPipes at hr
  split at hr
  · cases hr
    exact h
  obtain ⟨out, s1, h1, hr⟩ := of_bind hr
  have hp1 := pipe_plumbing h h1
  cases out with
  | none =>
    cases hr
    exact hp1
  | some out =>
    obtain ⟨err, s2, h2, hr⟩ := of_bind hr
    have hp2 := pipe_plumbing hp1 h2
    cases err with
    | none =>
      obtain ⟨_, s3, h3, hr⟩ := of_bind hr
      obtain ⟨_, s4, h4, hr⟩ := of_bind hr
      cases hr
      have hp3 : Plumbing a w [out.2] s3 := hp2.close (by simp +contextual [pipeEnd]) h3
      exact hp3.close (by simp) h4
    | some err =>
      cases hr
      exact hp2

theorem closePipes_plumbing (h : Plumbing a w (pipeEnds p) s)
    (hr : closePipes p s = .ok (u, s')) : Plumbing a w [] s' := by
  cases p with
  | none =>
    cases hr
    exact h
  | some p =>
    obtain ⟨out, err⟩ := p
    obtain ⟨_, s1, h1, hr⟩ := of_bind hr
    obtain ⟨_, s2, h2, hr⟩ := of_bind hr
    obtain ⟨_, s3, h3, hr⟩ := of_bind hr
    have hp1 : Plumbing a w [err.1, err.2, out.2] s1 := h.close (by simp +contextual [pipeEnds]) h1
    have hp2 : Plumbing a w [err.1, err.2] s2 := hp1.close (by simp +contextual) h2
    have hp3 : Plumbing a w [err.2] s3 := hp2.close (by simp +contextual) h3
    exact hp3.close (by simp) hr

/-- What the parent keeps of the pipes is in its fields. -/
theorem keepReadEnds_plumbing (h : Plumbing a w (pipeEnds p) s)
    (hr : keepReadEnds a p s = .ok (u, s')) :
    ∃ w' l', Plumbing a w' l' s' ∧ (∀ x ∈ l', w'.Has x) ∧ w'.infd = w.infd := by
  cases p with
  | none =>
    cases hr
    exact ⟨w, [], h, by simp, rfl⟩
  | some p =>
    obtain ⟨out, err⟩ := p
    obtain ⟨_, s1, h1, hr⟩ := of_bind hr
    obtain ⟨_, s2, h2, hr⟩ := of_bind hr
    have hp1 : Plumbing a w [err.1, err.2, out.1] s1 := h.close (by simp +contextual [pipeEnds]) h1
    have hp2 : Plumbing a w [err.1, out.1] s2 := hp1.close (by simp +contextual) h2
    refine ⟨{ w with outfd := out.1, errfd := err.1 }, [err.1, out.1], ?_, ?_, rfl⟩
    · refine hp2.write hr (fun _ => rfl) fun v hw => ?_
      rw [← hw]
      rfl
    · simp [Wires.Has]

/-- The child exists, and the VM is in the state that goes with it. -/
theorem Plumbing.spawned {st : State} {pid : Pid} {serial : Nat}
    (h : Plumbing a w (pipeEnds p) s) (hin : st = .run → w.infd = -1) (hst : st ≠ .terminate)
    (hr : (do keepReadEnds a p; setPid a pid serial; Bmd.setState a st; return 0 : Bmd.Prog Int) s = .ok (r, s')) :
    r = 0 ∧ s'.Piped := by
  obtain ⟨_, s1, h1, hr⟩ := of_bind hr
  obtain ⟨_, s2, h2, hr⟩ := of_bind hr
  obtain ⟨_, s3, h3, hr⟩ := of_bind hr
  obtain ⟨rfl, rfl⟩ := pure_ok.mp hr
  obtain ⟨w', l', hp1, hl, hinfd⟩ := keepReadEnds_plumbing h h1
  have hp2 := hp1.run h2
  obtain ⟨hp3, v, hv, hw, hvst⟩ := hp2.setState h3
  refine ⟨rfl, hp3.piped hv hw hl ⟨fun hterm => ?_, fun hrun => ?_⟩⟩
  · exact (hst (hvst.symm.trans hterm)).elim
  · have hfield : v.infd = w'.infd := congrArg Wires.infd hw
    rw [hfield, hinfd]
    exact hin (hvst.symm.trans hrun)

/-! ## Starting -/

/-- `fork` succeeds. -/
def Env.Forks (env : Env) (t : Daemon) : Prop := (env.fork t.tick (t.procs.map (·.pid))).isSome

/-- `grub_load` up to its `fork`: whether it gets there with an input pipe. -/
def grubInput (env : Env) (a : Addr) : Bmd.Prog Bool := do
  let conf ← getVmConf a
  let cmd ← createLoadCommand env conf
  return (← inputPipe env a cmd).join.isSome

/-- `start_bhyve` up to this `fork`. -/
def inputAhead (env : Env) (a : Addr) : Bmd.Prog Bool := do
  let v ← getVm a
  if v.state = .load then
    return false
  let conf ← getVmConf a
  match conf.loaderKind with
  | .grub =>
    if (← writeMapfile env a) < 0 then
      return false
    grubInput env a
  | _ => return false

/-- The outcome of an attempt to make a child: there is one and its pipes are in the fields, or the VM has none,
    provided that no pipe is lost. -/
def Attempted (kept : Prop) (a : Addr) (w : Wires) (r : Int) (s : Daemon) : Prop :=
  (0 ≤ r ∧ s.Piped) ∨ (r < 0 ∧ (kept → Plumbing a w [] s))

variable {kept : Prop}

theorem bhyveLoad_attempted (h : Plumbing a w [] s) (hr : bhyveLoad env a s = .ok (r, s')) :
    Attempted kept a w r s' := by
  replace hr := getVm_bind hr
  obtain ⟨o, s2, h2, hr⟩ := of_bind hr
  have hp2 := outputPipes_plumbing h h2
  cases o with
  | none =>
    cases hr
    exact .inr ⟨by decide, fun _ => hp2⟩
  | some p =>
    obtain ⟨pid, s3, h3, hr⟩ := of_bind hr
    have hp3 := hp2.run h3
    cases pid with
    | none =>
      obtain ⟨_, s4, h4, hr⟩ := of_bind hr
      cases hr
      exact .inr ⟨by decide, fun _ => closePipes_plumbing hp3 h4⟩
    | some q =>
      obtain ⟨rfl, hpiped⟩ := hp3.spawned (fun hrun : State.load = .run => by cases hrun) (by decide) hr
      exact .inl ⟨by decide, hpiped⟩

theorem execBhyve_attempted (h : Plumbing a w [] s) (hin : w.infd = -1) (hr : execBhyve env a s = .ok (r, s')) :
    Attempted kept a w r s' := by
  replace hr := getVm_bind hr
  obtain ⟨o, s2, h2, hr⟩ := of_bind hr
  have hp2 := outputPipes_plumbing h h2
  cases o with
  | none =>
    cases hr
    exact .inr ⟨by decide, fun _ => hp2⟩
  | some p =>
    obtain ⟨pid, s3, h3, hr⟩ := of_bind hr
    have hp3 := hp2.run h3
    cases pid with
    | none => cases hr
    | some q =>
      obtain ⟨rfl, hpiped⟩ := hp3.spawned (fun _ : State.run = .run => hin) (by decide) hr
      exact .inl ⟨by decide, hpiped⟩

theorem inputPipe_plumbing {cmd : Bool} {o : Option (Option (Fd × Fd))} (h : Plumbing a w [] s)
    (hr : inputPipe env a cmd s = .ok (o, s')) :
    Plumbing a w (pipeEnd o.join) s' := by
  unfold inputPipe at hr
  split at hr
  · cases hr
    exact h
  obtain ⟨p, s1, h1, hr⟩ := of_bind hr
  have hp1 := pipe_plumbing h h1
  cases p with
  | none | some p =>
    cases hr
    exact hp1

/-- The parent keeps one end of the input pipe, if there is one. -/
theorem keepInput_plumbing (h : Plumbing a w (pipeEnd o) s) (hr : keepInput a o s = .ok (u, s')) :
    ∃ fd l', Plumbing a { w with infd := fd } l' s' ∧ ∀ x ∈ l', x = fd := by
  cases o with
  | none =>
    refine ⟨-1, [], h.write hr (fun _ => rfl) fun v hw => ?_, by simp⟩
    rw [← hw]
    rfl
  | some p =>
    obtain ⟨x, y⟩ := p
    obtain ⟨_, s1, h1, hr⟩ := of_bind hr
    have hp1 : Plumbing a w [x] s1 := h.close (by simp +contextual [pipeEnd]) h1
    refine ⟨x, [x], hp1.write hr (fun _ => rfl) fun v hw => ?_, by simp⟩
    rw [← hw]
    rfl

/-- `grub_load` loses its input pipe when `fork` fails. -/
theorem grubLoad_attempted (h : Plumbing a w [] s) (hr : grubLoad env a s = .ok (r, s')) :
    Attempted (Meets env.Forks (grubInput env a) s) a w r s' := by
  replace hr := getVmConf_bind hr
  obtain ⟨cmd, s2, h2, hr⟩ := of_bind hr
  have hp2 := h.run h2
  obtain ⟨o, s3, h3, hr⟩ := of_bind hr
  have hp3 := inputPipe_plumbing hp2 h3
  cases o with
  | none =>
    cases hr
    exact .inr ⟨by decide, fun _ => hp3⟩
  | some o =>
    obtain ⟨pid, s4, h4, hr⟩ := of_bind hr
    have hp4 := hp3.run h4
    cases pid with
    | none =>
      cases hr
      refine .inr ⟨by decide, fun hforks => ?_⟩
      cases o with
      | none => exact hp4
      | some p =>
        have hinput : grubInput env a s = .ok (true, s3) := by
          rw [grubInput, getVmConf, bind_of_ok rfl, bind_of_ok h2, bind_of_ok h3]
          rfl
        obtain ⟨pid, hpid⟩ := Option.isSome_iff_exists.mp (hforks s3 hinput)
        replace h4 := get_bind h4
        simp only [hpid] at h4
        cases h4
    | some q =>
      obtain ⟨_, s5, h5, hr⟩ := of_bind hr
      obtain ⟨_, s6, h6, hr⟩ := of_bind hr
      obtain ⟨_, s7, h7, hr⟩ := of_bind hr
      obtain ⟨_, s8, h8, hr⟩ := of_bind hr
      obtain ⟨rfl, rfl⟩ := pure_ok.mp hr
      have hp5 := hp4.run h5
      obtain ⟨hp6, v6, hv6, -, hst6⟩ := hp5.setState h6
      obtain ⟨fd, l', hp7, hl⟩ := keepInput_plumbing hp6 h7
      have hp8 : Plumbing a ⟨w.addr, fd, -1, -1⟩ l' s8 := by
        refine hp7.write h8 (fun _ => rfl) fun v hw => ?_
        have hin : v.infd = fd := congrArg Wires.infd hw
        have haddr : v.addr = w.addr := congrArg Wires.addr hw
        show Wires.mk v.addr v.infd (-1) (-1) = _
        rw [hin, haddr]
      obtain ⟨v7, hv7, hst7⟩ : ∃ v, s7.vm? a = some v ∧ v.state = .load := by
        cases o with
        | none => exact ⟨_, modVm_lookup h7 (fun _ => rfl) hv6, hst6⟩
        | some p =>
          obtain ⟨_, t, hc, hm⟩ := of_bind h7
          have hvt : t.vm? a = some v6 := by
            rw [of_modify hc]
            exact hv6
          exact ⟨_, modVm_lookup hm (fun _ => rfl) hvt, hst6⟩
      have hv8 := modVm_lookup h8 (fun _ => rfl) hv7
      obtain ⟨v8, hv8', hw8⟩ := hp8.entry
      obtain rfl := Option.some.inj (hv8.symm.trans hv8')
      refine .inl ⟨by decide, hp8.piped hv8 hw8 (fun x hx => .inl (hl x hx)) ⟨fun hterm => ?_, fun hrun => ?_⟩⟩
      · exact absurd (hst7.symm.trans hterm) (by decide)
      · exact absurd (hst7.symm.trans hrun) (by decide)

/-- **`start_bhyve`.** -/
theorem startBhyve_attempted (h : Plumbing a w [] s) (hin : w.infd = -1) (hr : startBhyve env a s = .ok (r, s')) :
    Attempted (Meets env.Forks (inputAhead env a) s) a w r s' := by
  rw [inputAhead, Meets.bind_iff rfl]
  replace hr := getVm_bind hr
  split at hr
  · exact execBhyve_attempted h hin hr
  next hload =>
  rw [if_neg hload, Meets.bind_iff rfl]
  replace hr := getVmConf_bind hr
  cases hk : (s.vmConf a).loaderKind with
  | bhyveload =>
    rw [hk] at hr
    exact bhyveLoad_attempted h hr
  | grub =>
    rw [hk] at hr
    obtain ⟨x, s1, h1, hr⟩ := of_bind hr
    simp only []
    rw [Meets.bind_iff h1]
    split at hr
    · cases hr
      exact .inr ⟨by decide, fun _ => h.run h1⟩
    · next hneg =>
      rw [if_neg hneg]
      exact grubLoad_attempted (h.run h1) hr
  | uefi =>
    rw [hk] at hr
    obtain ⟨x, s1, h1, hr⟩ := of_bind hr
    split at hr
    · cases hr
      exact .inr ⟨by decide, fun _ => h.run h1⟩
    · exact execBhyve_attempted (h.run h1) hin hr
  | csm =>
    rw [hk] at hr
    exact execBhyve_attempted h hin hr
  | unknown =>
    rw [hk] at hr
    cases hr
    exact .inr ⟨by decide, fun _ => h⟩

/-! ## Cleaning up -/

theorem releaseBhyve_plumbing (h : Plumbing a w l s) (hl : ∀ x ∈ l, w.Has x) (hr : releaseBhyve a s = .ok (u, s')) :
    Plumbing a ⟨w.addr, -1, -1, -1⟩ [] s' := by
  replace hr := getVm_bind hr
  obtain ⟨v, hv, rfl⟩ := h.entry
  rw [vmOf_of_vm? hv] at hr
  obtain ⟨_, s2, h2, hr⟩ := of_bind hr
  obtain ⟨_, s3, h3, hr⟩ := of_bind hr
  obtain ⟨_, s4, h4, hr⟩ := of_bind hr
  obtain ⟨_, s5, h5, hr⟩ := of_bind hr
  obtain ⟨_, s6, h6, hr⟩ := of_bind hr
  have hp2 : Plumbing a v.wires [v.outfd, v.errfd] s2 := by
    refine h.vmClose (fun x hx hne => ?_) h2
    rcases hl x hx with hin | hout | herr
    · exact (hne hin).elim
    · simp [hout, VmEntry.wires]
    · simp [herr, VmEntry.wires]
  have hp3 : Plumbing a v.wires [v.errfd] s3 := hp2.vmClose (by simp +contextual) h3
  have hp4 : Plumbing a v.wires [] s4 := hp3.vmClose (by simp +contextual) h4
  have hp5 := hp4.run h5
  have hp6 := hp5.run h6
  refine hp6.write hr (fun _ => rfl) fun v' hw => ?_
  have haddr : v'.addr = v.addr := congrArg Wires.addr hw
  show Wires.mk v'.addr (-1) (-1) (-1) = _
  rw [haddr]
  rfl

/-- **`cleanup_virtual_machine`** closes what is in the fields. -/
theorem cleanupVirtualMachine_piped (h : Plumbing a w l s) (hl : ∀ x ∈ l, w.Has x)
    (hr : cleanupVirtualMachine env a s = .ok (u, s')) : s'.Piped := by
  obtain ⟨x, s1, h1, hr⟩ := of_bind hr
  have hp1 := h.run h1
  obtain ⟨_, s2, h2, hr⟩ := of_bind hr
  obtain ⟨hp3, v, hv, hw, hst⟩ := (releaseBhyve_plumbing hp1 hl h2).setState hr
  refine hp3.piped hv hw (by simp) ⟨fun _ => ?_, fun hrun => ?_⟩
  · rw [hw]
    exact ⟨rfl, rfl, rfl⟩
  · exact absurd (hst.symm.trans hrun) (by decide)

theorem Daemon.Piped.cleanup (h : s.Piped) (hv : (s.vm? a).isSome) (hr : cleanupVirtualMachine env a s = .ok (u, s')) :
    s'.Piped := by
  obtain ⟨v, hv⟩ := Option.isSome_iff_exists.mp hv
  exact cleanupVirtualMachine_piped (h.plumbing hv) (by simp [Wires.Has, VmEntry.wires]) hr

theorem stopVirtualMachine_piped (h : s.Piped) (hv : (s.vm? a).isSome)
    (hr : stopVirtualMachine env a s = .ok (u, s')) : s'.Piped := by
  replace hr := getVm_bind hr
  obtain ⟨_, s2, h2, hr⟩ := of_bind hr
  have hdry : Dry s s2 := preserved h2
  exact (h.unpiped hdry.unpiped).cleanup (hdry.still.isSome hv) hr

theorem superviseProcess_piped (h : s.Piped) (hv : (s.vm? a).isSome) (hr : superviseProcess env a s = .ok (r, s')) :
    s'.Piped := by
  obtain ⟨ok, s1, h1, hr⟩ := of_bind hr
  have hdry1 : Dry s s1 := preserved h1
  have hp1 := h.unpiped hdry1.unpiped
  split at hr
  · -- the process is given up
    obtain ⟨_, s2, h2, hr⟩ := of_bind hr
    cases hr
    obtain ⟨_, s3, h3, h2⟩ := of_bind h2
    replace h2 := getVm_bind h2
    obtain ⟨x, s5, h5, h2⟩ := of_bind h2
    have hdry3 : Dry s1 s3 := preserved h3
    have hdry5 : Dry s3 s5 := preserved h5
    have hp5 := (hp1.unpiped hdry3.unpiped).unpiped hdry5.unpiped
    exact hp5.cleanup (hdry5.still.isSome (hdry3.still.isSome (hdry1.still.isSome hv))) h2
  · replace hr := getVmConf_bind hr
    obtain ⟨x, s3, h3, hr⟩ := of_bind hr
    have hp3 := hp1.run h3
    split at hr
    · cases hr
      exact hp3
    · obtain ⟨_, s4, h4, hr⟩ := of_bind hr
      cases hr
      exact hp3.run h4

/-- **`start_virtual_machine`** of a VM without pipes. -/
theorem startVirtualMachine_piped (hfork : ∀ n used, (env.fork n used).isSome) (h : s.Piped) (hv : s.vm? a = some v)
    (hw : v.wires.Vacant) (hr : startVirtualMachine env a s = .ok (r, s')) : s'.Piped := by
  obtain ⟨x1, s1, h1, hr⟩ := of_bind hr
  have hu1 : Unpiped s s1 := preserved h1
  split at hr
  · cases hr
    exact h.unpiped hu1
  obtain ⟨x2, s2, h2, hr⟩ := of_bind hr
  have hu2 : Unpiped s s2 := trans_of Unpiped hu1 (preserved h2)
  split at hr
  · cases hr
    exact h.unpiped hu2
  obtain ⟨x3, s3, h3, hr⟩ := of_bind hr
  have hu3 : Unpiped s s3 := trans_of Unpiped hu2 (preserved h3)
  split at hr
  · cases hr
    exact h.unpiped hu3
  obtain ⟨x4, s4, h4, hr⟩ := of_bind hr
  have hp3 := (h.vacant hv hw).unpiped hu3
  obtain ⟨v3, hv3, -⟩ := hp3.entry
  have hwired : Wired s3 s4 := preserved h4
  obtain ⟨v4, hv4, -⟩ := hwired.conf_eq hv3
  rcases startBhyve_attempted hp3 hw.1 h4 with ⟨hpos, hpiped⟩ | ⟨hneg, hp4⟩
  · rw [if_neg (by omega)] at hr
    exact superviseProcess_piped hpiped (by rw [hv4]; rfl) hr
  · rw [if_pos hneg] at hr
    obtain ⟨_, s5, h5, hr⟩ := of_bind hr
    cases hr
    exact cleanupVirtualMachine_piped (hp4 fun t _ => hfork t.tick _) (by simp) h5

/-! ## Whole runs -/

/-- The end of a file: the descriptor is closed and taken out of the fields. -/
theorem endOfOutput_piped (h : s.Piped) (hv : s.vm? a = some v) (hr : endOfOutput fd a s = .ok (r, s')) : s'.Piped := by
  obtain ⟨_, s1, h1, hr⟩ := of_bind hr
  obtain ⟨_, s2, h2, hr⟩ := of_bind hr
  obtain ⟨-, rfl⟩ := pure_ok.mp hr
  have hp1 : Plumbing a v.wires ([v.infd, v.outfd, v.errfd].filter (· ≠ fd)) s1 :=
    (h.plumbing hv).close (fun x hx hne => List.mem_filter.mpr ⟨hx, by simpa using hne⟩) h1
  have hv1 : s1.vm? a = some v := by
    rw [of_modify h1]
    exact hv
  have hv2 := modVm_lookup h2 (fun _ => rfl) hv1
  have hp2 : Plumbing a ⟨v.addr, v.infd, if v.outfd = fd then -1 else v.outfd, if v.errfd = fd then -1 else v.errfd⟩
      ([v.infd, v.outfd, v.errfd].filter (· ≠ fd)) s2 := by
    refine hp1.write h2 (fun _ => rfl) fun x hx => ?_
    have haddr : x.addr = v.addr := congrArg Wires.addr hx
    have hin : x.infd = v.infd := congrArg Wires.infd hx
    have hout : x.outfd = v.outfd := congrArg Wires.outfd hx
    have herr : x.errfd = v.errfd := congrArg Wires.errfd hx
    simp only [VmEntry.wires, haddr, hin, hout, herr]
  refine hp2.piped hv2 rfl (fun x hx => ?_) ⟨fun hterm => ?_, (h.settled v (mem_of_vm? hv)).2⟩
  · obtain ⟨hmem, hne⟩ := List.mem_filter.mp hx
    have hne : x ≠ fd := by simpa using hne
    rcases List.mem_cons.mp hmem with rfl | hmem
    · exact .inl rfl
    rcases List.mem_cons.mp hmem with rfl | hmem
    · exact .inr (.inl (if_neg hne).symm)
    · obtain rfl := List.mem_singleton.mp hmem
      exact .inr (.inr (if_neg hne).symm)
  · obtain ⟨hin, hout, herr⟩ : v.infd = -1 ∧ v.outfd = -1 ∧ v.errfd = -1 := (h.settled v (mem_of_vm? hv)).1 hterm
    simp only [Wires.Vacant, VmEntry.wires, hin, hout, herr, ite_self, and_self]

theorem finishLoad_piped (h : s.Piped) (hv : s.vm? a = some v) (hr : finishLoad a s = .ok (u, s')) : s'.Piped := by
  replace hr := getVm_bind hr
  rw [vmOf_of_vm? hv] at hr
  obtain ⟨_, s2, h2, hr⟩ := of_bind hr
  obtain ⟨_, s3, h3, hr⟩ := of_bind hr
  have hp2 : Plumbing a v.wires [v.outfd, v.errfd] s2 := (h.plumbing hv).vmClose (by simp +contextual) h2
  have hp3 : Plumbing a ⟨v.addr, -1, v.outfd, v.errfd⟩ [v.outfd, v.errfd] s3 := by
    refine hp2.write h3 (fun _ => rfl) fun x hx => ?_
    have haddr : x.addr = v.addr := congrArg Wires.addr hx
    have hout : x.outfd = v.outfd := congrArg Wires.outfd hx
    have herr : x.errfd = v.errfd := congrArg Wires.errfd hx
    show Wires.mk x.addr (-1) x.outfd x.errfd = _
    rw [haddr, hout, herr]
  have hv2 : s2.vm? a = some v := by
    unfold vmClose whenever at h2
    split at h2
    · rw [of_modify h2]
      exact hv
    · cases h2
      exact hv
  have hv3 := modVm_lookup h3 (fun _ => rfl) hv2
  have hset := h.settled v (mem_of_vm? hv)
  have hpiped3 : s3.Piped := by
    refine hp3.piped hv3 rfl (by simp [Wires.Has]) ⟨fun hterm => ?_, fun _ => rfl⟩
    obtain ⟨-, hout, herr⟩ := hset.1 hterm
    exact ⟨rfl, hout, herr⟩
  exact hpiped3.run hr

theorem onReadVmOutput_piped {x : ReadResult} (h : s.Piped) (hr : onReadVmOutput a fd x s = .ok (u, s')) : s'.Piped := by
  replace hr := get_bind hr
  cases hv : s.vm? a with
  | none =>
    simp only [hv] at hr
    exact h.run hr
  | some v =>
    simp only [hv] at hr
    obtain ⟨n, s2, h2, hr⟩ := of_bind hr
    have hp2 : s2.Piped := by
      cases x with
      | eof => exact endOfOutput_piped h hv h2
      | error =>
        cases h2
        exact h
      | data bytes write =>
        rw [writeErrLog] at h2
        split at h2
        · exact endOfOutput_piped h hv h2
        · have hlog : Preserves Unpiped (modVm a ({ · with logfd := -1 })) := modVm_writes .log fun _ => rfl
          exact h.run h2
    have hlast : Preserves Unpiped
        (if n = 0 then stopWaitingFor (vmReadOf a fd) else pure () : Bmd.Prog Unit) := by
      split <;> infer_instance
    exact hp2.run hr

/-- A VM at rest has no pipes, so none is lost with it. -/
theorem Daemon.Piped.forget (h : s.Piped) (hv : s.vm? a = some v) (hst : v.state = .terminate)
    (hr : vmListRemove a s = .ok (u, s')) : s'.Piped := by
  have hmine := (h.vacant hv ((h.settled v (mem_of_vm? hv)).1 hst)).mine
  rw [of_modify hr]
  refine ⟨h.nodup.sublist (List.filter_sublist.map _), h.valid, fun w hw => h.settled w (List.mem_filter.mp hw).1,
    fun p hp => ?_⟩
  obtain ⟨w, hw, hhas⟩ := h.held p hp
  have hne : p.1 ≠ a := by
    intro heq
    obtain ⟨b, fd⟩ := p
    cases heq
    simpa using hmine fd hp
  refine ⟨w, ?_, hhas⟩
  show (s.vmList.filter (·.addr != a)).find? (·.addr == p.1) = some w
  rw [Keyed.find?_filter_of_ne (k := VmEntry.addr) s.vmList hne]
  exact hw

theorem piped_kept (hfork : ∀ n used, (env.fork n used).isSome) :
    Kept env Wires.Vacant (fun v => v.outfd = -1 ∧ v.errfd = -1) Daemon.Piped where
  nodup h := h.nodup
  dry hs h := h.unpiped hs.unpiped
  idle h hv hst := (h.settled _ (mem_of_vm? hv)).1 hst
  loaded _ _ _ hE := ⟨rfl, hE⟩
  reboot h hv hst hE := ⟨(h.settled _ (mem_of_vm? hv)).2 hst, hE⟩
  finish hv hr h := finishLoad_piped h hv hr
  read hr h := onReadVmOutput_piped h hr
  load hw ha h := by
    obtain ⟨-, rfl⟩ := allocConfs_spec _ ha
    exact h.unpiped (.of_eq rfl fun _ => id)
  create {s c m j} hw hm h := by
    have hnew : ∀ v ∈ s.vmList, v.addr ≠ s.next := fun v hv => Nat.ne_of_lt (hw.vmBound v hv)
    refine ⟨List.nodup_cons.mpr ⟨hw.next_free, h.nodup⟩, h.valid, fun v hv => ?_, fun p hp => ?_⟩
    · rcases List.mem_cons.mp hv with rfl | hv
      · exact ⟨fun _ => ⟨rfl, rfl, rfl⟩, fun _ => rfl⟩
      · exact h.settled v hv
    · obtain ⟨v, hv, hhas⟩ := h.held p hp
      refine ⟨v, ?_, hhas⟩
      have hne : s.next ≠ p.1 := by
        rw [← addr_of_vm? hv]
        exact (hnew v (mem_of_vm? hv)).symm
      show (mkVmEntry s.next c m j :: s.vmList).find? (·.addr == p.1) = some v
      rw [List.find?_cons_of_neg (by simpa [mkVmEntry] using hne)]
      exact hv
  start hv hQ hr h := startVirtualMachine_piped hfork h hv hQ hr
  switch {s t s' a c v r} hv hQ _ hs hr h := by
    have hconf : Unpiped s (s.modVm a ({ · with conf := c })) := modVm_unpiped (fun _ => rfl) fun _ _ => rfl
    have hu : Unpiped s t := trans_of Unpiped hconf hs.unpiped
    have hw := hu.wires? a
    rw [hv] at hw
    obtain ⟨v', hv', heq⟩ := Option.map_eq_some_iff.mp hw
    exact startVirtualMachine_piped hfork (h.unpiped hu) hv' (by rw [heq]; exact hQ) hr
  stop hv hr h := stopVirtualMachine_piped h hv hr
  forget hv hst hr h := h.forget hv hst hr
  mark h := h.unpiped (modVm_unpiped (fun _ => rfl) fun _ _ => rfl)
  clear {s s' u} hr h := by
    rw [of_modify hr]
    refine h.unpiped ⟨?_, fun v' hv' _ => ?_, fun _ => id⟩
    · show (s.vmList.map _).map _ = _
      rw [List.map_map]
      rfl
    · obtain ⟨v, hv, rfl⟩ := List.mem_map.mp hv'
      exact ⟨v, hv, rfl, rfl⟩

/-- The exit of a VM is answered with a start although its output is not read to the end. -/
def Daemon.unread (env : Env) (s : Daemon) (e : Event) : Prop :=
  e.cb = .onVmExit ∧ ∃ v ∈ s.vmList, e.data = .vm v.addr ∧ s.restartsAfter env v ∧ (v.outfd ≠ -1 ∨ v.errfd ≠ -1)

instance (s : Daemon) (e : Event) : Decidable (s.unread env e) :=
  inferInstanceAs (Decidable (e.cb = .onVmExit ∧ ∃ v ∈ s.vmList, _))

/-- The step starts no VM again before the output of its child has been read to the end. -/
def Daemon.drains (env : Env) (s : Daemon) (i : Input) : Prop := ∀ e ∈ s.arrival i, ¬s.unread env e

instance (s : Daemon) (i : Input) : Decidable (s.drains env i) :=
  inferInstanceAs (Decidable (∀ e ∈ s.arrival i, ¬s.unread env e))

/-- The descriptor of a pipe is in a field of the VM, or there is a read event for it. -/
def Daemon.tracks (s : Daemon) (a : Addr) (fd : Fd) : Prop :=
  (∃ v ∈ s.vmList, v.addr = a ∧ v.wires.Has fd) ∨ ∃ e ∈ s.eventList, e.data = .vm a ∧ e.filter = .read ∧ e.ident = fd

instance (w : Wires) (fd : Fd) : Decidable (w.Has fd) :=
  inferInstanceAs (Decidable (fd = w.infd ∨ fd = w.outfd ∨ fd = w.errfd))

instance (s : Daemon) (a : Addr) (fd : Fd) : Decidable (s.tracks a fd) :=
  inferInstanceAs (Decidable ((∃ v ∈ s.vmList, _) ∨ ∃ e ∈ s.eventList, _))

/-- The open pipes of a VM. -/
def Daemon.pipesOf (s : Daemon) (a : Addr) : Finset Fd := ((s.pipes.filter (·.1 = a)).map (·.2)).toFinset

theorem mem_pipesOf : fd ∈ s.pipesOf a ↔ (a, fd) ∈ s.pipes := by
  simp [Daemon.pipesOf]

theorem Daemon.Piped.tracked (h : s.Piped) (hfd : fd ∈ s.pipesOf a) : s.tracks a fd := by
  obtain ⟨v, hv, hhas⟩ := h.held _ (mem_pipesOf.mp hfd)
  exact .inl ⟨v, mem_of_vm? hv, addr_of_vm? hv, hhas⟩

/-- A VM has three fields for pipes. -/
theorem Daemon.Piped.card_le (h : s.Piped) (a : Addr) : (s.pipesOf a).card ≤ 3 := by
  cases hv : s.vm? a with
  | none =>
    have hnone : s.pipesOf a = ∅ := by
      refine Finset.eq_empty_of_forall_notMem fun fd hfd => ?_
      obtain ⟨v, hv', -⟩ := h.held _ (mem_pipesOf.mp hfd)
      rw [hv] at hv'
      cases hv'
    rw [hnone]
    decide
  | some v =>
    have hsub : s.pipesOf a ⊆ {v.infd, v.outfd, v.errfd} := by
      intro fd hfd
      obtain ⟨v', hv', hhas⟩ := h.held _ (mem_pipesOf.mp hfd)
      obtain rfl := Option.some.inj (hv.symm.trans hv')
      simpa [Wires.Has, VmEntry.wires] using hhas
    exact (Finset.card_le_card hsub).trans Finset.card_le_three

/-- `fork` does not fail, and no VM is started again before the output of its child has been read to the end of both
    files. Then every open pipe to a child is in a field of its VM. -/
theorem reach_piped (hfork : ∀ n used, (env.fork n used).isSome) (h : Reach (bmd env) (Daemon.drains env) s) :
    s.Piped := by
  have k := piped_kept hfork
  refine Reach.invariant (I := Daemon.Piped) ?_ ?_ h
  · rintro s ⟨load, off, hb⟩
    exact k.startDaemon ⟨List.nodup_nil, by simp [Daemon.empty], by simp [Daemon.empty], by simp [Daemon.empty]⟩ hb
  · intro s i s' hr hs hok hst
    refine k.step (reach_wf hr).1 (fun x io e t r t' _ _ _ _ _ hw hrun ht => ?_) (fun e he a v hcb hd hv hre => ?_)
      hst hs
    · exact k.reloadVirtualMachines (fun hI => hI.unpiped (modVm_unpiped (fun _ => rfl) fun _ _ => rfl)) hw hrun ht
    · have hread := hok e he
      by_contra hopen
      refine hread ⟨hcb, v, mem_of_vm? hv, by rw [hd, addr_of_vm? hv], hre, ?_⟩
      by_cases hout : v.outfd = -1
      · exact .inr fun herr => hopen ⟨hout, herr⟩
      · exact .inl hout

/-- **Pipes are kept track of**, and a VM has three at most. -/
theorem pipes_tracked (hfork : ∀ n used, (env.fork n used).isSome) (h : Reach (bmd env) (Daemon.drains env) s) :
    (∀ a, ∀ fd ∈ s.pipesOf a, s.tracks a fd) ∧ ∀ a, (s.pipesOf a).card ≤ 3 :=
  ⟨fun _ _ hfd => (reach_piped hfork h).tracked hfd, (reach_piped hfork h).card_le⟩

theorem fork_ideal (n : Nat) (used : List Pid) : (Env.ideal.fork n used).isSome := rfl

/-- The output of `bhyveload` ends, the loader exits, and `bhyve` is started with pipes of its own. -/
theorem pipes_tracked_load : ∃ s, Reach (bmd .ideal) (Daemon.drains .ideal) s ∧ s.pipes.length = 2 ∧
    (∀ a, ∀ fd ∈ s.pipesOf a, s.tracks a fd) ∧ ∀ a, (s.pipesOf a).card ≤ 3 := by
  obtain ⟨s, hr, hlen⟩ : ∃ s, Reach (bmd .ideal) (Daemon.drains .ideal) s ∧ s.pipes.length = 2 :=
    exists_reach [(VmConf.section "a" "bhyveload" .yes).load]
      [.event 8 {}, .event 9 {}, .procExit 1 0, .event 7 {}] (by decide +kernel)
  exact ⟨s, hr, hlen, pipes_tracked fork_ideal hr⟩

/-- **Pipes are lost.** `bhyveload` exits before its output is read to the end. `on_vm_exit` drops the read events
    and `exec_bhyve` writes over the fields: both descriptors stay open, and nothing refers to them. -/
theorem pipes_lost_by_loader : ∃ s, Reach (bmd .ideal) anyStep s ∧ ∃ p ∈ s.pipes, ∃ q ∈ s.pipes,
    p ≠ q ∧ ¬s.tracks p.1 p.2 ∧ ¬s.tracks q.1 q.2 :=
  exists_reach [(VmConf.section "a" "bhyveload" .yes).load] [.procExit 1 0, .event 7 {}] (by decide +kernel)

end Bmd
