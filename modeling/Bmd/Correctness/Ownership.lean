import Bmd.Correctness.Passes

/-!
# `Correctness.Ownership` — configuration entries over whole runs

Every step of the daemon keeps the ledger `Sound`, as long as no reload finds a VM in `REMOVE` and
`create_vm_entry` does not fail. Hence nothing is unlinked or freed twice, and after every reload the VMs are
those of the configuration that was applied.
-/

namespace Bmd

open Lib Lib.Prog

variable {s s' t : Daemon} {a b c : Addr} {env : Env} {v : VmEntry} {u : Unit} {d : Prop}
  {load : Option (List LoadedConf)} {l l' : Ledger} {ls : List LoadedConf} {r : Int} {how : DownHow} {st : State}
  {install : Bool} {nv : NvList} {ucred : Xucred} {w x : View} {done : List Addr}

/-! ## What a dispatch can do -/

/-- The entry is neither linked nor held nor freed. -/
structure Ledger.Loose (l : Ledger) (c : Addr) : Prop where
  unlinked : c ∉ l.linked
  unheld : ∀ a k, l.stake a = some k → k.conf ≠ c
  live : l.live c = true

/-- **What anything but a reload does to the ledger**: `search_and_replace_vm_conf` loads the configuration, throws
    most of it away and may replace the entry of a VM; the exit of a VM in `REMOVE` takes its entry along. -/
inductive Ledger.Turn (l : Ledger) : Ledger → Prop where
  | load {l' : Ledger} {new : List Addr} {ls : List LoadedConf} (h : l.Loads new ls l') : Turn l l'
  | discard {c : Addr} (h : l.Loose c) : Turn l (l.free c)
  | replace {a c : Addr} {k : Stake} (hk : l.stake a = some k) (hl : k.leaving = false) (h : l.Loose c)
      (hn : l.name c = l.name k.conf) :
      Turn l ((((l.unlink k.conf).link c).free k.conf).hold a (some { k with conf := c }))
  | gone {a : Addr} {k : Stake} (hk : l.stake a = some k) (hl : k.leaving = true) :
      Turn l ((l.hold a none).free k.conf)

theorem Ledger.Turn.sound (h : l.Turn l') (hs : l.Sound d) : l'.Sound d := by
  cases h with
  | load h => exact hs.loads h
  | discard h => exact hs.frees (Ledger.free_frees h.live) h.unlinked h.unheld
  | replace hk hl h hn => exact hs.replace hk hl h.unlinked h.live h.unheld hn
  | gone hk hl => exact hs.gone hk hl

/-- The lists stay consistent, and the ledger takes some turns. -/
def Turns (s s' : Daemon) : Prop :=
  WF s → WF s' ∧ Relation.ReflTransGen Ledger.Turn s.ledger s'.ledger

instance : IsPreorder Daemon Turns where
  refl _ := fun hw => ⟨hw, .refl⟩
  trans _ _ _ h h' := fun hw => ⟨(h' (h hw).1).1, (h hw).2.trans (h' (h hw).1).2⟩

/-- The ledger stays as it is. -/
theorem Turns.still (hw : WF s → WF s') (h : s'.ledger = s.ledger) : Turns s s' := fun hs =>
  ⟨hw hs, by rw [h]⟩

theorem Apart.turns (h : Apart s s') : Turns s s' := fun hw =>
  ⟨(h.1 hw.owned).keepsWF hw, by rw [(h.1 hw.owned).ledger]⟩

/-! ## What the ledger does not see -/

theorem Works.ledger (h : Works env b s s') : s'.ledger = s.ledger := h.within.ledger h.leaving

/-- A VM is put from one state into another, neither of which is `REMOVE`. -/
theorem setState_ledger {st' : State} (hst : (s.view b).state = some st) (hne : st ≠ .remove)
    (hne' : st' ≠ .remove) (h : setState b st' s = .ok (u, s')) : s'.ledger = s.ledger := by
  obtain ⟨g, e⟩ := setState_spec (isSome_of_view hst) h
  refine g.within.ledger (iff_of_false (fun hl => ?_) fun hl => ?_)
  · rw [View.Leaving, e] at hl
    exact hne' (Option.some.inj hl)
  · rw [View.Leaving, hst] at hl
    exact hne (Option.some.inj hl)

theorem requestStop_ledger {second : Int} (h : requestStop env b second s = .ok (u, s')) : s'.ledger = s.ledger := by
  obtain ⟨g, ok, e, -⟩ := requestStop_spec h
  exact g.within.ledger (by rw [e]; exact Iff.rfl)

theorem setInstall_ledger {x : Bool} (h : setInstall c x s = .ok (u, s')) : s'.ledger = s.ledger := by
  have hin := (setInstall_within (a := 0) h).1
  refine ledger_of_core hin.core fun a => ?_
  rw [of_modify h]
  rfl

/-! ## Commands -/

theorem ledger_name (h : (s.conf? c).isSome) : s.ledger.name c = some (s.confOf c).name := by
  obtain ⟨e, he⟩ := Option.isSome_iff_exists.mp h
  simp only [Ledger.name, Daemon.ledger, Daemon.cell, Daemon.confOf, he]
  rfl

theorem isSome_of_live (h : s.ledger.live c = true) : (s.conf? c).isSome := by
  cases hc : s.conf? c with
  | none =>
    simp only [Ledger.live, Daemon.ledger, Daemon.cell, hc] at h
    cases h
  | some e => rfl

/-- There is a cell wherever there is an entry. -/
theorem cell_isSome (h : (s.conf? c).isSome) : (s.ledger.cell c).isSome := by
  show ((s.conf? c).map _).isSome
  rw [Option.isSome_map]
  exact h

theorem Ledger.Loose.frees {x : Addr} (h : l.Loose x) (hf : Ledger.Frees c l l') (hne : x ≠ c) : l'.Loose x :=
  ⟨hf.linked ▸ h.unlinked, by rw [hf.stake]; exact h.unheld, by rw [hf.live x hne]; exact h.live⟩

theorem Ledger.Loads.live {new : List Addr} (h : l.Loads new ls l') (hc : c ∈ new) : l'.live c = true := by
  have hmem : l'.cell c ∈ ls.map fun x => some x.cell := h.cells ▸ List.mem_map_of_mem hc
  obtain ⟨x, -, hx⟩ := List.mem_map.mp hmem
  rw [Ledger.live, ← hx]
  rfl

/-- What `load_config_file` makes is loose. -/
theorem Ledger.Loads.loose {new : List Addr} (h : s.ledger.Loads new ls l')
    (hw : WF s) (hc : c ∈ new) : l'.Loose c := by
  have hnone : ¬(s.conf? c).isSome := fun hs => by
    have hcell := cell_isSome hs
    rw [h.fresh c hc] at hcell
    cases hcell
  refine ⟨fun hl => ?_, fun a k hk heq => ?_, h.live hc⟩
  · rw [h.linked] at hl
    exact hnone (hw.listed c hl)
  · rw [h.stake] at hk
    obtain ⟨v, hv, rfl⟩ := vm?_of_stake hk
    exact hnone (heq ▸ hw.vmConf v (mem_of_vm? hv))

/-- The names of the entries that `load_config_file` makes. -/
theorem Ledger.Loads.names {new : List Addr} (h : l.Loads new ls l') :
    new.map l'.name = (ls.map (·.conf.name)).map some := by
  have hcells := congrArg (List.map (Option.map fun k : Cell => k.conf.name)) h.cells
  rw [List.map_map, List.map_map] at hcells
  rw [List.map_map]
  exact hcells

/-- What `searchConf` leaves of a list of loose entries: at most one, which has the name. -/
theorem searchConf_turns {name : String} {l : List Addr} {ret r : Option Addr} (hw : WF s) (hnd : l.Nodup)
    (hl : ∀ c ∈ l, s.ledger.Loose c)
    (hret : ∀ c ∈ ret, s.ledger.Loose c ∧ s.ledger.name c = some name ∧ c ∉ l)
    (h : searchConf name ret l s = .ok (r, s')) :
    WF s' ∧ Relation.ReflTransGen Ledger.Turn s.ledger s'.ledger ∧ s'.ledger.stake = s.ledger.stake ∧
      s'.ledger.name = s.ledger.name ∧ ∀ c ∈ r, s'.ledger.Loose c ∧ s'.ledger.name c = some name := by
  induction l generalizing s ret with
  | nil =>
    cases h
    exact ⟨hw, .refl, rfl, rfl, fun c hc => ⟨(hret c hc).1, (hret c hc).2.1⟩⟩
  | cons x rest ih =>
    obtain ⟨hx, hnd⟩ := List.nodup_cons.mp hnd
    replace h := get_bind h
    have hlx := hl x List.mem_cons_self
    split at h
    · next hn =>
      refine ih hw hnd (fun c hc => hl c (List.mem_cons_of_mem _ hc)) (fun c hc => ?_) h
      cases hc
      exact ⟨hlx, by rw [ledger_name (isSome_of_live hlx.live), hn], hx⟩
    · obtain ⟨_, s1, h1, h⟩ := of_bind h
      have e1 := freeVmConfEntry_ledger h1
      have hf := Ledger.free_frees hlx.live
      rw [← e1] at hf
      obtain ⟨hw', hturns, hst, hnm, hr⟩ := ih ((freeVmConfEntry_confSide _ _ _ _ h1).wf hw) hnd
        (fun c hc => (hl c (List.mem_cons_of_mem _ hc)).frees hf fun heq => hx (heq ▸ hc))
        (fun c hc => by
          obtain ⟨h1, h2, h3⟩ := hret c hc
          refine ⟨h1.frees hf fun heq => h3 (heq ▸ List.mem_cons_self), by rw [hf.name]; exact h2, fun hmem => ?_⟩
          exact h3 (List.mem_cons_of_mem _ hmem)) h
      refine ⟨hw', .head ?_ hturns, hst.trans hf.stake, hnm.trans hf.name, hr⟩
      rw [e1]
      exact .discard hlx

/-- `search_and_replace_vm_conf` for a VM that is not in `REMOVE`. -/
theorem searchAndReplaceVmConf_turns (hv : s.vm? a = some v)
    (hst : v.state ≠ .remove) (h : searchAndReplaceVmConf a load s = .ok (r, s')) : Turns s s' := by
  intro hw
  refine ⟨(searchAndReplaceVmConf_calm _ _ _ _ _ h hw).1.wf, ?_⟩
  replace h := get_bind h
  obtain ⟨o, s1, h1, h2⟩ := of_bind h
  rcases loadConfigFile_spec h1 with ⟨rfl, -, rfl⟩ | ⟨ls, -, rfl, ha⟩
  · cases h2
    exact .refl
  have hload := allocConfs_ledger hw ha
  have hw1 := (allocConfs_confSide ls _ _ _ ha).wf hw
  obtain ⟨o2, s2, h3, h4⟩ := of_bind h2
  obtain ⟨hw2, hturns, hstake, hname, hr⟩ := searchConf_turns hw1 hload.nodup (fun c hc => hload.loose hw hc)
    (fun c hc => by cases hc) h3
  have hturns2 : Relation.ReflTransGen Ledger.Turn s.ledger s2.ledger := .head (.load hload) hturns
  have hk : s2.ledger.stake a = some ⟨v.conf, v.newConf, false⟩ := by
    rw [hstake, hload.stake, stake_of_vm? hv, beq_eq_false_iff_ne.mpr hst]
  cases o2 with
  | none =>
    cases h4
    exact hturns2
  | some c =>
    obtain ⟨_, s3, h5, h6⟩ := of_bind h4
    cases h6
    obtain ⟨hloose, hcn⟩ := hr c rfl
    obtain ⟨v2, hv2, hkv⟩ := vm?_of_stake hk
    -- the entry has the name that the configuration of the VM has
    have hn : s2.ledger.name c = s2.ledger.name v.conf := by
      have hold : s1.ledger.cell v.conf = s.ledger.cell v.conf := by
        refine hload.old _ fun hmem => ?_
        have hcell := cell_isSome (hw.vmConf v (mem_of_vm? hv))
        rw [hload.fresh _ hmem] at hcell
        cases hcell
      rw [hcn, hname, Ledger.name, hold, ← Ledger.name, ledger_name (hw.vmConf v (mem_of_vm? hv)), Daemon.vmConf,
        vmOf_of_vm? hv]
    have h := get_bind h5
    rw [vmOf_of_vm? hv2] at h
    have hconf : v2.conf = v.conf := (congrArg Stake.conf hkv).symm
    have hnew : v2.newConf = v.newConf := (congrArg Stake.new hkv).symm
    have hrem : (v2.state == .remove) = false := (congrArg Stake.leaving hkv).symm
    refine hturns2.tail ?_
    split at h
    · obtain ⟨_, s5, h8, h⟩ := of_bind h
      obtain ⟨_, s6, h9, h⟩ := of_bind h
      obtain ⟨_, s7, h10, h⟩ := of_bind h
      have e5 := confListRemove_ledger h8
      have e6 : s6.ledger = s5.ledger.link c := by rw [of_modify h9]; rfl
      have e7 := freeVmConfEntry_ledger h10
      have hv7 : s7.vm? a = some v2 := by
        have k := trans_of ConfSide (confListRemove_confSide _ _ _ _ h8)
          (by rw [of_modify h9]; exact pushConf_confSide
                ((confListRemove_confSide _ _ _ _ h8).isSome (isSome_of_live hloose.live)) : ConfSide s5 s6)
        have k7 := trans_of ConfSide k (freeVmConfEntry_confSide _ _ _ _ h10)
        simp only [Daemon.vm?, k7.vms]
        exact hv2
      have e8 := modVm_ledger (f := ({ · with conf := c })) (fun _ => rfl) hv7 h
      rw [e8, e7, e6, e5, hconf]
      dsimp only
      rw [hnew, hrem]
      exact .replace hk rfl hloose hn
    · rw [freeVmConfEntry_ledger h]
      exact .discard hloose

theorem bootVm_turns {r : NvList}
    (hv : s.vm? v.addr = some v) (h : bootVm env v install load s = .ok (r, s')) : Turns s s' := by
  intro hw
  refine ⟨((bootVm_moves hv h : Moves env False s s') hw).1.wf, ?_⟩
  obtain ⟨_, s1, h1, h⟩ := of_bind h
  have hs1 := of_modify h1
  have hw1 : WF s1 := by
    rw [hs1]
    exact (note_tidy_vm hw hv rfl).wf
  have e1 : s.ledger = s1.ledger := by rw [hs1]; rfl
  have hv1 : s1.vm? v.addr = some v := by rw [hs1]; exact hv
  rw [e1]
  split at h
  · cases h
    exact .refl
  next hst =>
  have hst := not_not.mp hst
  obtain ⟨rc, s2, h2, h⟩ := of_bind h
  have turns2 := (searchAndReplaceVmConf_turns hv1 (by rw [hst]; decide) h2 hw1).2
  split at h
  · cases h
    exact turns2
  obtain ⟨_, s3, h3, h⟩ := of_bind h
  have e3 : s3.ledger = s2.ledger := by
    replace h3 := get_bind h3
    cases install with
    | false => cases h3; rfl
    | true => exact setInstall_ledger h3
  have k3 := trans_of Calm (searchAndReplaceVmConf_calm _ _ _ _ _ h2) (applyStyle_calm _ _ _ _ _ h3)
  have hst3 : (s3.view v.addr).state = some .terminate := by rw [(k3 hw1).2, view_state hv1, hst]
  have hc3 : (s3.view v.addr).Commanded := by
    intro x hx
    rw [(k3 hw1).2, hs1, view_note rfl] at hx
    exact .inr ⟨v.addr, (Option.some.inj hx).symm⟩
  obtain ⟨rs, s4, h4, h⟩ := of_bind h
  have hw3 := (k3 hw1).1.wf
  have work : Works env v.addr s3 s4 := .of_starts hw3 hc3 hst3 h4
  have turns4 : Relation.ReflTransGen Ledger.Turn s1.ledger s4.ledger := by rw [work.ledger, e3]; exact turns2
  split at h
  · cases h
    exact turns4
  · have hw4 := (work.toActsOn.moves (isSome_of_view hst3) hw3).1.wf
    exact turns4.trans ((preserved (R := Apart) h).turns hw4).2

theorem noteDown_ledger (h : noteDown a st how s = .ok (u, s')) :
    s'.ledger = s.ledger ∧ (s'.view a).state = (s.view a).state := by
  unfold noteDown whenever at h
  split at h
  · rw [of_modify h]
    exact ⟨rfl, rfl⟩
  · cases h
    exact ⟨rfl, rfl⟩

theorem downVm_ledger {conf : VmConf} (hact : (s.view v.addr).Active v.state)
    (h : downVm env v conf how s = .ok (u, s')) : s'.ledger = s.ledger := by
  have hne : v.state ≠ .remove := by
    intro hr
    rcases hact.2 with h | h <;> rw [hr] at h <;> cases h
  have hsome := isSome_of_view hact.1
  cases how with
  | shutdown =>
    obtain ⟨_, s1, h1, h⟩ := of_bind h
    obtain ⟨g, ok, e, -⟩ := requestStop_spec h1
    have hst : (s1.view v.addr).state = some v.state := by rw [e]; exact hact.1
    exact (setState_ledger hst hne (by decide) h).trans (requestStop_ledger h1)
  | poweroff =>
    obtain ⟨_, s1, h1, h⟩ := of_bind h
    obtain ⟨g, -, opened, e⟩ := poweroffBhyve_spec hsome h1
    have hst : (s1.view v.addr).state = some v.state := by rw [e]; exact hact.1
    exact (setState_ledger hst hne (by decide) h).trans (g.within.ledger (by rw [e]; exact Iff.rfl))
  | reset =>
    obtain ⟨opened, s2, h2, h⟩ := of_bind h
    cases h
    rw [(suspendBhyve_spec h2).1]
    rfl

theorem vmDownCommand_turns : Keeps Turns (vmDownCommand env nv how ucred) := by
  intro s r s' h hw
  have m : Moves env False s s' := vmDownCommand_moves _ _ _ h
  refine Turns.still (fun hw => (m hw).1.wf) ?_ hw
  obtain ⟨o, s1, h1, h⟩ := of_bind h
  obtain ⟨rfl, hv⟩ := requestedVm_spec hw h1
  cases o with
  | none =>
    cases h
    rfl
  | some v =>
    have hv := hv v rfl
    obtain ⟨_, s2, h2, h⟩ := of_bind h
    obtain ⟨e2, hst2⟩ := noteDown_ledger h2
    split at h
    · next hact =>
      replace h := get_bind h
      obtain ⟨_, s4, h4, h⟩ := of_bind h
      cases h
      exact (downVm_ledger ⟨by rw [hst2, view_state hv], hact⟩ h4).trans e2
    · cases h
      exact e2

theorem boot0Command_turns : Keeps Turns (boot0Command env nv install ucred load) := by
  intro s r s' h hw
  obtain ⟨o, s1, h1, h⟩ := of_bind h
  obtain ⟨rfl, hv⟩ := requestedVm_spec hw h1
  cases o with
  | none =>
    cases h
    exact refl_of Turns _ hw
  | some v => exact bootVm_turns (hv v rfl) h hw

theorem serves_turns : Serves env Turns := ⟨Apart.turns, vmDownCommand_turns, boot0Command_turns⟩

/-! ## Timers and exits -/

theorem Fires.leaving (h : Fires env a w x) : x.Leaving ↔ w.Leaving := by
  cases h with
  | start hst h =>
    have hne : ¬w.Leaving := by rw [View.Leaving, hst]; exact fun h => by cases h
    exact iff_of_false (h.not_leaving hne) hne
  | poweroff | ignored => exact Iff.rfl

theorem Exits.not_leaving (h : Exits env a w x) (hw : ¬w.Leaving) : ¬x.Leaving := by
  cases h with
  | loaded _ h | rebooted _ h => exact h.not_leaving hw
  | loadFailed | stopped | restarting | removed => exact fun h => by cases h
  | stale => exact hw

/-- The exit of a VM in `REMOVE`: the entry it holds is freed. -/
theorem onVmRemoved_ledger (hv : s.vm? b = some v) (h : onVmRemoved env b s = .ok (u, s')) :
    s'.ledger = (s.ledger.hold b none).free v.conf := by
  have hsome : (s.vm? b).isSome := by rw [hv]; rfl
  obtain ⟨_, s1, h1, h⟩ := of_bind h
  obtain ⟨w1, e1⟩ := stopVirtualMachine_spec hsome h1
  replace h := getVm_bind h
  obtain ⟨v1, hv1, hconf, -⟩ := w1.vm?_self hv
  rw [vmOf_of_vm? hv1] at h
  obtain ⟨_, s3, h3, h⟩ := of_bind h
  obtain ⟨_, s4, h4, h⟩ := of_bind h
  have hs1 : s1.ledger = s.ledger.hold b (s1.stake b) := ledger_hold w1.core fun x hx => w1.near.stake hx
  rw [freeVmConfEntry_ledger h, stopWaitingFor_ledger h4, vmListRemove_ledger h3, hs1, hconf]
  congr 1
  simp only [Ledger.hold, Function.update_idem]

/-- An exit leaves the ledger alone, or the VM was in `REMOVE`. -/
theorem onVmExit_ledger {e : Event} (hw : WF s) (he : e ∈ s.eventList) (hd : e.data = .vm b)
    (h : onVmExit env b e.ident (s.delivered e) = .ok (u, s')) :
    s'.ledger = s.ledger ∨ s.ledger.Turn s'.ledger := by
  obtain ⟨v, hv⟩ := Option.isSome_iff_exists.mp (hw.eventVms e he b hd)
  have hva := addr_of_vm? hv
  replace h := get_bind h
  have hv' : (s.delivered e).vm? b = some v := hv
  simp only [hv'] at h
  obtain ⟨status, h, -⟩ := onVmExitVm_waited h
  have tw : Tidy (s.delivered e) ((s.delivered e).waited v e.ident status) :=
    waited_tidy _ _ (delivered_wf hw) (mem_of_vm? hv')
  have hbst : ((s.delivered e).waited v e.ident status).vm? b = some v := hv
  have hls : ((s.delivered e).waited v e.ident status).ledger = s.ledger := rfl
  by_cases hrem : v.state = .remove
  · rw [onVmExitStatus_remove hrem, hva] at h
    rw [onVmRemoved_ledger hbst h, hls]
    exact .inr (.gone (stake_of_vm? hv) (by rw [hrem]; rfl))
  · obtain ⟨w2, hex, -⟩ := onVmExitStatus_spec (tw.wf.ready hbst) hrem (waited_again _ status hva) h
    have hne : ¬(((s.delivered e).waited v e.ident status).view b).Leaving := by
      rw [View.Leaving, view_state hbst]
      exact fun h => hrem (Option.some.inj h)
    rw [w2.ledger (iff_of_false (hex.not_leaving hne) hne), hls]
    exact .inl rfl

/-! ## Reloading -/

section Reload

variable {old new done todo : List Addr}

/-- **What the first pass does to the ledger** for one configuration. -/
inductive Ledger.Enter (env : Env) (c : Addr) (l : Ledger) : Bool → Ledger → Prop where
  | failed (h : ∃ n, env.malloc n = false) : Enter env c l false l
  | created {a : Addr} (ha : l.stake a = none)
      (hno : ∀ x m, l.stake x = some m → l.name m.conf ≠ l.name c) :
      Enter env c l true (l.hold a (some ⟨c, some c, false⟩))
  | found {a x : Addr} {k : Stake} (hk : l.stake a = some k) (hn : l.name c = l.name k.conf)
      (hx : x = k.conf ∨ x = c) : Enter env c l true (l.hold a (some ⟨x, some c, k.leaving⟩))

theorem ledger_of_rest (h : s'.rest = s.rest) (hv : s'.vmList = s.vmList) : s'.ledger = s.ledger :=
  ledger_of_core (core_of_rest h) fun a => by simp only [Daemon.stake, Daemon.vm?, hv]

theorem stake_next (hw : WF s) : s.ledger.stake s.next = none := by
  refine stake_eq_none.mpr (Option.not_isSome_iff_eq_none.mp fun hs => ?_)
  obtain ⟨w, hwv⟩ := Option.isSome_iff_exists.mp hs
  exact Nat.lt_irrefl _ (hw.lt_next hwv)

theorem reloadConf_enter {r : Bool} (hw : WF s) (hcmd : ∀ a, (s.view a).Recalled) (hc : (s.conf? c).isSome)
    (h : reloadConf env c s = .ok (r, s')) : s.ledger.Enter env c r s'.ledger := by
  cases reloadConf_spec hw hcmd hc h with
  | failed _ hrest hvm hfail =>
    rw [ledger_of_rest hrest hvm]
    exact .failed hfail
  | created hnone hcr hnew =>
    obtain ⟨v, hv, hvc, hvs⟩ := hcr.entry
    obtain ⟨v', hv', hvn⟩ := hnew
    rw [hv] at hv'
    cases hv'
    have hstake : s'.stake s.next = some ⟨c, some c, false⟩ := by
      rw [Daemon.stake, hv, Option.map_some, hvc, hvn, beq_eq_false_iff_ne.mpr hvs]
    rw [ledger_hold (core_of_rest hcr.rest) fun x hx => hcr.near.stake hx, hstake]
    refine .created (stake_next hw) fun x m hx heq => ?_
    obtain ⟨w, hwm, rfl⟩ := vm?_of_stake hx
    rw [ledger_name (hw.vmConf w (mem_of_vm? hwm)), ledger_name hc] at heq
    exact List.find?_eq_none.mp hnone w (mem_of_vm? hwm) (beq_iff_eq.mpr (Option.some.inj heq))
  | @found v hv hr hnew =>
    obtain ⟨hvm, hvn⟩ := lookupVmByName_vm? hw hv
    obtain ⟨w, hwm, hwc, -, hws⟩ := hr.entry v hvm
    obtain ⟨w', hw', hwn⟩ := hnew
    rw [hwm] at hw'
    cases hw'
    have hstake : s'.stake v.addr = some ⟨w.conf, some c, v.state == .remove⟩ := by
      have hst : (w.state == .remove) = (v.state == .remove) := by
        rw [Bool.eq_iff_iff, beq_iff_eq, beq_iff_eq]
        exact hws
      rw [Daemon.stake, hwm, Option.map_some, hwn, hst]
    rw [ledger_hold (core_of_rest hr.rest) fun x hx => hr.near.stake hx, hstake]
    refine .found (stake_of_vm? hvm) ?_ hwc
    rw [ledger_name hc, ledger_name (hw.vmConf v (mem_of_vm? hvm)), hvn]

/-- The first pass for one configuration. -/
theorem Ledger.Enter.first {r : Bool} (h : l.Enter env c r l') (hm : ∀ n, env.malloc n = true)
    (hf : l.First d old done) (ho : c ∉ old) (hd : c ∉ done) (hnew : d → ∀ x ∈ done, l.name x ≠ l.name c) :
    r = true ∧ l'.First d old (c :: done) := by
  cases h with
  | failed hfail =>
    obtain ⟨n, hn⟩ := hfail
    rw [hm n] at hn
    cases hn
  | created ha hno => exact ⟨rfl, hf.created ho hd ha hno⟩
  | found hk hn hx => exact ⟨rfl, hf.found ho hd hnew hk hn.symm hx⟩

/-- **The first pass.** -/
theorem reloadConfs_first {l : List Addr} {r : Bool} (hm : ∀ n, env.malloc n = true) (hw : WF s)
    (hcmd : ∀ a, (s.view a).Recalled) (hl : ∀ c ∈ l, (s.conf? c).isSome) (hf : s.ledger.First d old done)
    (ho : ∀ c ∈ l, c ∉ old) (hnd : (l ++ done).Nodup) (hnames : d → ((l ++ done).map s.ledger.name).Nodup)
    (h : reloadConfs env l s = .ok (r, s')) : r = true ∧ s'.ledger.First d old (l ++ done) := by
  induction l generalizing s done with
  | nil =>
    cases h
    exact ⟨rfl, hf⟩
  | cons c rest ih =>
    obtain ⟨hc, hnd'⟩ := List.nodup_cons.mp hnd
    have hnot := not_or.mp fun hor => hc (List.mem_append.mpr hor)
    obtain ⟨ok, s1, h1, h⟩ := of_bind h
    have hspec := reloadConf_spec hw hcmd (hl c List.mem_cons_self) h1
    obtain ⟨t1, cmd1, -⟩ := hspec.obeys hw hcmd
    obtain ⟨rfl, hf1⟩ := (reloadConf_enter hw hcmd (hl c List.mem_cons_self) h1).first hm hf
      (ho c List.mem_cons_self) hnot.2 fun hd x hx heq => by
        have := (List.nodup_cons.mp (hnames hd)).1
        rw [← heq] at this
        exact this (List.mem_map_of_mem (List.mem_append_right _ hx))
    have hname : s1.ledger.name = s.ledger.name := by
      funext x
      show (s1.cell x).map _ = (s.cell x).map _
      rw [cell_of_core (core_of_rest hspec.rest)]
    have hperm : (rest ++ c :: done).Perm (c :: rest ++ done) := List.perm_middle
    obtain ⟨hr, hf2⟩ := ih t1.wf cmd1 (fun x hx => t1.confs x (hl x (List.mem_cons_of_mem _ hx))) hf1
      (fun x hx => ho x (List.mem_cons_of_mem _ hx)) (hperm.nodup_iff.mpr hnd)
      (fun hd => by rw [hname]; exact (hperm.map _).nodup_iff.mpr (hnames hd)) h
    exact ⟨hr, hf2.congr fun x => hperm.symm.mem_iff⟩

/-- **What the second pass does to the ledger** for one VM. -/
inductive Ledger.Settle (a : Addr) (l : Ledger) : Ledger → Prop where
  | skip (ha : l.stake a = none) : Settle a l l
  | adopt {k : Stake} {c : Addr} (hk : l.stake a = some k) (hc : k.new = some c) :
      Settle a l (l.hold a (some ⟨c, none, k.leaving⟩))
  | mark {k : Stake} (hk : l.stake a = some k) (hc : k.new = none) :
      Settle a l ((l.hold a (some ⟨k.conf, none, true⟩)).unlink k.conf)
  | forget {k : Stake} (hk : l.stake a = some k) (hc : k.new = none) :
      Settle a l (((l.hold a none).unlink k.conf).free k.conf)

theorem settleVm_settle (hw : WF s) (hcmd : ∀ a, (s.view a).Recalled) (h : settleVm env a s = .ok (u, s')) :
    s.ledger.Settle a s'.ledger := by
  replace h := get_bind h
  cases hv : s.vm? a with
  | none =>
    simp only [hv] at h
    cases h
    exact .skip (stake_eq_none.mpr hv)
  | some v =>
    have hva := addr_of_vm? hv
    have hk := stake_of_vm? hv
    simp only [hv] at h
    cases hn : v.newConf with
    | some c =>
      simp only [hn] at h
      rw [modVm_ledger (f := ({ · with conf := c, newConf := none })) (fun _ => rfl) hv h]
      exact .adopt hk hn
    | none =>
      simp only [hn] at h
      cases dropVm_spec hw (hcmd _) (by rw [hva]; exact hv) h with
      | @marked t hst hact hl hc =>
        rw [hva] at hact hl
        obtain ⟨w, hwm, hwc, hwn⟩ := hact.within.vm?_self hv
        have hrem : w.state = .remove := by
          rw [View.Leaving, view_state hwm] at hl
          exact Option.some.inj hl
        have hstake : t.stake a = some ⟨v.conf, none, true⟩ := by
          rw [Daemon.stake, hwm, Option.map_some, hwc, hwn, hn, hrem]
          rfl
        rw [confListRemove_ledger hc, ledger_hold hact.within.core fun x hx => hact.within.near.stake hx, hstake]
        exact .mark hk hn
      | forgotten hst h1 h2 h3 h4 =>
        rw [hva] at h1 h3
        rw [freeVmConfEntry_ledger h4, stopWaitingFor_ledger h3, confListRemove_ledger h2, vmListRemove_ledger h1]
        exact .forget hk hn

/-- The second pass for one VM. -/
theorem Ledger.Settle.second (h : l.Settle a l') (happ : ∀ c ∈ new, c ∉ old)
    (hs : l.Second d old new (a :: todo)) (ha : a ∉ todo) : l'.Second d old new todo := by
  cases h with
  | skip hnone => exact hs.skip hnone
  | adopt hk hc => exact hs.adopt ha hk hc
  | mark hk hc => exact hs.mark happ ha hk hc
  | forget hk hc => exact hs.forget happ hk hc

/-- **The second pass.** -/
theorem settleVms_second {l : List Addr} (hw : WF s) (hcmd : ∀ a, (s.view a).Recalled)
    (happ : ∀ c ∈ new, c ∉ old) (hnd : l.Nodup) (hs : s.ledger.Second d old new l)
    (h : settleVms env l s = .ok (u, s')) : s'.ledger.Second d old new [] := by
  induction l generalizing s with
  | nil =>
    cases h
    exact hs
  | cons a rest ih =>
    obtain ⟨ha, hnd⟩ := List.nodup_cons.mp hnd
    obtain ⟨_, s1, h1, h⟩ := of_bind h
    obtain ⟨t1, cmd1, -⟩ := settleVm_obeys a h1 hw hcmd
    exact ih t1.wf cmd1 hnd ((settleVm_settle hw hcmd h1).second happ hs ha) h

theorem freeConfs_ledger {l : List Addr} (h : freeConfs l s = .ok (u, s')) : s'.ledger = s.ledger.freeAll l := by
  induction l generalizing s with
  | nil =>
    cases h
    rfl
  | cons c rest ih =>
    obtain ⟨_, s1, h1, h⟩ := of_bind h
    rw [ih h, freeVmConfEntry_ledger h1, Ledger.freeAll]

theorem finishReload_sound (hw : WF s) (hcmd : ∀ a, (s.view a).Recalled) (happ : ∀ c ∈ new, c ∉ old)
    (hnd : new.Nodup) (hf : s.ledger.First d old new) (hlive : ∀ c ∈ new, s.ledger.live c = true)
    (h : finishReload env new s = .ok (u, s')) : s'.ledger.Sound d := by
  replace h := get_bind h
  obtain ⟨_, s1, h1, h⟩ := of_bind h
  have hsec : s1.ledger.Second d old new [] := by
    refine settleVms_second hw hcmd happ hw.vmNodup (hf.second hlive fun a k hk => ?_) h1
    obtain ⟨v, hv, -⟩ := vm?_of_stake hk
    rw [← addr_of_vm? hv]
    exact List.mem_map_of_mem (mem_of_vm? hv)
  replace h := get_bind h
  obtain ⟨_, s3, h3, h⟩ := of_bind h
  have e3 := freeConfs_ledger h3
  have hfree := Ledger.freeAll_frees hsec.nodup hsec.live
  have e4 : s'.ledger = { s3.ledger with
      linked := new, applied := new.map fun c => (s3.confOf c).name } := by
    rw [of_modify h]
    rfl
  rw [e4, e3]
  refine hsec.sound happ hnd ?_
  rw [List.map_map]
  refine List.map_congr_left fun c hc => ?_
  have hlive3 : s3.ledger.live c = true := by
    rw [e3, show s1.vmConfList = s1.ledger.linked from rfl, hfree.live c fun hmem => happ c hc (hsec.sub c hmem)]
    exact hsec.liveNew c hc
  rw [← hfree.name, ← show s3.ledger = s1.ledger.freeAll s1.ledger.linked from e3]
  exact (ledger_name (isSome_of_live hlive3)).symm

/-- What a reload has done before its first pass. -/
structure Begins (s s' : Daemon) : Prop where
  run : clearNewConfs (s.note .reload) = .ok ((), s')
  wf : WF s'
  cmd : ∀ a, (s'.view a).Recalled
  ledger : s'.ledger = s.ledger.cleared
  rest : s'.rest = s.rest
  entry : ∀ a, s'.vm? a = (s.vm? a).map ({ · with newConf := none })
  view : ∀ a, s'.view a = (s.view a).note .reload

theorem reloadList_begins (hw : WF s) (h : reloadList env new s = .ok (r, s')) :
    ∃ s2 ok s3, Begins s s2 ∧ reloadConfs env new s2 = .ok (ok, s3) ∧
      if ok then finishReload env new s3 = .ok ((), s') else s' = s3 := by
  obtain ⟨_, s1, h1, h⟩ := of_bind h
  have hs1 := of_modify h1
  have hw1 : WF s1 := by rw [hs1]; exact (note_tidy (fun a ha => by cases ha) hw).wf
  have v1 : ∀ a, s1.view a = (s.view a).note .reload := fun a => by rw [hs1]; rfl
  have cmd1 : ∀ a, (s1.view a).Recalled := by
    intro a
    rw [v1 a]
    rfl
  have e1 : s1.ledger = s.ledger := by rw [hs1]; rfl
  obtain ⟨_, s2, h2, h⟩ := of_bind h
  have k2 := clearNewConfs_calm _ _ _ h2
  obtain ⟨t2, cmd2, -⟩ := (k2.obeys : Obeys env Reloading s1 s2) hw1 cmd1
  have hfind : ∀ a, s2.vm? a = (s1.vm? a).map ({ · with newConf := none }) := by
    intro a
    rw [of_modify h2]
    exact Keyed.find?_map (k := VmEntry.addr) (f := ({ · with newConf := none })) (fun _ => rfl) s1.vmList a
  have e2 : s2.ledger = s.ledger.cleared := by
    have hstake : s2.stake = fun a => (s1.stake a).map ({ · with new := none }) := by
      funext a
      rw [Daemon.stake, hfind, Option.map_map, Daemon.stake, Option.map_map]
      rfl
    rw [← e1]
    refine Ledger.ext hstake ?_ ?_ ?_ ?_ <;> rw [of_modify h2] <;> rfl
  have hb : Begins s s2 := by
    refine ⟨by rw [← hs1]; exact h2, t2.wf, cmd2, e2, ?_, fun a => ?_, fun a => ((k2 hw1).2 a).trans (v1 a)⟩
    · rw [of_modify h2, hs1]
      rfl
    · rw [hfind, hs1]
      rfl
  obtain ⟨ok, s3, h3, h⟩ := of_bind h
  refine ⟨s2, ok, s3, hb, h3, ?_⟩
  cases ok with
  | false =>
    cases h
    rfl
  | true =>
    obtain ⟨_, s4, h4, h⟩ := of_bind h
    cases h
    exact h4

theorem reloadList_sound (hm : ∀ n, env.malloc n = true) (hw : WF s) (hs : s.ledger.Sound d)
    (hno : ∀ v ∈ s.vmList, v.state ≠ .remove) (hnd : new.Nodup) (happ : ∀ c ∈ new, c ∉ s.ledger.linked)
    (hlive : ∀ c ∈ new, s.ledger.live c = true) (hnames : d → (new.map s.ledger.name).Nodup)
    (h : reloadList env new s = .ok (r, s')) : s'.ledger.Sound d := by
  obtain ⟨s2, ok, s3, hb, h3, h⟩ := reloadList_begins hw h
  have hf2 : s2.ledger.First d s.ledger.linked [] := by
    rw [hb.ledger]
    refine hs.first fun a k hk => ?_
    obtain ⟨v, hv, rfl⟩ := vm?_of_stake hk
    exact beq_eq_false_iff_ne.mpr (hno v (mem_of_vm? hv))
  have hlive2 : ∀ c ∈ new, s2.ledger.live c = true := by
    rw [hb.ledger]
    exact hlive
  have hconf2 : ∀ c ∈ new, (s2.conf? c).isSome := fun c hc => isSome_of_live (hlive2 c hc)
  obtain ⟨rfl, hf3⟩ := reloadConfs_first hm hb.wf hb.cmd hconf2 hf2 happ (by rw [List.append_nil]; exact hnd)
    (fun hd => by rw [List.append_nil, hb.ledger]; exact hnames hd) h3
  obtain ⟨o3, rest3⟩ := reloadConfs_obeys new hb.wf hb.cmd hconf2 h3
  obtain ⟨t3, cmd3, -⟩ := o3 hb.wf hb.cmd
  rw [List.append_nil] at hf3
  refine finishReload_sound t3.wf cmd3 happ hnd hf3 (fun c hc => ?_) h
  have := hlive2 c hc
  rw [Ledger.live] at this ⊢
  rw [show s3.ledger.cell = s2.ledger.cell from cell_of_core (core_of_rest rest3)]
  exact this

/-- **A reload** that finds no VM in `REMOVE`. -/
theorem reloadVirtualMachines_sound (hm : ∀ n, env.malloc n = true)
    (hw : WF s) (hs : s.ledger.Sound d)
    (hok : ∀ ls, load = some ls → (∀ v ∈ s.vmList, v.state ≠ .remove) ∧ (d → (ls.map (·.conf.name)).Nodup))
    (h : reloadVirtualMachines env load s = .ok (r, s')) : s'.ledger.Sound d := by
  obtain ⟨o, s1, h1, h2⟩ := of_bind h
  rcases loadConfigFile_spec h1 with ⟨rfl, -, rfl⟩ | ⟨ls, rfl, rfl, ha⟩
  · cases h2
    exact hs
  obtain ⟨hno, hnames⟩ := hok ls rfl
  have hload := allocConfs_ledger hw ha
  have k1 := allocConfs_confSide ls _ _ _ ha
  refine reloadList_sound hm (k1.wf hw) (hs.loads hload) (by rw [k1.vms]; exact hno) hload.nodup
    (fun c hc => (hload.loose hw hc).unlinked) (fun c hc => (hload.loose hw hc).live) (fun hd => ?_) h2
  rw [hload.names]
  exact (hnames hd).map fun _ _ h => Option.some.inj h

end Reload

/-! ## Starting -/

/-- While `start_virtual_machines` goes through `vm_conf_list`: the VMs of `done` have been created. -/
structure Ledger.Booting (d : Prop) (done : List Addr) (l : Ledger) : Prop where
  clean : l.spoiled = false
  nodup : l.linked.Nodup
  live : ∀ c ∈ l.linked, l.live c = true
  sub : ∀ c ∈ done, c ∈ l.linked
  stays : ∀ a k, l.stake a = some k → k.leaving = false ∧ k.conf ∈ done
  inj : l.Distinct (·.conf)
  names : d → (l.linked.map l.name).Nodup
  cover : ∀ c ∈ done, ∃ a k, l.stake a = some k ∧ k.conf = c
  applied : ∀ n, n ∈ l.applied ↔ ∃ c ∈ l.linked, l.name c = some n

theorem Ledger.Booting.create (h : l.Booting d done) (hc : c ∈ l.linked)
    (hd : c ∉ done) (ha : l.stake a = none) : (l.hold a (some ⟨c, none, false⟩)).Booting d (c :: done) := by
  refine ⟨h.clean, h.nodup, h.live, ?_, ?_, ?_, h.names, ?_, h.applied⟩
  · intro x hx
    rcases List.mem_cons.mp hx with rfl | hx
    · exact hc
    · exact h.sub x hx
  · intro x k hk
    rcases Ledger.hold_some hk with ⟨rfl, rfl⟩ | ⟨-, hk⟩
    · exact ⟨rfl, List.mem_cons_self⟩
    · exact ⟨(h.stays x k hk).1, List.mem_cons_of_mem _ (h.stays x k hk).2⟩
  · exact h.inj.hold_some fun x k _ hk (heq : k.conf = c) => hd (heq ▸ (h.stays x k hk).2)
  · intro x hx
    rcases List.mem_cons.mp hx with rfl | hx
    · exact ⟨a, _, Ledger.hold_stake_self, rfl⟩
    · obtain ⟨y, k, hk, hkc⟩ := h.cover x hx
      have hy : y ≠ a := by
        rintro rfl
        rw [ha] at hk
        cases hk
      exact ⟨y, k, by rwa [Ledger.hold_stake_of_ne hy], hkc⟩

theorem Ledger.Booting.sound (h : l.Booting d done) (hall : d → ∀ c ∈ l.linked, c ∈ done) : l.Sound d := by
  refine ⟨h.clean, h.nodup, h.live, fun a k hk _ => h.sub _ (h.stays a k hk).2, fun a k hk hl => ?_, h.inj,
    fun hd a b k m hk hm heq => ?_, fun hd c hc => h.cover c (hall hd c hc), fun _ => h.applied⟩
  · rw [(h.stays a k hk).1] at hl
    cases hl
  · exact h.inj a b k m hk hm (List.inj_on_of_nodup_map (h.names hd) (h.sub _ (h.stays a k hk).2)
      (h.sub _ (h.stays b m hm).2) heq)

/-- The loop of `start_virtual_machines`. -/
theorem startVms_booting {l : List Addr} (hw : WF s) (hcmd : ∀ a, (s.view a).Commanded)
    (hl : ∀ c ∈ l, c ∈ s.ledger.linked) (hnd : l.Nodup) (hdone : ∀ c ∈ l, c ∉ done)
    (hb : s.ledger.Booting d done) (h : startVms env l s = .ok (r, s')) :
    ∃ done', s'.ledger.Booting d done' ∧ s'.ledger.linked = s.ledger.linked ∧ s'.ledger.cell = s.ledger.cell ∧
      (0 ≤ r → ∀ c, c ∈ l ∨ c ∈ done → c ∈ done') := by
  induction l generalizing s done with
  | nil =>
    cases h
    exact ⟨done, hb, rfl, rfl, fun _ c hc => hc.resolve_left List.not_mem_nil⟩
  | cons c rest ih =>
    obtain ⟨hc, hnd⟩ := List.nodup_cons.mp hnd
    have hlc := hl c List.mem_cons_self
    have hsome : (s.conf? c).isSome := isSome_of_live (hb.live c hlc)
    obtain ⟨o, s1, h1, h⟩ := of_bind h
    rcases createVmEntry_spec h1 with ⟨rfl, -, rest1, vm1, -⟩ | ⟨rfl, m, j, rfl⟩
    · cases h
      have e1 : s'.ledger = s.ledger := ledger_of_rest rest1 vm1
      exact ⟨done, by rw [e1]; exact hb, by rw [e1], by rw [e1], fun hr => absurd hr (by decide)⟩
    · have c1 : Creates env Ordered c s (s.withVm c m j) := withVm_creates hsome
      obtain ⟨t1, cmd1, -⟩ := c1.obeys hw hcmd
      replace h := getVmConf_bind h
      obtain ⟨_, s3, h3, h⟩ := of_bind h
      have hst : ((s.withVm c m j).view s.next).state = some .terminate := view_state vm?_withVm_self
      have w3 := bootNewVm_works t1.wf (cmd1 _) hst h3
      obtain ⟨t3, cmd3, -⟩ := w3.toActsOn.obeys (isSome_of_view hst) t1.wf cmd1
      have e3 : s3.ledger = s.ledger.hold s.next (some ⟨c, none, false⟩) := by
        have hstake : (s.withVm c m j).stake s.next = some ⟨c, none, false⟩ := by
          rw [Daemon.stake, vm?_withVm_self]
          rfl
        rw [w3.ledger, ← hstake]
        exact ledger_hold (core_of_rest c1.rest) fun x hx => c1.near.stake hx
      have hb3 : s3.ledger.Booting d (c :: done) := by
        rw [e3]
        exact hb.create hlc (hdone c List.mem_cons_self) (stake_next hw)
      obtain ⟨done', hb', hlinked, hcell, hall⟩ := ih t3.wf cmd3
        (fun x hx => by rw [e3]; exact hl x (List.mem_cons_of_mem _ hx)) hnd (fun x hx hmem => by
          rcases List.mem_cons.mp hmem with rfl | hmem
          · exact hc hx
          · exact hdone x (List.mem_cons_of_mem _ hx) hmem) hb3 h
      refine ⟨done', hb', by rw [hlinked, e3]; rfl, by rw [hcell, e3]; rfl, fun hr x hx => hall hr x ?_⟩
      rcases hx with hx | hx
      · exact (List.mem_cons.mp hx).elim (fun h => .inr (h ▸ List.mem_cons_self)) .inl
      · exact .inr (List.mem_cons_of_mem _ hx)

/-- Before any VM is created. -/
theorem Ledger.Loads.booting {new : List Addr} (h : l.Loads new ls l')
    (hs : l.Sound False) (hempty : ∀ a, l.stake a = none) (hd : d → (ls.map (·.conf.name)).Nodup) :
    ({ l' with linked := new, applied := ls.map (·.conf.name) } : Ledger).Booting d [] := by
  have hnone : ∀ {a k}, l'.stake a = some k → False := by
    intro a k hk
    rw [h.stake, hempty] at hk
    cases hk
  refine ⟨h.spoiled.trans hs.clean, h.nodup, fun c hc => h.live hc, fun c hc => (by cases hc),
    fun a k hk => (hnone hk).elim, fun a b k m hk => (hnone hk).elim, fun hd' => ?_, fun c hc => (by cases hc),
    fun n => ?_⟩
  · show (new.map l'.name).Nodup
    rw [h.names]
    exact (hd hd').map fun _ _ h => Option.some.inj h
  · show n ∈ ls.map (·.conf.name) ↔ ∃ c ∈ new, l'.name c = some n
    rw [← List.mem_map, h.names]
    exact (List.mem_map_of_injective fun _ _ h => Option.some.inj h).symm

theorem empty_sound (off : Int) : (Daemon.empty off).ledger.Sound False :=
  ⟨rfl, List.nodup_nil, fun c hc => (by cases hc), fun a k hk => (by cases hk), fun a k hk => (by cases hk),
    fun a b k m hk => (by cases hk), False.elim, False.elim, False.elim⟩

theorem startVirtualMachines_booting (hw : WF s) (hcmd : ∀ a, (s.view a).Commanded)
    (hb : s.ledger.Booting d []) (h : startVirtualMachines env s = .ok (r, s')) :
    ∃ done, s'.ledger.Booting d done ∧ s'.ledger.cell = s.ledger.cell ∧
      (0 ≤ r → ∀ c ∈ s'.ledger.linked, c ∈ done) := by
  obtain ⟨rc, s1, h1, h⟩ := of_bind h
  have k1 : Apart s s1 := registerSignals_apart (by simp) _ _ _ h1
  have o1 : Obeys env Ordered s s1 := k1.calm.obeys
  obtain ⟨t1, cmd1, -⟩ := o1 hw hcmd
  have e1 := (k1.1 hw.owned).ledger
  have hb1 : s1.ledger.Booting d [] := by rw [e1]; exact hb
  split at h
  · cases h
    exact ⟨[], hb1, by rw [e1], fun hr => absurd hr (by decide)⟩
  · replace h := get_bind h
    obtain ⟨done, hb2, hlinked, hcell, hall⟩ := startVms_booting t1.wf cmd1 (fun _ => id) hb1.nodup
      (fun _ _ => List.not_mem_nil) hb1 h
    exact ⟨done, hb2, hcell.trans (by rw [e1]), fun hr c hc => hall hr c (.inl (hlinked ▸ hc))⟩

/-- **The ledger when the daemon first waits.** With `d`, it has started. -/
theorem boot_ledger {load : List LoadedConf} {off : Int} (h : boot env load off = some s)
    (hd : d → (load.map (·.conf.name)).Nodup ∧ s.phase = .loop) :
    s.ledger.Sound d ∧ ∀ c e, s.ledger.cell c = some e → e.Faithful := by
  obtain ⟨l, s1, s2, fd, s3, s4, u, h1, hs2, hw2, h3, hs4, h, t4, cmd4, -⟩ := boot_opened h
  have k3 : Apart s2 s3 := preserved h3
  have hload := allocConfs_ledger (empty_wf off) h1
  have hb2 : s2.ledger.Booting d [] := by
    rw [hs2]
    exact hload.booting (empty_sound off) (fun _ => rfl) fun hd' => (hd hd').1
  have e4 : s4.ledger = s2.ledger := by
    rw [← (k3.1 hw2.owned).ledger, hs4]
    rfl
  have hf4 : ∀ c e, s4.ledger.cell c = some e → e.Faithful := by
    rw [e4, hs2]
    exact hload.faithful fun c e he => by cases he
  obtain ⟨r, s5, h5, h⟩ := of_bind h
  obtain ⟨done, hb5, hcell, hall⟩ := startVirtualMachines_booting t4.wf cmd4 (e4 ▸ hb2) h5
  have o5 : Obeys env Ordered s4 s5 := startVirtualMachines_obeys _ _ _ h5
  obtain ⟨t5, -, -⟩ := o5 t4.wf cmd4
  have hf5 : ∀ c e, s5.ledger.cell c = some e → e.Faithful := by rw [hcell]; exact hf4
  split at h
  · -- the daemon did not start
    rw [of_modify h] at hd ⊢
    exact ⟨(show s5.ledger.Sound d from hb5.sound fun hd' => by cases (hd hd').2), hf5⟩
  · next hr =>
    have hs5 : s5.ledger.Sound d := hb5.sound fun _ => hall (Int.not_lt.mp hr)
    replace h := get_bind h
    obtain ⟨rc, s7, h7, h⟩ := of_bind h
    have hs7 : s7.ledger.Sound d ∧ ∀ c e, s7.ledger.cell c = some e → e.Faithful := by
      rw [((waitForCmdSock_apart _ _ _ _ h7).1 t5.wf.owned).ledger]
      exact ⟨hs5, hf5⟩
    split at h
    · rw [of_modify h]
      exact hs7
    · cases h
      exact hs7

end Bmd
