import Bmd.Correctness.Life

/-!
# `Correctness.Reload` — what a reload and the start of the daemon do

Both work through a list of configurations and, for each, on one VM. `Works b` is what such work does: it makes
moves of the VM at `b` that no shutdown forbids, and it neither marks a VM for removal nor takes the mark away.
`Near b` is the frame: the entries and the views of the other VMs are as they were.
-/

namespace Bmd

open Lib Lib.Prog

variable {s s' t : Daemon} {a b : Addr} {env : Env} {f : VmEntry → VmEntry} {l : List Addr} {theft : Prop} {w : View}
  {load : Option (List LoadedConf)}

/-! ## The frame of work on one virtual machine -/

/-- Nothing but the VM at `b` has changed among the VMs. -/
structure Near (b : Addr) (s s' : Daemon) : Prop where
  vm : ∀ a, a ≠ b → s'.vm? a = s.vm? a
  view : ∀ a, a ≠ b → s'.view a = s.view a

theorem Near.refl (b : Addr) (s : Daemon) : Near b s s := ⟨fun _ _ => rfl, fun _ _ => rfl⟩

theorem Near.trans (h : Near b s t) (h' : Near b t s') : Near b s s' :=
  ⟨fun a ha => (h'.vm a ha).trans (h.vm a ha), fun a ha => (h'.view a ha).trans (h.view a ha)⟩

theorem Within.near (h : Within b s s') : Near b s s' := ⟨fun _ => h.vm?_of_ne, fun _ => h.view⟩

theorem modVm_near (hf : ∀ v, (f v).addr = v.addr) : Near b s (s.modVm b f) := by
  have hvm : ∀ a, a ≠ b → (s.modVm b f).vm? a = s.vm? a := fun a ha =>
    Keyed.find?_update_of_ne (k := VmEntry.addr) hf s.vmList ha
  refine ⟨hvm, fun a ha => ?_⟩
  simp only [Daemon.view, Daemon.vmOf, hvm a ha]
  rfl

theorem modVm_lookup {v : VmEntry} {u : Unit} (h : modVm b f s = .ok (u, s'))
    (hf : ∀ v, (f v).addr = v.addr) (hv : s.vm? b = some v) : s'.vm? b = some (f v) := by
  rw [of_modify h, vm?_modVm hf, hv]
  rfl

/-! ## Starting -/

/-- The VM is marked for removal. -/
def View.Leaving (v : View) : Prop := v.state = some .remove

theorem Supervised.not_leaving {v : View} (h : Supervised env a v w) (hv : ¬v.Leaving) : ¬w.Leaving := by
  cases h with
  | waiting | timed => exact hv
  | abandoned => exact nofun

theorem Starts.not_leaving {v : View} (h : Starts env a v w) (hv : ¬v.Leaving) : ¬w.Leaving := by
  cases h with
  | refused => exact hv
  | failed => exact nofun
  | started hp hst hs =>
    refine hs.not_leaving fun h => ?_
    have h' := Option.some.inj h
    rcases hst with ⟨rfl, -⟩ | ⟨rfl, -⟩ <;> cases h'

/-- **Work on one VM** that a reload or the start of the daemon does. -/
structure Works (env : Env) (b : Addr) (s s' : Daemon) : Prop extends ActsOn env False b s s' where
  leaving : (s'.view b).Leaving ↔ (s.view b).Leaving
  rest : s'.rest = s.rest

theorem Works.of_grow (g : Grow b s s') (hl : Life env False b (s.view b) (s'.view b))
    (hser : (s.view b).serial < s.next) (heq : (s'.view b).serial = (s.view b).serial)
    (hle : (s'.view b).Leaving ↔ (s.view b).Leaving) : Works env b s s' :=
  ⟨.of_grow g hl hser heq, hle, g.rest⟩

theorem Works.refl (hser : (s.view b).serial < s.next) : Works env b s s := ⟨.refl hser, Iff.rfl, rfl⟩

section Work

variable {st : State} {conf : VmConf} {u : Unit} {second : Int} {st' : State}

theorem Works.of_starts {r : Int} (hw : WF s) (hc : (s.view b).Commanded)
    (hst : (s.view b).state = some .terminate) (h : startVirtualMachine env b s = .ok (r, s')) :
    Works env b s s' := by
  obtain ⟨v, hv, -⟩ := vm?_of_view hst
  obtain ⟨g, hs, hser⟩ := startVirtualMachine_spec hv (hw.ready hv).method (hw.ready hv).serial h
  have hne : ¬(s.view b).Leaving := by rw [View.Leaving, hst]; exact nofun
  exact ⟨⟨g.within, .single (.start hc hst hs), hser⟩, iff_of_false (hs.not_leaving hne) hne, g.rest⟩

theorem Works.of_schedule {p : Purpose} {r : Int} (hw : WF s) (hc : (s.view b).Commanded)
    (hst : (s.view b).state = some .terminate) (hp : p = .bootDelay ∨ p = .restart)
    (h : setTimer env b p second s = .ok (r, s')) : Works env b s s' := by
  obtain ⟨g, ok, e, -, hok⟩ := setTimer_spec h
  refine .of_grow g ?_ (hw.view_serial (isSome_of_view hst)) (by rw [e]; rfl) (by rw [e]; rfl)
  rw [e]
  exact .schedule hc hst hp hok

/-- A graceful stop, with the state that says what follows it. -/
theorem stopFor_acts (hw : WF s) (hc : (s.view b).Recalled) (hst : (s.view b).Active st)
    (hst' : st' = .stop ∨ st' = .restart ∨ st' = .remove)
    (h : (requestStop env b second >>= fun _ => setState b st') s = .ok (u, s')) :
    Grow b s s' ∧ ActsOn env False b s s' ∧ (s'.view b).state = some st' := by
  obtain ⟨_, s1, h1, h⟩ := of_bind h
  obtain ⟨g1, ok, e1, hok⟩ := requestStop_spec h1
  have hsome := isSome_of_view hst.1
  obtain ⟨g2, e2⟩ := setState_spec (g1.isSome hsome) h
  refine ⟨g1.trans g2, .of_grow (g1.trans g2) ?_ (hw.view_serial hsome) (by rw [e2, e1]; rfl), by rw [e2]; rfl⟩
  rw [e2, e1]
  exact .stopFor hc hst hst' hok

theorem Works.of_stop (hw : WF s) (hc : (s.view b).Recalled)
    (hst : (s.view b).Active st) (hst' : st' = .stop ∨ st' = .restart)
    (h : (requestStop env b second >>= fun _ => setState b st') s = .ok (u, s')) : Works env b s s' := by
  obtain ⟨g, hacts, hstate⟩ := stopFor_acts hw hc hst (hst'.imp_right .inl) h
  refine ⟨hacts, iff_of_false ?_ ?_, g.rest⟩
  · rw [View.Leaving, hstate]
    rcases hst' with rfl | rfl <;> exact nofun
  · rw [View.Leaving, hst.1]
    rcases hst.2 with rfl | rfl <;> exact nofun

theorem Works.of_redirect (hw : WF s) (hc : (s.view b).Recalled)
    (hst : (s.view b).state = some st) (hr : Redirects st st') (hne : st ≠ .remove) (hne' : st' ≠ .remove)
    (h : setState b st' s = .ok (u, s')) : Works env b s s' := by
  have hsome := isSome_of_view hst
  obtain ⟨g, e⟩ := setState_spec hsome h
  refine .of_grow g ?_ (hw.view_serial hsome) (by rw [e]; rfl) (iff_of_false ?_ ?_)
  · rw [e]
    exact .redirect hc hst hr
  · rw [e]
    exact fun h => hne' (Option.some.inj h)
  · rw [View.Leaving, hst]
    exact fun h => hne (Option.some.inj h)

theorem bootNewVm_works (hw : WF s) (hc : (s.view b).Commanded) (hst : (s.view b).state = some .terminate)
    (h : bootNewVm env b conf s = .ok (u, s')) : Works env b s s' := by
  unfold bootNewVm at h
  split at h
  · cases h
    exact .refl (hw.view_serial (isSome_of_view hst))
  · split at h
    · obtain ⟨_, s1, h1, h⟩ := of_bind h
      cases h
      exact .of_schedule hw hc hst (.inl rfl) h1
    · obtain ⟨_, s1, h1, h⟩ := of_bind h
      cases h
      exact .of_starts hw hc hst h1

theorem rebootVm_works {v : VmEntry} (hw : WF s) (hc : (s.view v.addr).Recalled)
    (hst : (s.view v.addr).state = some v.state) (h : rebootVm env v conf s = .ok (u, s')) :
    Works env v.addr s s' := by
  have hser := hw.view_serial (isSome_of_view hst)
  cases hv : v.state <;> simp only [rebootVm, hv] at h hst
  case terminate =>
    obtain ⟨_, s1, h1, h⟩ := of_bind h
    cases h
    exact .of_schedule hw hc.ordered hst (.inr rfl) h1
  case load => exact .of_stop hw hc ⟨hst, .inl rfl⟩ (.inr rfl) h
  case run => exact .of_stop hw hc ⟨hst, .inr rfl⟩ (.inr rfl) h
  case stop =>
    exact .of_redirect hw hc hst (show Redirects .stop .restart from trivial) (by decide) (by decide) h
  case remove => cases h; exact .refl hser
  case restart => cases h; exact .refl hser

end Work

/-! ## The first pass of a reload -/

/-- The core is part of the rest. -/
theorem core_of_rest (h : s'.rest = s.rest) : s'.core = s.core := by
  have hc : s'.confs = s.confs := (congrArg Daemon.confs h :)
  rw [Daemon.core, Daemon.core, h, hc]

/-- **What the first pass does for one VM** that it found or has just created. -/
structure Reloads (env : Env) (b c : Addr) (s s' : Daemon) : Prop where
  obeys : Obeys env Reloading s s'
  near : Near b s s'
  rest : s'.rest = s.rest
  entry : ∀ v, s.vm? b = some v → ∃ v', s'.vm? b = some v' ∧ (v'.conf = v.conf ∨ v'.conf = c) ∧
    (v'.newConf = v.newConf ∨ v'.newConf = some c) ∧ (v'.state = .remove ↔ v.state = .remove)

theorem Works.reloads {c : Addr} (h : WF s → (∀ a, (s.view a).Recalled) → Works env b s s')
    (hsome : (s.vm? b).isSome) : WF s → (∀ a, (s.view a).Recalled) → Reloads env b c s s' := by
  intro hw hc
  have w := h hw hc
  refine ⟨w.obeys hsome, w.within.near, w.rest, fun v hv => ?_⟩
  obtain ⟨v', hv', hconf, hnew⟩ := w.within.vm?_self hv
  refine ⟨v', hv', .inl hconf, .inl hnew, ?_⟩
  have h1 := w.leaving
  rwa [View.Leaving, View.Leaving, view_state hv, view_state hv', Option.some_inj, Option.some_inj] at h1

/-- The pointer to the new configuration is set. -/
theorem relink_reloads {c : Addr} (hc : (s.conf? c).isSome)
    (hf : ∀ v, (f v).addr = v.addr ∧ (f v).state = v.state ∧ (f v).pid = v.pid ∧ (f v).serial = v.serial)
    (h1 : ∀ v, (f v).conf = v.conf ∨ (f v).conf = c)
    (h2 : ∀ v, (f v).newConf = v.newConf ∨ (f v).newConf = some c) : Reloads env b c s (s.modVm b f) := by
  refine ⟨Calm.obeys (modVm_calm hf (fun v => (h1 v).imp_right fun h => by rw [h]; exact hc) fun v c' hvc => ?_),
    modVm_near fun v => (hf v).1, rfl, fun v hv => ⟨f v, ?_, h1 v, h2 v, by rw [(hf v).2.1]⟩⟩
  · rcases h2 v with h | h
    · exact .inl (h ▸ hvc)
    · rw [h] at hvc
      cases hvc
      exact .inr hc
  · rw [vm?_modVm fun v => (hf v).1, hv]
    rfl

theorem Reloads.trans {c : Addr} (h : Reloads env b c s t) (h' : Reloads env b c t s') : Reloads env b c s s' := by
  refine ⟨trans_of (Obeys env Reloading) h.obeys h'.obeys, h.near.trans h'.near, h'.rest.trans h.rest, fun v hv => ?_⟩
  obtain ⟨v1, hv1, hc1, hn1, hs1⟩ := h.entry v hv
  obtain ⟨v2, hv2, hc2, hn2, hs2⟩ := h'.entry v1 hv1
  refine ⟨v2, hv2, ?_, ?_, hs2.trans hs1⟩
  · rcases hc2 with hc2 | hc2
    · rwa [hc2]
    · exact .inr hc2
  · rcases hn2 with hn2 | hn2
    · rwa [hn2]
    · exact .inr hn2

theorem Reloads.of_silent {c : Addr} (q : Silent b s s') (hsome : (s.vm? b).isSome) (hw : WF s)
    (hc : ∀ a, (s.view a).Recalled) : Reloads env b c s s' :=
  Works.reloads (fun hw _ => ⟨.of_silent q (hw.view_serial hsome), by rw [q.view], q.grow.rest⟩) hsome hw hc

section FirstPass

variable {v : VmEntry} {c : Addr} {conf : VmConf} {u : Unit}

/-- A machine is started with its new configuration before the second pass installs that. -/
theorem startWith_reloads {r : Int} {s1 : Daemon} (hw : WF s) (hcmd : ∀ a, (s.view a).Recalled)
    (hc : (s.conf? c).isSome) (hst : (s.view b).state = some .terminate)
    (h1 : modVm b ({ · with conf := c }) s = .ok (u, s1)) (h2 : startVirtualMachine env b s1 = .ok (r, s')) :
    Reloads env b c s s' := by
  have r1 : Reloads env b c s s1 := by
    rw [of_modify h1]
    exact relink_reloads hc (fun _ => ⟨rfl, rfl, rfl, rfl⟩) (fun _ => .inr rfl) fun _ => .inl rfl
  obtain ⟨t1, c1, -⟩ := r1.obeys hw hcmd
  obtain ⟨v0, hv0, hs0⟩ := vm?_of_view hst
  have hst1 : (s1.view b).state = some .terminate := by
    rw [view_state (modVm_lookup h1 (fun _ => rfl) hv0), ← hs0]
  exact r1.trans (Works.reloads (fun hw hc => .of_starts hw (hc _).ordered hst1 h2) (isSome_of_view hst1) t1.wf c1)

theorem changeBoot_reloads (hw : WF s) (hcmd : ∀ a, (s.view a).Recalled) (hc : (s.conf? c).isSome)
    (hst : (s.view v.addr).state = some v.state) (h : changeBoot env v c conf s = .ok (u, s')) :
    Reloads env v.addr c s s' := by
  have hsome := isSome_of_view hst
  have hrefl : Reloads env v.addr c s s := Works.reloads (fun hw _ => .refl (hw.view_serial hsome)) hsome hw hcmd
  have hwake : ∀ {s'}, (if v.state = .terminate then do
        modVm v.addr ({ · with conf := c })
        let _ ← startVirtualMachine env v.addr
      else if v.state = .stop then setState v.addr .restart else pure ()) s = .ok (u, s') →
      Reloads env v.addr c s s' := by
    intro s' h
    split at h
    · next hv =>
      obtain ⟨_, s1, h1, h⟩ := of_bind h
      obtain ⟨_, s2, h2, h⟩ := of_bind h
      cases h
      exact startWith_reloads hw hcmd hc (hv ▸ hst) h1 h2
    · split at h
      · next hv =>
        rw [hv] at hst
        exact Works.reloads (fun hw hc => .of_redirect hw (hc _) hst (show Redirects .stop .restart from trivial)
          (by decide) (by decide) h) hsome hw hcmd
      · cases h; exact hrefl
  cases hb : conf.boot <;> simp only [changeBoot, hb] at h
  case no =>
    split at h
    · next hv =>
      exact Works.reloads (fun hw hc => .of_stop hw (hc _) ⟨hst, hv⟩ (.inl rfl) h) hsome hw hcmd
    · split at h
      · next hv =>
        rw [hv] at hst
        exact Works.reloads (fun hw hc => .of_redirect hw (hc _) hst (show Redirects .restart .stop from trivial)
          (by decide) (by decide) h) hsome hw hcmd
      · cases h; exact hrefl
  case yes => exact hwake h
  case oneshot => cases h; exact hrefl
  case always => exact hwake h

/-- **The first pass for a configuration whose machine exists.** -/
theorem reloadOldVm_reloads (hw : WF s) (hcmd : ∀ a, (s.view a).Recalled) (hc : (s.conf? c).isSome)
    (hv : s.vm? v.addr = some v) (h : reloadOldVm env v c conf s = .ok (u, s')) :
    Reloads env v.addr c s s' ∧ ∃ v', s'.vm? v.addr = some v' ∧ v'.newConf = some c := by
  have hsome : (s.vm? v.addr).isSome := by rw [hv]; rfl
  replace h := get_bind h
  obtain ⟨_, s1, h1, h⟩ := of_bind h
  have q1 := preserved (R := Silent v.addr) h1
  have r1 : Reloads env v.addr c s s1 := .of_silent q1 hsome hw hcmd
  obtain ⟨t1, c1, -⟩ := r1.obeys hw hcmd
  obtain ⟨v1, hv1, -, -, -⟩ := r1.entry v hv
  have hc1 : (s1.conf? c).isSome := by rw [conf?_isSome_of_core (core_of_rest r1.rest)]; exact hc
  obtain ⟨_, s2, h2, h⟩ := of_bind h
  have r2 : Reloads env v.addr c s1 s2 := by
    rw [of_modify h2]
    exact relink_reloads hc1 (fun _ => ⟨rfl, rfl, rfl, rfl⟩) (fun _ => .inl rfl) fun _ => .inr rfl
  obtain ⟨t2, c2, -⟩ := r2.obeys t1.wf c1
  have hv2 := modVm_lookup h2 (fun _ => rfl) hv1
  have hst2 : (s2.view v.addr).state = some v.state := by
    rw [view_state hv2, ← view_state hv, ← q1.view, view_state hv1]
  have hc2 : (s2.conf? c).isSome := by rw [conf?_isSome_of_core (core_of_rest r2.rest)]; exact hc1
  have r3 : Reloads env v.addr c s2 s' := by
    split at h
    · exact Works.reloads (fun hw hc => rebootVm_works hw (hc _) hst2 h) (isSome_of_view hst2) t2.wf c2
    · split at h
      · cases h
        exact Works.reloads (fun hw _ => .refl (hw.view_serial (isSome_of_view hst2))) (isSome_of_view hst2)
          t2.wf c2
      · exact changeBoot_reloads t2.wf c2 hc2 hst2 h
  refine ⟨(r1.trans r2).trans r3, ?_⟩
  obtain ⟨v3, hv3, -, hn3, -⟩ := r3.entry _ hv2
  exact ⟨v3, hv3, by simpa using hn3⟩

end FirstPass

/-! ## New machines -/

section Create

variable {C : Option Action → Prop} {c : Addr} {m : VmMethod} {i : Nat} {conf : VmConf} {u : Unit}

theorem withVm_obeys (hc : (s.conf? c).isSome) : Obeys env C s (s.withVm c m i) := by
  intro hw hcmd
  refine ⟨withVm_tidy hw hc, fun a => ?_, fun a => ?_⟩
  · by_cases ha : a = s.next
    · subst ha
      rw [view_withVm_self hw]
      exact hcmd _
    · rw [view_withVm_of_ne ha]
      exact hcmd a
  · by_cases ha : a = s.next
    · subst ha
      rw [view_withVm_self hw]
      exact .single (.create (hw.unborn (Nat.le_refl _)))
    · rw [view_withVm_of_ne ha]

theorem withVm_near : Near s.next s (s.withVm c m i) :=
  ⟨fun _ => vm?_withVm_of_ne, fun _ => view_withVm_of_ne⟩

/-- **A VM is created and, if it is configured to, started.** -/
structure Creates (env : Env) (C : Option Action → Prop) (c : Addr) (s s' : Daemon) : Prop where
  obeys : Obeys env C s s'
  near : Near s.next s s'
  rest : s'.rest = s.rest
  entry : ∃ v, s'.vm? s.next = some v ∧ v.conf = c ∧ v.state ≠ .remove

/-- A VM that has just been created is worked on. -/
theorem Creates.then_reloads (h : Creates env Reloading c s t) (h' : Reloads env s.next c t s') :
    Creates env Reloading c s s' := by
  obtain ⟨v, hv, hvc, hvs⟩ := h.entry
  obtain ⟨v', hv', hvc', -, hvs'⟩ := h'.entry v hv
  refine ⟨trans_of (Obeys env Reloading) h.obeys h'.obeys, h.near.trans h'.near, h'.rest.trans h.rest,
    v', hv', ?_, fun hr => hvs (hvs'.mp hr)⟩
  rcases hvc' with h1 | h1
  · rw [h1, hvc]
  · exact h1

theorem withVm_creates (hc : (s.conf? c).isSome) : Creates env C c s (s.withVm c m i) :=
  ⟨withVm_obeys hc, withVm_near, rfl, _, vm?_withVm_self, rfl, by simp [mkVmEntry]⟩

end Create

/-- **The first pass for one configuration**: the machine could not be created, it is new, or it exists. -/
inductive ConfReloaded (env : Env) (c : Addr) (s s' : Daemon) : Bool → Prop where
  | failed (hcalm : Calm s s') (hrest : s'.rest = s.rest) (hvm : s'.vmList = s.vmList)
      (h : ∃ n, env.malloc n = false) : ConfReloaded env c s s' false
  | created (hnone : s.lookupVmByName (s.confOf c).name = none) (h : Creates env Reloading c s s')
      (hnew : ∃ v, s'.vm? s.next = some v ∧ v.newConf = some c) : ConfReloaded env c s s' true
  | found {v : VmEntry} (hv : s.lookupVmByName (s.confOf c).name = some v) (h : Reloads env v.addr c s s')
      (hnew : ∃ v', s'.vm? v.addr = some v' ∧ v'.newConf = some c) : ConfReloaded env c s s' true

theorem lookupVmByName_vm? (hw : WF s) {name : String} {v : VmEntry} (h : s.lookupVmByName name = some v) :
    s.vm? v.addr = some v ∧ (s.confOf v.conf).name = name :=
  ⟨hw.vm?_of_mem (List.mem_of_find?_eq_some h), by simpa using List.find?_some h⟩

theorem reloadConf_spec {c : Addr} {r : Bool} (hw : WF s) (hcmd : ∀ a, (s.view a).Recalled)
    (hc : (s.conf? c).isSome) (h : reloadConf env c s = .ok (r, s')) : ConfReloaded env c s s' r := by
  replace h := get_bind h
  cases hl : s.lookupVmByName (s.confOf c).name with
  | some v =>
    simp only [hl] at h
    obtain ⟨_, s1, h1, h⟩ := of_bind h
    cases h
    obtain ⟨hr, hn⟩ := reloadOldVm_reloads hw hcmd hc (lookupVmByName_vm? hw hl).1 h1
    exact .found hl hr hn
  | none =>
    simp only [hl] at h
    obtain ⟨o, s1, h1, h⟩ := of_bind h
    rcases createVmEntry_spec h1 with ⟨rfl, k1, rest1, vm1, hrel⟩ | ⟨rfl, m, i, rfl⟩
    · cases h
      exact .failed k1 rest1 vm1 (hrel hc)
    · have c1 : Creates env Reloading c s (s.withVm c m i) := withVm_creates hc
      obtain ⟨t1, cmd1, -⟩ := c1.obeys hw hcmd
      obtain ⟨_, s2, h2, h⟩ := of_bind h
      have hv2 := modVm_lookup h2 (fun _ => rfl) vm?_withVm_self
      have r2 : Reloads env s.next c (s.withVm c m i) s2 := by
        rw [of_modify h2]
        exact relink_reloads hc (fun _ => ⟨rfl, rfl, rfl, rfl⟩) (fun _ => .inl rfl) fun _ => .inr rfl
      obtain ⟨t2, cmd2, -⟩ := r2.obeys t1.wf cmd1
      obtain ⟨_, s3, h3, h⟩ := of_bind h
      cases h
      have hst2 : (s2.view s.next).state = some .terminate := by rw [view_state hv2]; rfl
      have r3 : Reloads env s.next c s2 s' :=
        Works.reloads (fun hw hc => bootNewVm_works hw (hc _).ordered hst2 h3) (isSome_of_view hst2) t2.wf cmd2
      obtain ⟨v3, hv3, -, hn3, -⟩ := r3.entry _ hv2
      exact .created hl ((c1.then_reloads r2).then_reloads r3) ⟨v3, hv3, by simpa using hn3⟩

theorem ConfReloaded.obeys {c : Addr} {r : Bool} (h : ConfReloaded env c s s' r) : Obeys env Reloading s s' := by
  cases h with
  | failed hcalm => exact hcalm.obeys
  | created _ h | found _ h => exact h.obeys

theorem ConfReloaded.rest {c : Addr} {r : Bool} (h : ConfReloaded env c s s' r) : s'.rest = s.rest := by
  cases h with
  | failed _ hrest => exact hrest
  | created _ h | found _ h => exact h.rest

/-- **The first pass.** -/
theorem reloadConfs_obeys : ∀ (l : List Addr) {s s' : Daemon} {r : Bool}, WF s → (∀ a, (s.view a).Recalled) →
    (∀ c ∈ l, (s.conf? c).isSome) → reloadConfs env l s = .ok (r, s') → Obeys env Reloading s s' ∧ s'.rest = s.rest
  | [], s, s', r, _, _, _, h => by
    cases h
    exact ⟨refl_of (Obeys env Reloading) s, rfl⟩
  | c :: rest, s, s', r, hw, hcmd, hl, h => by
    obtain ⟨ok, s1, h1, h⟩ := of_bind h
    have r1 := reloadConf_spec hw hcmd (hl c List.mem_cons_self) h1
    cases ok with
    | false =>
      cases h
      exact ⟨r1.obeys, r1.rest⟩
    | true =>
      obtain ⟨t1, c1, -⟩ := r1.obeys hw hcmd
      obtain ⟨o2, rest2⟩ := reloadConfs_obeys rest t1.wf c1
        (fun c' hc' => t1.confs c' (hl c' (List.mem_cons_of_mem _ hc'))) h
      exact ⟨trans_of (Obeys env Reloading) r1.obeys o2, rest2.trans r1.rest⟩

/-! ## The second pass -/

section SecondPass

variable {v : VmEntry} {conf : VmConf} {u : Unit} {st : State}

theorem markRemoved_acts (hw : WF s) (hc : (s.view b).Recalled)
    (hst : (s.view b).state = some st) (hr : Redirects st .remove) (h : setState b .remove s = .ok (u, s')) :
    ActsOn env False b s s' ∧ (s'.view b).Leaving := by
  have hsome := isSome_of_view hst
  obtain ⟨g, e⟩ := setState_spec hsome h
  refine ⟨.of_grow g ?_ (hw.view_serial hsome) (by rw [e]; rfl), by rw [e]; rfl⟩
  rw [e]
  exact .redirect hc hst hr

/-- **What happens to a VM without a new configuration**: it is marked, or it goes at once. -/
inductive Dropped (env : Env) (v : VmEntry) (s s' : Daemon) : Prop where
  | marked {t : Daemon} (hst : v.state ≠ .terminate) (h : ActsOn env False v.addr s t)
      (hl : (t.view v.addr).Leaving) (hc : confListRemove v.conf t = .ok ((), s')) : Dropped env v s s'
  | forgotten {t1 t2 t3 : Daemon} (hst : v.state = .terminate) (h1 : vmListRemove v.addr s = .ok ((), t1))
      (h2 : confListRemove v.conf t1 = .ok ((), t2))
      (h3 : stopWaitingFor (hasData (.vm v.addr)) t2 = .ok ((), t3))
      (h4 : freeVmConfEntry v.conf t3 = .ok ((), s')) : Dropped env v s s'

theorem dropVm_spec (hw : WF s) (hc : (s.view v.addr).Recalled) (hv : s.vm? v.addr = some v)
    (h : dropVm env v conf s = .ok (u, s')) : Dropped env v s s' := by
  have hst := view_state hv
  have hstop : ∀ {st second}, (s.view v.addr).Active st → v.state ≠ .terminate →
      (requestStop env v.addr second >>= fun _ => setState v.addr .remove >>= fun _ => confListRemove v.conf) s =
        .ok (u, s') → Dropped env v s s' := by
    intro st second ha hne h
    obtain ⟨u1, s1, h1, h⟩ := of_bind h
    obtain ⟨u2, s2, h2, h⟩ := of_bind h
    obtain ⟨-, hact, hl⟩ := stopFor_acts hw hc ha (.inr (.inr rfl)) (bind_ok.mpr ⟨u1, s1, h1, h2⟩)
    exact .marked hne hact hl h
  have hmark : ∀ {st}, (s.view v.addr).state = some st → Redirects st .remove → v.state ≠ .terminate →
      (setState v.addr .remove >>= fun _ => confListRemove v.conf) s = .ok (u, s') → Dropped env v s s' := by
    intro st ha hr hne h
    obtain ⟨u1, s1, h1, h⟩ := of_bind h
    obtain ⟨hact, hl⟩ := markRemoved_acts hw hc ha hr h1
    exact .marked hne hact hl h
  cases hv' : v.state <;> simp only [dropVm, hv'] at h hst
  case load => exact hstop ⟨hst, .inl rfl⟩ (by rw [hv']; decide) h
  case run => exact hstop ⟨hst, .inr rfl⟩ (by rw [hv']; decide) h
  case stop | remove | restart => exact hmark hst trivial (by rw [hv']; decide) h
  case terminate =>
    obtain ⟨_, s1, h1, h⟩ := of_bind h
    obtain ⟨_, s2, h2, h⟩ := of_bind h
    obtain ⟨_, s3, h3, h⟩ := of_bind h
    exact .forgotten hv' h1 h2 h3 h

theorem Dropped.near (hw : WF s) (h : Dropped env v s s') : Near v.addr s s' := by
  cases h with
  | marked _ h _ hc =>
    have k := confListRemove_confSide _ _ _ _ hc
    refine h.within.near.trans ⟨fun a _ => by simp only [Daemon.vm?, k.vms], fun a _ => ?_⟩
    exact view_congr k.vms k.events k.procs k.log k.forced k.exits a
  | forgotten _ h1 h2 h3 h4 =>
    have k2 := confListRemove_confSide _ _ _ _ h2
    have k4 := freeVmConfEntry_confSide _ _ _ _ h4
    obtain ⟨-, -, hview⟩ := forget_spec hw h1 k2 h3
    refine ⟨fun a ha => ?_, fun a ha => (view_congr k4.vms k4.events k4.procs k4.log k4.forced k4.exits a).trans (hview a ha)⟩
    have hl : s'.vmList = s.vmList.filter (·.addr != v.addr) := by
      rw [k4.vms, of_modify h3]
      exact k2.vms.trans (by rw [of_modify h1])
    exact vm?_remove_of_ne hl ha

theorem Dropped.obeys (hv : s.vm? v.addr = some v) (h : Dropped env v s s') : Obeys env Reloading s s' := by
  cases h with
  | marked _ h _ hc =>
    exact trans_of (Obeys env Reloading) (h.obeys (by rw [hv]; rfl)) (confListRemove_confSide _ _ _ _ hc).calm.obeys
  | @forgotten t1 t2 t3 hst h1 h2 h3 h4 =>
    refine trans_of (Obeys env Reloading) (b := t3) (fun hw hcmd => ?_)
      (freeVmConfEntry_confSide _ _ _ _ h4).calm.obeys
    obtain ⟨ht, hgone, hview⟩ := forget_spec hw h1 (confListRemove_confSide _ _ _ _ h2) h3
    refine ⟨ht, fun a => ?_, fun a => ?_⟩
    all_goals by_cases ha : a = v.addr
    · rw [ha, hgone]
      exact hcmd v.addr
    · rw [hview a ha]
      exact hcmd a
    · rw [ha, hgone]
      exact .single (.drop (hcmd _) (by rw [view_state hv, hst]))
    · rw [hview a ha]

end SecondPass

theorem adoptConf_calm {c : Addr} {v : VmEntry} {u : Unit} (hv : s.vm? a = some v) (hvc : v.newConf = some c)
    (h : adoptConf a c s = .ok (u, s')) : Calm s s' := by
  rw [of_modify h]
  intro hw
  have hc := hw.newConf v (mem_of_vm? hv) c hvc
  exact modVm_calm (fun _ => ⟨rfl, rfl, rfl, rfl⟩) (fun _ => .inr hc) (fun _ c' h => by cases h) hw

/-- **The second pass for one machine.** -/
theorem settleVm_obeys (a : Addr) {u : Unit} (h : settleVm env a s = .ok (u, s')) : Obeys env Reloading s s' := by
  intro hw hcmd
  replace h := get_bind h
  cases hv : s.vm? a with
  | none =>
    simp only [hv] at h
    cases h
    exact refl_of (Obeys env Reloading) s hw hcmd
  | some v =>
    have hva := addr_of_vm? hv
    simp only [hv] at h
    cases hn : v.newConf with
    | none =>
      simp only [hn] at h
      rw [← hva] at hv
      exact (dropVm_spec hw (hcmd _) hv h).obeys hv hw hcmd
    | some c =>
      simp only [hn] at h
      exact (adoptConf_calm hv hn h).obeys hw hcmd

theorem settleVms_obeys (l : List Addr) : Keeps (Obeys env Reloading) (settleVms env l) := by
  induction l with
  | nil => exact .pure _
  | cons a rest ih => exact .bind (fun _ _ _ => settleVm_obeys a) fun _ => ih

/-- A list of configurations becomes `vm_conf_list`. -/
theorem setConfList_confSide {names : List String} (hl : ∀ c ∈ l, (s.conf? c).isSome) :
    ConfSide s { s with vmConfList := l, applied := names } :=
  ⟨rfl, rfl, rfl, rfl, rfl, rfl, rfl, rfl, Nat.le_refl _, ⟨[], rfl, List.nodup_nil, by simp⟩, fun c hc => .inr (hl c hc),
    fun _ => id⟩

theorem finishReload_obeys {u : Unit} (hl : ∀ c ∈ l, (s.conf? c).isSome)
    (h : finishReload env l s = .ok (u, s')) : Obeys env Reloading s s' := by
  intro hw hcmd
  replace h := get_bind h
  obtain ⟨_, s1, h1, h⟩ := of_bind h
  have o1 : Obeys env Reloading s s1 := settleVms_obeys _ _ _ _ h1
  obtain ⟨t1, c1, -⟩ := o1 hw hcmd
  replace h := get_bind h
  obtain ⟨_, s2, h2, h⟩ := of_bind h
  have k2 := freeConfs_confSide _ _ _ _ h2
  have k3 : ConfSide s2 s' := by
    rw [of_modify h]
    exact setConfList_confSide fun c hc => k2.isSome (t1.confs c (hl c hc))
  exact trans_of (Obeys env Reloading) o1 (trans_of ConfSide k2 k3).calm.obeys hw hcmd

/-! ## The whole reload -/

theorem Obeys.moves (h : Obeys env Reloading s s') (hc : ∀ a, (s.view a).Recalled) :
    Moves env theft s s' := fun hw =>
  ⟨(h hw hc).1, fun a => ((h hw hc).2.2 a).mono False.elim⟩

theorem reloadList_moves {r : Int} (hl : ∀ c ∈ l, (s.conf? c).isSome)
    (h : reloadList env l s = .ok (r, s')) : Moves env theft s s' := by
  intro hw
  obtain ⟨_, s1, h1, h⟩ := of_bind h
  have t1 : Tidy s s1 := by rw [of_modify h1]; exact note_tidy nofun hw
  have e1 : ∀ a, s1.view a = (s.view a).note .reload := fun a => by rw [of_modify h1]; rfl
  have c1 : ∀ a, (s1.view a).Recalled := by
    intro a
    rw [e1 a]
    rfl
  have rest : Obeys env Reloading s1 s' := by
    obtain ⟨_, s2, h2, h⟩ := of_bind h
    have o2 : Obeys env Reloading s1 s2 := (clearNewConfs_calm _ _ _ h2).obeys
    obtain ⟨t2, c2, -⟩ := o2 t1.wf c1
    have hl2 : ∀ c ∈ l, (s2.conf? c).isSome := fun c hc => t2.confs c (t1.confs c (hl c hc))
    obtain ⟨ok, s3, h3, h⟩ := of_bind h
    obtain ⟨o3, -⟩ := reloadConfs_obeys l t2.wf c2 hl2 h3
    obtain ⟨t3, c3, -⟩ := o3 t2.wf c2
    refine trans_of (Obeys env Reloading) o2 (trans_of (Obeys env Reloading) o3 ?_)
    cases ok with
    | false => cases h; exact refl_of (Obeys env Reloading) _
    | true =>
      obtain ⟨_, s4, h4, h⟩ := of_bind h
      cases h
      exact finishReload_obeys (fun c hc => t3.confs c (hl2 c hc)) h4
  obtain ⟨t2, l2⟩ := rest.moves c1 t1.wf
  refine ⟨t1.trans t2, fun a => (Relation.ReflTransGen.single ?_).trans (l2 a)⟩
  rw [e1 a]
  exact .reload

/-- The entries that `load_config_file` makes are there. -/
theorem loadConfigFile_spec {r : Option (List Addr)} (h : loadConfigFile load s = .ok (r, s')) :
    (r = none ∧ load = none ∧ s' = s) ∨
      ∃ ls, load = some ls ∧ r = some (List.range' s.next ls.length) ∧
        allocConfs ls s = .ok (List.range' s.next ls.length, s') := by
  cases load with
  | none =>
    cases h
    exact .inl ⟨rfl, rfl, rfl⟩
  | some ls =>
    obtain ⟨l, s1, h1, h⟩ := of_bind h
    cases h
    obtain ⟨rfl, -⟩ := allocConfs_spec ls h1
    exact .inr ⟨ls, rfl, rfl, h1⟩

theorem allocConfs_isSome {ls : List LoadedConf} {r : List Addr} (h : allocConfs ls s = .ok (r, s')) {c : Addr}
    (hc : c ∈ r) : (s'.conf? c).isSome := by
  obtain ⟨rfl, rfl⟩ := allocConfs_spec ls h
  rw [conf?_isSome_iff, List.map_append, List.map_reverse, List.map_map]
  refine List.mem_append_left _ (List.mem_reverse.mpr ?_)
  have hmap : ((List.range' s.next ls.length).zip ls).map ((·.addr) ∘ fun p => mkConfEntry p.1 p.2) =
      List.range' s.next ls.length := List.map_fst_zip (by simp)
  rw [hmap]
  exact hc

/-- **A reload** makes moves of every VM. -/
theorem reloadVirtualMachines_moves : Keeps (Moves env theft) (reloadVirtualMachines env load) := by
  intro s r s' h
  obtain ⟨o, s1, h1, h2⟩ := of_bind h
  rcases loadConfigFile_spec h1 with ⟨rfl, -, rfl⟩ | ⟨ls, -, rfl, ha⟩
  · cases h2
    exact refl_of (Moves env theft) _
  · exact trans_of (Moves env theft) (allocConfs_confSide ls _ _ _ ha).calm.moves
      (reloadList_moves (fun c hc => allocConfs_isSome ha hc) h2)

end Bmd
