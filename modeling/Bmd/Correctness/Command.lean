import Bmd.Correctness.Reload

/-!
# `Correctness.Command` — what the commands of clients do

A command that changes anything works on the one VM it names: `boot` and `install` record the command, may
install another configuration and start the VM; `shutdown` and `poweroff` record it and stop the VM; `reset`
only tells the guest.
-/

namespace Bmd

open Lib Lib.Prog

variable {s s' t : Daemon} {a b : Addr} {env : Env} {theft : Prop} {ucred : Xucred} {how : DownHow} {c : Addr}
  {u : Unit} {v : VmEntry} {install : Bool} {load : Option (List LoadedConf)} {nv : NvList}

/-! ## The configuration of a VM to be booted -/

theorem searchConf_spec {name : String} : ∀ (l : List Addr) {ret r : Option Addr} {s s' : Daemon},
    searchConf name ret l s = .ok (r, s') → ConfSide s s' ∧ (r = ret ∨ ∃ c ∈ l, r = some c)
  | [], ret, r, s, s', h => by
    cases h
    exact ⟨refl_of ConfSide s, .inl rfl⟩
  | c :: rest, ret, r, s, s', h => by
    replace h := get_bind h
    split at h
    · obtain ⟨k, hr⟩ := searchConf_spec rest h
      refine ⟨k, ?_⟩
      rcases hr with hr | ⟨c', hc', hr⟩
      · exact .inr ⟨c, List.mem_cons_self, hr⟩
      · exact .inr ⟨c', List.mem_cons_of_mem _ hc', hr⟩
    · obtain ⟨_, s1, h1, h⟩ := of_bind h
      obtain ⟨k, hr⟩ := searchConf_spec rest h
      refine ⟨trans_of ConfSide (freeVmConfEntry_confSide _ _ _ _ h1) k, ?_⟩
      exact hr.imp_right fun ⟨c', hc', hr⟩ => ⟨c', List.mem_cons_of_mem _ hc', hr⟩

theorem pushConf_confSide (hc : (s.conf? c).isSome) : ConfSide s { s with vmConfList := c :: s.vmConfList } := by
  refine ⟨rfl, rfl, rfl, rfl, rfl, rfl, rfl, rfl, Nat.le_refl _, ⟨[], rfl, List.nodup_nil, by simp⟩, fun c' hc' => ?_,
    fun _ => id⟩
  rcases List.mem_cons.mp hc' with rfl | hc'
  · exact .inr hc
  · exact .inl hc'

theorem replaceVmConf_calm (hc : (s.conf? c).isSome) (h : replaceVmConf a c s = .ok (u, s')) : Calm s s' := by
  replace h := get_bind h
  split at h
  · obtain ⟨_, s1, h1, h⟩ := of_bind h
    obtain ⟨_, s2, h2, h⟩ := of_bind h
    obtain ⟨_, s3, h3, h⟩ := of_bind h
    have k1 := confListRemove_confSide _ _ _ _ h1
    have k2 : ConfSide s1 s2 := by rw [of_modify h2]; exact pushConf_confSide (k1.isSome hc)
    have k3 := trans_of ConfSide (trans_of ConfSide k1 k2) (freeVmConfEntry_confSide _ _ _ _ h3)
    refine trans_of Calm k3.calm ?_
    rw [of_modify h]
    exact modVm_calm (fun _ => ⟨rfl, rfl, rfl, rfl⟩) (fun _ => .inr (k3.isSome hc)) fun _ _ h => .inl h
  · exact (freeVmConfEntry_confSide _ _ _ _ h).calm

theorem searchAndReplaceVmConf_calm (a : Addr) (load : Option (List LoadedConf)) :
    Keeps Calm (searchAndReplaceVmConf a load) := by
  intro s r s' h
  replace h := get_bind h
  obtain ⟨o, s1, h1, h2⟩ := of_bind h
  rcases loadConfigFile_spec h1 with ⟨rfl, -, rfl⟩ | ⟨ls, -, rfl, ha⟩
  · cases h2
    exact refl_of Calm _
  · have k1 := allocConfs_confSide ls _ _ _ ha
    obtain ⟨o2, s2, h3, h4⟩ := of_bind h2
    obtain ⟨k2, hr⟩ := searchConf_spec _ h3
    refine trans_of Calm (trans_of ConfSide k1 k2).calm ?_
    cases o2 with
    | none =>
      cases h4
      exact refl_of Calm _
    | some c =>
      obtain ⟨_, s3, h5, h6⟩ := of_bind h4
      cases h6
      rcases hr with hr | ⟨c', hc', hr⟩
      · cases hr
      · cases hr
        exact replaceVmConf_calm (k2.isSome (allocConfs_isSome ha hc')) h5

theorem applyStyle_calm (a : Addr) (install : Bool) : Keeps Calm (applyStyle a install) :=
  .bind .get fun _ => whenever_keeps _ ((setInstall_confSide _ _).mono fun _ _ => ConfSide.calm)

/-! ## Booting -/

/-- A VM in `TERMINATE` is started on a command. -/
theorem start_moves {r : Int} (hc : (s.view b).Commanded) (hst : (s.view b).state = some .terminate)
    (h : startVirtualMachine env b s = .ok (r, s')) : Moves env theft s s' := by
  intro hw
  have hworks : Works env b s s' := .of_starts hw hc hst h
  obtain ⟨t, l⟩ := hworks.toActsOn.moves (isSome_of_view hst) hw
  exact ⟨t, fun a => (l a).mono False.elim⟩

theorem bootVm_moves {r : NvList}
    (hv : s.vm? v.addr = some v) (h : bootVm env v install load s = .ok (r, s')) : Moves env theft s s' := by
  have hsome : (s.vm? v.addr).isSome := by rw [hv]; rfl
  obtain ⟨_, s1, h1, h⟩ := of_bind h
  have hs1 := of_modify h1
  have m1 : Moves env theft s s1 := by rw [hs1]; exact note_moves rfl hsome .boot
  have e1 : s1.view v.addr = (s.view v.addr).note (.boot v.addr) := by rw [hs1]; exact view_note rfl
  refine trans_of (Moves env theft) m1 ?_
  split at h
  · cases h
    exact refl_of (Moves env theft) _
  next hst =>
  have hst1 : (s1.view v.addr).state = some .terminate := by
    rw [e1]
    show (s.view v.addr).state = _
    rw [view_state hv, not_not.mp hst]
  have hc1 : (s1.view v.addr).Commanded := by
    intro x hx
    rw [e1] at hx
    exact .inr ⟨v.addr, (Option.some.inj hx).symm⟩
  obtain ⟨rc, s2, h2, h⟩ := of_bind h
  have k2 := searchAndReplaceVmConf_calm _ _ _ _ _ h2
  split at h
  · cases h
    exact k2.moves
  obtain ⟨_, s3, h3, h⟩ := of_bind h
  have k3 := trans_of Calm k2 (applyStyle_calm _ _ _ _ _ h3)
  intro hw
  have e3 := (k3 hw).2 v.addr
  refine trans_of (Moves env theft) k3.moves ?_ hw
  obtain ⟨rs, s4, h4, h⟩ := of_bind h
  have m4 : Moves env theft s3 s4 := start_moves (by rw [e3]; exact hc1) (by rw [e3]; exact hst1) h4
  split at h
  · cases h
    exact m4
  · exact trans_of (Moves env theft) m4 (preserved (R := Apart) h).calm.moves

/-! ## Stopping -/

theorem downVm_moves {conf : VmConf} {s1 : Daemon}
    (hv : s.vm? v.addr = some v) (hact : v.state = .load ∨ v.state = .run)
    (h1 : noteDown v.addr v.state how s = .ok ((), s1)) (h : downVm env v conf how s1 = .ok (u, s')) :
    Moves env theft s s' := by
  intro hw
  have hsome : (s.vm? v.addr).isSome := by rw [hv]; rfl
  have hst : (s.view v.addr).Active v.state := ⟨view_state hv, hact⟩
  have hser := hw.view_serial hsome
  -- a shutdown or poweroff is recorded first
  have hdown : how ≠ .reset → Tidy s s1 ∧ (∀ a, a ≠ v.addr → s1.view a = s.view a) ∧
      s1.view v.addr = (s.view v.addr).note (.down v.addr v.state (s.view v.addr).timers) ∧
      (s1.vm? v.addr).isSome := by
    intro hne
    have hs1 : s1 = s.note (.down v.addr v.state (s.timersOf v.addr)) := by
      have hb : (how != .reset) = true := by simpa using hne
      simp only [noteDown, whenever, hb, if_true] at h1
      exact of_modify h1
    rw [hs1]
    exact ⟨note_tidy_vm hw hv rfl, fun a ha => view_note_of_ne rfl ha, view_note rfl, hsome⟩
  have hfinish : how ≠ .reset → ∀ {w : View}, Grow v.addr s1 s' → s'.view v.addr = w →
      Life env theft v.addr (s.view v.addr) w → w.serial = (s.view v.addr).serial →
      Tidy s s' ∧ ∀ a, LifeStar env theft a (s.view a) (s'.view a) := by
    intro hne w g e hl hws
    obtain ⟨t1, ho1, e1, hsome1⟩ := hdown hne
    have hlt : (s'.view v.addr).serial < s'.next := by
      rw [e, hws]
      exact Nat.lt_of_lt_of_le hser (Nat.le_trans t1.next g.next)
    refine ⟨t1.trans (g.within.tidy hsome1 hlt t1.wf), fun a => ?_⟩
    by_cases ha : a = v.addr
    · subst ha
      rw [e]
      exact .single hl
    · rw [g.view ha, ho1 a ha]
  cases how with
  | shutdown =>
    obtain ⟨t1, ho1, e1, hsome1⟩ := hdown (by decide)
    obtain ⟨_, s2, h2, h⟩ := of_bind h
    obtain ⟨g2, ok, e2, hok⟩ := requestStop_spec h2
    obtain ⟨g3, e3⟩ := setState_spec (g2.isSome hsome1) h
    exact hfinish (by decide) (g2.trans g3) (by rw [e3, e2, e1]) (.shutdown hst hok) rfl
  | poweroff =>
    obtain ⟨t1, ho1, e1, hsome1⟩ := hdown (by decide)
    obtain ⟨_, s2, h2, h⟩ := of_bind h
    obtain ⟨g2, -, opened, e2⟩ := poweroffBhyve_spec hsome1 h2
    obtain ⟨g3, e3⟩ := setState_spec (g2.isSome hsome1) h
    exact hfinish (by decide) (g2.trans g3) (by rw [e3, e2, e1]) (.poweroff hst) rfl
  | reset =>
    cases h1
    obtain ⟨opened, s2, h2, h⟩ := of_bind h
    cases h
    obtain ⟨-, g, e⟩ := suspendBhyve_spec h2
    have hlt : (s'.view v.addr).serial < s'.next := by
      rw [e]
      exact Nat.lt_of_lt_of_le hser g.next
    refine ⟨g.within.tidy hsome hlt hw, fun a => ?_⟩
    by_cases ha : a = v.addr
    · subst ha
      rw [e]
      exact .single (.reset hst)
    · rw [g.view ha]

theorem noteDown_moves (hv : s.vm? v.addr = some v)
    (hact : ¬(v.state = .load ∨ v.state = .run)) (h : noteDown v.addr v.state how s = .ok (u, s')) :
    Moves env theft s s' := by
  by_cases hr : how = .reset
  · subst hr
    cases h
    exact refl_of (Moves env theft) _
  · have hb : (how != .reset) = true := by simpa using hr
    simp only [noteDown, whenever, hb, if_true] at h
    rw [of_modify h]
    push Not at hact
    exact note_moves rfl (by rw [hv]; rfl) (.downIdle (view_state hv) hact.1 hact.2)

theorem requestedVm_spec {r : Option VmEntry} (hw : WF s)
    (h : requestedVm nv ucred s = .ok (r, s')) : s' = s ∧ ∀ v, r = some v → s.vm? v.addr = some v := by
  obtain ⟨name, s1, h1, h⟩ := of_bind h
  have hs1 : s1 = s := by
    cases hk : nv.getString? "name" <;> simp only [nvlistGetString, hk] at h1
    · exact (throw_ok.mp h1).elim
    · exact (pure_ok.mp h1).2.symm
  replace h := get_bind h
  obtain ⟨rfl, rfl⟩ := pure_ok.mp h
  refine ⟨hs1, fun v hv => ?_⟩
  rw [hs1] at hv
  exact hw.vm?_of_mem (List.mem_of_find?_eq_some (Option.filter_eq_some_iff.mp hv).1)

theorem vmDownCommand_moves : Keeps (Moves env theft) (vmDownCommand env nv how ucred) := by
  intro s r s' h hw
  obtain ⟨o, s1, h1, h⟩ := of_bind h
  obtain ⟨rfl, hv⟩ := requestedVm_spec hw h1
  cases o with
  | none =>
    cases h
    exact refl_of (Moves env theft) _ hw
  | some v =>
    have hv := hv v rfl
    obtain ⟨_, s2, h2, h⟩ := of_bind h
    split at h
    · next hact =>
      replace h := get_bind h
      obtain ⟨_, s4, h4, h⟩ := of_bind h
      cases h
      exact downVm_moves hv hact h2 h4 hw
    · next hact =>
      cases h
      exact noteDown_moves hv hact h2 hw

theorem boot0Command_moves : Keeps (Moves env theft) (boot0Command env nv install ucred load) := by
  intro s r s' h hw
  obtain ⟨o, s1, h1, h⟩ := of_bind h
  obtain ⟨rfl, hv⟩ := requestedVm_spec hw h1
  cases o with
  | none =>
    cases h
    exact refl_of (Moves env theft) _ hw
  | some v => exact bootVm_moves (hv v rfl) h hw

theorem serves_moves : Serves env (Moves env theft) := ⟨fun h => h.calm.moves, vmDownCommand_moves, boot0Command_moves⟩

end Bmd
