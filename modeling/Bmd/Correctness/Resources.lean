import Bmd.Correctness.Holdings

/-!
# `Correctness.Resources` — tap interfaces and map files

A start takes tap interfaces and perhaps a map file in the middle of a function that can fail at many points, a
reboot of the guest keeps them, and the end of the process releases them. `Stocked a v` is the balance while the
VM at `a`, whose entry is `v`, is worked on: all that exists is held by some VM, and all other VMs in `TERMINATE`
hold nothing.
-/

namespace Bmd

open Lib Lib.Prog

variable {s s' t : Daemon} {a b c : Addr} {v w : VmEntry} {env : Env} {u : Unit} {r : Int} {f : VmEntry → VmEntry}

/-- Memory can be allocated, sockets can be opened and tap interfaces can be destroyed. -/
structure Env.Ample (env : Env) : Prop where
  malloc : ∀ n, env.malloc n = true
  socket : ∀ n, env.socket n = true ∧ env.removeSocket n = true
  destroyTap : ∀ n, env.destroyTap n = true

/-- The tap interfaces of a VM. -/
def VmEntry.tapNames (v : VmEntry) : List String := v.taps.filterMap (·.tap)

/-- No tap interfaces and no map file. -/
def VmEntry.Empty (v : VmEntry) : Prop := v.taps = [] ∧ v.mapfile = none

/-- A VM in `TERMINATE` holds nothing. -/
def VmEntry.Rested (v : VmEntry) : Prop := v.state = .terminate → v.Empty

/-- The tap interfaces that exist are those in the `taps` lists, each in one place, and so are the map files and the
    `mapfile` fields; a VM in `TERMINATE` has neither. -/
structure Daemon.Balanced (s : Daemon) : Prop where
  taps : Lib.Accounted s.taps (s.vmList.flatMap (·.tapNames))
  files : Lib.Accounted s.files (s.vmList.flatMap (·.mapfile.toList))
  rested : ∀ v ∈ s.vmList, v.Rested

/-! ## The balance while one VM is worked on -/

structure Stocked (a : Addr) (v : VmEntry) (s : Daemon) : Prop where
  nodup : (s.vmList.map (·.addr)).Nodup
  entry : s.vm? a = some v
  taps : Lib.Accounted s.taps (s.vmList.flatMap (·.tapNames))
  files : Lib.Accounted s.files (s.vmList.flatMap (·.mapfile.toList))
  rested : ∀ w ∈ s.vmList, w.addr ≠ a → w.Rested

theorem Daemon.Balanced.stocked (h : s.Balanced) (hnd : (s.vmList.map (·.addr)).Nodup) (hv : s.vm? a = some v) :
    Stocked a v s := ⟨hnd, hv, h.taps, h.files, fun w hw _ => h.rested w hw⟩

theorem Still.tapNames (h : Still s s') : s'.vmList.flatMap (·.tapNames) = s.vmList.flatMap (·.tapNames) := by
  have hm := congrArg (List.flatMap fun x : Holding => x.taps.filterMap (·.tap)) h.vms
  rw [List.flatMap_map, List.flatMap_map] at hm
  exact hm

theorem Still.mapfiles (h : Still s s') :
    s'.vmList.flatMap (·.mapfile.toList) = s.vmList.flatMap (·.mapfile.toList) := by
  have hm := congrArg (List.flatMap fun x : Holding => x.mapfile.toList) h.vms
  rw [List.flatMap_map, List.flatMap_map] at hm
  exact hm

theorem VmEntry.Empty.of_holding (h : w.Empty) (heq : v.holding = w.holding) : v.Empty :=
  ⟨(congrArg Holding.taps heq).trans h.1, (congrArg Holding.mapfile heq).trans h.2⟩

theorem Still.balanced (h : Still s s') (hb : s.Balanced) : s'.Balanced := by
  refine ⟨?_, ?_, fun v' hv' hst => ?_⟩
  · rw [h.taps, h.tapNames]
    exact hb.taps
  · rw [h.files, h.mapfiles]
    exact hb.files
  · obtain ⟨v, hv, heq, hst⟩ := h.idle v' hv' hst
    exact (hb.rested v hv hst).of_holding heq.symm

namespace Stocked

theorem vmOf (h : Stocked a v s) : s.vmOf a = v := vmOf_of_vm? h.entry

theorem balanced (h : Stocked a v s) (hv : v.Rested) : s.Balanced := by
  refine ⟨h.taps, h.files, fun w hw => ?_⟩
  by_cases hwa : w.addr = a
  · have hfind := Keyed.find?_of_mem (k := VmEntry.addr) h.nodup hw
    rw [hwa] at hfind
    have heq : v = w := Option.some.inj (h.entry.symm.trans hfind)
    exact heq ▸ hv
  · exact h.rested w hw hwa

theorem congr (h : Stocked a v s) (hv : s'.vmList = s.vmList) (ht : s'.taps = s.taps) (hf : s'.files = s.files) :
    Stocked a v s' := by
  refine ⟨?_, ?_, ?_, ?_, ?_⟩
  · rw [hv]; exact h.nodup
  · rw [Daemon.vm?, hv]; exact h.entry
  · rw [hv, ht]; exact h.taps
  · rw [hv, hf]; exact h.files
  · rw [hv]; exact h.rested

theorem ask {α : Type} {f : Nat → α} {x : α} (h : Stocked a v s) (ha : ask f s = .ok (x, s')) : Stocked a v s' := by
  cases ha
  exact h.congr rfl rfl rfl

/-- The entry is changed, and what exists with it. -/
theorem update (h : Stocked a v s) (hf : ∀ w, (f w).addr = w.addr)
    (hl : s'.vmList = (s.modVm a f).vmList)
    (ht : ∀ T, Accounted s.taps (v.tapNames ++ T) → Accounted s'.taps ((f v).tapNames ++ T))
    (hF : ∀ F, Accounted s.files (v.mapfile.toList ++ F) → Accounted s'.files ((f v).mapfile.toList ++ F)) :
    Stocked a (f v) s' := by
  have hold : s.vmList.Perm (v :: s.vmList.filter (·.addr != a)) :=
    Keyed.perm_of_find? (k := VmEntry.addr) h.nodup h.entry
  have hentry : s'.vm? a = some (f v) := by
    unfold Daemon.vm?
    rw [hl]
    refine (Keyed.find?_update_self (k := VmEntry.addr) hf s.vmList a).trans ?_
    rw [show s.vmList.find? (fun x => x.addr == a) = some v from h.entry]
    rfl
  have haddrs : s'.vmList.map (·.addr) = s.vmList.map (·.addr) := by
    rw [hl]
    exact Keyed.map_update (k := VmEntry.addr) hf s.vmList a
  have hnd : (s'.vmList.map (·.addr)).Nodup := by rw [haddrs]; exact h.nodup
  have hothers : s'.vmList.filter (·.addr != a) = s.vmList.filter (·.addr != a) := by
    rw [hl]
    exact Keyed.filter_update (k := VmEntry.addr) hf s.vmList a
  have hnew : s'.vmList.Perm (f v :: s.vmList.filter (·.addr != a)) := by
    rw [← hothers]
    exact Keyed.perm_of_find? (k := VmEntry.addr) hnd hentry
  refine ⟨hnd, hentry, ?_, ?_, fun w hw hwa => ?_⟩
  · have hp := hold.flatMap_right VmEntry.tapNames
    have hp' := hnew.flatMap_right VmEntry.tapNames
    rw [List.flatMap_cons] at hp hp'
    exact (ht _ (h.taps.of_perm hp)).of_perm hp'.symm
  · have hp := hold.flatMap_right fun w => w.mapfile.toList
    have hp' := hnew.flatMap_right fun w => w.mapfile.toList
    rw [List.flatMap_cons] at hp hp'
    exact (hF _ (h.files.of_perm hp)).of_perm hp'.symm
  · have hmem : w ∈ s.vmList.filter (·.addr != a) := by
      rw [← hothers]
      exact List.mem_filter.mpr ⟨hw, by simpa using hwa⟩
    exact h.rested w (List.mem_filter.mp hmem).1 hwa

/-- Only fields of the entry are written that hold nothing. -/
theorem modVm (h : Stocked a v s) (hf : ∀ w, (f w).addr = w.addr)
    (ht : (f v).tapNames = v.tapNames) (hF : (f v).mapfile = v.mapfile) : Stocked a (f v) (s.modVm a f) :=
  h.update hf rfl (fun _ hT => by rw [ht]; exact hT) fun _ hT => by rw [hF]; exact hT

/-- Nothing is taken or released. -/
theorem still (h : Stocked a v s) (hs : Still s s') :
    ∃ v', Stocked a v' s' ∧ v'.holding = v.holding ∧ (v'.state = .terminate → v.state = .terminate) := by
  have hat := hs.holding? a
  rw [h.entry] at hat
  cases hv' : s'.vm? a with
  | none =>
    rw [hv'] at hat
    cases hat
  | some v' =>
  rw [hv'] at hat
  have hhold : v'.holding = v.holding := Option.some.inj hat
  refine ⟨v', ⟨by rw [hs.addrs]; exact h.nodup, hv', ?_, ?_, ?_⟩, hhold, ?_⟩
  · rw [hs.taps, hs.tapNames]
    exact h.taps
  · rw [hs.files, hs.mapfiles]
    exact h.files
  · intro w' hw' hne hst
    obtain ⟨w, hw, heq, hwst⟩ := hs.idle w' hw' hst
    have haddr : w.addr = w'.addr := congrArg Holding.addr heq
    exact (h.rested w hw (by rw [haddr]; exact hne) hwst).of_holding heq.symm
  · intro hst
    obtain ⟨w, hw, heq, hwst⟩ := hs.idle v' (mem_of_vm? hv') hst
    have haddr : w.addr = a := (congrArg Holding.addr heq).trans (addr_of_vm? hv')
    have hfind := Keyed.find?_of_mem (k := VmEntry.addr) h.nodup hw
    rw [haddr] at hfind
    have hvw : v = w := Option.some.inj (h.entry.symm.trans hfind)
    rw [hvw]
    exact hwst

end Stocked

/-! ## Tap interfaces -/

/-- `create_tap`: an interface with a new name, or nothing. -/
theorem createTap_ok {o : Option String} (h : createTap env s = .ok (o, s')) :
    (o = none ∧ s'.vmList = s.vmList ∧ s'.taps = s.taps ∧ s'.files = s.files) ∨
      ∃ n, o = some n ∧ n ∉ s.taps ∧ s'.vmList = s.vmList ∧ s'.taps = n :: s.taps ∧ s'.files = s.files := by
  replace h := get_bind h
  cases hc : env.createTap s.tick s.taps with
  | none =>
    simp only [hc] at h
    cases h
    exact .inl ⟨rfl, rfl, rfl, rfl⟩
  | some n =>
    simp only [hc] at h
    cases h
    exact .inr ⟨n, rfl, env.createTapFresh _ _ _ hc, rfl, rfl, rfl⟩

section

variable (hA : env.Ample)

include hA

/-- `destroy_tap` of an interface that one VM holds. -/
theorem destroyTap_ok {n : String} (h : destroyTap env n s = .ok (u, s')) :
    s'.vmList = s.vmList ∧ s'.files = s.files ∧ s'.taps = s.taps.erase n := by
  obtain ⟨ok, s1, h1, h⟩ := of_bind h
  cases h1
  rw [if_pos (hA.destroyTap _)] at h
  rw [of_modify h]
  exact ⟨rfl, rfl, rfl⟩

variable {l : List NetConf}

theorem destroyTaps_ok (h : destroyTaps env l s = .ok (u, s')) :
    s'.vmList = s.vmList ∧ s'.files = s.files ∧
      ∀ T, Accounted s.taps (l.filterMap (·.tap) ++ T) → Accounted s'.taps T := by
  induction l generalizing s with
  | nil =>
    cases h
    exact ⟨rfl, rfl, fun _ => id⟩
  | cons nc rest ih =>
    unfold destroyTaps at h
    cases hn : nc.tap with
    | none =>
      simp only [hn] at h
      obtain ⟨h1, h2, h3⟩ := ih h
      refine ⟨h1, h2, fun T hT => h3 T ?_⟩
      rwa [List.filterMap_cons_none hn] at hT
    | some n =>
      simp only [hn] at h
      obtain ⟨_, s1, hd, h⟩ := of_bind h
      obtain ⟨d1, d2, d3⟩ := destroyTap_ok hA hd
      obtain ⟨h1, h2, h3⟩ := ih h
      refine ⟨h1.trans d1, h2.trans d2, fun T hT => h3 T ?_⟩
      rw [List.filterMap_cons_some hn] at hT
      rw [d3]
      exact hT.release

/-- **`remove_taps`** gives back all that the VM has. -/
theorem removeTaps_stocked (h : Stocked a v s) (hr : removeTaps env a s = .ok (r, s')) :
    Stocked a { v with taps := [] } s' := by
  obtain ⟨ok, s1, h1, hr⟩ := of_bind hr
  cases h1
  rw [if_neg (by rw [(hA.socket _).2]; decide)] at hr
  replace hr := getVm_bind hr
  obtain ⟨_, s3, h3, hr⟩ := of_bind hr
  obtain ⟨_, s4, h4, hr⟩ := of_bind hr
  cases hr
  have hof : Daemon.vmOf { s with tick := s.tick + 1 } a = v := h.vmOf
  rw [hof] at h3
  obtain ⟨hl, hf, ht⟩ := destroyTaps_ok hA h3
  have hs4 := of_modify h4
  refine h.update (f := ({ · with taps := [] })) (fun _ => rfl) ?_ (fun T hT => ?_) fun F hF => ?_
  · rw [hs4]
    show s3.vmList.map _ = _
    rw [hl]
    rfl
  · rw [hs4]
    exact ht T hT
  · rw [hs4]
    show Accounted s3.files _
    rw [hf]
    exact hF

/-- **The second loop of `assign_taps`**: the interfaces up to some position are there, or all are removed. -/
theorem createTaps_stocked : ∀ {s : Daemon} {v : VmEntry} {done : List NetConf},
    Stocked a v s → v.taps = done ++ l → (∀ nc ∈ l, nc.tap = none) → createTaps env a done l s = .ok (r, s') →
    ∃ taps, Stocked a { v with taps := taps } s' ∧ (r < 0 → taps = []) := by
  induction l with
  | nil =>
    intro s v done h _ _ hr
    cases hr
    exact ⟨v.taps, h, fun hneg => absurd hneg (by decide)⟩
  | cons nc rest ih =>
    intro s v done h htaps hnone hr
    -- on a failure everything is removed again
    have giveUp : ∀ {t : Daemon} {w : VmEntry}, Stocked a w t →
        (do let _ ← removeTaps env a; return -1 : Bmd.Prog Int) t = .ok (r, s') → Stocked a { w with taps := [] } s' := by
      intro t w ht hr
      obtain ⟨r', t1, h1, hr⟩ := of_bind hr
      cases hr
      exact removeTaps_stocked hA ht h1
    obtain ⟨ok, s1, h1, hr⟩ := of_bind hr
    have hst1 := h.ask h1
    have hok : ok = true := by cases h1; exact hA.malloc _
    rw [hok, if_neg (by decide)] at hr
    obtain ⟨o, s2, h2, hr⟩ := of_bind hr
    rcases createTap_ok h2 with ⟨rfl, hv2, ht2, hf2⟩ | ⟨n, rfl, hfresh, hv2, ht2, hf2⟩
    · exact ⟨[], giveUp (hst1.congr hv2 ht2 hf2) hr, fun _ => rfl⟩
    obtain ⟨_, s3, h3, hr⟩ := of_bind hr
    have hs3 := of_modify h3
    have hst3 : Stocked a { v with taps := done ++ { nc with tap := some n } :: rest } s3 := by
      refine hst1.update (f := ({ · with taps := done ++ { nc with tap := some n } :: rest })) (fun _ => rfl)
        ?_ (fun T hT => ?_) fun F hF => ?_
      · rw [hs3]
        show s2.vmList.map _ = _
        rw [hv2]
        rfl
      · -- the new interface stands where there was none
        have hnames : v.tapNames = done.filterMap (·.tap) ++ rest.filterMap (·.tap) := by
          rw [VmEntry.tapNames, htaps, List.filterMap_append,
            List.filterMap_cons_none (hnone nc List.mem_cons_self)]
        rw [hnames, List.append_assoc] at hT
        have hT' := hT.take hfresh
        rw [hs3]
        show Accounted s2.taps ((done ++ { nc with tap := some n } :: rest).filterMap (·.tap) ++ T)
        rw [ht2, List.filterMap_append, List.append_assoc]
        exact hT'
      · rw [hs3]
        show Accounted s2.files _
        rw [hf2]
        exact hF
    obtain ⟨ok4, s4, h4, hr⟩ := of_bind hr
    have hst4 := hst3.ask h4
    split at hr
    · have hst := giveUp hst4 hr
      exact ⟨[], hst, fun _ => rfl⟩
    obtain ⟨ok5, s5, h5, hr⟩ := of_bind hr
    have hst5 := hst4.ask h5
    split at hr
    · have hst := giveUp hst5 hr
      exact ⟨[], hst, fun _ => rfl⟩
    obtain ⟨taps, hst, hneg⟩ := ih hst5 (List.append_cons ..) (fun x hx => hnone x (List.mem_cons_of_mem _ hx)) hr
    exact ⟨taps, hst, hneg⟩

theorem copyNetConfs_ok {ok : Bool} (h : copyNetConfs env l s = .ok (ok, s')) :
    ok = true ∧ s'.vmList = s.vmList ∧ s'.taps = s.taps ∧ s'.files = s.files := by
  induction l generalizing s with
  | nil =>
    cases h
    exact ⟨rfl, rfl, rfl, rfl⟩
  | cons nc rest ih =>
    obtain ⟨ok1, s1, h1, h⟩ := of_bind h
    cases h1
    rw [if_neg (by rw [hA.malloc]; decide)] at h
    obtain ⟨rfl, hv, ht, hf⟩ := ih h
    exact ⟨rfl, hv, ht, hf⟩

/-- **`assign_taps`.** -/
theorem assignTaps_stocked (h : Stocked a v s) (hr : assignTaps env a s = .ok (r, s')) :
    ∃ taps, Stocked a { v with taps := taps } s' ∧ (r < 0 → taps = []) := by
  replace hr := getVm_bind hr
  rw [h.vmOf] at hr
  split at hr
  · cases hr
    exact ⟨v.taps, h, fun hneg => absurd hneg (by decide)⟩
  next hempty =>
  have hnil : v.taps = [] := by simpa using hempty
  obtain ⟨conf, s2, h2, hr⟩ := of_bind hr
  obtain ⟨-, rfl⟩ := getVmConf_ok h2
  obtain ⟨ok, s3, h3, hr⟩ := of_bind hr
  obtain ⟨rfl, hv3, ht3, hf3⟩ := copyNetConfs_ok hA h3
  rw [if_neg (by decide)] at hr
  obtain ⟨ok4, s4, h4, hr⟩ := of_bind hr
  have hst4 := (h.congr hv3 ht3 hf3).ask h4
  have hok : ok4 = true := by cases h4; exact (hA.socket _).1
  rw [hok, if_neg (by decide)] at hr
  obtain ⟨_, s5, h5, hr⟩ := of_bind hr
  -- the copies have no interface yet
  have hnone : ∀ nc ∈ conf.nets.map fun nc => ({ nc with tap := none } : NetConf), nc.tap = none := by
    intro nc hnc
    obtain ⟨x, -, rfl⟩ := List.mem_map.mp hnc
    rfl
  have hnames : (conf.nets.map fun nc => ({ nc with tap := none } : NetConf)).filterMap (·.tap) = [] :=
    List.filterMap_eq_nil_iff.mpr hnone
  have hst5 : Stocked a { v with taps := conf.nets.map fun nc => { nc with tap := none } } s5 := by
    rw [of_modify h5]
    refine hst4.modVm (f := ({ · with taps := conf.nets.map fun nc => { nc with tap := none } })) (fun _ => rfl) ?_ rfl
    rw [VmEntry.tapNames, VmEntry.tapNames, hnames, hnil]
    rfl
  obtain ⟨taps, hst, hneg⟩ := createTaps_stocked hA hst5 (List.nil_append _).symm hnone hr
  exact ⟨taps, hst, hneg⟩

/-- **The taps of a start.** They are set up only from `TERMINATE`; if that fails there are none. -/
theorem setUpTaps_stocked (h : Stocked a v s) (hr : setUpTaps env a s = .ok (r, s')) :
    ∃ taps, Stocked a { v with taps := taps } s' ∧ (r < 0 → taps = []) := by
  replace hr := getVm_bind hr
  rw [h.vmOf] at hr
  split at hr
  · cases hr
    exact ⟨v.taps, h, fun hneg => absurd hneg (by decide)⟩
  obtain ⟨r2, s2, h2, hr⟩ := of_bind hr
  obtain ⟨taps, hst2, hneg2⟩ := assignTaps_stocked hA h h2
  split at hr
  · next hneg =>
    cases hr
    exact ⟨taps, hst2, fun _ => hneg2 hneg⟩
  obtain ⟨r3, s3, h3, hr⟩ := of_bind hr
  obtain ⟨ok, s4, h4, h3⟩ := of_bind h3
  have hst4 := hst2.ask h4
  split at h3
  · cases h3
    rw [if_pos (by decide)] at hr
    obtain ⟨r5, s5, h5, hr⟩ := of_bind hr
    cases hr
    have hst5 := removeTaps_stocked hA hst4 h5
    exact ⟨[], hst5, fun _ => rfl⟩
  · cases h3
    rw [if_neg (by decide)] at hr
    cases hr
    exact ⟨taps, hst4, fun hneg => absurd hneg (by decide)⟩

end

/-! ## Map files -/

/-- `mkstemp`: a file with a new name, or nothing. -/
theorem mkstemp_ok {o : Option String} (h : mkstemp env s = .ok (o, s')) :
    (o = none ∧ s'.vmList = s.vmList ∧ s'.taps = s.taps ∧ s'.files = s.files) ∨
      ∃ fn, o = some fn ∧ fn ∉ s.files ∧ s'.vmList = s.vmList ∧ s'.taps = s.taps ∧ s'.files = fn :: s.files := by
  replace h := get_bind h
  cases hc : env.mkstemp s.tick s.files with
  | none =>
    simp only [hc] at h
    cases h
    exact .inl ⟨rfl, rfl, rfl, rfl⟩
  | some fn =>
    simp only [hc] at h
    cases h
    exact .inr ⟨fn, rfl, env.mkstempFresh _ _ _ hc, rfl, rfl, rfl⟩

theorem unlinkMapfile_ok {m : Option String} (h : unlinkMapfile m s = .ok (u, s')) :
    s'.vmList = s.vmList ∧ s'.taps = s.taps ∧ ∀ F, Accounted s.files (m.toList ++ F) → Accounted s'.files F := by
  cases m with
  | none =>
    cases h
    exact ⟨rfl, rfl, fun _ => id⟩
  | some fn =>
    rw [of_modify h]
    exact ⟨rfl, rfl, fun F hF => Accounted.release hF⟩

/-- **`write_mapfile`.** The file of the last start goes; the new one stays, or goes when it cannot be written. -/
theorem writeMapfile_stocked (h : Stocked a v s) (hr : writeMapfile env a s = .ok (r, s')) :
    ∃ m, Stocked a { v with mapfile := m } s' := by
  obtain ⟨o, s1, h1, hr⟩ := of_bind hr
  rcases mkstemp_ok h1 with ⟨rfl, hv1, ht1, hf1⟩ | ⟨fn, rfl, hfresh, hv1, ht1, hf1⟩
  · cases hr
    exact ⟨v.mapfile, h.congr hv1 ht1 hf1⟩
  replace hr := getVm_bind hr
  have hof : s1.vmOf a = v := by rw [Daemon.vmOf, Daemon.vm?, hv1]; exact h.vmOf
  rw [hof] at hr
  obtain ⟨_, s3, h3, hr⟩ := of_bind hr
  obtain ⟨hv3, ht3, hf3⟩ := unlinkMapfile_ok h3
  obtain ⟨_, s4, h4, hr⟩ := of_bind hr
  have hs4 := of_modify h4
  have hst4 : Stocked a { v with mapfile := some fn } s4 := by
    refine h.update (f := ({ · with mapfile := some fn })) (fun _ => rfl) ?_ (fun T hT => ?_) fun F hF => ?_
    · rw [hs4]
      show s3.vmList.map _ = _
      rw [hv3, hv1]
      rfl
    · rw [hs4]
      show Accounted s3.taps _
      rw [ht3, ht1]
      exact hT
    · -- the old name is among those in use, so it is not the new one
      rw [hs4]
      refine hf3 (fn :: F) ?_
      rw [hf1]
      exact hF.take hfresh
  obtain ⟨ok, s5, h5, hr⟩ := of_bind hr
  have hst5 := hst4.ask h5
  split at hr
  · obtain ⟨_, s6, h6, hr⟩ := of_bind hr
    obtain ⟨_, s7, h7, hr⟩ := of_bind hr
    cases hr
    refine ⟨none, hst5.update (f := ({ · with mapfile := none })) (fun _ => rfl) ?_ (fun T hT => ?_) fun F hF => ?_⟩
    · rw [of_modify h7, of_modify h6]
    · rw [of_modify h7, of_modify h6]
      exact hT
    · rw [of_modify h7, of_modify h6]
      exact Accounted.release hF
  · cases hr
    exact ⟨some fn, hst5⟩

theorem vmClose_ok {fd : Fd} (h : vmClose fd s = .ok (u, s')) :
    s'.vmList = s.vmList ∧ s'.taps = s.taps ∧ s'.files = s.files := by
  unfold vmClose whenever at h
  split at h
  · rw [of_modify h]
    exact ⟨rfl, rfl, rfl⟩
  · cases h
    exact ⟨rfl, rfl, rfl⟩

/-- What `cleanup_bhyve` gives back. -/
theorem releaseBhyve_stocked (h : Stocked a v s) (hr : releaseBhyve a s = .ok (u, s')) :
    ∃ v', Stocked a v' s' ∧ v'.taps = v.taps ∧ v'.mapfile = none := by
  replace hr := getVm_bind hr
  rw [h.vmOf] at hr
  obtain ⟨_, s2, h2, hr⟩ := of_bind hr
  obtain ⟨_, s3, h3, hr⟩ := of_bind hr
  obtain ⟨_, s4, h4, hr⟩ := of_bind hr
  obtain ⟨_, s5, h5, hr⟩ := of_bind hr
  obtain ⟨v2, t2, f2⟩ := vmClose_ok h2
  obtain ⟨v3, t3, f3⟩ := vmClose_ok h3
  obtain ⟨v4, t4, f4⟩ := vmClose_ok h4
  obtain ⟨v5, t5, f5⟩ := vmClose_ok h5
  have hst5 := (((h.congr v2 t2 f2).congr v3 t3 f3).congr v4 t4 f4).congr v5 t5 f5
  obtain ⟨_, s6, h6, hr⟩ := of_bind hr
  obtain ⟨hv6, ht6, hf6⟩ := unlinkMapfile_ok h6
  have hs' := of_modify hr
  refine ⟨_, hst5.update (f := ({ · with infd := -1, outfd := -1, errfd := -1, logfd := -1, mapfile := none }))
    (fun _ => rfl) ?_ (fun T hT => ?_) (fun F hF => ?_), rfl, rfl⟩
  · rw [hs']
    show s6.vmList.map _ = _
    rw [hv6]
    rfl
  · rw [hs']
    show Accounted s6.taps _
    rw [ht6]
    exact hT
  · rw [hs']
    exact hf6 F hF

/-! ## Starting and stopping -/

theorem setState_stocked {st : State} (h : Stocked a v s) (hr : setState a st s = .ok (u, s')) :
    Stocked a { v with state := st } s' := by
  have hs' := of_modify hr
  simp only [h.entry] at hs'
  rw [hs']
  have hst := h.modVm (f := ({ · with state := st })) (fun _ => rfl) rfl rfl
  exact hst.congr rfl rfl rfl

section

variable (hA : env.Ample)

include hA

/-- **`cleanup_virtual_machine`** leaves nothing. -/
theorem cleanupVirtualMachine_stocked (h : Stocked a v s) (hr : cleanupVirtualMachine env a s = .ok (u, s')) :
    ∃ v', Stocked a v' s' ∧ v'.Empty := by
  obtain ⟨r1, s1, h1, hr⟩ := of_bind hr
  have hst1 := removeTaps_stocked hA h h1
  obtain ⟨_, s2, h2, hr⟩ := of_bind hr
  obtain ⟨v2, hst2, htaps, hmap⟩ := releaseBhyve_stocked hst1 h2
  exact ⟨_, setState_stocked hst2 hr, htaps, hmap⟩

theorem stopVirtualMachine_stocked (h : Stocked a v s) (hr : stopVirtualMachine env a s = .ok (u, s')) :
    ∃ v', Stocked a v' s' ∧ v'.Empty := by
  replace hr := getVm_bind hr
  obtain ⟨_, s2, h2, hr⟩ := of_bind hr
  have hst2 : Stocked a v s2 := by
    rw [of_modify h2]
    exact h.congr rfl rfl rfl
  exact cleanupVirtualMachine_stocked hA hst2 hr

end

/-- `start_bhyve` writes a map file, at most. -/
theorem startBhyve_stocked (h : Stocked a v s) (hr : startBhyve env a s = .ok (r, s')) : ∃ v', Stocked a v' s' := by
  have still : ∀ {t : Daemon} {w : VmEntry}, Stocked a w t → ∀ {m : Bmd.Prog Int} [Preserves Still m],
      m t = .ok (r, s') → ∃ v', Stocked a v' s' := by
    intro t w ht m hm hmt
    obtain ⟨v', hst, -⟩ := ht.still (hm.keeps _ _ _ hmt)
    exact ⟨v', hst⟩
  obtain ⟨t, hprep, hcase⟩ := startBhyve_cases hr
  obtain ⟨w, ht⟩ : ∃ w, Stocked a w t := by
    obtain rfl | ⟨x, hx⟩ | ⟨x, hx⟩ := hprep
    · exact ⟨v, h⟩
    · obtain ⟨m, hst⟩ := writeMapfile_stocked h hx
      exact ⟨_, hst⟩
    · obtain ⟨w, hst, -⟩ := h.still (preserved hx)
      exact ⟨w, hst⟩
  obtain ⟨rfl, rfl⟩ | hr | ⟨-, hr | hr⟩ := hcase
  · exact ⟨w, ht⟩
  · exact still ht hr
  · exact still ht hr
  · exact still ht hr

/-- After a successful `start_bhyve` the VM is not in `TERMINATE`. -/
theorem startBhyve_state (hv : s.vm? a = some v) (hv' : s'.vm? a = some w) (hr : startBhyve env a s = .ok (r, s'))
    (hpos : 0 ≤ r) : w.state ≠ .terminate := by
  rcases startBhyve_spec hv hr with ⟨hneg, -⟩ | ⟨-, hsp⟩
  · omega
  · have hst : (s'.view a).state = some .run ∨ (s'.view a).state = some .load := by
      rcases hsp with ⟨p, -, -, -, -, -, -, -, -, e⟩ | ⟨-, p, -, -, -, -, -, -, -, -, e⟩
      · rw [e]
        exact .inl rfl
      · rw [e]
        exact .inr rfl
    rw [view_state hv'] at hst
    intro hterm
    rw [hterm] at hst
    rcases hst with hst | hst <;> cases hst

section

variable (hA : env.Ample)

include hA

theorem superviseProcess_stocked (h : Stocked a v s) (hv : v.state ≠ .terminate)
    (hr : superviseProcess env a s = .ok (r, s')) : ∃ v', Stocked a v' s' ∧ v'.Rested := by
  obtain ⟨ok, s1, h1, hr⟩ := of_bind hr
  obtain ⟨v1, hst1, -, hrest1⟩ := h.still (preserved h1)
  split at hr
  · -- the process is given up
    obtain ⟨_, s2, h2, hr⟩ := of_bind hr
    cases hr
    obtain ⟨_, s3, h3, h2⟩ := of_bind h2
    obtain ⟨v3, hst3, -⟩ := hst1.still (preserved h3)
    replace h2 := getVm_bind h2
    obtain ⟨x, s5, h5, h2⟩ := of_bind h2
    obtain ⟨v5, hst5, -⟩ := hst3.still (preserved h5)
    obtain ⟨v', hst', hempty⟩ := cleanupVirtualMachine_stocked hA hst5 h2
    exact ⟨v', hst', fun _ => hempty⟩
  · replace hr := getVmConf_bind hr
    obtain ⟨r3, s3, h3, hr⟩ := of_bind hr
    obtain ⟨v3, hst3, -, hrest3⟩ := hst1.still (preserved h3)
    split at hr
    · cases hr
      exact ⟨v3, hst3, fun hst => (hv (hrest1 (hrest3 hst))).elim⟩
    · obtain ⟨_, s4, h4, hr⟩ := of_bind hr
      cases hr
      obtain ⟨v4, hst4, -, hrest4⟩ := hst3.still (preserved h4)
      exact ⟨v4, hst4, fun hst => (hv (hrest1 (hrest3 (hrest4 hst)))).elim⟩

/-- **`start_virtual_machine`**, wherever it fails. -/
theorem startVirtualMachine_stocked (h : Stocked a v s) (hv : v.Rested)
    (hr : startVirtualMachine env a s = .ok (r, s')) : ∃ v', Stocked a v' s' ∧ v'.Rested := by
  obtain ⟨r1, s1, h1, hr⟩ := of_bind hr
  have hst1 : ∃ v1, Stocked a v1 s1 ∧ v1.Rested := by
    replace h1 := get_bind h1
    cases hm : s.methodOf (s.vmOf a).conf with
    | none =>
      simp only [hm] at h1
      cases h1
      exact ⟨v, h, hv⟩
    | some p =>
      simp only [hm] at h1
      obtain ⟨_, s2, h2, h1⟩ := of_bind h1
      cases h1
      rw [of_modify h2]
      exact ⟨_, h.modVm (f := ({ · with method := some p.1, plConf := some ((s.vmOf a).conf, p.2) }))
        (fun _ => rfl) rfl rfl, hv⟩
  obtain ⟨v1, hst1, hv1⟩ := hst1
  split at hr
  · cases hr
    exact ⟨v1, hst1, hv1⟩
  obtain ⟨r2, s2, h2, hr⟩ := of_bind hr
  obtain ⟨v2, hst2, hhold2, hrest2⟩ := hst1.still (preserved h2)
  have hv2 : v2.Rested := fun hst => (hv1 (hrest2 hst)).of_holding hhold2
  split at hr
  · cases hr
    exact ⟨v2, hst2, hv2⟩
  obtain ⟨r3, s3, h3, hr⟩ := of_bind hr
  obtain ⟨taps, hst3, hneg3⟩ := setUpTaps_stocked hA hst2 h3
  split at hr
  · next hneg =>
    cases hr
    exact ⟨_, hst3, fun hst => ⟨hneg3 hneg, (hv2 hst).2⟩⟩
  obtain ⟨r4, s4, h4, hr⟩ := of_bind hr
  obtain ⟨v4, hst4⟩ := startBhyve_stocked hst3 h4
  split at hr
  · obtain ⟨_, s5, h5, hr⟩ := of_bind hr
    cases hr
    obtain ⟨v5, hst5, hempty⟩ := cleanupVirtualMachine_stocked hA hst4 h5
    exact ⟨v5, hst5, fun _ => hempty⟩
  · next hpos =>
    exact superviseProcess_stocked hA hst4 (startBhyve_state hst3.entry hst4.entry h4 (by omega)) hr

end

/-! ## Whole runs -/

/-- The balance, with unique addresses. -/
def Daemon.InBalance (s : Daemon) : Prop := (s.vmList.map (·.addr)).Nodup ∧ s.Balanced

theorem Stocked.inBalance (h : Stocked a v s) (hv : v.Rested) : s.InBalance := ⟨h.nodup, h.balanced hv⟩

/-- What the balance depends on in an entry. -/
def VmEntry.goods (v : VmEntry) : Addr × State × List NetConf × Option String := (v.addr, v.state, v.taps, v.mapfile)

theorem Daemon.InBalance.congr (h : s.InBalance) (hv : s'.vmList.map VmEntry.goods = s.vmList.map VmEntry.goods)
    (ht : s'.taps = s.taps) (hf : s'.files = s.files) : s'.InBalance := by
  have haddrs : s'.vmList.map (·.addr) = s.vmList.map (·.addr) := by
    have hm := congrArg (List.map (·.1)) hv
    rw [List.map_map, List.map_map] at hm
    exact hm
  have htaps : s'.vmList.flatMap (·.tapNames) = s.vmList.flatMap (·.tapNames) := by
    have hm := congrArg (List.flatMap fun x : Addr × State × List NetConf × Option String =>
      x.2.2.1.filterMap (·.tap)) hv
    rw [List.flatMap_map, List.flatMap_map] at hm
    exact hm
  have hfiles : s'.vmList.flatMap (·.mapfile.toList) = s.vmList.flatMap (·.mapfile.toList) := by
    have hm := congrArg (List.flatMap fun x : Addr × State × List NetConf × Option String => x.2.2.2.toList) hv
    rw [List.flatMap_map, List.flatMap_map] at hm
    exact hm
  refine ⟨by rw [haddrs]; exact h.1, ?_, ?_, fun v' hv' => ?_⟩
  · rw [ht, htaps]
    exact h.2.taps
  · rw [hf, hfiles]
    exact h.2.files
  · have hmem : v'.goods ∈ s.vmList.map VmEntry.goods := by
      rw [← hv]
      exact List.mem_map_of_mem hv'
    obtain ⟨v, hmem, heq⟩ := List.mem_map.mp hmem
    intro hst
    have hrest := h.2.rested v hmem ((congrArg (·.2.1) heq).trans hst)
    exact ⟨(congrArg (·.2.2.1) heq).symm.trans hrest.1, (congrArg (·.2.2.2) heq).symm.trans hrest.2⟩

theorem modVm_goods (hf : ∀ w, (f w).goods = w.goods) :
    (s.modVm a f).vmList.map VmEntry.goods = s.vmList.map VmEntry.goods :=
  Keyed.map_update (k := VmEntry.addr) hf s.vmList a

/-- A VM that holds nothing is taken out of the list. -/
theorem Daemon.InBalance.forget (h : s.InBalance) (hv : s.vm? a = some v) (hst : v.state = .terminate)
    (hr : vmListRemove a s = .ok (u, s')) : s'.InBalance := by
  have hp : s.vmList.Perm (v :: s.vmList.filter (·.addr != a)) := Keyed.perm_of_find? (k := VmEntry.addr) h.1 hv
  obtain ⟨htaps, hmap⟩ := h.2.rested v (mem_of_vm? hv) hst
  have hp1 := hp.flatMap_right VmEntry.tapNames
  have hp2 := hp.flatMap_right fun w => w.mapfile.toList
  rw [List.flatMap_cons, VmEntry.tapNames, htaps] at hp1
  rw [List.flatMap_cons, hmap] at hp2
  rw [of_modify hr]
  refine ⟨?_, h.2.taps.of_perm hp1, h.2.files.of_perm hp2, fun w hw => h.2.rested w (List.mem_filter.mp hw).1⟩
  exact h.1.sublist (List.filter_sublist.map _)

theorem Daemon.InBalance.still (h : s.InBalance) (hs : Still s s') : s'.InBalance :=
  ⟨by rw [hs.addrs]; exact h.1, hs.balanced h.2⟩

theorem inBalance_kept (hA : env.Ample) : Kept env (fun _ => True) (fun _ => True) Daemon.InBalance where
  nodup h := h.1
  dry hs h := h.still hs.still
  idle _ _ _ := trivial
  loaded _ _ _ _ := trivial
  reboot _ _ _ _ := trivial
  finish _ hr h := h.still (preserved hr)
  read hr h := h.still (preserved hr)
  load hw ha h := by
    obtain ⟨-, rfl⟩ := allocConfs_spec _ ha
    exact h.congr rfl rfl rfl
  create {s c m j} hw hm h := by
    refine ⟨List.nodup_cons.mpr ⟨hw.next_free, h.1⟩, h.2.taps, h.2.files, fun w hmem => ?_⟩
    rcases List.mem_cons.mp hmem with rfl | hmem
    · exact fun _ => ⟨rfl, rfl⟩
    · exact h.2.rested w hmem
  start {s s' a v r} hv _ hr h := by
    obtain ⟨v', hst, hrest⟩ := startVirtualMachine_stocked hA (h.2.stocked h.1 hv) (h.2.rested v (mem_of_vm? hv)) hr
    exact hst.inBalance hrest
  switch {s t s' a c v r} hv _ hc hs hr h := by
    have h1 : (s.modVm a ({ · with conf := c })).InBalance := h.congr (modVm_goods fun _ => rfl) rfl rfl
    have h2 : t.InBalance := h1.still hs.still
    have hsome : (s.vm? a).isSome := by rw [hv]; rfl
    obtain ⟨v, hv⟩ := Option.isSome_iff_exists.mp (hs.still.isSome (isSome_modVm (fun _ => rfl) hsome))
    obtain ⟨v', hst, hrest⟩ :=
      startVirtualMachine_stocked hA (h2.2.stocked h2.1 hv) (h2.2.rested v (mem_of_vm? hv)) hr
    exact hst.inBalance hrest
  stop {s s' a u} hv hr h := by
    obtain ⟨v, hv⟩ := Option.isSome_iff_exists.mp hv
    obtain ⟨v', hst, hempty⟩ := stopVirtualMachine_stocked hA (h.2.stocked h.1 hv) hr
    exact hst.inBalance fun _ => hempty
  forget hv hst hr h := h.forget hv hst hr
  mark h := h.congr (modVm_goods fun _ => rfl) rfl rfl
  clear {s s' u} hr h := by
    rw [of_modify hr]
    refine h.congr ?_ rfl rfl
    show (s.vmList.map _).map _ = _
    rw [List.map_map]
    rfl

/-- **Host resources.** Memory can be allocated, sockets can be opened and tap interfaces can be destroyed. Then in
    every state of the daemon all tap interfaces and map files that exist are held by one VM each, and a VM in
    `TERMINATE` holds none. -/
theorem host_resources_balanced (hA : env.Ample) (h : Reach (bmd env) anyStep s) : s.Balanced := by
  have k := inBalance_kept hA
  refine (Reach.invariant (I := Daemon.InBalance) ?_ ?_ h).2
  · rintro s ⟨load, off, hb⟩
    exact k.startDaemon ⟨List.nodup_nil, .nil, .nil, fun v hv => by cases hv⟩ hb
  · intro s i s' hr hs _ hst
    refine k.step (reach_wf hr).1 (fun x io e t r t' _ _ _ _ _ hw hrun ht => ?_) (fun _ _ _ _ _ _ _ _ => trivial) hst hs
    exact k.reloadVirtualMachines (fun hI => hI.congr (modVm_goods fun _ => rfl) rfl rfl) hw hrun ht

theorem numbered_fresh (n : Nat) (used : List String) (t : String)
    (h : (if toString n ∈ used then none else some (toString n)) = some t) : t ∉ used := by
  split at h
  · cases h
  · next hnew => exact Option.some.inj h ▸ hnew

/-- A system in which tap interfaces can be created too. -/
def Env.tapping : Env :=
  { Env.ideal with
    createTap := fun n used => if toString n ∈ used then none else some (toString n)
    createTapFresh := numbered_fresh }

/-- A VM with a network is loaded by `grub-bhyve`, runs and is rebooted: it has the tap interface of its first start
    and the map file of its second. -/
theorem host_resources_balanced_reboot : Env.tapping.Ample ∧ ∃ s, Reach (bmd .tapping) anyStep s ∧
    (s.taps.length = 1 ∧ s.files.length = 1) ∧ s.Balanced := by
  have hA : Env.tapping.Ample := ⟨fun _ => rfl, fun _ => ⟨rfl, rfl⟩, fun _ => rfl⟩
  obtain ⟨s, hr, hlen⟩ : ∃ s, Reach (bmd .tapping) anyStep s ∧ (s.taps.length = 1 ∧ s.files.length = 1) :=
    exists_reach
      [VmConf.load { VmConf.section "a" "grub" .yes with
        loadcmd := some "boot", nets := [{ type := "virtio-net", bridge := "bridge0", tap := none }], nnets := 1 }]
      [.procExit 1 0, .event 7 {}, .procExit 1 0, .event 11 {}] (by decide +kernel)
  exact ⟨hA, s, hr, hlen, host_resources_balanced hA hr⟩

end Bmd
