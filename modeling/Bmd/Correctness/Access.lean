import Bmd.Correctness.Aborts
import Bmd.Correctness.Unchanged

/-!
# `Correctness.Access` — what clients may see and do

Every command but `list` looks the VM of the request up and tests its owner before it does anything else. A client that
does not pass the test gets the answer that it would get without the VM, and the daemon is as before. `list` goes over the
VMs that pass the test.
-/

namespace Bmd

open Lib Lib.Prog

variable {s s' : Daemon} {env : Env} {nv : NvList} {ucred : Xucred} {load : Option (List LoadedConf)} {v : VmEntry}
  {name : String} {a : Addr} {r : Int}

/-! ## A VM that is not there -/

/-- The daemon without the VM at an address. -/
def Daemon.withoutVm (s : Daemon) (a : Addr) : Daemon := { s with vmList := s.vmList.filter (·.addr != a) }

/-- The daemon apart from the responses to its clients and the number of questions to the system. -/
def Daemon.sansReplies (s : Daemon) : Daemon := { s with sockList := [], tick := 0 }

/-- The VMs that a client may control. -/
def Daemon.allowedVms (s : Daemon) (ucred : Xucred) : List VmEntry :=
  s.vmList.filter fun v => checkOwner (s.confOf v.conf) ucred

/-- The names of the VMs are pairwise distinct. -/
def Daemon.NamesDistinct (s : Daemon) : Prop := (s.vmList.map fun v => (s.confOf v.conf).name).Nodup

instance (s : Daemon) : Decidable s.NamesDistinct := inferInstanceAs (Decidable (List.Nodup _))

theorem lookupVmByName_spec (h : s.lookupVmByName name = some v) : v ∈ s.vmList ∧ (s.confOf v.conf).name = name :=
  ⟨List.mem_of_find?_eq_some h, eq_of_beq (List.find?_some h :)⟩

/-- Without the VM that has the name, none has it. -/
theorem lookupVmByName_withoutVm (hnames : s.NamesDistinct)
    (h : s.lookupVmByName name = some v) : (s.withoutVm v.addr).lookupVmByName name = none := by
  obtain ⟨hv, hname⟩ := lookupVmByName_spec h
  refine List.find?_eq_none.mpr fun w hw hsame => ?_
  obtain ⟨hw, haddr⟩ := List.mem_filter.mp hw
  have hwv : w = v := List.inj_on_of_nodup_map hnames hw hv ((eq_of_beq (hsame :)).trans hname.symm)
  rw [hwv] at haddr
  exact bne_iff_ne.mp haddr rfl

/-- A VM that a client may not control makes no difference to those that it may. -/
theorem allowedVms_withoutVm (hw : WF s) (hv : v ∈ s.vmList)
    (hdenied : checkOwner (s.confOf v.conf) ucred = false) :
    (s.withoutVm v.addr).allowedVms ucred = s.allowedVms ucred := by
  show (s.vmList.filter (·.addr != v.addr)).filter (fun w => checkOwner (s.confOf w.conf) ucred) = _
  rw [List.filter_filter]
  refine List.filter_congr fun w hmem => ?_
  by_cases haddr : w.addr = v.addr
  · rw [List.inj_on_of_nodup_map hw.vmNodup hmem hv haddr, hdenied]
    rfl
  · rw [bne_iff_ne.mpr haddr, Bool.and_true]

/-! ## Commands -/

/-- The client may not control the VM with the name, if there is one. -/
def Daemon.Denied (s : Daemon) (ucred : Xucred) (name : String) : Prop :=
  ∀ v, s.lookupVmByName name = some v → checkOwner (s.confOf v.conf) ucred = false

theorem requestedVm_denied (hname : nv.getString? "name" = some name) (h : s.Denied ucred name) :
    requestedVm nv ucred s = .ok (none, s) := by
  have hnone : (s.lookupVmByName name).filter (fun v => checkOwner (s.confOf v.conf) ucred) = none := by
    cases hv : s.lookupVmByName name with
    | none => rfl
    | some v => rw [Option.filter_some, h v hv, if_neg Bool.false_ne_true]
  unfold requestedVm nvlistGetString
  rw [hname]
  show Except.ok ((s.lookupVmByName name).filter (fun v => checkOwner (s.confOf v.conf) ucred), s) = _
  rw [hnone]

/-- **Every command** but `list` answers that there is no such VM. -/
theorem runCommand_denied (hname : nv.getString? "name" = some name) (h : s.Denied ucred name)
    {func : Command} (hfunc : func ≠ .list) :
    runCommand env nv ucred load func s = .ok (errorResponse "VM not found", s) := by
  have hvm : ∀ f : Option VmEntry → Bmd.Prog NvList, (requestedVm nv ucred >>= f) s = f none s := by
    intro f
    show (requestedVm nv ucred s >>= _) = _
    rw [requestedVm_denied hname h]
    rfl
  cases func with
  | list => exact absurd rfl hfunc
  | boot | install | poweroff | reset | showcomport | showvgaport | shutdown => exact hvm _

/-- The response of `list_command` for the given VMs; `memory`: there is memory for them. -/
def listResponse (env : Env) (s : Daemon) (vms : List VmEntry) (memory : Bool) : NvList :=
  if vms.isEmpty then okResponse
  else if memory then
    (NvList.nil.add "vm_list" (.nvlistArray (.ofList (vms.map fun v => listEntry env (s.confOf v.conf) v.state)))).add
      "error" (.bool false)
  else errorResponse "cannot allocate memory"

/-- The state after `list_command` has asked for memory. -/
def Daemon.asked (s : Daemon) (vms : List VmEntry) : Daemon := if vms.isEmpty then s else { s with tick := s.tick + 1 }

theorem listCommand_eq (env : Env) (ucred : Xucred) (s : Daemon) : listCommand env ucred s =
    .ok (listResponse env s (s.allowedVms ucred) (env.malloc s.tick), s.asked (s.allowedVms ucred)) := by
  show ((if (s.allowedVms ucred).isEmpty then pure okResponse else _ : Bmd.Prog NvList) s) = _
  unfold listResponse Daemon.asked
  cases hempty : (s.allowedVms ucred).isEmpty with
  | true => rfl
  | false =>
    cases hmem : env.malloc s.tick with
    | true | false =>
      show ((if !(env.malloc s.tick) then _ else _ : Bmd.Prog NvList) { s with tick := s.tick + 1 }) = _
      rw [hmem]
      rfl

/-- **Two runs of a command**: with the VM of somebody else, and without it. -/
theorem runCommand_withoutVm (env : Env) (load : Option (List LoadedConf)) (hw : WF s) (hnames : s.NamesDistinct)
    (hname : nv.getString? "name" = some name) (hv : s.lookupVmByName name = some v)
    (hdenied : checkOwner (s.confOf v.conf) ucred = false) (func : Command) :
    ∃ res s₁, runCommand env nv ucred load func s = .ok (res, s₁) ∧
      runCommand env nv ucred load func (s.withoutVm v.addr) = .ok (res, s₁.withoutVm v.addr) ∧
      s₁.sansReplies = s.sansReplies := by
  by_cases hfunc : func = .list
  · subst hfunc
    have hsame := allowedVms_withoutVm hw (lookupVmByName_spec hv).1 hdenied
    refine ⟨_, _, listCommand_eq env ucred s, (listCommand_eq env ucred _).trans ?_, ?_⟩
    · rw [hsame]
      unfold Daemon.asked
      split <;> rfl
    · unfold Daemon.asked
      split <;> rfl
  · have hhere : s.Denied ucred name := by
      intro w hw
      rwa [← Option.some.inj (hv.symm.trans hw)]
    have hgone : (s.withoutVm v.addr).Denied ucred name := by
      intro w hw
      rw [lookupVmByName_withoutVm hnames hv] at hw
      cases hw
    exact ⟨_, s, runCommand_denied hname hhere hfunc, runCommand_denied hname hgone hfunc, rfl⟩

/-! ## Requests -/

theorem respondError_withoutVm (env : Env) (b : Addr) (reason : String) (s : Daemon) : ∃ rc s₁,
    respondError env b reason s = .ok (rc, s₁) ∧ (∀ a, respondError env b reason (s.withoutVm a) = .ok (rc, s₁.withoutVm a)) ∧
      s₁.sansReplies = s.sansReplies := by
  unfold respondError
  cases env.nvlistPack (errorResponse reason) with
  | none | some => exact ⟨_, _, rfl, fun _ => rfl, rfl⟩

theorem respond_withoutVm (env : Env) (b : Addr) (res : NvList) (s : Daemon) : ∃ rc s₁,
    respond env b res s = .ok (rc, s₁) ∧ (∀ a, respond env b res (s.withoutVm a) = .ok (rc, s₁.withoutVm a)) ∧
      s₁.sansReplies = s.sansReplies := by
  unfold respond
  cases env.nvlistPack (res.erase fdKey .number) with
  | none =>
    obtain ⟨rc, s₁, h, hgone, hsans⟩ :=
      respondError_withoutVm env b "nvlist_pack error" (s.modSock b ({ · with resFd := responseFd res }))
    exact ⟨rc, s₁, h, hgone, hsans⟩
  | some bytes => exact ⟨_, _, rfl, fun _ => rfl, rfl⟩

theorem NvLists.toList_ofList : ∀ l, (NvLists.ofList l).toList = l
  | [] => rfl
  | x :: l => congrArg (x :: ·) (toList_ofList l)

/-- The VMs in a response to `list`. -/
def NvList.listed (res : NvList) : List NvList :=
  match res.find? "vm_list" .nvlistArray with
  | some (.nvlistArray ls) => ls.toList
  | _ => []

/-- The response lists the VMs that a client may control, each of them once. -/
structure ListsAllowed (env : Env) (s : Daemon) (ucred : Xucred) (res : NvList) : Prop where
  noError : res.find? "error" .bool = some (.bool false)
  listed : res.listed = (s.allowedVms ucred).map fun v => listEntry env (s.confOf v.conf) v.state
  once : (res.listed.map (·.getString? "name")).Nodup

theorem listResponse_listed (vms : List VmEntry) :
    (listResponse env s vms true).listed = vms.map fun v => listEntry env (s.confOf v.conf) v.state := by
  cases vms with
  | nil => rfl
  | cons v vms => exact NvLists.toList_ofList _

theorem listResponse_noError (vms : List VmEntry) : (listResponse env s vms true).find? "error" .bool = some (.bool false) := by
  cases vms <;> rfl

theorem listsAllowed (hnames : s.NamesDistinct) : ListsAllowed env s ucred (listResponse env s (s.allowedVms ucred) true) where
  noError := listResponse_noError _
  listed := listResponse_listed _
  once := by
    have hall : (s.vmList.map fun v => some (s.confOf v.conf).name).Nodup := by
      have hmap := hnames.map fun _ _ => Option.some.inj
      rwa [List.map_map] at hmap
    rw [listResponse_listed, List.map_map]
    exact hall.sublist (List.filter_sublist.map _)

/-- **Clients see and change only what is theirs.** A request for a VM that the client may not control is answered as if
    the VM were not there, and nothing but the response to the client is written. `list` lists the VMs that the client
    may control, each of them once, unless there is no memory for the list. -/
theorem unauthorised_kept_out (hr : Reach (bmd env) anyStep s) (hnames : s.NamesDistinct) (sb : SockBuf) (nv : NvList)
    (cmd name : String) (hu : env.nvlistUnpack (sb.buf.take sb.bufSize) = some nv)
    (hcmd : nv.getString? "command" = some cmd) (hname : nv.getString? "name" = some name)
    (load : Option (List LoadedConf)) :
    (∀ v, s.lookupVmByName name = some v → checkOwner (s.confOf v.conf) sb.peer = false → ∃ rc s₁,
      recvCommand env sb load s = .ok (rc, s₁) ∧
      recvCommand env sb load (s.withoutVm v.addr) = .ok (rc, s₁.withoutVm v.addr) ∧ s₁.sansReplies = s.sansReplies) ∧
    ∃ res s₁, listCommand env sb.peer s = .ok (res, s₁) ∧
      (ListsAllowed env s sb.peer res ∨ env.malloc s.tick = false ∧ res = errorResponse "cannot allocate memory") := by
  obtain ⟨hw, -⟩ := reach_wf hr
  refine ⟨fun v hv hdenied => ?_, _, _, listCommand_eq env sb.peer s, ?_⟩
  · rw [recvCommand_eq hu hcmd]
    cases getCommandFunction cmd with
    | none =>
      obtain ⟨rc, s₁, h, hgone, hsans⟩ := respondError_withoutVm env sb.addr "unknown command" s
      exact ⟨rc, s₁, h, hgone v.addr, hsans⟩
    | some func =>
      obtain ⟨res, s₁, hrun, hrun', hsans⟩ := runCommand_withoutVm env load hw hnames hname hv hdenied func
      obtain ⟨rc, s₂, h, hgone, hsans'⟩ := respond_withoutVm env sb.addr res s₁
      refine ⟨rc, s₂, ?_, ?_, hsans'.trans hsans⟩
      · show (runCommand env nv sb.peer load func s >>= _) = _
        rw [hrun]
        exact h
      · show (runCommand env nv sb.peer load func (s.withoutVm v.addr) >>= _) = _
        rw [hrun']
        exact hgone v.addr
  · cases hmem : env.malloc s.tick with
    | true => exact .inl (listsAllowed hnames)
    | false =>
      cases hempty : s.allowedVms sb.peer with
      | nil =>
        left
        have hlists : ListsAllowed env s sb.peer (listResponse env s (s.allowedVms sb.peer) true) := listsAllowed hnames
        rwa [hempty] at hlists
      | cons v vms => exact .inr ⟨rfl, rfl⟩

/-- A connection of the user 1001, with the request to boot the VM `a`. -/
def strangerSock : SockBuf := { mkSockBuf 11 5 0 (some { uid := 1001, groups := [] }) with bufSize := 1, buf := [0] }

theorem unauthorised_kept_out_boot : ∃ s v, Reach (bmd .ideal) anyStep s ∧ s.NamesDistinct ∧
    s.lookupVmByName "a" = some v ∧ checkOwner (s.confOf v.conf) strangerSock.peer = false ∧ ∃ rc s₁,
      recvCommand .ideal strangerSock none s = .ok (rc, s₁) ∧
      recvCommand .ideal strangerSock none (s.withoutVm v.addr) = .ok (rc, s₁.withoutVm v.addr) ∧
      s₁.sansReplies = s.sansReplies := by
  obtain ⟨s, hr, hnames, hfound⟩ : ∃ s, Reach (bmd .ideal) anyStep s ∧ s.NamesDistinct ∧
      (s.lookupVmByName "a").any (fun v => !checkOwner (s.confOf v.conf) strangerSock.peer) = true :=
    exists_reach [(VmConf.section "a" "csm" .no).load] [] (by decide +kernel)
  obtain ⟨v, hv, hdenied⟩ := (Option.any_eq_true _ _).mp hfound
  have hdenied : checkOwner (s.confOf v.conf) strangerSock.peer = false := by simpa using hdenied
  exact ⟨s, v, hr, hnames, hv, hdenied,
    (unauthorised_kept_out hr hnames strangerSock (request "boot" "a") "boot" "a" rfl rfl rfl none).1 v hv hdenied⟩

/-! ## The configuration that a VM is booted with -/

/-- An entry, as if it were not freed. -/
def ConfEntry.unfreed (e : ConfEntry) : ConfEntry := { e with freed := false }

/-- What the entry at an address contains. -/
def Daemon.content (s : Daemon) (c : Addr) : Option ConfEntry := (s.conf? c).map ConfEntry.unfreed

/-- The loaded configuration that takes the place of the entry at `c`: the last one with its name, if it differs. -/
def Daemon.replacement (s : Daemon) (c : Addr) (load : Option (List LoadedConf)) : Option LoadedConf :=
  (load.bind fun ls => (ls.filter fun l => l.conf.name == (s.confOf c).name).getLast?).filter fun l =>
    (s.conf? c).any fun e => compareVmConfEntry (mkConfEntry 0 l) e != 0

theorem confOf_content (s : Daemon) (c : Addr) : s.confOf c = ((s.content c).map (·.conf)).getD .zero := by
  unfold Daemon.confOf Daemon.content
  cases s.conf? c <;> rfl

theorem confChanged_content (s : Daemon) (a b : Addr) : s.confChanged a b =
    ((s.content a).any fun x => (s.content b).any fun y => compareVmConfEntry x y != 0) := by
  unfold Daemon.confChanged Daemon.content
  cases s.conf? a with
  | none => rfl
  | some x => cases s.conf? b <;> rfl

/-- The entries contain the same, and the VMs have the same ones. -/
structure SameEntries (s s' : Daemon) : Prop where
  vms : s'.vmList = s.vmList
  content : ∀ c, s'.content c = s.content c

instance : IsPreorder Daemon SameEntries where
  refl _ := ⟨rfl, fun _ => rfl⟩
  trans _ _ _ h h' := ⟨h'.vms.trans h.vms, fun c => (h'.content c).trans (h.content c)⟩

theorem SameEntries.confOf (h : SameEntries s s') (c : Addr) : s'.confOf c = s.confOf c := by
  rw [confOf_content, confOf_content, h.content]

theorem SameEntries.confChanged (h : SameEntries s s') (a b : Addr) : s'.confChanged a b = s.confChanged a b := by
  simp only [confChanged_content, h.content]

theorem SameEntries.vm? (h : SameEntries s s') (a : Addr) : s'.vm? a = s.vm? a := by
  unfold Daemon.vm?
  rw [h.vms]

theorem freeVmConfEntry_sameEntries (c : Addr) : Keeps SameEntries (freeVmConfEntry c) := by
  refine .modify fun s => ?_
  split
  · refine ⟨rfl, fun x => ?_⟩
    have hfind := conf?_modConf (s := s) (c := c) (f := ({ · with freed := true })) (fun _ => rfl) x
    unfold Daemon.content
    rw [hfind]
    split
    · next hx =>
      rw [hx, Option.map_map]
      rfl
    · rfl
  · exact ⟨rfl, fun _ => rfl⟩

theorem confListRemove_sameEntries (c : Addr) : Keeps SameEntries (confListRemove c) := by
  refine .modify fun s => ?_
  split
  · exact ⟨rfl, fun _ => rfl⟩
  · exact ⟨rfl, fun _ => rfl⟩

theorem ask_sameEntries {α : Type} (f : Nat → α) : Keeps SameEntries (ask f) := by
  intro s x s' h
  cases h
  exact ⟨rfl, fun _ => rfl⟩

theorem newFd_sameEntries : Keeps SameEntries (newFd env) := by
  intro s x s' h
  cases h
  exact ⟨rfl, fun _ => rfl⟩

theorem bootResponse_sameEntries (a : Addr) : Keeps SameEntries (bootResponse env a) := by
  refine .bind .get fun _ => .bind ?_ fun _ => .pure _
  unfold openComport
  split
  · exact .pure _
  · exact .bind (ask_sameEntries _) fun _ => .ite (fun _ => .pure _) fun _ =>
      .bind (ask_sameEntries _) fun _ => .ite (fun _ => .pure _) fun _ => newFd_sameEntries

/-- Which of the new entries `search_and_replace_vm_conf` finds. -/
theorem searchConf_found : ∀ {ps : List (Addr × LoadedConf)} {ret r : Option Addr} {s s' : Daemon},
    (∀ p ∈ ps, (s.confOf p.1).name = p.2.conf.name) → searchConf name ret (ps.map Prod.fst) s = .ok (r, s') →
    SameEntries s s' ∧ r = ((ps.filter fun p => p.2.conf.name == name).getLast?.map Prod.fst).or ret
  | [], ret, r, s, s', _, h => by
    cases h
    exact ⟨refl_of SameEntries s, rfl⟩
  | p :: ps, ret, r, s, s', hps, h => by
    have h₁ := get_bind h
    have hp := hps p List.mem_cons_self
    have hrest : ∀ q ∈ ps, (s.confOf q.1).name = q.2.conf.name := fun q hq => hps q (List.mem_cons_of_mem _ hq)
    split at h₁
    · next hname =>
      obtain ⟨hsame, hr⟩ := searchConf_found hrest h₁
      refine ⟨hsame, ?_⟩
      rw [List.filter_cons_of_pos (by rw [← hp, hname]; exact beq_self_eq_true name), List.getLast?_cons, hr]
      cases (ps.filter fun q => q.2.conf.name == name).getLast? <;> rfl
    · next hname =>
      obtain ⟨_, s₁, hfree, h₂⟩ := of_bind h₁
      have hsame₁ := freeVmConfEntry_sameEntries _ _ _ _ hfree
      obtain ⟨hsame, hr⟩ := searchConf_found (fun q hq => by rw [hsame₁.confOf]; exact hrest q hq) h₂
      refine ⟨trans_of SameEntries hsame₁ hsame, ?_⟩
      rw [List.filter_cons_of_neg (by rw [← hp]; exact fun hb => hname (eq_of_beq hb)), hr]

theorem replaceVmConf_spec {c : Addr} {u : Unit} (hv : s.vm? a = some v) (h : replaceVmConf a c s = .ok (u, s')) :
    (s'.vmOf a).conf = (if s.confChanged c v.conf then c else v.conf) ∧ ∀ x, s'.content x = s.content x := by
  have h₁ := get_bind h
  rw [vmOf_of_vm? hv] at h₁
  split at h₁
  · next hchanged =>
    obtain ⟨_, s₁, hremove, h₂⟩ := of_bind h₁
    obtain ⟨_, s₂, hinsert, h₃⟩ := of_bind h₂
    obtain ⟨_, s₃, hfree, h₄⟩ := of_bind h₃
    have k₂ : SameEntries s₁ s₂ := by
      rw [of_modify hinsert]
      exact ⟨rfl, fun _ => rfl⟩
    have k : SameEntries s s₃ := trans_of SameEntries (confListRemove_sameEntries _ _ _ _ hremove)
      (trans_of SameEntries k₂ (freeVmConfEntry_sameEntries _ _ _ _ hfree))
    have hv' := modVm_lookup h₄ (fun _ => rfl) ((k.vm? a).trans hv)
    rw [if_pos hchanged, vmOf_of_vm? hv', of_modify h₄]
    exact ⟨rfl, k.content⟩
  · next hchanged =>
    have k := freeVmConfEntry_sameEntries _ _ _ _ h₁
    rw [if_neg hchanged, vmOf_of_vm? ((k.vm? a).trans hv)]
    exact ⟨rfl, k.content⟩

/-- The configuration of a VM after `search_and_replace_vm_conf`. -/
theorem searchAndReplaceVmConf_conf (hw : WF s) (hv : s.vm? a = some v)
    (h : searchAndReplaceVmConf a load s = .ok (r, s')) (hr : ¬r < 0) :
    s'.vmConf a = ((s.replacement v.conf load).map (·.conf)).getD (s.confOf v.conf) := by
  have h₁ := get_bind h
  obtain ⟨o, s₁, hload, h₂⟩ := of_bind h₁
  obtain ⟨rfl, -, rfl⟩ | ⟨ls, rfl, rfl, halloc⟩ := loadConfigFile_spec hload
  · cases h₂
    exact absurd (by decide) hr
  obtain ⟨found, s₂, hsearch, h₃⟩ := of_bind h₂
  -- the new entries, each with what was loaded
  have hpairs : ((List.range' s.next ls.length).zip ls).map Prod.fst = List.range' s.next ls.length :=
    List.map_fst_zip (by simp)
  have hsnd : ((List.range' s.next ls.length).zip ls).map Prod.snd = ls := List.map_snd_zip (by simp)
  have hnew : ∀ p ∈ (List.range' s.next ls.length).zip ls, s₁.conf? p.1 = some (mkConfEntry p.1 p.2) :=
    fun p hp => allocConfs_new hw halloc hp
  rw [← hpairs] at hsearch
  obtain ⟨hsame, hfound⟩ := searchConf_found (fun p hp => by rw [Daemon.confOf, hnew p hp]; rfl) hsearch
  obtain ⟨e, he⟩ := Option.isSome_iff_exists.mp (hw.vmConf v (mem_of_vm? hv))
  have he₁ := allocConfs_old hw halloc he
  have hv₁ : s₁.vm? a = some v := by
    unfold Daemon.vm?
    rw [(allocConfs_confSide ls _ _ _ halloc).vms]
    exact hv
  have hname : (s.vmConf a).name = (s.confOf v.conf).name := by rw [Daemon.vmConf, vmOf_of_vm? hv]
  rw [Option.or_none, hname] at hfound
  unfold Daemon.replacement
  rw [Option.bind_some]
  -- the same search in what was loaded
  have hlast : (ls.filter fun l => l.conf.name == (s.confOf v.conf).name).getLast? =
      (((List.range' s.next ls.length).zip ls).filter fun p => p.2.conf.name == (s.confOf v.conf).name).getLast?.map
        Prod.snd := by
    have hfilter := List.filter_map (p := fun l : LoadedConf => l.conf.name == (s.confOf v.conf).name) (f := Prod.snd)
      (l := (List.range' s.next ls.length).zip ls)
    rw [hsnd] at hfilter
    rw [hfilter, List.getLast?_map]
    rfl
  rw [hlast]
  cases hp : (((List.range' s.next ls.length).zip ls).filter
      fun p => p.2.conf.name == (s.confOf v.conf).name).getLast? with
  | none =>
    rw [hp] at hfound
    subst hfound
    cases h₃
    exact absurd (by decide) hr
  | some p =>
    rw [hp] at hfound
    subst hfound
    obtain ⟨_, s₃, hreplace, h₄⟩ := of_bind h₃
    obtain ⟨-, rfl⟩ := pure_ok.mp h₄
    have hpnew := hnew p (List.mem_of_mem_filter (List.mem_of_getLast? hp))
    obtain ⟨hconf, hcontent⟩ := replaceVmConf_spec ((hsame.vm? a).trans hv₁) hreplace
    have hchanged : s₂.confChanged p.1 v.conf = (compareVmConfEntry (mkConfEntry 0 p.2) e != 0) := by
      rw [hsame.confChanged]
      unfold Daemon.confChanged
      rw [hpnew, he₁]
      rfl
    have hread : ∀ x, s₃.confOf x = s₁.confOf x := by
      intro x
      rw [confOf_content, hcontent, ← confOf_content, hsame.confOf]
    rw [Daemon.vmConf, hconf, hread, hchanged, Option.map_some, Option.filter_some, he, Option.any_some]
    split
    · unfold Daemon.confOf
      rw [hpnew]
      rfl
    · unfold Daemon.confOf
      rw [he₁, he]
      rfl

/-- A search that fails has loaded entries and freed them. -/
theorem searchAndReplaceVmConf_failed (h : searchAndReplaceVmConf a load s = .ok (r, s'))
    (hr : r < 0) : s'.log = s.log := by
  have h₁ := get_bind h
  obtain ⟨o, s₁, hload, h₂⟩ := of_bind h₁
  obtain ⟨rfl, -, rfl⟩ | ⟨ls, rfl, rfl, halloc⟩ := loadConfigFile_spec hload
  · cases h₂
    rfl
  obtain ⟨found, s₂, hsearch, h₃⟩ := of_bind h₂
  cases found with
  | none =>
    cases h₃
    exact (searchConf_spec _ hsearch).1.log.trans (allocConfs_confSide ls _ _ _ halloc).log
  | some c =>
    obtain ⟨_, s₃, -, h₄⟩ := of_bind h₃
    cases h₄
    exact absurd hr (by decide)

/-- The access rules of the configuration of a VM stay as they are. -/
def SameAccess (a : Addr) (s s' : Daemon) : Prop := ∀ ucred, checkOwner (s'.vmConf a) ucred = checkOwner (s.vmConf a) ucred

instance (a : Addr) : IsPreorder Daemon (SameAccess a) where
  refl _ _ := rfl
  trans _ _ _ h h' ucred := (h' ucred).trans (h ucred)

theorem sameAccess_of_eq (hvms : (s'.vmOf a).conf = (s.vmOf a).conf) (hconfs : s'.confs = s.confs) :
    SameAccess a s s' := by
  intro ucred
  rw [Daemon.vmConf, Daemon.confOf, Daemon.conf?, hvms, hconfs]
  rfl

theorem SameEntries.access (h : SameEntries s s') : SameAccess a s s' := by
  intro ucred
  rw [Daemon.vmConf, h.confOf, Daemon.vmOf, h.vm?]
  rfl

theorem applyStyle_sameAccess (a : Addr) (install : Bool) : Keeps (SameAccess a) (applyStyle a install) := by
  intro s u s' h
  have h₁ := get_bind h
  cases install with
  | false =>
    cases h₁
    exact refl_of (SameAccess a) _
  | true =>
    have hs' := of_modify h₁
    have hfind := conf?_modConf (s := s) (c := (s.vmOf a).conf) (f := (·.setInstall true)) (fun _ => rfl) (s.vmOf a).conf
    rw [if_pos rfl] at hfind
    intro ucred
    have hconf : s'.vmConf a = ((s.conf? (s.vmOf a).conf).map fun e => { e.conf with install := true }).getD .zero := by
      rw [hs']
      show (((s.modConf _ _).conf? (s.vmOf a).conf).map _).getD _ = _
      rw [hfind, Option.map_map]
      rfl
    rw [hconf, Daemon.vmConf, Daemon.confOf]
    cases s.conf? (s.vmOf a).conf <;> rfl

theorem startVirtualMachine_sameAccess (hw : WF s) (hv : s.vm? a = some v)
    (h : startVirtualMachine env a s = .ok (r, s')) : SameAccess a s s' := by
  obtain ⟨hgrow, -, -⟩ := startVirtualMachine_spec hv (hw.ready hv).method (hw.ready hv).serial h
  obtain ⟨v', hv', hconf, -⟩ := hgrow.within.vm?_self hv
  refine sameAccess_of_eq ?_ (congrArg Daemon.confs hgrow.rest :)
  rw [vmOf_of_vm? hv', vmOf_of_vm? hv, hconf]

/-- The children that were forked for a VM. -/
def Daemon.spawns (s : Daemon) (a : Addr) : Nat := s.log.countP fun x => match x with
  | .spawn vm _ _ => vm == a
  | _ => false

/-- The command starts the VM, or hands out its console. -/
def StartsVm (a : Addr) (s s' : Daemon) (res : NvList) : Prop := s.spawns a < s'.spawns a ∨ responseFd res ≠ -1

/-- A command that fails before the start. -/
theorem not_startsVm_error (reason : String) (hlog : s'.spawns a = s.spawns a) :
    ¬StartsVm a s s' (errorResponse reason) := by
  rintro (hlt | hfd)
  · rw [hlog] at hlt
    exact Nat.lt_irrefl _ hlt
  · exact hfd rfl

/-- What `boot` and `install` do to the access rules of a VM that they start. -/
theorem bootVm_access {install : Bool} {res : NvList} (hw : WF s) (hv : s.vm? v.addr = some v)
    (h : bootVm env v install load s = .ok (res, s')) (hstart : StartsVm v.addr s s' res) : checkOwner (s'.vmConf v.addr) ucred =
      checkOwner (((s.replacement v.conf load).map (·.conf)).getD (s.confOf v.conf)) ucred := by
  obtain ⟨_, s₁, hnote, h₁⟩ := of_bind h
  have hs₁ := of_modify hnote
  have hw₁ : WF s₁ := by
    rw [hs₁]
    exact (note_tidy_vm hw hv rfl).wf
  have hspawns : s₁.spawns v.addr = s.spawns v.addr := by
    rw [hs₁]
    exact List.countP_cons_of_neg (by simp)
  have hv₁ : s₁.vm? v.addr = some v := by rw [hs₁]; exact hv
  split at h₁
  · cases h₁
    exact absurd hstart (not_startsVm_error _ hspawns)
  obtain ⟨rc, s₂, hsearch, h₂⟩ := of_bind h₁
  split at h₂
  · next hrc =>
    cases h₂
    refine absurd hstart (not_startsVm_error _ ?_)
    rw [← hspawns]
    unfold Daemon.spawns
    rw [searchAndReplaceVmConf_failed hsearch hrc]
  next hrc =>
  have hconf := searchAndReplaceVmConf_conf hw₁ hv₁ hsearch hrc
  have hsame : s₁.replacement v.conf load = s.replacement v.conf load ∧ s₁.confOf v.conf = s.confOf v.conf := by
    rw [hs₁]
    exact ⟨rfl, rfl⟩
  rw [hsame.1, hsame.2] at hconf
  obtain ⟨_, s₃, hstyle, h₃⟩ := of_bind h₂
  obtain ⟨rs, s₄, hstarted, h₄⟩ := of_bind h₃
  have hcalm := trans_of Calm (searchAndReplaceVmConf_calm _ _ _ _ _ hsearch) (applyStyle_calm _ _ _ _ _ hstyle) hw₁
  obtain ⟨v₃, hv₃⟩ : ∃ v₃, s₃.vm? v.addr = some v₃ := by
    have hstate : (s₃.view v.addr).state = some v.state := by rw [hcalm.2, view_state hv₁]
    exact Option.isSome_iff_exists.mp (isSome_of_view hstate)
  have haccess : SameAccess v.addr s₂ s₄ := trans_of (SameAccess v.addr) (applyStyle_sameAccess _ _ _ _ _ hstyle)
    (startVirtualMachine_sameAccess hcalm.1.wf hv₃ hstarted)
  rw [← hconf]
  split at h₄
  · cases h₄
    exact haccess ucred
  · exact trans_of (SameAccess v.addr) haccess (bootResponse_sameEntries _ _ _ _ h₄).access ucred

/-- **Whose configuration a client boots.** A VM that a client starts with `boot` or `install`, or whose console it gets,
    has a configuration that the client may control exactly if the client may control the newly loaded one that has taken
    the place of the old one, if there is such. -/
theorem boot_authorised_iff (hr : Reach (bmd env) anyStep s) (nv : NvList) (name : String) (v : VmEntry)
    (hname : nv.getString? "name" = some name) (hv : s.lookupVmByName name = some v) (ucred : Xucred) (install : Bool)
    (load : Option (List LoadedConf)) (res : NvList) (s' : Daemon)
    (h : boot0Command env nv install ucred load s = .ok (res, s')) (hstart : StartsVm v.addr s s' res) :
    checkOwner (s'.vmConf v.addr) ucred = true ↔ ∀ l, s.replacement v.conf load = some l → checkOwner l.conf ucred = true := by
  obtain ⟨hw, -⟩ := reach_wf hr
  cases hallowed : checkOwner (s.confOf v.conf) ucred with
  | false =>
    have hdenied : s.Denied ucred name := by
      intro w hw
      rwa [← Option.some.inj (hv.symm.trans hw)]
    obtain ⟨rfl, rfl⟩ : errorResponse "VM not found" = res ∧ s = s' := by
      have hrun : boot0Command env nv install ucred load s = .ok (errorResponse "VM not found", s) := by
        show (requestedVm nv ucred s >>= _) = _
        rw [requestedVm_denied hname hdenied]
        rfl
      exact Prod.mk.inj (Except.ok.inj (hrun.symm.trans h))
    exact absurd hstart (not_startsVm_error _ rfl)
  | true =>
    obtain ⟨hmem, -⟩ := lookupVmByName_spec hv
    have hboot : bootVm env v install load s = .ok (res, s') := by
      obtain ⟨o, s₁, hvm, h₁⟩ := bind_ok.mp h
      have hfound : requestedVm nv ucred s = .ok (some v, s) := by
        unfold requestedVm nvlistGetString
        rw [hname]
        show Except.ok ((s.lookupVmByName name).filter (fun v => checkOwner (s.confOf v.conf) ucred), s) = _
        rw [hv, Option.filter_some, hallowed, if_pos rfl]
      obtain ⟨rfl, rfl⟩ := Prod.mk.inj (Except.ok.inj (hfound.symm.trans hvm))
      exact h₁
    rw [bootVm_access hw (hw.vm?_of_mem hmem) hboot hstart]
    cases s.replacement v.conf load with
    | none =>
      rw [Option.map_none, Option.getD_none]
      refine ⟨fun _ l hl => ?_, fun _ => hallowed⟩
      cases hl
    | some l =>
      rw [Option.map_some, Option.getD_some]
      refine ⟨fun hl l' hl' => ?_, fun hl => hl l rfl⟩
      rwa [← Option.some.inj hl']

/-- The VM `a` of the sample, with the given owner. -/
def ownedVm (owner : Int) : LoadedConf := VmConf.load { VmConf.section "a" "csm" .no with owner := owner } rfl rfl

/-- The same with more memory and the owner 1001. -/
def largerVm : LoadedConf :=
  VmConf.load { VmConf.section "a" "csm" .no with owner := 1001, memory := some "2G" } rfl rfl

/-- The user 1001. -/
def user1001 : Xucred := { uid := 1001, groups := [] }

/-- What the user's `boot` of the VM `a` does in a state, with the files as they are then. -/
def bootsAs (load : List LoadedConf) (test : Daemon → VmEntry → Daemon → Bool) (s : Daemon) : Bool :=
  match boot0Command .ideal (request "boot" "a") false user1001 (some load) s with
  | .ok (_, s') => (s.lookupVmByName "a").any fun v => decide (s.spawns v.addr < s'.spawns v.addr) && test s v s'
  | _ => false

theorem exists_boot {load : List LoadedConf} {test : Daemon → VmEntry → Daemon → Bool}
    (h : (Daemon.after .ideal anyStep [ownedVm 1001] []).any (fun s => decide (bootsAs load test s = true)) = true) :
    ∃ s v res s', Reach (bmd .ideal) anyStep s ∧ s.lookupVmByName "a" = some v ∧
      boot0Command .ideal (request "boot" "a") false user1001 (some load) s = .ok (res, s') ∧
      StartsVm v.addr s s' res ∧ test s v s' = true := by
  obtain ⟨s, hr, hs⟩ := exists_reach _ _ h
  unfold bootsAs at hs
  split at hs
  · next res s' hboot =>
    obtain ⟨v, hv, hs⟩ := (Option.any_eq_true _ _).mp hs
    obtain ⟨hspawn, htest⟩ := Bool.and_eq_true_iff.mp hs
    exact ⟨s, v, res, s', hr, hv, hboot, .inl (of_decide_eq_true hspawn), htest⟩
  · cases hs

/-- The files give the VM more memory and leave it to its owner. -/
theorem boot_authorised_iff_larger : ∃ s v res s', Reach (bmd .ideal) anyStep s ∧ s.lookupVmByName "a" = some v ∧
    (s.replacement v.conf (some [largerVm])).isSome ∧
    boot0Command .ideal (request "boot" "a") false user1001 (some [largerVm]) s = .ok (res, s') ∧
    StartsVm v.addr s s' res ∧ checkOwner (s'.vmConf v.addr) user1001 = true := by
  let owned : Daemon → VmEntry → Daemon → Bool := fun s v _ =>
    (s.replacement v.conf (some [largerVm])).any fun l => checkOwner l.conf user1001
  have howned : (Daemon.after .ideal anyStep [ownedVm 1001] []).any
    (fun s => decide (bootsAs [largerVm] owned s = true)) = true := by decide +kernel
  obtain ⟨s, v, res, s', hr, hv, hboot, hstart, htest⟩ := exists_boot howned
  obtain ⟨l, hl, hcheck⟩ := (Option.any_eq_true _ _).mp htest
  refine ⟨s, v, res, s', hr, hv, Option.isSome_of_mem hl, hboot, hstart, ?_⟩
  refine (boot_authorised_iff hr (request "boot" "a") "a" v rfl hv user1001 false _ res s' hboot hstart).mpr fun x hx => ?_
  rwa [← Option.some.inj (hl.symm.trans hx)]

/-- The files give the VM to the super-user, but the daemon has not loaded them yet: the user who owned it boots it. -/
theorem boot_unauthorised : ∃ s v res s', Reach (bmd .ideal) anyStep s ∧ s.lookupVmByName "a" = some v ∧
    boot0Command .ideal (request "boot" "a") false user1001 (some [ownedVm 0]) s = .ok (res, s') ∧
    StartsVm v.addr s s' res ∧ checkOwner (s'.vmConf v.addr) user1001 = false := by
  let denied : Daemon → VmEntry → Daemon → Bool := fun _ v s' => !checkOwner (s'.vmConf v.addr) user1001
  have hdenied : (Daemon.after .ideal anyStep [ownedVm 1001] []).any
    (fun s => decide (bootsAs [ownedVm 0] denied s = true)) = true := by decide +kernel
  obtain ⟨s, v, res, s', hr, hv, hboot, hstart, htest⟩ := exists_boot hdenied
  exact ⟨s, v, res, s', hr, hv, hboot, hstart, by simpa [denied] using htest⟩

end Bmd
