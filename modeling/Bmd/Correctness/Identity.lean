import Bmd.Correctness.Load
import Mathlib.Data.List.Nodup
import Mathlib.Logic.Relation

/-!
# `Correctness.Identity` — names and identifiers of VMs

`get_id` numbers the names of VM sections in the order in which they are seen, so a name keeps its identifier for the
life of the process and no other name gets it. That the names of the VMs of one load are distinct is not checked: a
repeated VM section is only counted, and `name` may give any name.
-/

namespace Bmd

open Lib

variable {p p' : Process}

/-! ## The table of identifiers -/

/-- Identifiers are given out in order, one for each name. -/
def Numbered : List (String × Nat) → Prop
  | [] => True
  | (name, id) :: rest => id = rest.length % 2 ^ 32 ∧ rest.lookup name = none ∧ Numbered rest

/-- The table as `get_id` keeps it. -/
structure IdTable.Ordered (t : IdTable) : Prop where
  lastid : t.lastid = t.list.length % 2 ^ 32
  numbered : Numbered t.list

theorem IdTable.Ordered.getId {t : IdTable} (h : t.Ordered) (name : String) : (t.getId name).2.Ordered := by
  unfold IdTable.getId
  split
  · exact h
  · next hnone =>
    refine ⟨?_, h.lastid, hnone, h.numbered⟩
    show (t.lastid + 1) % 2 ^ 32 = (t.list.length + 1) % 2 ^ 32
    rw [h.lastid, Nat.mod_add_mod]

theorem Numbered.lt {name : String} {id : Nat} : ∀ {l : List (String × Nat)}, Numbered l → l.length ≤ 2 ^ 32 →
    l.lookup name = some id → id < l.length
  | [], _, _, h => by cases h
  | (n, i) :: rest, hl, hlen, h => by
    rw [List.length_cons] at hlen ⊢
    rw [List.lookup_cons] at h
    split at h
    · obtain rfl := Option.some.inj h
      rw [hl.1]
      exact lt_of_le_of_lt (Nat.mod_le _ _) (Nat.lt_succ_self _)
    · exact Nat.lt_succ_of_lt (Numbered.lt hl.2.2 (Nat.le_of_succ_le hlen) h)

/-- No identifier is given to two names, as long as they do not run out. -/
theorem Numbered.inj {n m : String} {id : Nat} : ∀ {l : List (String × Nat)}, Numbered l → l.length ≤ 2 ^ 32 →
    l.lookup n = some id → l.lookup m = some id → n = m
  | [], _, _, h, _ => by cases h
  | (k, i) :: rest, hl, hlen, hn, hm => by
    rw [List.length_cons] at hlen
    have hrest := Nat.le_of_succ_le hlen
    have hi : i = rest.length := by
      rw [hl.1]
      exact Nat.mod_eq_of_lt (Nat.lt_of_succ_le hlen)
    rw [List.lookup_cons] at hn hm
    split at hn
    · next hk =>
      obtain rfl := Option.some.inj hn
      split at hm
      · next hk' => exact (eq_of_beq hk).trans (eq_of_beq hk').symm
      · exact absurd (Numbered.lt hl.2.2 hrest hm) (by omega)
    · split at hm
      · obtain rfl := Option.some.inj hm
        exact absurd (Numbered.lt hl.2.2 hrest hn) (by omega)
      · exact Numbered.inj hl.2.2 hrest hn hm

/-! ## Loads of a process -/

/-- A call of `load_config_file` that returns 0. -/
def Loads (p p' : Process) : Prop := ∃ sys fuel list update r, loadConfig sys fuel list update p = some (.ok p' r)

/-- Any number of calls. -/
def History : Process → Process → Prop := Relation.ReflTransGen Loads

/-- What a load does to the table. -/
structure IdTable.Kept (t t' : IdTable) : Prop where
  ordered : t.Ordered → t'.Ordered
  lookup : ∀ n id, t.list.lookup n = some id → t'.list.lookup n = some id

instance : IsPreorder IdTable IdTable.Kept where
  refl _ := ⟨id, fun _ _ => id⟩
  trans _ _ _ h h' := ⟨fun ho => h'.ordered (h.ordered ho), fun n id hn => h'.lookup n id (h.lookup n id hn)⟩

theorem IdTable.getId_kept (t : IdTable) (name : String) : t.Kept (t.getId name).2 :=
  ⟨fun h => h.getId name, fun _ _ h => IdTable.getId_keeps h⟩

theorem loadVms_kept {env : ParseEnv} {gv : Vartree} : ∀ {vms ts : List Cfsection} {ids ids' : IdTable}
    {list list' : List ConfEnt}, loadVms env gv vms ts ids list = .ok (ids', list') → ids.Kept ids'
  | [], ts, ids, ids', list, list', h => by
    obtain ⟨rfl, -⟩ := Prod.mk.inj (Except.ok.inj h)
    exact refl_of _ _
  | sc :: rest, ts, ids, ids', list, list', h => by
    obtain ⟨name, r, -, -, h⟩ := loadVms_cons h
    exact trans_of _ (ids.getId_kept name) (loadVms_kept h)

theorem Loads.kept (h : Loads p p') : p.ids.Kept p'.ids := by
  obtain ⟨sys, fuel, list, update, r, h⟩ := h
  obtain ⟨s, -, h⟩ := loadConfig_ok h
  obtain ⟨-, gc, vars, p₁, -, hload, rfl, -, -⟩ := finishLoadConfig_ok h
  cases list with
  | false =>
    obtain ⟨rfl, -⟩ := Prod.mk.inj (Except.ok.inj hload)
    exact refl_of _ _
  | true =>
    obtain ⟨ids, hvms, rfl⟩ := loadSections_ok hload
    have hkept := loadVms_kept hvms
    rwa [loadPlugins_ids] at hkept

theorem History.kept (h : History p p') : p.ids.Kept p'.ids := by
  induction h with
  | refl => exact refl_of _ _
  | tail _ hlast ih => exact trans_of _ ih hlast.kept

/-! ## Names -/

/-- The name that the parameters of a section give: the last value of `name`, or the name of the section. -/
def ConfEnt.givenName (ent : ConfEnt) : String := ent.names.head?.getD ent.sectionName

theorem name_settingInvariant (env : ParseEnv) (name : String) :
    SettingInvariant env fun d => d.conf.name = d.names.head?.getD name := by
  refine .of_aside (fun d d' h hd => ?_) (fun d d' val hd h => ?_) (fun _ _ _ => rfl) (fun _ _ _ => id)
    (fun _ _ _ => id) fun _ _ => id
  · obtain ⟨-, -, hname, hnames, -⟩ := aside_eq h
    rw [hname, hnames]
    exact hd
  · have hframe : Frame (fun d => d.conf.name = d.names.head?.getD name) parseOwner :=
      frame_parseOwner fun _ _ _ _ => rfl
    exact (hframe env d val d' h).mpr hd

theorem beginDraft_name (env : ParseEnv) (gv : Vartree) (id : Nat) (name : String) (owner : UInt32) :
    (beginDraft env gv id name owner).conf.name = (beginDraft env gv id name owner).names.head?.getD name := by
  unfold beginDraft
  split <;> rfl

theorem finalizeVmConf_name (conf : VmConf) : (finalizeVmConf conf).name = conf.name := by
  unfold finalizeVmConf
  split <;> rfl

/-- An entry of a load has the identifier that the table has for its section, and the last name that it was given. -/
theorem finishLoadConfig_entries {sys : Sys} {update : Bool} {ctx : Pctxt} {r : Loaded}
    (h : finishLoadConfig sys p true update ctx = .ok p' r) {ent : ConfEnt} (hent : ent ∈ r.list) :
    p'.ids.list.lookup ent.sectionName = some ent.id ∧ ent.conf.name = ent.givenName := by
  obtain ⟨sc, -, name, id, w, -, hlookup, hrun, hent⟩ := finishLoadConfig_entry h hent
  obtain ⟨-, rfl⟩ := confEntOf_ok hent
  refine ⟨hlookup, ?_⟩
  show (finalizeVmConf w.draft.conf).name = w.draft.names.head?.getD name
  rw [finalizeVmConf_name]
  exact vmConfSetParams_keeps (name_settingInvariant _ name).work _ _ _ _ _ hrun (beginDraft_name ..)

/-- A section that passes `check_conf` when it is executed by itself: its name, and the name that its parameters give. -/
def Cfsection.accepted (env : ParseEnv) (gv : Vartree) (templates : List Cfsection) (ids : IdTable) (sc : Cfsection) :
    Option (String × String) := do
  let name ← sc.name
  let d ← sc.alone env gv templates ids
  if checkConf (finalizeVmConf d.conf) then some (name, d.names.head?.getD name) else none

/-- The accepted VM sections of the files. -/
def Pctxt.accepted (sys : Sys) (p : Process) (ctx : Pctxt) : List (String × String) :=
  match ctx.setting sys p with
  | none => []
  | some (plugins, gv) =>
    ctx.cfvms.filterMap fun sc => sc.accepted ⟨sys, plugins⟩ gv ctx.cftemplates (p.ids.getIds ctx.cfvms)

theorem Built.accepted {env : ParseEnv} {gv : Vartree} {templates : List Cfsection} {ids : IdTable} {sc : Cfsection}
    {ent : Option ConfEnt} (h : Built (buildSection env gv templates) ids sc ent) :
    sc.accepted env gv templates ids = ent.map fun ent => (ent.sectionName, ent.givenName) := by
  obtain ⟨name, id, hname, hid, hbuild⟩ := h
  obtain ⟨x, hexec, hent⟩ := Prog.except_bind_ok.mp hbuild
  have halone := alone_eq_some.mpr ⟨name, id, x.2, hname, hid, hexec⟩
  obtain rfl := Except.ok.inj hent
  simp only [Cfsection.accepted, hname, halone, Option.bind_eq_bind, Option.bind_some, confEntOf]
  split <;> rfl

/-- The list of a load has an entry for each accepted section. -/
theorem finishLoadConfig_accepted {sys : Sys} {update : Bool} {ctx : Pctxt} {r : Loaded}
    (h : finishLoadConfig sys p true update ctx = .ok p' r) :
    r.list.map (fun ent => (ent.sectionName, ent.givenName)) = (ctx.accepted sys p).reverse := by
  obtain ⟨hset, hids⟩ := finishLoadConfig_setting h
  obtain ⟨ents, hbuilt, hlist⟩ := finishLoadConfig_built h
  rw [if_pos rfl, hids] at hbuilt
  rw [hlist, List.map_reverse, Pctxt.accepted, hset]
  refine congrArg List.reverse ?_
  have hmap : ctx.cfvms.map (Cfsection.accepted ⟨sys, p'.pluginList⟩ p'.globalVars ctx.cftemplates
      (p.ids.getIds ctx.cfvms)) = ents.map (Option.map fun ent => (ent.sectionName, ent.givenName)) := by
    rw [← List.forall₂_eq_eq_eq, List.forall₂_map_left_iff, List.forall₂_map_right_iff]
    exact hbuilt.imp fun _ _ hb => hb.accepted
  rw [← List.reduceOption_map, ← hmap, List.reduceOption, List.filterMap_map]
  rfl

/-- **When the VMs of a load are told apart**: their names and identifiers are distinct exactly when the accepted VM
    sections of the files have distinct names and give distinct names. Across any loads of one process, a section name
    keeps its identifier, and no other section name gets it as long as no more than 2³² names were seen. -/
theorem vm_identity_iff (configFile : String) (p p' : Process) (hp : History (.init configFile) p) (sys : Sys) (fuel : Nat)
    (update : Bool) (s : Shared) (r : Loaded) (hread : readFiles sys p.globalVars fuel p.glConf.configFile = some (.done s))
    (h : loadConfig sys fuel true update p = some (.ok p' r)) (hseen : p'.ids.list.length ≤ 2 ^ 32) :
    ((r.list.map (·.conf.name)).Nodup ∧ (r.list.map (·.id)).Nodup ↔
      ((s.pctxt.accepted sys p).map (·.1)).Nodup ∧ ((s.pctxt.accepted sys p).map (·.2)).Nodup) ∧
    ∀ p'', History p' p'' → (∀ n id, p'.ids.list.lookup n = some id → p''.ids.list.lookup n = some id) ∧
      (p''.ids.list.length ≤ 2 ^ 32 →
        ∀ n m id, p''.ids.list.lookup n = some id → p''.ids.list.lookup m = some id → n = m) := by
  have hordered : p'.ids.Ordered := by
    have hinit : (Process.init configFile).ids.Ordered := ⟨rfl, trivial⟩
    exact (Loads.kept ⟨sys, fuel, true, update, r, h⟩).ordered (hp.kept.ordered hinit)
  obtain ⟨s', hread', hfinish⟩ := loadConfig_ok h
  obtain rfl : s = s' := Parsed.done.inj (Option.some.inj (hread.symm.trans hread'))
  have hentries : ∀ ent ∈ r.list, p'.ids.list.lookup ent.sectionName = some ent.id ∧ ent.conf.name = ent.givenName :=
    fun ent hent => finishLoadConfig_entries hfinish hent
  refine ⟨?_, fun p'' hlater => ⟨hlater.kept.lookup, fun hlen n m id => ?_⟩⟩
  · have hnames : r.list.map (·.conf.name) = r.list.map (·.givenName) :=
      List.map_congr_left fun ent hent => (hentries ent hent).2
    have hids : (r.list.map (·.id)).Nodup ↔ (r.list.map (·.sectionName)).Nodup := by
      unfold List.Nodup
      rw [List.pairwise_map, List.pairwise_map]
      refine List.Pairwise.iff_of_mem fun {a b} ha hb => not_congr ⟨fun heq => ?_, fun heq => ?_⟩
      · refine hordered.numbered.inj hseen (hentries a ha).1 ?_
        rw [heq]
        exact (hentries b hb).1
      · have hb' := (hentries b hb).1
        rw [← heq, (hentries a ha).1] at hb'
        exact Option.some.inj hb'
    have hsections : ∀ f : String × String → String, ((s.pctxt.accepted sys p).map f).Nodup ↔
        (r.list.map fun ent => f (ent.sectionName, ent.givenName)).Nodup := by
      intro f
      rw [← List.nodup_reverse, ← List.map_reverse, ← finishLoadConfig_accepted hfinish, List.map_map]
      rfl
    rw [hnames, hids, hsections, hsections]
    exact and_comm
  · exact (hlater.kept.ordered hordered).numbered.inj hlen

/-- Two loads of the same files, one after the other, that end with success and pass the tests. -/
def loadsTwice (sys : Sys) (fuel : Nat) (first second : Process → Loaded → Bool) : Bool :=
  (loadConfig sys fuel true true (.init "/m")).any fun o => match o with
    | .ok p r => first p r && (loadConfig sys fuel true true p).any fun o => match o with
      | .ok p r => second p r
      | _ => false
    | _ => false

theorem exists_loaded_twice {sys : Sys} {fuel : Nat} {first second : Process → Loaded → Bool}
    (h : loadsTwice sys fuel first second = true) : ∃ p r p' r',
      loadConfig sys fuel true true (.init "/m") = some (.ok p r) ∧ loadConfig sys fuel true true p = some (.ok p' r') ∧
      first p r = true ∧ second p' r' = true := by
  obtain ⟨p, r, hload, htest⟩ := exists_loaded_some h
  obtain ⟨hfirst, hagain⟩ := Bool.and_eq_true_iff.mp htest
  obtain ⟨p', r', hload', hsecond⟩ := exists_loaded_some hagain
  exact ⟨p, r, p', r', hload, hload', hfirst, hsecond⟩

/-- A file with two VM sections. -/
def twoVms (a b : String) : List (String × UInt32 × List Token) :=
  [("/m", 0, Token.vms a Token.basics ++ Token.vms b Token.basics)]

theorem vm_identity_iff_two : ∃ p r, loadConfig (.of (twoVms "a" "b")) 2 true true (.init "/m") = some (.ok p r) ∧
    r.list.length = 2 ∧ (r.list.map (·.conf.name)).Nodup ∧ (r.list.map (·.id)).Nodup := by
  let test : Process → Loaded → Bool := fun p r => decide (p.ids.list.length ≤ 2 ^ 32 ∧ r.list.length = 2 ∧
    r.list.map (fun ent => (ent.sectionName, ent.givenName)) = [("b", "b"), ("a", "a")])
  obtain ⟨p, r, h, hr⟩ := exists_loaded_some (x := loadConfig (.of (twoVms "a" "b")) 2 true true (.init "/m"))
    (f := test) (by decide +kernel)
  obtain ⟨hlen, htwo, hnames⟩ := of_decide_eq_true hr
  obtain ⟨s, hread, hfinish⟩ := loadConfig_ok h
  refine ⟨p, r, h, htwo, (vm_identity_iff "/m" _ p .refl _ _ _ s r hread h hlen).1.mpr ?_⟩
  rw [← List.reverse_reverse (s.pctxt.accepted _ _), ← finishLoadConfig_accepted hfinish, hnames]
  decide

/-- Two VM sections with the same name: the load succeeds. -/
theorem vm_identity_repeated : ∃ p r, loadConfig (.of (twoVms "a" "a")) 2 true true (.init "/m") = some (.ok p r) ∧
    r.list.map (·.conf.name) = ["a", "a"] ∧ r.list.map (·.id) = [0, 0] := by
  let test : Process → Loaded → Bool := fun _ r => decide (r.list.map (·.conf.name) = ["a", "a"] ∧
    r.list.map (·.id) = [0, 0])
  obtain ⟨p, r, h, hr⟩ := exists_loaded_some (x := loadConfig (.of (twoVms "a" "a")) 2 true true (.init "/m"))
    (f := test) (by decide +kernel)
  exact ⟨p, r, h, of_decide_eq_true hr⟩

end Bmd
