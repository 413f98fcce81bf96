import Bmd.Correctness.Templates
import Mathlib.Data.List.ReduceOption
import Mathlib.Data.List.Forall2

/-!
# `Correctness.Load` — what a call of `load_config_file` does with the sections

A call that returns 0 has executed the global sections, one after the other, and each VM section by itself. What an
entry of the list, or the global configuration, is made of is said here once: `finishLoadConfig_entry` and
`setGlobals_keeps`.
-/

namespace Bmd

open Lib

variable {list update : Bool} {p p' : Process} {sys : Sys} {ctx : Pctxt} {r : Loaded}

/-! ## VM sections -/

/-- The configuration that a section with the given name, parameters, owner and predefined `ID` makes by itself. -/
def buildSection (env : ParseEnv) (gv : Vartree) (templates : List Cfsection) (name : String) (params : List Cfparam)
    (owner : UInt32) (id : Nat) : Except Crash (Option ConfEnt) := do
  let r ← execSection env gv templates id name
    { name := some name, params := params, argdefs := [], applied := 0, duplicate := 0, owner := owner, filename := "" }
  return confEntOf name id r.1

theorem IdTable.getId_fst_lookup (t : IdTable) (name : String) :
    (t.getId name).2.list.lookup name = some (t.getId name).1 := by
  unfold getId
  split
  · next h => exact h
  · exact List.lookup_cons_self

/-- An identifier is never taken away. -/
theorem IdTable.getId_keeps {t : IdTable} {name n : String} {id : Nat} (h : t.list.lookup n = some id) :
    (t.getId name).2.list.lookup n = some id := by
  unfold getId
  split
  · exact h
  · next hnone =>
    have hne : n ≠ name := by
      rintro rfl
      rw [h] at hnone
      cases hnone
    show List.lookup n ((name, t.lastid) :: t.list) = some id
    rw [List.lookup_cons, beq_false_of_ne hne]
    exact h

/-- The table when every section has got its identifier. -/
def IdTable.getIds (t : IdTable) (vms : List Cfsection) : IdTable :=
  vms.foldl (fun t sc => (t.getId (sc.name.getD "")).2) t

theorem IdTable.getIds_keeps {n : String} {id : Nat} : ∀ (vms : List Cfsection) {t : IdTable},
    t.list.lookup n = some id → (t.getIds vms).list.lookup n = some id
  | [], _, h => h
  | _ :: rest, _, h => getIds_keeps rest (getId_keeps h)

/-- A section executed by itself, with the identifier that the table has for it. `none`: the process ends. -/
def Cfsection.alone (env : ParseEnv) (gv : Vartree) (templates : List Cfsection) (ids : IdTable) (sc : Cfsection) :
    Option Draft := do
  let name ← sc.name
  let id ← ids.list.lookup name
  let r ← (execSection env gv templates id name sc).toOption
  return r.1

theorem alone_eq_some {env : ParseEnv} {gv : Vartree} {templates : List Cfsection} {ids : IdTable} {sc : Cfsection}
    {d : Draft} : sc.alone env gv templates ids = some d ↔ ∃ name id ts, sc.name = some name ∧
      ids.list.lookup name = some id ∧ execSection env gv templates id name sc = .ok (d, ts) := by
  simp only [Cfsection.alone, Option.bind_eq_bind, Option.bind_eq_some_iff]
  constructor
  · rintro ⟨name, hname, id, hid, r, hr, hd⟩
    obtain rfl := Option.some.inj hd
    refine ⟨name, id, r.2, hname, hid, ?_⟩
    cases hexec : execSection env gv templates id name sc with
    | error c =>
      rw [hexec] at hr
      cases hr
    | ok x =>
      rw [hexec] at hr
      rw [Option.some.inj hr]
  · rintro ⟨name, id, ts, hname, hid, hexec⟩
    exact ⟨name, hname, id, hid, (d, ts), by rw [hexec]; rfl, rfl⟩

/-- What the loop over the sections has to do with one of them. -/
def Built (build : String → List Cfparam → UInt32 → Nat → Except Crash (Option ConfEnt)) (ids : IdTable) (sc : Cfsection)
    (ent : Option ConfEnt) : Prop :=
  ∃ name id, sc.name = some name ∧ ids.list.lookup name = some id ∧ build name sc.params sc.owner id = .ok ent

/-- One round of the loop over the VM sections. -/
theorem loadVms_cons {env : ParseEnv} {gv : Vartree} {sc : Cfsection} {rest ts : List Cfsection} {ids : IdTable}
    {list : List ConfEnt} {r : IdTable × List ConfEnt} (h : loadVms env gv (sc :: rest) ts ids list = .ok r) :
    ∃ name x, sc.name = some name ∧ execSection env gv ts (ids.getId name).1 name sc = .ok x ∧
      loadVms env gv rest x.2 (ids.getId name).2 ((confEntOf name (ids.getId name).1 x.1).toList ++ list) = .ok r := by
  cases hname : sc.name with
  | none =>
    simp only [loadVms, hname] at h
    cases h
  | some name =>
    simp only [loadVms, hname] at h
    obtain ⟨x, hexec, h⟩ := Prog.except_bind_ok.mp h
    exact ⟨name, x, rfl, hexec, h⟩

theorem loadVms_built {env : ParseEnv} {gv : Vartree} {templates : List Cfsection} :
    ∀ {vms ts : List Cfsection} {ids ids' : IdTable} {list list' : List ConfEnt},
      clearApplied ts = clearApplied templates → loadVms env gv vms ts ids list = .ok (ids', list') →
      (∀ n id, ids.list.lookup n = some id → ids'.list.lookup n = some id) ∧
      ∃ ents, List.Forall₂ (Built (buildSection env gv templates) ids') vms ents ∧
        list' = (ents.reduceOption).reverse ++ list
  | [], ts, ids, ids', list, list', _, h => by
    obtain ⟨rfl, rfl⟩ := Prod.mk.inj (Except.ok.inj h)
    exact ⟨fun _ _ => id, [], .nil, rfl⟩
  | sc :: rest, ts, ids, ids', list, list', hts, h => by
    obtain ⟨name, r, hname, hexec, h⟩ := loadVms_cons h
    obtain ⟨hkeep, ents, hbuilt, hlist⟩ := loadVms_built ((execSection_templates hexec).trans hts) h
    refine ⟨fun n id hn => hkeep n id (IdTable.getId_keeps hn), confEntOf name (ids.getId name).1 r.1 :: ents, ?_, ?_⟩
    · refine .cons ⟨name, _, hname, hkeep _ _ (ids.getId_fst_lookup name), ?_⟩ hbuilt
      rw [execSection_congr hts] at hexec
      have hsame : execSection env gv templates (ids.getId name).1 name sc = execSection env gv templates
          (ids.getId name).1 name { name := some name, params := sc.params, argdefs := [], applied := 0, duplicate := 0,
                                    owner := sc.owner, filename := "" } := rfl
      unfold buildSection
      rw [← hsame, hexec]
      rfl
    · rw [hlist]
      cases confEntOf name (ids.getId name).1 r.1 with
      | none => rw [List.reduceOption_cons_of_none]; rfl
      | some ent =>
        rw [List.reduceOption_cons_of_some, List.reverse_cons, List.append_assoc]
        rfl

/-- The loop over the VM sections comes to its end if no section ends the process. -/
theorem loadVms_returns {env : ParseEnv} {gv : Vartree} {templates : List Cfsection} :
    ∀ {vms ts : List Cfsection} {ids : IdTable} (list : List ConfEnt), clearApplied ts = clearApplied templates →
      (∀ sc ∈ vms, (sc.alone env gv templates (ids.getIds vms)).isSome) →
      ∃ list', loadVms env gv vms ts ids list = .ok (ids.getIds vms, list')
  | [], _, _, list, _, _ => ⟨list, rfl⟩
  | sc :: rest, ts, ids, list, hts, hall => by
    obtain ⟨d, hd⟩ := Option.isSome_iff_exists.mp (hall sc List.mem_cons_self)
    obtain ⟨name, id, ts', hname, hid, hexec⟩ := alone_eq_some.mp hd
    have htable : ids.getIds (sc :: rest) = (ids.getId name).2.getIds rest := by
      show IdTable.getIds (ids.getId (sc.name.getD "")).2 rest = _
      rw [hname]
      rfl
    rw [htable] at hid hall ⊢
    obtain rfl : id = (ids.getId name).1 :=
      Option.some.inj (hid.symm.trans (IdTable.getIds_keeps rest (ids.getId_fst_lookup name)))
    rw [← execSection_congr hts] at hexec
    simp only [loadVms, hname, hexec]
    exact loadVms_returns _ ((execSection_templates hexec).trans hts) fun sc hsc => hall sc (List.mem_cons_of_mem _ hsc)

theorem loadVms_ids {env : ParseEnv} {gv : Vartree} : ∀ {vms ts : List Cfsection} {ids ids' : IdTable}
    {list list' : List ConfEnt}, loadVms env gv vms ts ids list = .ok (ids', list') → ids' = ids.getIds vms
  | [], ts, ids, ids', list, list', h => (Prod.mk.inj (Except.ok.inj h)).1.symm
  | sc :: rest, ts, ids, ids', list, list', h => by
    obtain ⟨name, r, hname, -, h⟩ := loadVms_cons h
    rw [loadVms_ids h]
    show _ = IdTable.getIds (ids.getId (sc.name.getD "")).2 rest
    rw [hname]
    rfl

theorem loadSections_ok {gc : GlobalConf} {gv : Vartree} {list : List ConfEnt}
    (h : loadSections sys p ctx gc gv = .ok (p', list)) :
    let p₁ := loadPlugins sys (gc.pluginDir.or p.glConf.pluginDir) p
    ∃ ids, loadVms { sys := sys, plugins := p₁.pluginList } gv ctx.cfvms ctx.cftemplates p₁.ids [] = .ok (ids, list) ∧
      p' = { p₁ with ids := ids } := by
  intro p₁
  change (loadVms { sys := sys, plugins := p₁.pluginList } gv ctx.cfvms ctx.cftemplates p₁.ids [] >>= fun r =>
    pure ({ p₁ with ids := r.1 }, r.2)) = .ok (p', list) at h
  cases hload : loadVms { sys := sys, plugins := p₁.pluginList } gv ctx.cfvms ctx.cftemplates p₁.ids [] with
  | error c =>
    rw [hload] at h
    cases h
  | ok r =>
    rw [hload] at h
    obtain ⟨hp, hlist⟩ := Prod.mk.inj (Except.ok.inj h)
    exact ⟨r.1, by rw [← hlist], hp.symm⟩

/-- The steps of a call that returns 0. -/
theorem finishLoadConfig_ok
    (h : finishLoadConfig sys p list update ctx = .ok p' r) : checkDuplicate ctx = false ∧ ∃ gc vars p₁,
      setGlobals ctx.cfglobals .zero (.ofGlobals initGlobalVars) = .ok (gc, vars) ∧
      (if list then loadSections sys p ctx gc vars.globals else .ok (p, [])) = .ok (p₁, r.list) ∧
      p' = { p₁ with globalVars := vars.globals
                     glConf := if update then mergeGlobalConf p₁.glConf gc else p₁.glConf } ∧
      r.files = ctx.cffiles ∧ r.globalConf = gc := by
  unfold finishLoadConfig at h
  split at h
  · cases h
  · next hdup =>
    refine ⟨Bool.eq_false_iff.mpr hdup, ?_⟩
    cases hgl : setGlobals ctx.cfglobals .zero (.ofGlobals initGlobalVars) with
    | error c =>
      rw [hgl] at h
      cases h
    | ok g =>
      rw [hgl] at h
      cases hvms : if list then loadSections sys p ctx g.1 g.2.globals else .ok (p, []) with
      | error c =>
        simp only [hvms] at h
        cases h
      | ok q =>
        simp only [hvms] at h
        obtain ⟨rfl, rfl⟩ := Outcome.ok.inj h
        exact ⟨g.1, g.2, q.1, rfl, hvms, rfl, rfl, rfl⟩

/-- The list is what `build` makes of the sections, with the identifiers of the table. -/
def BuiltList (build : String → List Cfparam → UInt32 → Nat → Except Crash (Option ConfEnt)) (ids : IdTable)
    (vms : List Cfsection) (list : List ConfEnt) : Prop :=
  ∃ ents, List.Forall₂ (Built build ids) vms ents ∧ list = ents.reduceOption.reverse

theorem finishLoadConfig_built
    (h : finishLoadConfig sys p list update ctx = .ok p' r) :
    BuiltList (buildSection { sys := sys, plugins := p'.pluginList } p'.globalVars ctx.cftemplates) p'.ids
      (if list then ctx.cfvms else []) r.list := by
  obtain ⟨-, gc, vars, p₁, -, hload, rfl, -, -⟩ := finishLoadConfig_ok h
  cases list with
  | false =>
    obtain ⟨-, hlist⟩ := Prod.mk.inj (Except.ok.inj hload)
    exact ⟨[], .nil, hlist.symm⟩
  | true =>
    obtain ⟨ids, hvms, rfl⟩ := loadSections_ok hload
    obtain ⟨-, ents, hbuilt, hlist⟩ := loadVms_built rfl hvms
    exact ⟨ents, hbuilt, hlist.trans (List.append_nil _)⟩

theorem exists_of_forall₂ {α β : Type} {R : α → β → Prop} {l : List α} {l' : List β} (h : List.Forall₂ R l l') {b : β}
    (hb : b ∈ l') : ∃ a ∈ l, R a b := by
  induction h with
  | nil => cases hb
  | cons hR _ ih =>
    obtain rfl | hb := List.mem_cons.mp hb
    · exact ⟨_, List.mem_cons_self, hR⟩
    · obtain ⟨a, ha, hRa⟩ := ih hb
      exact ⟨a, List.mem_cons_of_mem _ ha, hRa⟩

/-- **Every entry of a load comes from the execution of its section**, with the identifier that the table has for it. -/
theorem finishLoadConfig_entry
    (h : finishLoadConfig sys p list update ctx = .ok p' r) {ent : ConfEnt} (hent : ent ∈ r.list) :
    ∃ sc ∈ ctx.cfvms, ∃ name id w, sc.name = some name ∧ p'.ids.list.lookup name = some id ∧
      Executes { sys := sys, plugins := p'.pluginList } p'.globalVars ctx.cftemplates id name sc w ∧
      confEntOf name id w.draft = some ent := by
  obtain ⟨ents, hbuilt, hlist⟩ := finishLoadConfig_built h
  rw [hlist, List.mem_reverse, List.reduceOption_mem_iff] at hent
  obtain ⟨sc, hsc, name, id, hname, hlookup, hbuild⟩ := exists_of_forall₂ hbuilt hent
  have hsc : sc ∈ ctx.cfvms := by
    cases list with
    | false => cases hsc
    | true => exact hsc
  refine ⟨sc, hsc, name, id, ?_⟩
  unfold buildSection at hbuild
  obtain ⟨r, hexec, hent⟩ := Prog.except_bind_ok.mp hbuild
  obtain ⟨w, hw, -, hrun⟩ := execSection_ok hexec
  refine ⟨w, hname, hlookup, hrun, ?_⟩
  rw [← hw]
  exact Except.ok.inj hent

/-- `load_plugins` does nothing once a plugin was loaded; else it adds an entry for the built-in method and one for each
    plugin that it finds. -/
theorem loadPlugins_cases (sys : Sys) (dir : Option String) (p : Process) :
    (p.loaded ≠ 0 ∧ loadPlugins sys dir p = p) ∨ (p.loaded = 0 ∧ loadPlugins sys dir p =
      { p with pluginList := ((dir.bind sys.opendir).getD []).reverse ++ bhyvePlugin :: p.pluginList
               loaded := ((dir.bind sys.opendir).getD []).length }) := by
  obtain h | h := eq_or_ne p.loaded 0
  · refine .inr ⟨h, ?_⟩
    unfold loadPlugins
    rw [if_neg (not_not.mpr h)]
    cases dir.bind sys.opendir with
    | none =>
      obtain ⟨gv, ids, gl, plugins, loaded⟩ := p
      obtain rfl : loaded = 0 := h
      rfl
    | some added => rfl
  · exact .inl ⟨h, if_pos h⟩

theorem loadPlugins_ids (sys : Sys) (dir : Option String) (p : Process) : (loadPlugins sys dir p).ids = p.ids := by
  obtain ⟨-, h⟩ | ⟨-, h⟩ := loadPlugins_cases sys dir p
  all_goals rw [h]

theorem loadPlugins_glConf (sys : Sys) (dir : Option String) (p : Process) : (loadPlugins sys dir p).glConf = p.glConf := by
  obtain ⟨-, h⟩ | ⟨-, h⟩ := loadPlugins_cases sys dir p
  all_goals rw [h]

theorem loadConfig_ok {fuel : Nat}
    (h : loadConfig sys fuel list update p = some (.ok p' r)) :
    ∃ s, readFiles sys p.globalVars fuel p.glConf.configFile = some (.done s) ∧
      finishLoadConfig sys p list update s.pctxt = .ok p' r := by
  unfold loadConfig at h
  split at h
  · cases h
  · cases h
  · cases h
  · next s hs => exact ⟨s, hs, Option.some.inj h⟩

/-! ## Global sections -/

section Globals

variable {P : GlobalConf → Prop} (hkey : ∀ (w : GlobalWork) val k, P w.conf → P (w.setKey val k).conf)
  (hoffset : ∀ gc text, P gc → P (nmdmOffsetOf gc text))

include hkey

theorem setGlobalValues_keeps {k : GlobalKey} : ∀ {vals : List Cfvalue} {w w' : GlobalWork},
    setGlobalValues k vals w = .ok w' → P w.conf → P w'.conf
  | [], w, w', h, hw => by
    obtain rfl := Except.ok.inj h
    exact hw
  | vl :: rest, w, w', h, hw => by
    unfold setGlobalValues at h
    split at h
    · cases h
    · exact setGlobalValues_keeps h hw
    · exact setGlobalValues_keeps h (hkey w _ k hw)

theorem setGlobalParam_keeps {pr : Cfparam} {w w' : GlobalWork} (h : setGlobalParam pr w = .ok w') (hw : P w.conf) :
    P w'.conf := by
  unfold setGlobalParam at h
  split at h
  · cases h
  · cases h
  · split at h
    · cases h
    · obtain rfl := Except.ok.inj h
      exact hw
    · obtain rfl := Except.ok.inj h
      exact hw
  · split at h
    · obtain rfl := Except.ok.inj h
      exact hw
    · exact setGlobalValues_keeps hkey h hw

theorem setGlobalParams_keeps : ∀ {ps : List Cfparam} {w w' : GlobalWork},
    setGlobalParams ps w = .ok w' → P w.conf → P w'.conf
  | [], w, w', h, hw => by
    obtain rfl := Except.ok.inj h
    exact hw
  | pr :: rest, w, w', h, hw => by
    obtain ⟨w₁, hparam, hrest⟩ := Prog.except_bind_ok.mp h
    exact setGlobalParams_keeps hrest (setGlobalParam_keeps hkey hparam hw)

include hoffset

/-- **The global sections keep what the settings of keys and of the offset keep.** -/
theorem setGlobals_keeps : ∀ {scs : List Cfsection} {gc gc' : GlobalConf} {vars vars' : Variables},
    setGlobals scs gc vars = .ok (gc', vars') → P gc → P gc'
  | [], gc, gc', vars, vars', h, hgc => by
    obtain ⟨rfl, -⟩ := Prod.mk.inj (Except.ok.inj h)
    exact hgc
  | sc :: rest, gc, gc', vars, vars', h, hgc => by
    unfold setGlobals at h
    split at h
    · obtain ⟨⟨gc₁, vars₁⟩, hsection, hrest⟩ := Prog.except_bind_ok.mp h
      obtain ⟨w, hparams, hw⟩ := Prog.except_bind_ok.mp hsection
      obtain ⟨rfl, -⟩ := Prod.mk.inj (Except.ok.inj hw)
      exact setGlobals_keeps hrest (hoffset _ _ (setGlobalParams_keeps hkey hparams hgc))
    · exact setGlobals_keeps h hgc

end Globals

/-- The global configuration of the files, and what becomes of `gl_conf`. -/
theorem finishLoadConfig_globalConf
    (h : finishLoadConfig sys p list update ctx = .ok p' r) :
    (∃ vars, setGlobals ctx.cfglobals .zero (.ofGlobals initGlobalVars) = .ok (r.globalConf, vars)) ∧
      p'.glConf = if update then mergeGlobalConf p.glConf r.globalConf else p.glConf := by
  obtain ⟨-, gc, vars, p₁, hglobals, hload, rfl, -, rfl⟩ := finishLoadConfig_ok h
  have hp₁ : p₁.glConf = p.glConf := by
    cases list with
    | false =>
      obtain ⟨rfl, -⟩ := Prod.mk.inj (Except.ok.inj hload)
      rfl
    | true =>
      obtain ⟨ids, -, rfl⟩ := loadSections_ok hload
      exact loadPlugins_glConf _ _ _
  refine ⟨⟨vars, hglobals⟩, ?_⟩
  rw [← hp₁]

/-! ## Independence -/

/-- What the VM sections of a load are executed with: the plugins and the global variables. `none`: a global section
    ends the process. -/
def Pctxt.setting (sys : Sys) (p : Process) (ctx : Pctxt) : Option (List Plugin × Vartree) :=
  match setGlobals ctx.cfglobals .zero (.ofGlobals initGlobalVars) with
  | .error _ => none
  | .ok (gc, vars) => some ((loadPlugins sys (gc.pluginDir.or p.glConf.pluginDir) p).pluginList, vars.globals)

theorem finishLoadConfig_setting (h : finishLoadConfig sys p true update ctx = .ok p' r) :
    ctx.setting sys p = some (p'.pluginList, p'.globalVars) ∧ p'.ids = p.ids.getIds ctx.cfvms := by
  obtain ⟨-, gc, vars, p₁, hglobals, hload, rfl, -, -⟩ := finishLoadConfig_ok h
  obtain ⟨ids, hvms, rfl⟩ := loadSections_ok hload
  refine ⟨by rw [Pctxt.setting, hglobals], ?_⟩
  rw [← loadPlugins_ids sys (gc.pluginDir.or p.glConf.pluginDir) p]
  exact loadVms_ids hvms

/-- A section that was executed does not end the process. -/
theorem alone_of_built {env : ParseEnv} {gv : Vartree} {templates vms : List Cfsection} {ids : IdTable}
    {ents : List (Option ConfEnt)} (h : List.Forall₂ (Built (buildSection env gv templates) ids) vms ents) :
    ∀ sc ∈ vms, (sc.alone env gv templates ids).isSome := by
  intro sc hsc
  obtain ⟨ent, -, name, id, hname, hid, hbuild⟩ := exists_of_forall₂ h.flip hsc
  obtain ⟨x, hexec, -⟩ := Prog.except_bind_ok.mp hbuild
  rw [alone_eq_some.mpr ⟨name, id, x.2, hname, hid, hexec⟩]
  rfl

theorem finishLoadConfig_returns {plugins : List Plugin} {gv : Vartree} (update : Bool) (hdup : checkDuplicate ctx = false)
    (hset : ctx.setting sys p = some (plugins, gv))
    (hall : ∀ sc ∈ ctx.cfvms, (sc.alone ⟨sys, plugins⟩ gv ctx.cftemplates (p.ids.getIds ctx.cfvms)).isSome) :
    ∃ p' r, finishLoadConfig sys p true update ctx = .ok p' r := by
  unfold Pctxt.setting at hset
  cases hglobals : setGlobals ctx.cfglobals .zero (.ofGlobals initGlobalVars) with
  | error c =>
    rw [hglobals] at hset
    cases hset
  | ok g =>
    obtain ⟨gc, vars⟩ := g
    rw [hglobals] at hset
    obtain ⟨rfl, rfl⟩ := Prod.mk.inj (Option.some.inj hset)
    obtain ⟨list, hvms⟩ := loadVms_returns [] (rfl : clearApplied ctx.cftemplates = _) hall
    rw [← loadPlugins_ids sys (gc.pluginDir.or p.glConf.pluginDir) p] at hvms
    obtain ⟨q, hload⟩ : ∃ q, loadSections sys p ctx gc vars.globals = .ok q := by
      simp only [loadSections, hvms]
      exact ⟨_, rfl⟩
    rw [finishLoadConfig, if_neg (by rw [hdup]; decide), hglobals]
    simp only [if_true, hload]
    exact ⟨_, _, rfl⟩

/-- Two sections that apply the same template. -/
def pairCtx : Pctxt :=
  { Pctxt.empty with
    cftemplates := [{ Cfsection.applying "t" [] with params := [.set "ncpu" "1", .set "memory" "1G", .set "loader" "uefi"] }]
    cfvms := [.applying "a" ["t"], .applying "b" ["t"]] }

theorem exists_loaded_some {x : Option Outcome} {f : Process → Loaded → Bool}
    (h : (x.any fun o => match o with | .ok p r => f p r | _ => false) = true) :
    ∃ p r, x = some (.ok p r) ∧ f p r = true := by
  cases x with
  | none => cases h
  | some o =>
    cases o with
    | ok p r => exact ⟨p, r, rfl, h⟩
    | crash => cases h
    | fail => cases h

/-- A VM, and another one with a parameter `passthru +=`. -/
def badSecond : List Token :=
  Token.vms "a" Token.basics ++
    Token.vms "b" (Token.basics ++ [.str (.of "passthru"), .pleq, .str (.of "1/0/0"), .char ';'])

end Bmd
