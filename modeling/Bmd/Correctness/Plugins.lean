import Bmd.Correctness.Identity

/-!
# `Correctness.Plugins` — the list of plugins

`load_plugins` decides by the number of plugins that were loaded whether it was called before. Once there is one, the
list stays as it is, and the data of any two configurations are those of the same plugins. Where none can be loaded, each
load enters the built-in method once more, and the configurations of two loads do not match.
-/

namespace Bmd

open Lib

variable {p p' : Process} {update : Bool} {sys : Sys} {fuel : Nat} {r : Loaded}

/-! ## Calls with a list -/

/-- The plugins that can be loaded from the directory that a call names. -/
def Loaded.found (sys : Sys) (p : Process) (r : Loaded) : List Plugin :=
  ((r.globalConf.pluginDir.or p.glConf.pluginDir).bind sys.opendir).getD []

/-- A call with a list: the plugins in its directory, `plugin_list` afterwards, and the entries it made. -/
structure ListLoad where
  found : List Plugin
  plugins : List Plugin
  list : List ConfEnt

/-- Calls of `load_config_file` from the start of the process, with a record of those that had a list. A call that fails
    leaves the process as it was. -/
inductive Calls (configFile : String) : List ListLoad → Process → Prop where
  | start : Calls configFile [] (.init configFile)
  | noList {loads : List ListLoad} {p p' : Process} {sys : Sys} {fuel : Nat} {update : Bool} {r : Loaded}
      (before : Calls configFile loads p) (h : loadConfig sys fuel false update p = some (.ok p' r)) :
      Calls configFile loads p'
  | list {loads : List ListLoad} {p p' : Process} {sys : Sys} {fuel : Nat} {update : Bool} {r : Loaded}
      (before : Calls configFile loads p) (h : loadConfig sys fuel true update p = some (.ok p' r)) :
      Calls configFile (loads ++ [{ found := r.found sys p, plugins := p'.pluginList, list := r.list }]) p'

theorem loadConfig_noList
    (h : loadConfig sys fuel false update p = some (.ok p' r)) : p'.pluginList = p.pluginList ∧ p'.loaded = p.loaded := by
  obtain ⟨s, -, hfinish⟩ := loadConfig_ok h
  obtain ⟨-, gc, vars, p₁, -, hload, rfl, -, -⟩ := finishLoadConfig_ok hfinish
  obtain ⟨rfl, -⟩ := Prod.mk.inj (Except.ok.inj hload)
  exact ⟨rfl, rfl⟩

theorem loadConfig_plugins (h : loadConfig sys fuel true update p = some (.ok p' r)) :
    (p.loaded ≠ 0 ∧ p'.pluginList = p.pluginList ∧ p'.loaded = p.loaded) ∨
    (p.loaded = 0 ∧ p'.pluginList = (r.found sys p).reverse ++ bhyvePlugin :: p.pluginList ∧
      p'.loaded = (r.found sys p).length) := by
  obtain ⟨s, -, hfinish⟩ := loadConfig_ok h
  obtain ⟨-, gc, vars, p₁, -, hload, rfl, -, hgc⟩ := finishLoadConfig_ok hfinish
  obtain ⟨ids, -, rfl⟩ := loadSections_ok hload
  unfold Loaded.found
  rw [hgc]
  obtain ⟨hne, heq⟩ | ⟨hzero, heq⟩ := loadPlugins_cases sys (gc.pluginDir.or p.glConf.pluginDir) p
  all_goals
    have hplugins := congrArg Process.pluginList heq
    have hloaded := congrArg Process.loaded heq
  · exact .inl ⟨hne, hplugins, hloaded⟩
  · exact .inr ⟨hzero, hplugins, hloaded⟩

/-! ## The data of a configuration -/

theorem callPluginParser_plugins (key val : String) : ∀ data,
    (callPluginParser key val data).2.map Prod.fst = data.map Prod.fst
  | [] => rfl
  | (p, conf) :: rest => by
    have ih := callPluginParser_plugins key val rest
    unfold callPluginParser
    split
    · exact congrArg (p :: ·) ih
    · simp only
      split
      · rfl
      · exact congrArg (p :: ·) ih

/-- No parameter changes which plugins a configuration has data of. -/
theorem plugins_settingInvariant (env : ParseEnv) (plugins : List Plugin) :
    SettingInvariant env fun d => d.plData.map Prod.fst = plugins := by
  refine .of_aside (fun d d' h hd => ?_) (fun d d' val hd h => ?_) (fun _ _ => id) (fun _ _ _ => id)
    (fun d key val => (callPluginParser_plugins key val d.plData).trans) fun _ _ => id
  · obtain ⟨-, -, -, -, hdata, -⟩ := aside_eq h
    rw [hdata]
    exact hd
  · have hframe : Frame (·.plData) parseOwner := frame_parseOwner fun _ _ _ _ => rfl
    exact (congrArg _ (hframe env d val d' h)).trans hd

theorem beginDraft_plugins (env : ParseEnv) (gv : Vartree) (id : Nat) (name : String) (owner : UInt32) :
    (beginDraft env gv id name owner).plData.map Prod.fst = env.plugins.reverse := by
  have hdata : (beginDraft env gv id name owner).plData = createPluginData env.plugins := by
    unfold beginDraft
    split <;> rfl
  rw [hdata]
  unfold createPluginData
  rw [List.map_map]
  exact List.map_id _

/-- The entries of a load have data of the plugins that are in the list after it. -/
theorem loadConfig_aligned
    (h : loadConfig sys fuel true update p = some (.ok p' r)) {ent : ConfEnt} (hent : ent ∈ r.list) :
    ent.plData.map Prod.fst = p'.pluginList.reverse := by
  obtain ⟨s, -, hfinish⟩ := loadConfig_ok h
  obtain ⟨sc, -, name, id, w, -, -, hrun, hent⟩ := finishLoadConfig_entry hfinish hent
  obtain ⟨-, rfl⟩ := confEntOf_ok hent
  exact vmConfSetParams_keeps (plugins_settingInvariant _ _).work _ _ _ _ _ hrun (beginDraft_plugins ..)

/-! ## Whole processes -/

/-- The first call found plugins: the list is that of the first call. -/
structure Settled (first : ListLoad) (rest : List ListLoad) (p : Process) : Prop where
  loaded : p.loaded ≠ 0
  now : p.pluginList = first.plugins
  then_ : ∀ l ∈ rest, l.plugins = first.plugins

/-- The first call found none: the list has grown with the next one. -/
structure Repeated (rest : List ListLoad) (p : Process) : Prop where
  now : 1 ≤ p.pluginList.length
  loaded : p.loaded ≠ 0 → 1 < p.pluginList.length
  then_ : ∀ l ∈ rest, 1 < l.plugins.length

/-- What the calls so far have made of the list. -/
inductive PluginsAfter : List ListLoad → Process → Prop where
  | none {p : Process} (plugins : p.pluginList = []) (loaded : p.loaded = 0) : PluginsAfter [] p
  | settled {first : ListLoad} {rest : List ListLoad} {p : Process}
      (plugins : first.plugins = first.found.reverse ++ [bhyvePlugin]) (found : first.found ≠ [])
      (h : Settled first rest p) : PluginsAfter (first :: rest) p
  | repeated {first : ListLoad} {rest : List ListLoad} {p : Process}
      (plugins : first.plugins = first.found.reverse ++ [bhyvePlugin]) (found : first.found = [])
      (h : Repeated rest p) : PluginsAfter (first :: rest) p

variable {loads : List ListLoad} {configFile : String}

theorem PluginsAfter.noList (h : PluginsAfter loads p)
    (hplugins : p'.pluginList = p.pluginList) (hloaded : p'.loaded = p.loaded) : PluginsAfter loads p' := by
  cases h with
  | none hnil hzero => exact .none (hplugins.trans hnil) (hloaded.trans hzero)
  | settled hfirst hfound h =>
    exact .settled hfirst hfound ⟨hloaded ▸ h.loaded, hplugins.trans h.now, h.then_⟩
  | repeated hfirst hfound h =>
    exact .repeated hfirst hfound ⟨hplugins ▸ h.now, hplugins ▸ hloaded ▸ h.loaded, h.then_⟩

theorem forall_mem_snoc {α : Type} {P : α → Prop} {l : List α} {a : α} (h : ∀ x ∈ l, P x) (ha : P a) :
    ∀ x ∈ l ++ [a], P x := by
  intro x hx
  obtain hx | hx := List.mem_append.mp hx
  · exact h x hx
  · rwa [List.mem_singleton.mp hx]

theorem PluginsAfter.list {l : ListLoad} (h : PluginsAfter loads p)
    (hl : l.plugins = p'.pluginList)
    (hload : (p.loaded ≠ 0 ∧ p'.pluginList = p.pluginList ∧ p'.loaded = p.loaded) ∨
      (p.loaded = 0 ∧ p'.pluginList = l.found.reverse ++ bhyvePlugin :: p.pluginList ∧ p'.loaded = l.found.length)) :
    PluginsAfter (loads ++ [l]) p' := by
  cases h with
  | none hnil hzero =>
    obtain ⟨hne, -⟩ | ⟨-, hplugins, hloaded⟩ := hload
    · exact absurd hzero hne
    · rw [hnil] at hplugins
      obtain hfound | hfound := eq_or_ne l.found []
      · refine .repeated (hl.trans hplugins) hfound ⟨?_, fun hne => absurd ?_ hne, nofun⟩
        · rw [hplugins, hfound]
          exact le_refl 1
        · rw [hloaded, hfound, List.length_nil]
      · refine .settled (hl.trans hplugins) hfound ⟨?_, hl.symm, nofun⟩
        rw [hloaded]
        exact fun hnil => hfound (List.length_eq_zero_iff.mp hnil)
  | settled hfirst hfound h =>
    obtain ⟨-, hplugins, hloaded⟩ | ⟨hzero, -⟩ := hload
    · have hnow := hplugins.trans h.now
      exact .settled hfirst hfound ⟨hloaded ▸ h.loaded, hnow, forall_mem_snoc h.then_ (hl.trans hnow)⟩
    · exact absurd hzero h.loaded
  | repeated hfirst hfound h =>
    have hlong : 1 < p'.pluginList.length := by
      obtain ⟨hne, hplugins, -⟩ | ⟨-, hplugins, -⟩ := hload
      · rw [hplugins]
        exact h.loaded hne
      · have hnow := h.now
        rw [hplugins, List.length_append, List.length_cons]
        omega
    exact .repeated hfirst hfound ⟨le_of_lt hlong, fun _ => hlong, forall_mem_snoc h.then_ (by rwa [hl])⟩

theorem Calls.pluginsAfter (h : Calls configFile loads p) : PluginsAfter loads p := by
  induction h with
  | start => exact .none rfl rfl
  | noList _ hload ih =>
    obtain ⟨hplugins, hloaded⟩ := loadConfig_noList hload
    exact ih.noList hplugins hloaded
  | list _ hload ih => exact ih.list rfl (loadConfig_plugins hload)

theorem Calls.aligned (h : Calls configFile loads p) :
    ∀ l ∈ loads, ∀ ent ∈ l.list, ent.plData.map Prod.fst = l.plugins.reverse := by
  induction h with
  | start => nofun
  | noList _ _ ih => exact ih
  | list _ hload ih => exact forall_mem_snoc ih fun ent hent => loadConfig_aligned hload hent

/-- The list is complete after the first call, stays as it is, and all entries have data of the same plugins. -/
structure PluginsStable (loads : List ListLoad) : Prop where
  first : ∀ l, loads.head? = some l → l.plugins = l.found.reverse ++ [bhyvePlugin]
  later : ∀ l ∈ loads, ∀ l' ∈ loads, l'.plugins = l.plugins
  aligned : ∀ l ∈ loads, ∀ l' ∈ loads, ∀ ent ∈ l.list, ∀ ent' ∈ l'.list, ent.plData.map Prod.fst = ent'.plData.map Prod.fst

/-- **When the list of plugins is stable**: in a process there is at most one call with a list, or the first of them
    loads a plugin. -/
theorem plugins_stable_iff (configFile : String) (loads : List ListLoad) (p : Process) (h : Calls configFile loads p) :
    PluginsStable loads ↔ loads.length ≤ 1 ∨ ∀ l, loads.head? = some l → l.found ≠ [] := by
  have haligned := h.aligned
  have hsame : (∀ l ∈ loads, ∀ l' ∈ loads, l'.plugins = l.plugins) → ∀ l ∈ loads, ∀ l' ∈ loads, ∀ ent ∈ l.list,
      ∀ ent' ∈ l'.list, ent.plData.map Prod.fst = ent'.plData.map Prod.fst := by
    intro hlater l hl l' hl' ent hent ent' hent'
    rw [haligned l hl ent hent, haligned l' hl' ent' hent', hlater l hl l' hl']
  cases h.pluginsAfter with
  | none => exact ⟨fun _ => .inl (Nat.zero_le 1), fun _ => ⟨nofun, nofun, nofun⟩⟩
  | @settled first rest _ hfirst hfound h =>
    refine ⟨fun _ => .inr fun l hl => ?_, fun _ => ?_⟩
    · rwa [← Option.some.inj hl]
    · have hall : ∀ l ∈ first :: rest, l.plugins = first.plugins := List.forall_mem_cons.mpr ⟨rfl, h.then_⟩
      have hlater : ∀ l ∈ first :: rest, ∀ l' ∈ first :: rest, l'.plugins = l.plugins :=
        fun l hl l' hl' => (hall l' hl').trans (hall l hl).symm
      exact ⟨fun l hl => by rwa [← Option.some.inj hl], hlater, hsame hlater⟩
  | @repeated first rest _ hfirst hfound h =>
    refine ⟨fun hstable => .inl ?_, fun hcond => ?_⟩
    · cases rest with
      | nil => exact le_refl 1
      | cons l rest =>
        have hlong := h.then_ l List.mem_cons_self
        rw [hstable.later first List.mem_cons_self l (List.mem_cons_of_mem _ List.mem_cons_self), hfirst, hfound] at hlong
        exact absurd hlong (lt_irrefl 1)
    · obtain hlen | hfound' := hcond
      · obtain rfl : rest = [] := List.length_eq_zero_iff.mp (Nat.le_zero.mp (Nat.le_of_succ_le_succ hlen))
        have hlater : ∀ l ∈ [first], ∀ l' ∈ [first], l'.plugins = l.plugins := by
          intro l hl l' hl'
          rw [List.mem_singleton.mp hl, List.mem_singleton.mp hl']
        exact ⟨fun l hl => by rwa [← Option.some.inj hl], hlater, hsame hlater⟩
      · exact absurd hfound (hfound' first rfl)

/-- A host with the given plugins in the directory, and two VMs. -/
def pluginHost (plugins : List Plugin) : Sys :=
  { Sys.of (twoVms "a" "b") with opendir := fun _ => some plugins }

/-- The plugin of the sample host. -/
def hookPlugin : Plugin := { name := "hook", method := none, parseConfig := none }

theorem plugins_stable_iff_hook : ∃ loads p, Calls "/m" loads p ∧ loads.length = 2 ∧ PluginsStable loads := by
  let found : Process → Loaded → Bool := fun _ r => (r.found (pluginHost [hookPlugin]) (.init "/m")).length == 1
  obtain ⟨p, r, p', r', hload, hload', hfound, -⟩ := exists_loaded_twice
    (show loadsTwice (pluginHost [hookPlugin]) 2 found (fun _ _ => true) = true by decide +kernel)
  have hcalls : Calls "/m" _ p' := .list (.list .start hload) hload'
  refine ⟨_, p', hcalls, rfl, (plugins_stable_iff "/m" _ p' hcalls).mpr (.inr fun l hl hnil => ?_)⟩
  obtain rfl := Option.some.inj hl
  have hlen : (r.found (pluginHost [hookPlugin]) (.init "/m")).length = 1 := eq_of_beq hfound
  exact absurd (hlen.symm.trans (congrArg List.length hnil)) (by decide)

/-- There is no plugin to load: the second load enters the built-in method again, and its entries have two elements where
    those of the first have one. -/
theorem plugins_unstable_none : ∃ p r p' r', loadConfig (pluginHost []) 2 true true (.init "/m") = some (.ok p r) ∧
    loadConfig (pluginHost []) 2 true true p = some (.ok p' r') ∧ p.pluginList.map (·.name) = ["bhyve"] ∧
    p'.pluginList.map (·.name) = ["bhyve", "bhyve"] ∧ r.list.map (·.plData.length) = [1, 1] ∧
    r'.list.map (·.plData.length) = [2, 2] := by
  let first : Process → Loaded → Bool := fun p r => decide (p.pluginList.map (·.name) = ["bhyve"] ∧
    r.list.map (·.plData.length) = [1, 1])
  let second : Process → Loaded → Bool := fun p r => decide (p.pluginList.map (·.name) = ["bhyve", "bhyve"] ∧
    r.list.map (·.plData.length) = [2, 2])
  obtain ⟨p, r, p', r', hload, hload', hfirst, hsecond⟩ := exists_loaded_twice
    (show loadsTwice (pluginHost []) 2 first second = true by decide +kernel)
  obtain ⟨hplugins, hdata⟩ := of_decide_eq_true hfirst
  obtain ⟨hplugins', hdata'⟩ := of_decide_eq_true hsecond
  exact ⟨p, r, p', r', hload, hload', hplugins, hplugins', hdata, hdata'⟩

end Bmd
