import Bmd.Conf.Load

/-!
# `Correctness.Params` — what the parameters of a VM section can do

`SettingInvariant` names the steps by which `vm_conf_set_params` changes a configuration; a property that they keep is
kept by a whole section with all the templates it applies. `WorkInvariant` is the same for a property of the values
that were given to the keys besides. The first use is the ownership of a configuration.
-/

namespace Bmd

open Lib
open Lib.Prog (Keeps bind_ok get_bind get_ok pure_ok modify_ok throw_ok of_bind of_modify)

variable {d d' : Draft} {w w' : Work} {val : String} {uid : UInt32} {name : String} {ts : Cftokens}
  {r : Option String} {c : Prop} {conf : VmConf} {id : Nat}

/-! ## Invariants of a section -/

/-- The values of arguments were evaluated in the scope of the caller, or are empty. -/
def ArgsFrom (d : Draft) (args : Vartree) : Prop :=
  ∀ k v, (k, v) ∈ args → v = "" ∨ ∃ ts, tokenToString d.vars ts = .ok v

/-- What `vm_conf_set_params` does to a configuration keeps `P`. -/
structure SettingInvariant (env : ParseEnv) (P : Draft → Prop) : Prop where
  parse : ∀ e ∈ parserList, ∀ d d' ts val, P d → tokenToString d.vars ts = .ok val →
    e.parse env d val = .ok (some d') → P d'
  clear : ∀ e ∈ parserList, ∀ c, e.clear = some c → ∀ d, P d → P (c d)
  assign : ∀ d k ts val, P d → tokenToString d.vars ts = .ok val → P { d with vars := d.vars.setVar k val }
  plugin : ∀ d key val, P d → P { d with plData := (callPluginParser key val d.plData).2 }
  bind : ∀ d args, P d → ArgsFrom d args → P (d.withArgs (some args))
  restore : ∀ d d', P d → P d' → P (d'.withArgs d.vars.args)

/-- The same for a property of the configuration and the history of its values. -/
structure WorkInvariant (env : ParseEnv) (P : Draft → List Given → Prop) : Prop where
  parse : ∀ e ∈ parserList, ∀ d d' l ts val, P d l → tokenToString d.vars ts = .ok val →
    e.parse env d val = .ok (some d') → P d' (d.given e val true :: l)
  reject : ∀ e ∈ parserList, ∀ d l ts val, P d l → tokenToString d.vars ts = .ok val →
    e.parse env d val = .ok none → P d (d.given e val false :: l)
  clear : ∀ e ∈ parserList, ∀ c, e.clear = some c → ∀ d l, P d l → P (c d) l
  assign : ∀ d l k ts val, P d l → tokenToString d.vars ts = .ok val → P { d with vars := d.vars.setVar k val } l
  plugin : ∀ d l key val, P d l → P { d with plData := (callPluginParser key val d.plData).2 } l
  bind : ∀ d l args, P d l → ArgsFrom d args → P (d.withArgs (some args)) l
  restore : ∀ d d' l l', P d l → P d' l' → P (d'.withArgs d.vars.args) l'

theorem SettingInvariant.work {env : ParseEnv} {P : Draft → Prop} (h : SettingInvariant env P) :
    WorkInvariant env fun d _ => P d where
  parse e he d d' _ := h.parse e he d d'
  reject _ _ _ _ _ _ hd _ _ := hd
  clear e he c hc d _ := h.clear e he c hc d
  assign d _ := h.assign d
  plugin d _ := h.plugin d
  bind d _ := h.bind d
  restore d d' _ _ := h.restore d d'

/-- The property holds after if it held before. -/
def Retains (P : Draft → List Given → Prop) (w w' : Work) : Prop := P w.draft w.values → P w'.draft w'.values

instance (P : Draft → List Given → Prop) : IsPreorder Work (Retains P) where
  refl _ h := h
  trans _ _ _ h h' hp := h' (h hp)

/-- `token_to_string` changes nothing, and returns unless the processor traps. -/
theorem valueOf_ok_iff : valueOf ts w = .ok (r, w') ↔ tokenToString w.draft.vars ts ≠ .error .trap ∧
      r = (tokenToString w.draft.vars ts).toOption ∧ w' = w := by
  have hrun : valueOf ts w = .ok (r, w') ↔ _ := bind_ok
  rw [hrun]
  simp only [get_ok]
  cases hts : tokenToString w.draft.vars ts with
  | ok val =>
    constructor
    · rintro ⟨t, s, ⟨rfl, rfl⟩, h⟩
      rw [hts] at h
      obtain ⟨rfl, rfl⟩ := pure_ok.mp h
      exact ⟨nofun, rfl, rfl⟩
    · rintro ⟨-, rfl, rfl⟩
      refine ⟨_, _, ⟨rfl, rfl⟩, ?_⟩
      rw [hts]
      rfl
  | error stop =>
    constructor
    · rintro ⟨t, s, ⟨rfl, rfl⟩, h⟩
      rw [hts] at h
      cases stop with
      | error =>
        obtain ⟨rfl, rfl⟩ := pure_ok.mp h
        exact ⟨nofun, rfl, rfl⟩
      | trap => exact (throw_ok.mp h).elim
    · rintro ⟨hne, rfl, rfl⟩
      refine ⟨_, _, ⟨rfl, rfl⟩, ?_⟩
      rw [hts]
      cases stop with
      | error => rfl
      | trap => exact absurd rfl hne

theorem valueOf_ok (h : valueOf ts w = .ok (r, w')) :
    w' = w ∧ ∀ val, r = some val → tokenToString w.draft.vars ts = .ok val := by
  obtain ⟨-, rfl, hw⟩ := valueOf_ok_iff.mp h
  refine ⟨hw, fun val hval => ?_⟩
  cases hts : tokenToString w.draft.vars ts with
  | ok x =>
    rw [hts] at hval
    exact congrArg Except.ok (Option.some.inj hval)
  | error stop =>
    rw [hts] at hval
    cases hval

theorem modDraft_ok {f : Draft → Draft} {u : Unit} (h : modDraft f w = .ok (u, w')) :
    w' = { w with draft := f w.draft } := of_modify h

section Invariant

variable {env : ParseEnv} {P : Draft → List Given → Prop} (hP : WorkInvariant env P) {u : Unit}

include hP

omit hP in
/-- **A value** is rejected, or gives a new draft. -/
theorem setValue_ok {e : ParserEntry} :
    setValue env e val w = .ok (u, w') ↔ (e.parse env w.draft val = .ok none ∧ w' = w.given e val false) ∨
      ∃ d, e.parse env w.draft val = .ok (some d) ∧ w' = { w.given e val true with draft := d } := by
  constructor
  · intro h
    replace h := get_bind h
    cases hparse : e.parse env w.draft val with
    | error c =>
      rw [hparse] at h
      exact (throw_ok.mp h).elim
    | ok r =>
      rw [hparse] at h
      cases r with
      | none => exact .inl ⟨rfl, of_modify h⟩
      | some d => exact .inr ⟨d, rfl, of_modify h⟩
  · rintro (⟨hparse, rfl⟩ | ⟨d, hparse, rfl⟩)
    · refine bind_ok.mpr ⟨w, w, get_ok.mpr ⟨rfl, rfl⟩, ?_⟩
      rw [hparse]
      exact modify_ok.mpr rfl
    · refine bind_ok.mpr ⟨w, w, get_ok.mpr ⟨rfl, rfl⟩, ?_⟩
      rw [hparse]
      exact modify_ok.mpr rfl

theorem setValue_keeps {e : ParserEntry} (he : e ∈ parserList)
    (hval : tokenToString w.draft.vars ts = .ok val) (h : setValue env e val w = .ok (u, w')) : Retains P w w' := by
  intro hw
  obtain ⟨hparse, rfl⟩ | ⟨d, hparse, rfl⟩ := setValue_ok.mp h
  · exact hP.reject e he _ _ _ _ hw hval hparse
  · exact hP.parse e he _ _ _ _ _ hw hval hparse

variable {e : Option ParserEntry} {key : String} {vl : Cfvalue}

theorem setParamValue_keeps (he : ∀ x, e = some x → x ∈ parserList)
    : Keeps (Retains P) (setParamValue env key e vl) := by
  intro w u w' h
  obtain ⟨r, w₁, hval, h₁⟩ := of_bind h
  obtain ⟨hw₁, hr⟩ := valueOf_ok hval
  subst hw₁
  cases r with
  | none =>
    obtain ⟨_, rfl⟩ := pure_ok.mp h₁
    exact id
  | some val =>
    cases e with
    | some e => exact setValue_keeps hP (he e rfl) (hr val rfl) h₁
    | none =>
      intro hw
      rw [modDraft_ok h₁]
      exact hP.plugin _ _ _ _ hw

theorem setValues_keeps (he : ∀ x, e = some x → x ∈ parserList) :
    ∀ vals, Keeps (Retains P) (setValues env key e vals)
  | [] => Keeps.pure _
  | _ :: rest => Keeps.bind (setParamValue_keeps hP he) fun _ => setValues_keeps he rest

theorem assignVar_keeps {k : String} {vals : List Cfvalue} : Keeps (Retains P) (assignVar k vals) := by
  intro w u w' h
  cases vals with
  | nil => exact (throw_ok.mp h).elim
  | cons vl rest =>
    obtain ⟨r, w₁, hval, h₁⟩ := of_bind h
    obtain ⟨hw₁, hr⟩ := valueOf_ok hval
    subst hw₁
    cases r with
    | none =>
      obtain ⟨_, rfl⟩ := pure_ok.mp h₁
      exact id
    | some val =>
      intro hw
      rw [modDraft_ok h₁]
      exact hP.assign _ _ _ _ _ hw (hr val rfl)

theorem clearFirst_keeps (he : ∀ x, e = some x → x ∈ parserList) {operator : Int} :
    Keeps (Retains P) (clearFirst e operator) := by
  unfold clearFirst
  split
  · next c hc =>
    refine Keeps.ite (fun _ w u w' h hw => ?_) fun _ => Keeps.pure _
    obtain ⟨x, hx, hclear⟩ := Option.bind_eq_some_iff.mp hc
    rw [modDraft_ok h]
    exact hP.clear x (he x hx) c hclear _ _ hw
  · exact Keeps.pure _

omit hP in
theorem ArgsFrom.bindArg {d : Draft} {args : Vartree} {name : Option String} (h : ArgsFrom d args)
    (hval : val = "" ∨ ∃ ts, tokenToString d.vars ts = .ok val) : ArgsFrom d (args.bindArg name val) := by
  cases name with
  | none => exact h
  | some name =>
    intro k v hkv
    obtain heq | hmem := List.mem_cons.mp hkv
    · obtain ⟨rfl, rfl⟩ := Prod.mk.inj heq
      exact hval
    · exact h k v (List.mem_of_mem_filter hmem)

omit hP in
/-- The arguments are evaluated in the scope of the caller, which stays as it is. -/
theorem bindArgs_ok : ∀ {defs : List Cfargdef} {given : List Cftokens} {args args' : Vartree} {w w' : Work},
    ArgsFrom w.draft args → bindArgs args defs given w = .ok (args', w') → w' = w ∧ ArgsFrom w.draft args'
  | [], given, args, args', w, w', hargs, h => by
    obtain ⟨rfl, rfl⟩ := pure_ok.mp h
    exact ⟨rfl, hargs⟩
  | d :: defs, given, args, args', w, w', hargs, h => by
    obtain ⟨r, w₁, hval, h₁⟩ := of_bind h
    obtain ⟨hw₁, hr⟩ := valueOf_ok hval
    subst hw₁
    refine bindArgs_ok (hargs.bindArg ?_) h₁
    cases r with
    | none => exact .inl rfl
    | some val => exact .inr ⟨_, hr val rfl⟩

variable {exec : Cfsection → Setting Unit}

omit hP in
/-- The state in which `parse_apply` executes the parameters of a template. -/
theorem applyTemplate_ok {tp : Cfsection} {given : List Cftokens}
    (h : applyTemplate exec name tp given w = .ok ((), w')) : ∃ args w₁, ArgsFrom w.draft args ∧
      bindArgs [] tp.argdefs given w = .ok (args, w) ∧
      exec tp { w with templates := markApplied name w.templates, executed := name :: w.executed,
                       draft := w.draft.withArgs (some args) } = .ok ((), w₁) ∧
      w' = { w₁ with draft := w₁.draft.withArgs w.draft.vars.args } := by
  obtain ⟨args, w₀, hargs, h₁⟩ := of_bind h
  obtain ⟨rfl, hfrom⟩ := bindArgs_ok (fun _ _ hmem => by cases hmem) hargs
  obtain ⟨_, w₂, hmark, h₂⟩ := of_bind h₁
  have h₃ := get_bind h₂
  obtain ⟨_, w₄, hset, h₄⟩ := of_bind h₃
  obtain ⟨_, w₅, hrun, h₅⟩ := of_bind h₄
  obtain rfl := of_modify hmark
  obtain rfl := modDraft_ok hset
  exact ⟨args, w₅, hfrom, hargs, hrun, modDraft_ok h₅⟩

omit hP in
/-- The ways an `.apply` with one target can go. -/
theorem parseApply_ok
    (h : parseApply exec vl w = .ok ((), w')) :
    (w' = w ∧ ∀ name, tokenToString w.draft.vars vl.tokens = .ok name → lookupTemplate name w.templates = .ok none) ∨
      ∃ name tp, tokenToString w.draft.vars vl.tokens = .ok name ∧
      lookupTemplate name w.templates = .ok (some tp) ∧
      ((tp.applied ≠ 0 ∧ w' = { w with reached := name :: w.reached }) ∨
        (tp.applied = 0 ∧ applyTemplate exec name tp vl.args { w with reached := name :: w.reached } = .ok ((), w'))) := by
  obtain ⟨r, w₁, hval, h₁⟩ := of_bind h
  obtain ⟨-, hr, hw₁⟩ := valueOf_ok_iff.mp hval
  subst hw₁
  cases r with
  | none =>
    obtain ⟨_, rfl⟩ := pure_ok.mp h₁
    refine .inl ⟨rfl, fun name hname => ?_⟩
    rw [hname] at hr
    cases hr
  | some name =>
    have hname := (valueOf_ok hval).2 name rfl
    have h₂ := get_bind h₁
    cases hlookup : lookupTemplate name w₁.templates with
    | error c =>
      simp only [hlookup] at h₂
      exact (throw_ok.mp h₂).elim
    | ok found =>
      simp only [hlookup] at h₂
      cases found with
      | none =>
        obtain ⟨_, rfl⟩ := pure_ok.mp h₂
        refine .inl ⟨rfl, fun name' hname' => ?_⟩
        obtain rfl := Except.ok.inj (hname.symm.trans hname')
        exact hlookup
      | some tp =>
        obtain ⟨_, w₂, hreach, h₃⟩ := of_bind h₂
        obtain rfl := of_modify hreach
        refine .inr ⟨name, tp, hname, hlookup, ?_⟩
        split at h₃
        · next happ =>
          obtain ⟨_, rfl⟩ := pure_ok.mp h₃
          exact .inl ⟨happ, rfl⟩
        · next happ => exact .inr ⟨not_not.mp happ, h₃⟩

theorem parseApply_keeps (hexec : ∀ sc, Keeps (Retains P) (exec sc)) : Keeps (Retains P) (parseApply exec vl) := by
  intro w u w' h hw
  obtain ⟨rfl, -⟩ | ⟨name, tp, -, -, ⟨-, rfl⟩ | ⟨-, h⟩⟩ := parseApply_ok h
  · exact hw
  · exact hw
  · obtain ⟨args, w₁, hargs, -, hrun, rfl⟩ := applyTemplate_ok h
    have hw₁ : P w₁.draft w₁.values := hexec tp _ _ _ hrun (hP.bind w.draft w.values args hw hargs)
    exact hP.restore w.draft w₁.draft w.values w₁.values hw hw₁

theorem parseApplies_keeps (hexec : ∀ sc, Keeps (Retains P) (exec sc)) :
    ∀ vals, Keeps (Retains P) (parseApplies exec vals)
  | [] => Keeps.pure _
  | _ :: rest => Keeps.bind (parseApply_keeps hP hexec) fun _ => parseApplies_keeps hexec rest

omit hP in
theorem findParser_mem {e : ParserEntry} (h : findParser key = some e) : e ∈ parserList :=
  List.mem_of_find?_eq_some h

theorem setParam_keeps (hexec : ∀ sc, Keeps (Retains P) (exec sc)) {pr : Cfparam} :
    Keeps (Retains P) (setParam env exec pr) := by
  unfold setParam
  split
  · exact Keeps.throw _
  · exact assignVar_keeps hP
  · refine Keeps.ite (fun _ => parseApplies_keeps hP hexec _) fun _ => ?_
    exact Keeps.bind (clearFirst_keeps hP fun _ hx => findParser_mem hx) fun _ =>
      setValues_keeps hP (fun _ hx => findParser_mem hx) _

theorem setParams_keeps (hexec : ∀ sc, Keeps (Retains P) (exec sc)) :
    ∀ ps, Keeps (Retains P) (setParams env exec ps)
  | [] => Keeps.pure _
  | _ :: rest => Keeps.bind (setParam_keeps hP hexec) fun _ => setParams_keeps hexec rest

/-- **A whole section keeps an invariant of its steps**, whatever templates it applies. -/
theorem vmConfSetParams_keeps : ∀ depth sc, Keeps (Retains P) (vmConfSetParams env depth sc)
  | 0, _ => Keeps.pure _
  | depth + 1, sc => setParams_keeps hP (vmConfSetParams_keeps depth) sc.params

end Invariant

/-! ## What the functions of `parser_list` leave as it is -/

/-- The owner, the name, the data of the plugins and the variables, with which most parameters have nothing to do. -/
def Draft.aside (d : Draft) : Int × Int × String × List String × List (Plugin × NvList) × Variables :=
  (d.conf.owner, d.conf.group, d.conf.name, d.names, d.plData, d.vars)

/-- The function leaves a part of the configuration as it is. -/
def Frame {β : Type} (part : Draft → β) (fn : ParseFn) : Prop :=
  ∀ env d val d', fn env d val = .ok (some d') → part d' = part d

section Frame

variable {β : Type} {part : Draft → β} {α : Type} {f : ListField α} {x : α}

theorem frame_store {f : String → VmConf → VmConf} (h : ∀ val d, part { d with conf := f val d.conf } = part d) :
    Frame part (store f) := by
  intro env d val d' hd
  obtain rfl := Option.some.inj (Except.ok.inj hd)
  exact h val d

theorem frame_storeInt {f : Int → VmConf → VmConf} (h : ∀ n d, part { d with conf := f n d.conf } = part d) :
    Frame part (storeInt f) := by
  intro env d val d' hd
  obtain ⟨n, -, rfl⟩ := Option.map_eq_some_iff.mp (Except.ok.inj hd)
  exact h n d

theorem addConf_ok (h : addConf f x d = .ok (some d')) :
    ∃ q, (f.get d).insertTail x = some q ∧ d' = f.count (f.set q d) := by
  unfold addConf at h
  split at h
  · cases h
  · next q hq => exact ⟨q, hq, (Option.some.inj (Except.ok.inj h)).symm⟩

theorem frame_addConf (h : addConf f x d = .ok (some d'))
    (hf : ∀ q, part (f.count (f.set q d)) = part d) : part d' = part d := by
  obtain ⟨q, -, rfl⟩ := addConf_ok h
  exact hf q

end Frame

theorem accepted_if [Decidable c]
    (h : (if c then .ok (some d) else .ok none : Except Crash (Option Draft)) = .ok (some d')) : c ∧ d = d' := by
  split at h
  · next hc => exact ⟨hc, Option.some.inj (Except.ok.inj h)⟩
  · cases h

theorem accepted_then [Decidable c] {r : Except Crash (Option Draft)}
    (h : (if c then r else .ok none) = .ok (some d')) : c ∧ r = .ok (some d') := by
  split at h
  · next hc => exact ⟨hc, h⟩
  · cases h

/-- Only `parse_owner` and `parse_name` change the owner, the name and the variables, and none changes the data of the
    plugins. -/
theorem frame_parserList : ∀ e ∈ parserList, e.parse = parseOwner ∨ e.parse = parseName ∨ Frame Draft.aside e.parse := by
  simp only [parserList, List.forall_mem_cons]
  and_intros
  all_goals first | exact .inl trivial | exact .inr (.inl trivial) | exact List.forall_mem_nil _ | refine .inr (.inr ?_)
  -- Most functions store a text or an integer in another field.
  all_goals
    first
    | exact frame_store fun _ _ => rfl
    | exact frame_storeInt fun _ _ => rfl
    | intro env d val d' h
  -- The others append to a list, or set a field on a condition.
  all_goals
    first
    | exact frame_addConf h fun _ => rfl
    | exact frame_addConf (accepted_then h).2 fun _ => rfl
    | obtain ⟨-, rfl⟩ := accepted_if h; rfl
    | obtain ⟨_, -, rfl⟩ := Option.map_eq_some_iff.mp (Except.ok.inj h); rfl

theorem parserList_names_nodup : (parserList.map (·.name)).Nodup := by decide

/-- The `clear` functions. -/
theorem forall_clear {P : (Draft → Draft) → Prop} (hbhyve : P (clearConf bhyveEnvsField))
    (hbhyveload : P (clearConf bhyveloadEnvsField)) (hdisk : P (clearConf disksField)) (hiso : P (clearConf isoesField))
    (hnet : P (clearConf netsField)) (hpassthru : P (clearConf passthruesField)) :
    ∀ e ∈ parserList, ∀ c, e.clear = some c → P c := by
  simp only [parserList, List.forall_mem_cons, Option.some.injEq, forall_eq', reduceCtorEq, false_implies, implies_true,
    true_and]
  exact ⟨hbhyve, hbhyveload, hdisk, hiso, hnet, hpassthru, List.forall_mem_nil _⟩

/-- They change nothing of it. -/
theorem frame_clear : ∀ e ∈ parserList, ∀ c, e.clear = some c → ∀ d, Draft.aside (c d) = d.aside :=
  forall_clear (fun _ => rfl) (fun _ => rfl) (fun _ => rfl) (fun _ => rfl) (fun _ => rfl) (fun _ => rfl)

theorem aside_eq (h : d'.aside = d.aside) :
    d'.conf.owner = d.conf.owner ∧ d'.conf.group = d.conf.group ∧ d'.conf.name = d.conf.name ∧ d'.names = d.names ∧
      d'.plData = d.plData ∧ d'.vars = d.vars := by
  obtain ⟨ho, h⟩ := Prod.mk.inj h
  obtain ⟨hg, h⟩ := Prod.mk.inj h
  obtain ⟨hn, h⟩ := Prod.mk.inj h
  obtain ⟨hh, h⟩ := Prod.mk.inj h
  obtain ⟨hp, hv⟩ := Prod.mk.inj h
  exact ⟨ho, hg, hn, hh, hp, hv⟩

/-! ## Ownership -/

/-- The group that a passwd entry with the given uid belongs to. -/
def GroupOf (sys : Sys) (uid : UInt32) (group : Int) : Prop :=
  ∃ user pwd gid, sys.getpwnam user = some pwd ∧ pwd.uid = uid ∧ sys.isInGroup pwd.name pwd.gid gid = true ∧
    group = gid.toNat

/-- The configuration belongs to `uid`, and its group is one of theirs. -/
def OwnedBy (sys : Sys) (uid : UInt32) (d : Draft) : Prop :=
  d.conf.owner = uid.toNat ∧ (d.conf.group = -1 ∨ GroupOf sys uid d.conf.group)

theorem getOwner_toNat (h : conf.owner = uid.toNat) : getOwner conf = uid.toNat := by
  have hlt := uid.toNat_lt
  unfold getOwner
  omega

theorem parseOwner_ok {env : ParseEnv} (h : parseOwner env d val = .ok (some d')) :
    ∃ user group pwd gid, env.sys.getpwnam user = some pwd ∧
      ¬(getOwner d.conf ≠ 0 ∧ getOwner d.conf ≠ pwd.uid.toNat) ∧ ownerGroup env.sys d.conf pwd group = some gid ∧
      d' = setOwner d user pwd.uid group gid := by
  unfold parseOwner at h
  generalize ownerParts val = parts at h
  obtain ⟨user, group⟩ := parts
  cases hpwd : env.sys.getpwnam user with
  | none => simp only [hpwd] at h; cases h
  | some pwd =>
    simp only [hpwd] at h
    split at h
    · cases h
    · next hsame =>
      cases hgid : ownerGroup env.sys d.conf pwd group with
      | none => simp only [hgid] at h; cases h
      | some gid =>
        simp only [hgid] at h
        exact ⟨user, group, pwd, gid, hpwd, hsame, hgid, (Option.some.inj (Except.ok.inj h)).symm⟩

theorem ownerGroup_ok {sys : Sys} {pwd : Passwd} {group : Option String} {gid : Option UInt32}
    (hne : getOwner conf ≠ 0) (h : ownerGroup sys conf pwd group = some gid) :
    ∀ g, gid = some g → sys.isInGroup pwd.name pwd.gid g = true := by
  rintro g rfl
  unfold ownerGroup at h
  split at h
  · cases h
  · split at h
    · cases h
    · split at h
      · cases h
      · next gid _ hin =>
        obtain rfl : gid = g := Option.some.inj (Option.some.inj h)
        cases hg : sys.isInGroup pwd.name pwd.gid gid with
        | true => rfl
        | false => exact absurd ⟨hne, by rw [hg]; rfl⟩ hin

theorem setOwner_ok (d : Draft) (user : String) (uid : UInt32) (group : Option String) (gid : Option UInt32) :
    (setOwner d user uid group gid).conf.owner = uid.toNat ∧
      ((setOwner d user uid group gid).conf.group = d.conf.group ∨
        ∃ g, gid = some g ∧ (setOwner d user uid group gid).conf.group = g.toNat) := by
  cases group with
  | none => exact ⟨rfl, .inl rfl⟩
  | some group =>
    cases gid with
    | none => exact ⟨rfl, .inl rfl⟩
    | some g => exact ⟨rfl, .inr ⟨g, rfl, rfl⟩⟩

/-- `parse_owner` for a configuration that belongs to an ordinary user. -/
theorem parseOwner_owned {env : ParseEnv} (huid : uid ≠ 0)
    (hd : d.conf.owner = uid.toNat) (h : parseOwner env d val = .ok (some d')) :
    d'.conf.owner = uid.toNat ∧ (d'.conf.group = d.conf.group ∨ GroupOf env.sys uid d'.conf.group) := by
  obtain ⟨user, group, pwd, gid, hpwd, hsame, hgid, rfl⟩ := parseOwner_ok h
  have howner : getOwner d.conf = uid.toNat := getOwner_toNat hd
  have hne : getOwner d.conf ≠ 0 := by
    intro h0
    rw [howner] at h0
    exact huid (UInt32.toNat.inj (Int.ofNat.inj h0))
  have hpuid : pwd.uid = uid := by
    by_contra hdiff
    refine hsame ⟨hne, fun heq => hdiff ?_⟩
    rw [howner] at heq
    exact (UInt32.toNat.inj (Int.ofNat.inj heq)).symm
  obtain ⟨hown, hgroup⟩ := setOwner_ok d user pwd.uid group gid
  refine ⟨hown.trans (by rw [hpuid]), hgroup.imp id ?_⟩
  rintro ⟨g, hg, hset⟩
  exact ⟨user, pwd, g, hpwd, hpuid, ownerGroup_ok hne hgid g hg, hset⟩

/-- `parse_owner` sets the owner, the group and variables. -/
theorem frame_parseOwner {β : Type} {part : Draft → β}
    (h : ∀ d o g vars, part { d with conf := { d.conf with owner := o, group := g }, vars := vars } = part d) :
    Frame part parseOwner := by
  intro env d val d' hparse
  obtain ⟨user, group, pwd, gid, -, -, -, rfl⟩ := parseOwner_ok hparse
  unfold setOwner
  split
  · exact h d _ _ _
  · exact h d _ d.conf.group _

/-- A property of what most parameters have nothing to do with. -/
theorem SettingInvariant.of_aside {env : ParseEnv} {P : Draft → Prop} (haside : ∀ d d', d'.aside = d.aside → P d → P d')
    (howner : ∀ d d' val, P d → parseOwner env d val = .ok (some d') → P d')
    (hname : ∀ d val, P d → P { d with
      conf := { d.conf with name := val }, vars := d.vars.setVar "NAME" val, names := val :: d.names })
    (hassign : ∀ d k val, P d → P { d with vars := d.vars.setVar k val })
    (hplugin : ∀ d key val, P d → P { d with plData := (callPluginParser key val d.plData).2 })
    (hargs : ∀ d args, P d → P (d.withArgs args)) : SettingInvariant env P where
  parse e he d d' _ val hd _ h := by
    obtain heq | heq | hframe := frame_parserList e he
    · exact howner d d' val hd (heq ▸ h)
    · rw [heq] at h
      obtain rfl := Option.some.inj (Except.ok.inj h)
      exact hname d val hd
    · exact haside d d' (hframe env d val d' h) hd
  clear e he c hc d hd := haside d _ (frame_clear e he c hc d) hd
  assign d k _ val hd _ := hassign d k val hd
  plugin := hplugin
  bind d args hd _ := hargs d _ hd
  restore d d' _ hd' := hargs d' _ hd'

theorem owner_settingInvariant {env : ParseEnv} (huid : uid ≠ 0) :
    SettingInvariant env fun d => d.conf.owner = uid.toNat :=
  .of_aside (fun _ _ h => (aside_eq h).1.trans) (fun _ _ _ hd h => (parseOwner_owned huid hd h).1)
    (fun _ _ => id) (fun _ _ _ => id) (fun _ _ _ => id) fun _ _ => id

theorem ownedBy_settingInvariant {env : ParseEnv} (huid : uid ≠ 0) : SettingInvariant env (OwnedBy env.sys uid) := by
  refine .of_aside (fun d d' h hd => ?_) (fun d d' val hd h => ?_) (fun _ _ => id) (fun _ _ _ => id) (fun _ _ _ => id)
    fun _ _ => id
  · obtain ⟨hown, hgroup, -⟩ := aside_eq h
    refine ⟨hown.trans hd.1, ?_⟩
    rw [hgroup]
    exact hd.2
  · obtain ⟨hown, hsame | hnew⟩ := parseOwner_owned huid hd.1 h
    · refine ⟨hown, ?_⟩
      rw [hsame]
      exact hd.2
    · exact ⟨hown, .inr hnew⟩

theorem beginDraft_ownedBy (env : ParseEnv) (gv : Vartree) (id : Nat) (name : String) (owner : UInt32) :
    OwnedBy env.sys owner (beginDraft env gv id name owner) := by
  unfold beginDraft
  split
  · exact ⟨rfl, .inl rfl⟩
  · exact ⟨rfl, .inl rfl⟩

/-- The section is executed, with the result `w`. -/
def Executes (env : ParseEnv) (gv : Vartree) (templates : List Cfsection) (id : Nat) (name : String) (sc : Cfsection)
    (w : Work) : Prop :=
  vmConfSetParams env (templates.length + 1) sc
    { draft := beginDraft env gv id name sc.owner, templates := clearApplied templates, reached := [], executed := [] } =
      .ok ((), w)

theorem execSection_ok {env : ParseEnv} {gv : Vartree} {templates templates' : List Cfsection}
    {sc : Cfsection} {d : Draft} (h : execSection env gv templates id name sc = .ok (d, templates')) :
    ∃ w, d = w.draft ∧ templates' = w.templates ∧ Executes env gv templates id name sc w := by
  unfold execSection at h
  cases hrun : vmConfSetParams env (templates.length + 1) sc
      { draft := beginDraft env gv id name sc.owner, templates := clearApplied templates, reached := [], executed := [] } with
  | error c =>
    rw [hrun] at h
    cases h
  | ok r =>
    rw [hrun] at h
    obtain ⟨hd, ht⟩ := Prod.mk.inj (Except.ok.inj h)
    exact ⟨r.2, hd.symm, ht.symm, hrun⟩

theorem finalizeVmConf_owner (conf : VmConf) :
    (finalizeVmConf conf).owner = conf.owner ∧ (finalizeVmConf conf).group = conf.group := by
  unfold finalizeVmConf
  split
  · exact ⟨rfl, rfl⟩
  · exact ⟨rfl, rfl⟩

theorem confEntOf_ok {d : Draft} {ent : ConfEnt} (h : confEntOf name id d = some ent) :
    checkConf (finalizeVmConf d.conf) = true ∧
      ent = { conf := finalizeVmConf d.conf, locals := d.vars.locals.getD [], plData := d.plData, sectionName := name,
              id := id, names := d.names } := by
  simp only [confEntOf] at h
  split at h
  · next hcheck => exact ⟨hcheck, (Option.some.inj h).symm⟩
  · cases h

/-- **Ownership cannot be escalated from a configuration file.** Whatever is written in a section that belongs to an
    ordinary user, and in the templates, the configuration belongs to that user, with no group or one of theirs. A
    configuration that has come to belong to an ordinary user stays theirs, whatever parameters follow. -/
theorem owner_not_escalated (env : ParseEnv) (uid : UInt32) (huid : uid ≠ 0) :
    (∀ gv templates id name sc d templates' ent, sc.owner = uid →
      execSection env gv templates id name sc = .ok (d, templates') → confEntOf name id d = some ent →
        ent.conf.owner = uid.toNat ∧ (ent.conf.group = -1 ∨ GroupOf env.sys uid ent.conf.group)) ∧
    (∀ (d d' : Draft) val, d.conf.owner = uid.toNat → parseOwner env d val = .ok (some d') → d'.conf.owner = uid.toNat) ∧
    ∀ depth ps (w w' : Work), w.draft.conf.owner = uid.toNat →
      setParams env (vmConfSetParams env depth) ps w = .ok ((), w') → w'.draft.conf.owner = uid.toNat := by
  refine ⟨?_, ?_, ?_⟩
  · rintro gv templates id name sc d templates' ent rfl hexec hent
    obtain ⟨w, rfl, -, hrun⟩ := execSection_ok hexec
    have howned : OwnedBy env.sys sc.owner w.draft :=
      vmConfSetParams_keeps (ownedBy_settingInvariant huid).work _ _ _ _ _ hrun (beginDraft_ownedBy ..)
    obtain ⟨-, rfl⟩ := confEntOf_ok hent
    obtain ⟨hown, hgroup⟩ := finalizeVmConf_owner w.draft.conf
    show (finalizeVmConf w.draft.conf).owner = _ ∧ ((finalizeVmConf w.draft.conf).group = _ ∨ _)
    rw [hown, hgroup]
    exact howned
  · intro d d' val hd h
    exact (parseOwner_owned huid hd h).1
  · intro depth ps w w' hw h
    have hinv : WorkInvariant env fun d _ => d.conf.owner = uid.toNat := (owner_settingInvariant huid).work
    exact setParams_keeps hinv (vmConfSetParams_keeps hinv depth) ps _ _ _ h hw

theorem exists_confEnt {r : Except Crash (Draft × List Cfsection)}
    (h : (r.toOption.bind fun x => confEntOf name id x.1).isSome = true) :
    ∃ d templates ent, r = .ok (d, templates) ∧ confEntOf name id d = some ent := by
  obtain ⟨ent, hent⟩ := Option.isSome_iff_exists.mp h
  cases r with
  | error c => cases hent
  | ok x => exact ⟨x.1, x.2, ent, rfl, hent⟩

/-- A host with a user `u`, who is a member of the group `g`. -/
def ownerEnv : ParseEnv where
  sys := { Sys.of [] with
    getpwnam := fun user => if user = "u" then some { name := "u", uid := 1001, gid := 1001 } else none
    getgrnam := fun group => if group = "g" then some 20 else none
    isInGroup := fun user _ gid => user == "u" && gid == 20 }
  plugins := []

/-- A section in a file of `u`. -/
def ownerSection : Cfsection :=
  { name := some "a", params := [.set "ncpu" "1", .set "memory" "1G", .set "loader" "uefi", .set "owner" "u:g"]
    argdefs := [], applied := 0, duplicate := 0, owner := 1001, filename := "/m" }

theorem owner_not_escalated_user :
    (∃ d templates ent, execSection ownerEnv [] [] 0 "a" ownerSection = .ok (d, templates) ∧
      confEntOf "a" 0 d = some ent ∧ ent.conf.owner = (1001 : UInt32).toNat ∧
      (ent.conf.group = -1 ∨ GroupOf ownerEnv.sys 1001 ent.conf.group)) ∧
    ∃ w, setParams ownerEnv (vmConfSetParams ownerEnv 0) [.set "owner" "u", .set "owner" "root"]
        { draft := beginDraft ownerEnv [] 0 "a" 1001, templates := [], reached := [], executed := [] } = .ok ((), w) ∧
      w.draft.conf.owner = (1001 : UInt32).toNat := by
  have htheorem := owner_not_escalated ownerEnv 1001 (by decide)
  obtain ⟨w, hw⟩ : ∃ w, setParams ownerEnv (vmConfSetParams ownerEnv 0) [.set "owner" "u", .set "owner" "root"]
      { draft := beginDraft ownerEnv [] 0 "a" 1001, templates := [], reached := [], executed := [] } = .ok ((), w) :=
    ⟨_, rfl⟩
  refine ⟨?_, w, hw, htheorem.2.2 0 _ _ w rfl hw⟩
  obtain ⟨d, templates, ent, hexec, hent⟩ : ∃ d templates ent,
      execSection ownerEnv [] [] 0 "a" ownerSection = .ok (d, templates) ∧ confEntOf "a" 0 d = some ent :=
    exists_confEnt (by decide +kernel)
  exact ⟨d, templates, ent, hexec, hent, htheorem.1 _ _ _ _ _ _ _ _ rfl hexec hent⟩

end Bmd
