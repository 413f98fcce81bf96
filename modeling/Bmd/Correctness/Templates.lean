import Bmd.Correctness.Params

/-!
# `Correctness.Templates` — templates are applied once, and sections do not see each other

`parse_apply` marks a template before it executes its parameters, and the marks are removed only between sections. So
the number of templates without a mark bounds the depth of the recursion, whatever the targets of `.apply` evaluate
to, and a section leaves nothing to the next one but marks.
-/

namespace Bmd

open Lib
open Lib.Prog (Keeps Agree bind_ok get_ok pure_ok of_modify throw_ok)

variable {tp : Cfsection} {name : String} {w : Work} {ts ts' : List Cfsection}

/-! ## What a section does besides its configuration -/

/-- The steps by which `vm_conf_set_params` changes what it works on: the configuration; an `.apply` that finds a
    template with a mark; and one that finds a template without. -/
structure WorkRule (R : Work → Work → Prop) : Prop where
  draft : ∀ w d, R w { w with draft := d }
  value : ∀ w x, R w { w with values := x :: w.values }
  again : ∀ w name tp, lookupTemplate name w.templates = .ok (some tp) → tp.applied ≠ 0 →
    R w { w with reached := name :: w.reached }
  first : ∀ w name tp, lookupTemplate name w.templates = .ok (some tp) → tp.applied = 0 →
    R w { w with templates := markApplied name w.templates, reached := name :: w.reached, executed := name :: w.executed }

section Rule

variable {env : ParseEnv} {R : Work → Work → Prop} [IsPreorder Work R] (hR : WorkRule R)

include hR

omit [IsPreorder Work R] in
theorem modDraft_work {f : Draft → Draft} : Keeps R (modDraft f) := by
  intro w u w' h
  rw [modDraft_ok h]
  exact hR.draft w _

omit hR in
theorem valueOf_work {ts : Cftokens} : Keeps R (valueOf ts) := by
  intro w r w' h
  rw [(valueOf_ok h).1]
  exact refl_of R w

theorem setValue_work {e : ParserEntry} {val : String} : Keeps R (setValue env e val) := by
  intro w u w' h
  obtain ⟨-, rfl⟩ | ⟨d, -, rfl⟩ := setValue_ok.mp h
  · exact hR.value w _
  · exact trans_of R (hR.value w _) (hR.draft _ d)

variable {e : Option ParserEntry} {vl : Cfvalue} {exec : Cfsection → Setting Unit}

theorem setParamValue_work {key : String} : Keeps R (setParamValue env key e vl) := by
  refine Keeps.bind valueOf_work fun r => ?_
  cases r with
  | none => exact Keeps.pure _
  | some val =>
    cases e with
    | some e => exact setValue_work hR
    | none => exact modDraft_work hR

theorem setValues_work {key : String} : ∀ vals, Keeps R (setValues env key e vals)
  | [] => Keeps.pure _
  | _ :: rest => Keeps.bind (setParamValue_work hR) fun _ => setValues_work rest

theorem assignVar_work {k : String} {vals : List Cfvalue} : Keeps R (assignVar k vals) := by
  cases vals with
  | nil => exact Keeps.throw _
  | cons vl rest =>
    refine Keeps.bind valueOf_work fun r => ?_
    cases r with
    | none => exact Keeps.pure _
    | some val => exact modDraft_work hR

theorem clearFirst_work {operator : Int} : Keeps R (clearFirst e operator) := by
  unfold clearFirst
  split
  · exact Keeps.ite (fun _ => modDraft_work hR) fun _ => Keeps.pure _
  · exact Keeps.pure _

theorem parseApply_work (hexec : ∀ sc, Keeps R (exec sc)) : Keeps R (parseApply exec vl) := by
  intro w u w' h
  obtain ⟨rfl, -⟩ | ⟨name, tp, -, hlookup, ⟨happ, rfl⟩ | ⟨happ, h⟩⟩ := parseApply_ok h
  · exact refl_of R _
  · exact hR.again w name tp hlookup happ
  · obtain ⟨args, w₁, -, -, hrun, rfl⟩ := applyTemplate_ok h
    have hargs := hR.draft { w with templates := markApplied name w.templates, reached := name :: w.reached,
                                    executed := name :: w.executed } (w.draft.withArgs (some args))
    refine trans_of R (hR.first w name tp hlookup happ) (trans_of R hargs ?_)
    exact trans_of R (hexec tp _ _ _ hrun) (hR.draft w₁ _)

theorem parseApplies_work {exec : Cfsection → Setting Unit} (hexec : ∀ sc, Keeps R (exec sc)) :
    ∀ vals, Keeps R (parseApplies exec vals)
  | [] => Keeps.pure _
  | _ :: rest => Keeps.bind (parseApply_work hR hexec) fun _ => parseApplies_work hexec rest

theorem setParam_work (hexec : ∀ sc, Keeps R (exec sc)) {pr : Cfparam} : Keeps R (setParam env exec pr) := by
  unfold setParam
  split
  · exact Keeps.throw _
  · exact assignVar_work hR
  · refine Keeps.ite (fun _ => parseApplies_work hR hexec _) fun _ => ?_
    exact Keeps.bind (clearFirst_work hR) fun _ => setValues_work hR _

theorem setParams_work {exec : Cfsection → Setting Unit} (hexec : ∀ sc, Keeps R (exec sc)) :
    ∀ ps, Keeps R (setParams env exec ps)
  | [] => Keeps.pure _
  | _ :: rest => Keeps.bind (setParam_work hR hexec) fun _ => setParams_work hexec rest

theorem vmConfSetParams_work : ∀ depth sc, Keeps R (vmConfSetParams env depth sc)
  | 0, _ => Keeps.pure _
  | depth + 1, sc => setParams_work hR (vmConfSetParams_work depth) sc.params

end Rule

/-! ## Marks -/

/-- A mark is seen under the name it was set for only. -/
theorem lookupTemplate_markApplied {n name : String} : ∀ {ts},
    lookupTemplate n (markApplied name ts) = .ok (some tp) → ∃ tp₀, lookupTemplate n ts = .ok (some tp₀) ∧
      tp.applied = if n = name then tp₀.applied + 1 else tp₀.applied
  | [], h => by cases h
  | t :: rest, h => by
    unfold markApplied at h
    split at h
    · next hname =>
      simp only [lookupTemplate, hname] at h ⊢
      split at h
      · next hn =>
        obtain rfl := Option.some.inj (Except.ok.inj h)
        exact ⟨t, by rw [if_pos hn], by rw [if_pos hn.symm]⟩
      · next hn => exact ⟨tp, by rwa [if_neg hn], by rw [if_neg (Ne.symm hn)]⟩
    · next hname =>
      cases ht : t.name with
      | none =>
        simp only [lookupTemplate, ht] at h
        cases h
      | some m =>
        simp only [lookupTemplate, ht] at h ⊢
        have hm : m ≠ name := fun heq => hname (ht.trans (congrArg some heq))
        split at h
        · next hn =>
          obtain rfl := Option.some.inj (Except.ok.inj h)
          exact ⟨t, by rw [if_pos hn], by rw [if_neg (hn ▸ hm)]⟩
        · next hn =>
          obtain ⟨tp₀, hlookup, happ⟩ := lookupTemplate_markApplied h
          exact ⟨tp₀, by rwa [if_neg hn], happ⟩

/-- The number of templates without a mark. -/
def unapplied (templates : List Cfsection) : Nat := templates.countP (·.applied == 0)

theorem unapplied_markApplied : ∀ {ts},
    lookupTemplate name ts = .ok (some tp) → tp.applied = 0 → unapplied (markApplied name ts) < unapplied ts
  | [], h, _ => by cases h
  | t :: rest, h, htp => by
    cases hname : t.name with
    | none =>
      simp only [lookupTemplate, hname] at h
      cases h
    | some m =>
      simp only [lookupTemplate, hname] at h
      split at h
      · next hm =>
        obtain rfl := Option.some.inj (Except.ok.inj h)
        simp [markApplied, unapplied, hname, hm, htp]
      · next hm =>
        have ih := unapplied_markApplied h htp
        simp only [unapplied] at ih
        simp [markApplied, unapplied, hname, hm, List.countP_cons, ih]

theorem clearApplied_markApplied (name : String) : ∀ ts, clearApplied (markApplied name ts) = clearApplied ts
  | [] => rfl
  | tp :: rest => by
    have ih := clearApplied_markApplied name rest
    unfold markApplied
    split
    · rfl
    · exact congrArg (_ :: ·) ih

theorem unapplied_le (templates : List Cfsection) : unapplied templates ≤ templates.length := List.countP_le_length

/-! ## The record of a section -/

/-- The templates that were executed are those that were reached, each was executed once, and their marks say which
    they are. -/
structure Recorded (w : Work) : Prop where
  nodup : w.executed.Nodup
  marks : ∀ name tp, lookupTemplate name w.templates = .ok (some tp) → (tp.applied ≠ 0 ↔ name ∈ w.executed)
  reached : ∀ name, name ∈ w.executed ↔ name ∈ w.reached

/-- The record stays right, and no mark is removed. -/
def Advances (w w' : Work) : Prop := Recorded w → Recorded w' ∧ unapplied w'.templates ≤ unapplied w.templates

instance : IsPreorder Work Advances where
  refl _ h := ⟨h, le_refl _⟩
  trans _ _ _ h h' hw := ⟨(h' (h hw).1).1, le_trans (h' (h hw).1).2 (h hw).2⟩

theorem Recorded.again (hw : Recorded w)
    (hlookup : lookupTemplate name w.templates = .ok (some tp)) (happ : tp.applied ≠ 0) :
    Recorded { w with reached := name :: w.reached } where
  nodup := hw.nodup
  marks := hw.marks
  reached n := by
    rw [List.mem_cons, ← hw.reached n]
    refine ⟨.inr, ?_⟩
    rintro (rfl | hn)
    · exact (hw.marks _ tp hlookup).mp happ
    · exact hn

theorem Recorded.first (hw : Recorded w)
    (hlookup : lookupTemplate name w.templates = .ok (some tp)) (happ : tp.applied = 0) :
    Recorded { w with templates := markApplied name w.templates, reached := name :: w.reached,
                      executed := name :: w.executed } where
  nodup := List.nodup_cons.mpr ⟨fun hmem => (hw.marks name tp hlookup).mpr hmem happ, hw.nodup⟩
  marks n t ht := by
    obtain ⟨t₀, ht₀, hmark⟩ := lookupTemplate_markApplied ht
    rw [hmark, List.mem_cons]
    by_cases hn : n = name
    · rw [if_pos hn]
      exact iff_of_true (Nat.succ_ne_zero _) (.inl hn)
    · rw [if_neg hn, hw.marks n t₀ ht₀]
      exact ⟨.inr, fun h => h.resolve_left hn⟩
  reached n := by rw [List.mem_cons, List.mem_cons, hw.reached n]

theorem advances_workRule : WorkRule Advances where
  draft _ _ hw := ⟨⟨hw.nodup, hw.marks, hw.reached⟩, le_refl _⟩
  value _ _ hw := ⟨⟨hw.nodup, hw.marks, hw.reached⟩, le_refl _⟩
  again _ _ _ hlookup happ hw := ⟨hw.again hlookup happ, le_refl _⟩
  first _ _ _ hlookup happ hw := ⟨hw.first hlookup happ, (unapplied_markApplied hlookup happ).le⟩

/-! ## The recursion -/

/-- The record is right, and fewer than `n` templates have no mark. -/
def Bounded (n : Nat) (w : Work) : Prop := Recorded w ∧ unapplied w.templates < n

theorem Bounded.keeps {α : Type} {n : Nat} {m : Setting α} (hm : Keeps Advances m) {w' : Work} {x : α}
    (hw : Bounded n w) (h : m w = .ok (x, w')) : Bounded n w' := by
  obtain ⟨hrec, hle⟩ := hm w x w' h hw.1
  exact ⟨hrec, lt_of_le_of_lt hle hw.2⟩

section Recursion

variable {env : ParseEnv} {n : Nat} {exec exec' : Cfsection → Setting Unit}
  (hexec : ∀ sc, Agree (Bounded n) (exec sc) (exec' sc)) (hkeeps : ∀ sc, Keeps Advances (exec' sc))

include hexec

/-- The parameters of a template are executed with one more mark set. -/
theorem applyTemplate_agree {given : List Cftokens} {w : Work} (hw : Bounded (n + 1) w)
    (hlookup : lookupTemplate name w.templates = .ok (some tp)) (happ : tp.applied = 0) :
    Agree (· = { w with reached := name :: w.reached }) (applyTemplate exec name tp given)
      (applyTemplate exec' name tp given) := by
  have hbound : ∀ d, Bounded n { w with draft := d, templates := markApplied name w.templates,
                                        reached := name :: w.reached, executed := name :: w.executed } := by
    intro d
    have hrec := hw.1.first hlookup happ
    have hlt := unapplied_markApplied hlookup happ
    exact ⟨⟨hrec.nodup, hrec.marks, hrec.reached⟩, lt_of_lt_of_le hlt (Nat.lt_succ_iff.mp hw.2)⟩
  refine .bind (Q := (· = { w with reached := name :: w.reached })) (.refl _) ?_ fun args => ?_
  · rintro _ x s rfl h
    exact (bindArgs_ok (fun _ _ hmem => by cases hmem) h).1
  refine .bind (Q := fun s => ∀ d, Bounded n { s with draft := d }) (.refl _) ?_ fun _ => ?_
  · rintro _ _ s rfl h d
    rw [of_modify h]
    exact hbound d
  refine .bind (Q := fun s => ∀ d, Bounded n { s with draft := d }) (.refl _) ?_ fun t => ?_
  · intro s₁ _ s₂ hs h
    obtain ⟨-, rfl⟩ := get_ok.mp h
    exact hs
  refine .bind (Q := Bounded n) (.refl _) ?_ fun _ => ?_
  · intro s₁ _ s₂ hs h
    rw [modDraft_ok h]
    exact hs _
  exact .bind (hexec tp) (fun _ _ _ _ _ => trivial) fun _ => .refl (P := fun _ => True) _

theorem parseApply_agree (vl : Cfvalue) : Agree (Bounded (n + 1)) (parseApply exec vl) (parseApply exec' vl) := by
  refine .bind (Q := Bounded (n + 1)) (.refl _) (fun _ _ _ hw h => hw.keeps valueOf_work h) fun r => ?_
  cases r with
  | none => exact .refl _
  | some name =>
    refine .get_bind fun w hw => ?_
    cases hlookup : lookupTemplate name w.templates with
    | error c => rfl
    | ok found =>
      cases found with
      | none => rfl
      | some tp =>
        refine Agree.bind (P := (· = w)) (Q := (· = { w with reached := name :: w.reached })) (.refl _) ?_ (fun _ => ?_) w rfl
        · rintro _ _ s rfl h
          exact of_modify h
        · split
          · exact .refl _
          · next happ => exact applyTemplate_agree hexec hw hlookup (not_not.mp happ)

include hkeeps

theorem parseApplies_agree : ∀ vals, Agree (Bounded (n + 1)) (parseApplies exec vals) (parseApplies exec' vals)
  | [] => .refl _
  | vl :: rest => .bind (parseApply_agree hexec vl)
      (fun _ _ _ hw h => hw.keeps (parseApply_work advances_workRule hkeeps) h) fun _ => parseApplies_agree rest

theorem setParam_agree (pr : Cfparam) : Agree (Bounded (n + 1)) (setParam env exec pr) (setParam env exec' pr) := by
  unfold setParam
  split
  · exact .refl _
  · exact .refl _
  · split
    · exact parseApplies_agree hexec hkeeps _
    · exact .refl _

theorem setParams_agree : ∀ ps, Agree (Bounded (n + 1)) (setParams env exec ps) (setParams env exec' ps)
  | [] => .refl _
  | pr :: rest => .bind (setParam_agree hexec hkeeps pr)
      (fun _ _ _ hw h => hw.keeps (setParam_work advances_workRule hkeeps) h) fun _ => setParams_agree rest

end Recursion

/-- `vm_conf_set_params` where a call does something else if it is nested `depth` times or if it would execute a
    template for the second time. -/
def diverted (env : ParseEnv) (other : Cfsection → Setting Unit) : Nat → Cfsection → Setting Unit
  | 0, sc => other sc
  | depth + 1, sc => setParams env
      (fun tp w => if w.executed.Nodup then diverted env other depth tp w else other tp w) sc.params

theorem diverted_agree (env : ParseEnv) (other : Cfsection → Setting Unit) :
    ∀ n sc, Agree (Bounded n) (diverted env other n sc) (vmConfSetParams env n sc)
  | 0, _ => fun _ hw => absurd hw.2 (Nat.not_lt_zero _)
  | n + 1, sc => by
    refine setParams_agree (fun tp w hw => ?_) (vmConfSetParams_work advances_workRule n) sc.params
    rw [if_pos hw.1.nodup]
    exact diverted_agree env other n tp w hw

/-- More depth makes no difference. -/
theorem vmConfSetParams_succ (env : ParseEnv) :
    ∀ n sc, Agree (Bounded n) (vmConfSetParams env (n + 1) sc) (vmConfSetParams env n sc)
  | 0, _ => fun _ hw => absurd hw.2 (Nat.not_lt_zero _)
  | n + 1, sc => setParams_agree (vmConfSetParams_succ env n) (vmConfSetParams_work advances_workRule n) sc.params

theorem lookupTemplate_clearApplied : ∀ {ts},
    lookupTemplate name (clearApplied ts) = .ok (some tp) → tp.applied = 0
  | [], h => by cases h
  | t :: rest, h => by
    unfold clearApplied at h
    rw [List.map_cons] at h
    unfold lookupTemplate at h
    split at h
    · cases h
    · split at h
      · obtain rfl := Option.some.inj (Except.ok.inj h)
        rfl
      · exact lookupTemplate_clearApplied h

/-- A section begins with no marks and an empty record. -/
theorem bounded_clearApplied (d : Draft) (templates : List Cfsection) {n : Nat} (hn : templates.length < n) :
    Bounded n { draft := d, templates := clearApplied templates, reached := [], executed := [] } where
  left :=
    { nodup := List.nodup_nil
      marks := fun _ _ h => iff_of_false (fun hne => hne (lookupTemplate_clearApplied h)) (List.not_mem_nil)
      reached := fun _ => Iff.rfl }
  right := by
    refine lt_of_le_of_lt (unapplied_le _) ?_
    unfold clearApplied
    rwa [List.length_map]

/-- **Template expansion terminates, and applies each template at most once.** For every set of templates and every
    section, the recursion is never nested deeper than the number of templates and never executes a template again: it
    makes no difference what would be done then. A section that is executed to its end has executed the templates that
    its `.apply`s reached, each once. -/
theorem templates_applied_once (env : ParseEnv) (d : Draft) (templates : List Cfsection) (sc : Cfsection) :
    let w : Work := { draft := d, templates := clearApplied templates, reached := [], executed := [] }
    (∀ depth, templates.length < depth →
      vmConfSetParams env depth sc w = vmConfSetParams env (templates.length + 1) sc w ∧
      ∀ other, diverted env other depth sc w = vmConfSetParams env depth sc w) ∧
    ∀ w', vmConfSetParams env (templates.length + 1) sc w = .ok ((), w') →
      w'.executed.Nodup ∧ ∀ name, name ∈ w'.executed ↔ name ∈ w'.reached := by
  intro w
  refine ⟨fun depth hdepth => ⟨?_, fun other => ?_⟩, fun w' h => ?_⟩
  · induction depth, hdepth using Nat.le_induction with
    | base => rfl
    | succ depth hdepth ih => exact (vmConfSetParams_succ env depth sc w (bounded_clearApplied d templates hdepth)).trans ih
  · exact diverted_agree env other depth sc w (bounded_clearApplied d templates hdepth)
  · have hbounded := bounded_clearApplied d templates (Nat.lt_succ_self _)
    obtain ⟨hrec, -⟩ := vmConfSetParams_work advances_workRule _ sc w _ w' h hbounded.1
    exact ⟨hrec.nodup, hrec.reached⟩

/-- A template or section that applies others. -/
def Cfsection.applying (name : String) (targets : List String) : Cfsection :=
  { name := some name, params := targets.map (Cfparam.set ".apply"), argdefs := [], applied := 0, duplicate := 0
    owner := 0, filename := "/m" }

/-- Two templates that apply each other, and one of them itself. -/
theorem templates_applied_once_mutual : ∃ w,
    vmConfSetParams ownerEnv 3 (.applying "a" ["t", "s"])
      { draft := beginDraft ownerEnv [] 0 "a" 0
        templates := clearApplied [.applying "t" ["t", "s"], .applying "s" ["t"]], reached := [], executed := [] } =
          .ok ((), w) ∧
      w.executed.Nodup ∧ ∀ name, name ∈ w.executed ↔ name ∈ w.reached := by
  obtain ⟨w, hw⟩ : ∃ w, vmConfSetParams ownerEnv 3 (.applying "a" ["t", "s"])
      { draft := beginDraft ownerEnv [] 0 "a" 0
        templates := clearApplied [.applying "t" ["t", "s"], .applying "s" ["t"]], reached := [], executed := [] } =
          .ok ((), w) := ⟨_, rfl⟩
  exact ⟨w, hw, (templates_applied_once ownerEnv _ [.applying "t" ["t", "s"], .applying "s" ["t"]] _).2 w hw⟩

/-! ## Sections are independent -/

/-- Only marks have changed. -/
def SameTemplates (w w' : Work) : Prop := clearApplied w'.templates = clearApplied w.templates

instance : IsPreorder Work SameTemplates where
  refl _ := rfl
  trans _ _ _ h h' := Eq.trans h' h

theorem sameTemplates_workRule : WorkRule SameTemplates where
  draft _ _ := rfl
  value _ _ := rfl
  again _ _ _ _ _ := rfl
  first w name _ _ _ := clearApplied_markApplied name w.templates

theorem clearApplied_idem (ts : List Cfsection) : clearApplied (clearApplied ts) = clearApplied ts := by
  unfold clearApplied
  rw [List.map_map]
  rfl

/-- A section leaves nothing in the templates but marks. -/
theorem execSection_templates {env : ParseEnv} {gv : Vartree} {id : Nat}
    {sc : Cfsection} {d : Draft} (h : execSection env gv ts id name sc = .ok (d, ts')) :
    clearApplied ts' = clearApplied ts := by
  obtain ⟨w, -, rfl, hrun⟩ := execSection_ok h
  exact (vmConfSetParams_work sameTemplates_workRule _ _ _ _ _ hrun).trans (clearApplied_idem ts)

/-- Marks left by earlier sections make no difference. -/
theorem execSection_congr (h : clearApplied ts' = clearApplied ts) (env : ParseEnv) (gv : Vartree)
    (id : Nat) (name : String) (sc : Cfsection) :
    execSection env gv ts' id name sc = execSection env gv ts id name sc := by
  have hlen : ts'.length = ts.length := by
    have := congrArg List.length h
    unfold clearApplied at this
    rwa [List.length_map, List.length_map] at this
  unfold execSection
  rw [h, hlen]

end Bmd
