import Bmd.Correctness.Params
import Mathlib.Data.List.Nodup

/-!
# `Correctness.ListKeys` — the keys of `parser_list` that keep lists

Six keys have a `clear` function. `ListKey` names them, with the list, the counter and the elements of each; the laws
that the proofs about lists need are stated once for all of them. The first use: what a parameter does whose value is
rejected.
-/

namespace Bmd

open Lib
open Lib.Prog (bind_ok get_ok pure_ok modify_ok throw_ok)

variable {e : ParserEntry} {env : ParseEnv} {key : String} {vl : Cfvalue} {α : Type} {d : Draft} {w w' : Work}
  {exec : Cfsection → Setting Unit} {pr : Cfparam}

/-- The keys that keep a list, by the type of its elements. -/
inductive ListKey : Type → Type 1 where
  | bhyveEnv : ListKey String
  | bhyveloadEnv : ListKey String
  | disk : ListKey DiskConf
  | iso : ListKey DiskConf
  | network : ListKey NetConf
  | passthru : ListKey String

namespace ListKey

variable {α β : Type}

/-- The entry of `parser_list`. -/
def entry : ListKey α → ParserEntry
  | .bhyveEnv => ⟨"bhyve_env", parseBhyveEnv, some (clearConf bhyveEnvsField)⟩
  | .bhyveloadEnv => ⟨"bhyveload_env", parseBhyveloadEnv, some (clearConf bhyveloadEnvsField)⟩
  | .disk => ⟨"disk", parseDisk, some (clearConf disksField)⟩
  | .iso => ⟨"iso", parseIso, some (clearConf isoesField)⟩
  | .network => ⟨"network", parseNet, some (clearConf netsField)⟩
  | .passthru => ⟨"passthru", parsePassthru, some (clearConf passthruesField)⟩

/-- The list of a configuration. -/
def field : ListKey α → ListField α
  | .bhyveEnv => bhyveEnvsField
  | .bhyveloadEnv => bhyveloadEnvsField
  | .disk => disksField
  | .iso => isoesField
  | .network => netsField
  | .passthru => passthruesField

/-- Its queue. -/
def queue (k : ListKey α) (d : Draft) : Stailq α := k.field.get d

/-- Its counter. -/
def counter : ListKey α → Draft → Int
  | .bhyveEnv, d => d.nbhyveEnvs
  | .bhyveloadEnv, d => d.nbhyveloadEnvs
  | .disk, d => d.conf.ndisks
  | .iso, d => d.conf.nisoes
  | .network, d => d.conf.nnets
  | .passthru, d => d.npassthrues

/-- The element that a value makes; `none`: the value is rejected. -/
def item : ListKey α → String → Option α
  | .bhyveEnv, val => if val.toList.contains '=' then some val else none
  | .bhyveloadEnv, val => if val.toList.contains '=' then some val else none
  | .disk, val =>
    let v := typedValue ["ahci-hd", "virtio-blk", "nvme"] "virtio-blk" val
    some { type := v.1, path := v.2 }
  | .iso, val =>
    let v := typedValue ["ahci-cd"] "ahci-cd" val
    some { type := v.1, path := v.2 }
  | .network, val =>
    let v := typedValue ["virtio-net", "e1000"] "virtio-net" val
    some { type := v.1, bridge := v.2, tap := none }
  | .passthru, val => if val.toList.all fun c => c == '/' || ('0' ≤ c && c ≤ '9') then some val else none

/-! ## Laws -/

theorem entry_mem (k : ListKey α) : k.entry ∈ parserList := by
  cases k <;> simp [entry, parserList]

/-- A key is known by its name. -/
theorem eq_entry (k : ListKey α) (he : e ∈ parserList) (hname : e.name = k.entry.name) : e = k.entry :=
  List.inj_on_of_nodup_map parserList_names_nodup he k.entry_mem hname

theorem clear_eq (k : ListKey α) : k.entry.clear = some (clearConf k.field) := by
  cases k <;> rfl

/-- The parse function adds the element to the list. -/
theorem parse_eq (k : ListKey α) (env : ParseEnv) (d : Draft) (val : String) :
    k.entry.parse env d val = match k.item val with
      | none => .ok none
      | some x => addConf k.field x d := by
  cases k with
  | bhyveEnv | bhyveloadEnv | passthru =>
    simp only [entry, item, parseBhyveEnv, parseBhyveloadEnv, parsePassthru]
    split
    · rfl
    · rfl
  | disk | iso | network => rfl

@[simp] theorem queue_set (k : ListKey α) (q : Stailq α) (d : Draft) : k.queue (k.field.set q d) = q := by
  cases k <;> rfl

@[simp] theorem queue_count (k : ListKey α) (d : Draft) : k.queue (k.field.count d) = k.queue d := by
  cases k <;> rfl

@[simp] theorem counter_set (k : ListKey α) (q : Stailq α) (d : Draft) : k.counter (k.field.set q d) = k.counter d := by
  cases k <;> rfl

@[simp] theorem counter_count (k : ListKey α) (d : Draft) : k.counter (k.field.count d) = k.counter d + 1 := by
  cases k <;> rfl

@[simp] theorem vars_set (k : ListKey α) (q : Stailq α) (d : Draft) : (k.field.set q d).vars = d.vars := by
  cases k <;> rfl

@[simp] theorem vars_count (k : ListKey α) (d : Draft) : (k.field.count d).vars = d.vars := by
  cases k <;> rfl

/-- The queue and the counter. -/
def part (k : ListKey α) (d : Draft) : Stailq α × Int := (k.queue d, k.counter d)

/-- A list is not touched through another key. -/
theorem part_other (k : ListKey α) (j : ListKey β) (hne : j.entry.name ≠ k.entry.name) (q : Stailq β) (d : Draft) :
    k.part (j.field.set q d) = k.part d ∧ k.part (j.field.count d) = k.part d := by
  cases k <;> cases j <;> first | exact absurd rfl hne | exact ⟨rfl, rfl⟩

end ListKey

/-- The six lists with their pointers and counters. -/
def Draft.lists (d : Draft) :
    (List DiskConf × List DiskConf × List NetConf × List String × List String × List String) × Tails ×
      Int × Int × Int × Int × Int × Int :=
  ((d.conf.disks, d.conf.isoes, d.conf.nets, d.conf.passthrues, d.conf.bhyveloadEnvs, d.conf.bhyveEnvs), d.tails,
    d.conf.ndisks, d.conf.nisoes, d.conf.nnets, d.npassthrues, d.nbhyveloadEnvs, d.nbhyveEnvs)

/-- An entry of `parser_list` keeps a list, or it has nothing to do with lists. -/
theorem parserList_cases : ∀ e ∈ parserList,
    (∃ (β : Type) (j : ListKey β), e = j.entry) ∨ (e.clear = none ∧ Frame Draft.lists e.parse) := by
  simp only [parserList, List.forall_mem_cons]
  refine ⟨?_, .inl ⟨_, .bhyveEnv, rfl⟩, .inl ⟨_, .bhyveloadEnv, rfl⟩, ?_, ?_, ?_, ?_, ?_, .inl ⟨_, .disk, rfl⟩, ?_, ?_, ?_,
    ?_, ?_, ?_, ?_, ?_, ?_, ?_, ?_, ?_, .inl ⟨_, .iso, rfl⟩, ?_, ?_, ?_, ?_, ?_, ?_, ?_, .inl ⟨_, .network, rfl⟩, ?_,
    .inl ⟨_, .passthru, rfl⟩, ?_, ?_, ?_, ?_, ?_, List.forall_mem_nil _⟩
  all_goals
    refine .inr ⟨trivial, ?_⟩
    -- Most functions store a text or an integer in another field.
    first
    | exact frame_store fun _ _ => rfl
    | exact frame_storeInt fun _ _ => rfl
    | exact frame_parseOwner fun _ _ _ _ => rfl
    | intro env d val d' h
  -- The others set a field on a condition, `parse_name` without one.
  all_goals
    first
    | obtain ⟨-, rfl⟩ := accepted_if h; rfl
    | obtain ⟨_, -, rfl⟩ := Option.map_eq_some_iff.mp (Except.ok.inj h); rfl
    | obtain rfl := Option.some.inj (Except.ok.inj h); rfl

theorem ListKey.part_of_lists (k : ListKey α) {d' : Draft} (h : d'.lists = d.lists) : k.part d' = k.part d := by
  simp only [Draft.lists, Prod.mk.injEq] at h
  cases k <;> simp [part, queue, field, counter, bhyveEnvsField, bhyveloadEnvsField, disksField, isoesField, netsField,
    passthruesField, h]

/-- The parse functions and the `clear` functions of other keys do not touch a list. -/
theorem ListKey.frame (k : ListKey α) (he : e ∈ parserList)
    (hne : e.name ≠ k.entry.name) : Frame k.part e.parse ∧ ∀ c, e.clear = some c → ∀ d, k.part (c d) = k.part d := by
  obtain ⟨β, j, rfl⟩ | ⟨hclear, hframe⟩ := parserList_cases e he
  · constructor
    · intro env d val d' h
      rw [j.parse_eq] at h
      cases hitem : j.item val with
      | none =>
        rw [hitem] at h
        cases h
      | some x =>
        rw [hitem] at h
        obtain ⟨q, -, rfl⟩ := addConf_ok h
        rw [(k.part_other j hne q _).2, (k.part_other j hne q d).1]
    · intro c hc d
      rw [j.clear_eq] at hc
      obtain rfl := Option.some.inj hc
      exact (k.part_other j hne .init d).1
  · refine ⟨fun env d val d' h => k.part_of_lists (hframe env d val d' h), fun c hc => ?_⟩
    rw [hclear] at hc
    cases hc

/-! ## Rejected values -/

/-- The value of a parameter is rejected: its tokens have no value, or the parse function returns a negative one. -/
inductive RejectedValue (env : ParseEnv) (e : ParserEntry) (d : Draft) (vl : Cfvalue) : Prop where
  | tokens (stop : CalcStop) (h : tokenToString d.vars vl.tokens = .error stop)
  | parse (val : String) (hval : tokenToString d.vars vl.tokens = .ok val) (h : e.parse env d val = .ok none)

/-- The work after a rejected value: the history alone knows of it. -/
def Work.rejecting (w : Work) (e : ParserEntry) (vl : Cfvalue) : Work :=
  match tokenToString w.draft.vars vl.tokens with
  | .ok val => w.given e val false
  | .error _ => w

theorem Work.rejecting_draft (w : Work) (e : ParserEntry) (vl : Cfvalue) : (w.rejecting e vl).draft = w.draft := by
  unfold Work.rejecting
  split <;> rfl

/-- A rejected value changes nothing, unless the process dies of its evaluation. -/
theorem setParamValue_rejected (h : RejectedValue env e w.draft vl) :
    setParamValue env key (some e) vl w = .ok ((), w') ↔
      tokenToString w.draft.vars vl.tokens ≠ .error .trap ∧ w' = w.rejecting e vl := by
  have hrun : setParamValue env key (some e) vl w = .ok ((), w') ↔ _ := bind_ok
  rw [hrun]
  simp only [valueOf_ok_iff]
  unfold Work.rejecting
  cases h with
  | tokens stop h =>
    rw [h]
    constructor
    · rintro ⟨r, s, ⟨hne, rfl, rfl⟩, hset⟩
      obtain ⟨-, rfl⟩ := pure_ok.mp hset
      exact ⟨hne, rfl⟩
    · rintro ⟨hne, rfl⟩
      exact ⟨none, _, ⟨hne, rfl, rfl⟩, rfl⟩
  | parse val hval h =>
    have hset : setValue env e val w = .ok ((), w') ↔ w' = w.given e val false := by
      rw [setValue_ok, h]
      simp
    rw [hval]
    constructor
    · rintro ⟨r, s, ⟨hne, rfl, rfl⟩, hrest⟩
      exact ⟨hne, hset.mp hrest⟩
    · rintro ⟨hne, rfl⟩
      exact ⟨some val, _, ⟨hne, rfl, rfl⟩, hset.mpr rfl⟩

/-- A list key rejects a value whatever the lists are. -/
theorem RejectedValue.clear {k : ListKey α}
    (h : RejectedValue env k.entry d vl) : RejectedValue env k.entry (clearConf k.field d) vl := by
  have hvars : (clearConf k.field d).vars = d.vars := k.vars_set .init d
  cases h with
  | tokens stop h =>
    refine .tokens stop ?_
    rw [hvars]
    exact h
  | parse val hval h =>
    refine .parse val ?_ ?_
    · rw [hvars]
      exact hval
    · rw [k.parse_eq] at h ⊢
      cases hitem : k.item val with
      | none => rfl
      | some x =>
        rw [hitem] at h
        -- a value that makes an element is not rejected
        simp only [addConf] at h
        split at h <;> cases h

/-- A cleared list is as before if it was empty. -/
theorem clearConf_eq_iff (k : ListKey α) (d : Draft) :
    { clearConf k.field d with tails := d.tails } = d ↔ (k.queue d).items = [] := by
  constructor
  · intro h
    have hitems : (k.queue { clearConf k.field d with tails := d.tails }).items = [] := by
      cases k <;> rfl
    rw [← h]
    exact hitems
  · intro h
    cases k with
    | bhyveEnv =>
      have hconf : { d.conf with bhyveEnvs := [] } = d.conf := by rw [← h]; rfl
      exact congrArg (fun c => { d with conf := c }) hconf
    | bhyveloadEnv =>
      have hconf : { d.conf with bhyveloadEnvs := [] } = d.conf := by rw [← h]; rfl
      exact congrArg (fun c => { d with conf := c }) hconf
    | disk =>
      have hconf : { d.conf with disks := [] } = d.conf := by rw [← h]; rfl
      exact congrArg (fun c => { d with conf := c }) hconf
    | iso =>
      have hconf : { d.conf with isoes := [] } = d.conf := by rw [← h]; rfl
      exact congrArg (fun c => { d with conf := c }) hconf
    | network =>
      have hconf : { d.conf with nets := [] } = d.conf := by rw [← h]; rfl
      exact congrArg (fun c => { d with conf := c }) hconf
    | passthru =>
      have hconf : { d.conf with passthrues := [] } = d.conf := by rw [← h]; rfl
      exact congrArg (fun c => { d with conf := c }) hconf

theorem head_of_strcmpL {as bs : List Char} {b : Char} (hb : b ≠ '\x00') (h : strcmpL as (b :: bs) = 0) :
    as.head? = some b := by
  have hpos : b.toNat ≠ 0 := fun h0 => hb (Char.ext (UInt32.toNat.inj h0))
  cases as with
  | nil =>
    simp only [strcmpL] at h
    omega
  | cons a as =>
    by_cases hab : a = b
    · simp [hab]
    · rw [strcmpL, if_neg hab] at h
      have hval : a.toNat = b.toNat := by omega
      exact absurd (Char.ext (UInt32.toNat.inj hval)) hab

theorem parserList_initials : ∀ e ∈ parserList,
    (e.name.toList.map Char.toLower).head?.any (fun c => c != '\x00' && c != '.') = true := by
  decide

/-- `.apply` is no key of `parser_list`. -/
theorem findParser_ne_apply (h : findParser key = some e) : strcasecmp key ".apply" ≠ 0 := by
  intro happly
  have hdot := head_of_strcmpL (by decide) happly
  have hkey : strcasecmp key e.name = 0 := by simpa using List.find?_some h
  have hinit := parserList_initials e (findParser_mem h)
  rw [strcasecmp] at hkey
  cases hname : e.name.toList.map Char.toLower with
  | nil =>
    rw [hname] at hinit
    cases hinit
  | cons c rest =>
    rw [hname] at hinit hkey
    obtain ⟨hc, hne⟩ : c ≠ '\x00' ∧ c ≠ '.' := by simpa using hinit
    exact hne (Option.some.inj ((head_of_strcmpL hc hkey).symm.trans hdot))

/-- The key keeps a list, and the list has elements. -/
def ParserEntry.holdsItems (e : ParserEntry) (d : Draft) : Prop :=
  ∃ (α : Type) (k : ListKey α), k.entry.name = e.name ∧ (k.queue d).items ≠ []

theorem holdsItems_entry {β : Type} (j : ListKey β) (d : Draft) : j.entry.holdsItems d ↔ (j.queue d).items ≠ [] := by
  refine ⟨fun ⟨α, k, hname, hitems⟩ => ?_, fun h => ⟨β, j, rfl, h⟩⟩
  cases k <;> cases j <;> first | exact hitems | exact absurd hname (by decide)

theorem not_holdsItems (he : e ∈ parserList) (hclear : e.clear = none) (d : Draft) : ¬e.holdsItems d := by
  rintro ⟨α, k, hname, -⟩
  rw [k.eq_entry he hname.symm, k.clear_eq] at hclear
  cases hclear

/-- A parameter that is neither a variable nor `.apply`. -/
theorem setParam_key (hkey : pr.key = some (.str key)) (happly : strcasecmp key ".apply" ≠ 0) :
    setParam env exec pr = (do
      clearFirst (findParser key) pr.operator
      setValues env key (findParser key) pr.vals) := by
  unfold setParam
  rw [hkey]
  exact if_neg happly

/-- What `clear` does before the values are looked at. -/
theorem clearFirst_ok {operator : Int} : clearFirst (some e) operator w = .ok ((), w') ↔
      w' = if operator = 0 then { w with draft := (e.clear.getD id) w.draft } else w := by
  have hbind : (some e).bind (·.clear) = e.clear := rfl
  unfold clearFirst
  rw [hbind]
  cases e.clear with
  | none =>
    rw [show ((none : Option (Draft → Draft)).getD id) w.draft = w.draft from rfl, ite_self]
    exact pure_ok.trans ⟨fun h => h.2.symm, fun h => ⟨rfl, h.symm⟩⟩
  | some c =>
    by_cases hop : operator = 0
    · simp only [if_pos hop]
      exact modify_ok
    · simp only [if_neg hop]
      exact pure_ok.trans ⟨fun h => h.2.symm, fun h => ⟨rfl, h.symm⟩⟩

/-- The state in which the values of a parameter are looked at. -/
def Work.cleared (w : Work) (e : ParserEntry) (operator : Int) : Work :=
  if operator = 0 then { w with draft := (e.clear.getD id) w.draft } else w

/-- A value that is rejected is rejected after the `clear` too. -/
theorem RejectedValue.cleared (he : e ∈ parserList) (h : RejectedValue env e w.draft vl) (operator : Int) :
    RejectedValue env e (w.cleared e operator).draft vl ∧ (w.cleared e operator).draft.vars = w.draft.vars := by
  unfold Work.cleared
  split
  · obtain ⟨β, j, rfl⟩ | ⟨hclear, -⟩ := parserList_cases e he
    · rw [j.clear_eq]
      exact ⟨h.clear, j.vars_set .init w.draft⟩
    · rw [hclear]
      exact ⟨h, rfl⟩
  · exact ⟨h, rfl⟩

/-- A parameter with one value that is rejected. -/
theorem setParam_rejected (hkey : pr.key = some (.str key)) (he : findParser key = some e)
    (hvals : pr.vals = [vl]) (hrej : RejectedValue env e w.draft vl) :
    setParam env exec pr w = .ok ((), w') ↔
      tokenToString w.draft.vars vl.tokens ≠ .error .trap ∧ w' = (w.cleared e pr.operator).rejecting e vl := by
  obtain ⟨hrej', hvars⟩ := hrej.cleared (findParser_mem he) pr.operator
  have hvalues : ∀ w₁, setValues env key (some e) [vl] w₁ = .ok ((), w') ↔
      setParamValue env key (some e) vl w₁ = .ok ((), w') := by
    intro w₁
    refine bind_ok.trans ⟨?_, fun h => ⟨(), w', h, rfl⟩⟩
    rintro ⟨_, w₂, h, hend⟩
    obtain ⟨-, rfl⟩ := pure_ok.mp hend
    exact h
  rw [setParam_key hkey (findParser_ne_apply he), he, hvals, bind_ok, ← hvars, ← setParamValue_rejected hrej']
  constructor
  · rintro ⟨_, w₁, hclear, h⟩
    rw [clearFirst_ok.mp hclear] at h
    exact (hvalues _).mp h
  · intro h
    exact ⟨(), _, clearFirst_ok.mpr rfl, (hvalues _).mpr h⟩

/-- **A rejected parameter has no effect, exactly unless it clears a list.** The six keys with a list empty it before
    the value of a parameter with `=` is looked at. Through the evaluation itself the process can only die. -/
theorem rejected_param_iff (env : ParseEnv) (exec : Cfsection → Setting Unit) (pr : Cfparam) (key : String)
    (e : ParserEntry) (vl : Cfvalue) (w : Work) (hkey : pr.key = some (.str key)) (he : findParser key = some e)
    (hvals : pr.vals = [vl]) (hrej : RejectedValue env e w.draft vl) :
    (∃ w', setParam env exec pr w = .ok ((), w') ∧ { w'.draft with tails := w.draft.tails } = w.draft) ↔
      tokenToString w.draft.vars vl.tokens ≠ .error .trap ∧ ¬(pr.operator = 0 ∧ e.holdsItems w.draft) := by
  have hdraft : { (w.cleared e pr.operator).draft with tails := w.draft.tails } = w.draft ↔
      ¬(pr.operator = 0 ∧ e.holdsItems w.draft) := by
    unfold Work.cleared
    by_cases hop : pr.operator = 0
    · simp only [hop, true_and]
      obtain ⟨β, j, rfl⟩ | ⟨hclear, -⟩ := parserList_cases e (findParser_mem he)
      · rw [j.clear_eq, holdsItems_entry, ne_eq, not_not]
        exact clearConf_eq_iff j w.draft
      · rw [hclear]
        exact ⟨fun _ => not_holdsItems (findParser_mem he) hclear w.draft, fun _ => rfl⟩
    · simp [hop]
  simp only [setParam_rejected hkey he hvals hrej, and_assoc, exists_and_left, exists_eq_left, Work.rejecting_draft,
    hdraft]

/-- The parameter `key = ${x};` with a variable that is not defined. -/
def Cfparam.undefined (key : String) : Cfparam :=
  { key := some (.str key), vals := [{ tokens := [.var "x"], args := [] }], operator := 0 }

/-- A section of the super-user before its first parameter. -/
def Work.begin : Work := { draft := beginDraft ownerEnv [] 0 "a" 0, templates := [], reached := [], executed := [] }

theorem rejected_param_iff_memory :
    ∃ w w', setParam ownerEnv (vmConfSetParams ownerEnv 0) (.set "disk" "nvme:/a") .begin = .ok ((), w) ∧
      setParam ownerEnv (vmConfSetParams ownerEnv 0) (.undefined "memory") w = .ok ((), w') ∧
      { w'.draft with tails := w.draft.tails } = w.draft := by
  obtain ⟨w, hw⟩ : ∃ w, setParam ownerEnv (vmConfSetParams ownerEnv 0) (.set "disk" "nvme:/a") .begin = .ok ((), w) :=
    ⟨_, rfl⟩
  have hfind : findParser "memory" = some ⟨"memory", parseMemory, none⟩ := rfl
  have hvar : tokenToString w.draft.vars [.var "x"] = .error .error := by
    cases hw
    rfl
  obtain ⟨w', hrun, hsame⟩ := (rejected_param_iff ownerEnv (vmConfSetParams ownerEnv 0) (.undefined "memory") "memory" _ _ w
    rfl hfind rfl (.tokens .error hvar)).mpr
    ⟨by rw [hvar]; exact nofun, fun ⟨_, h⟩ => not_holdsItems (findParser_mem hfind) rfl _ h⟩
  exact ⟨w, w', hw, hrun, hsame⟩

/-- **A rejected parameter deletes the disks.** -/
theorem rejected_disk_clears :
    ∃ w w', setParam ownerEnv (vmConfSetParams ownerEnv 0) (.set "disk" "nvme:/a") .begin = .ok ((), w) ∧
      setParam ownerEnv (vmConfSetParams ownerEnv 0) (.undefined "disk") w = .ok ((), w') ∧
      RejectedValue ownerEnv ListKey.disk.entry w.draft { tokens := [.var "x"], args := [] } ∧
      w.draft.conf.disks = [{ type := "nvme", path := "/a" }] ∧ w'.draft.conf.disks = [] :=
  ⟨_, _, rfl, rfl, .tokens .error rfl, rfl, rfl⟩

end Bmd
