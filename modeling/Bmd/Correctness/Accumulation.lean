import Bmd.Correctness.ListKeys

/-!
# `Correctness.Accumulation` — what `=` and `+=` make of the lists of a VM

The parameters of a list key that a section executes, in its own text and in the templates it applies, are a sequence
of edits of one list. `sectionEdits` is that sequence. A section does these edits to the queue of the key, and its
counter counts their elements; what comes out depends on where the head of the queue points at the beginning.
-/

namespace Bmd

open Lib
open Lib.Prog (Keeps of_bind get_ok pure_ok modify_ok throw_ok)

/-! ## The edits of a section -/

namespace ListKey

variable {α : Type}

/-- `create_vm_conf` initialises the head of the list. -/
def initialised : ListKey α → Bool
  | .passthru => false
  | _ => true

/-- The head of the list in the `vm_conf` from `create_vm_conf`. -/
def created (k : ListKey α) : Stailq α := if k.initialised then .init else .zeroed

variable (k : ListKey α)

/-- The elements that the values of a parameter make; a value that is rejected makes none. -/
def itemsOf (vars : Variables) (vals : List Cfvalue) : List α :=
  vals.filterMap fun vl => (tokenToString vars vl.tokens).toOption.bind k.item

/-- The edits of one program, and of the next one from the state that the first leaves. -/
def andThen (m : Setting Unit) (es next : Work → List (Edit α)) (w : Work) : List (Edit α) :=
  es w ++ match m w with
    | .ok r => next r.2
    | .error _ => []

/-- The edits of an `.apply` with one target; `es` are those of a section. -/
def applyEdits (es : Cfsection → Work → List (Edit α)) (vl : Cfvalue) (w : Work) : List (Edit α) :=
  match tokenToString w.draft.vars vl.tokens with
  | .error _ => []
  | .ok name =>
    match lookupTemplate name w.templates with
    | .ok (some tp) =>
      if tp.applied ≠ 0 then []
      else
        match bindArgs [] tp.argdefs vl.args { w with reached := name :: w.reached } with
        | .error _ => []
        | .ok (args, w) => es tp
            { w with templates := markApplied name w.templates, executed := name :: w.executed
                     draft := w.draft.withArgs (some args) }
    | _ => []

def appliesEdits (exec : Cfsection → Setting Unit) (es : Cfsection → Work → List (Edit α)) :
    List Cfvalue → Work → List (Edit α)
  | [] => fun _ => []
  | vl :: rest => andThen (parseApply exec vl) (applyEdits es vl) (appliesEdits exec es rest)

/-- The edits of a parameter. -/
def paramEdits (exec : Cfsection → Setting Unit) (es : Cfsection → Work → List (Edit α)) (pr : Cfparam) (w : Work) :
    List (Edit α) :=
  match pr.key with
  | some (.str key) =>
    if strcasecmp key ".apply" = 0 then appliesEdits exec es pr.vals w
    else if (findParser key).any (·.name == k.entry.name) then
      [{ replace := pr.operator == 0, items := k.itemsOf w.draft.vars pr.vals }]
    else []
  | _ => []

def paramsEdits (env : ParseEnv) (exec : Cfsection → Setting Unit) (es : Cfsection → Work → List (Edit α)) :
    List Cfparam → Work → List (Edit α)
  | [] => fun _ => []
  | pr :: rest => andThen (setParam env exec pr) (k.paramEdits exec es pr) (paramsEdits env exec es rest)

/-- The edits of a section with the templates it applies. -/
def edits (env : ParseEnv) : Nat → Cfsection → Work → List (Edit α)
  | 0, _ => fun _ => []
  | depth + 1, sc => k.paramsEdits env (vmConfSetParams env depth) (edits env depth) sc.params

/-- The edits that `load_config_file` makes for a VM section. -/
def sectionEdits (env : ParseEnv) (gv : Vartree) (templates : List Cfsection) (id : Nat) (name : String)
    (sc : Cfsection) : List (Edit α) :=
  k.edits env (templates.length + 1) sc
    { draft := beginDraft env gv id name sc.owner, templates := clearApplied templates, reached := [], executed := [] }

/-! ## What a parameter does to a list -/

theorem part_withArgs (d : Draft) (args : Option Vartree) : k.part (d.withArgs args) = k.part d := k.part_of_lists rfl

@[simp] theorem queue_withArgs (d : Draft) (args : Option Vartree) : k.queue (d.withArgs args) = k.queue d :=
  (Prod.mk.inj (k.part_withArgs d args)).1

@[simp] theorem counter_withArgs (d : Draft) (args : Option Vartree) : k.counter (d.withArgs args) = k.counter d :=
  (Prod.mk.inj (k.part_withArgs d args)).2

/-- The list of the key is as before. -/
def Same (w w' : Work) : Prop := k.part w'.draft = k.part w.draft

instance : IsPreorder Work k.Same where
  refl _ := rfl
  trans _ _ _ h h' := h'.trans h

theorem valueOf_same {ts : Cftokens} : Keeps k.Same (valueOf ts) := by
  intro w r w' h
  rw [(valueOf_ok h).1]
  exact refl_of k.Same w

variable {e : Option ParserEntry} {key : String}

/-- A value of another key. -/
theorem setParamValue_same {env : ParseEnv} {vl : Cfvalue}
    (he : ∀ x, e = some x → x ∈ parserList ∧ x.name ≠ k.entry.name) : Keeps k.Same (setParamValue env key e vl) := by
  refine Keeps.bind k.valueOf_same fun r => ?_
  cases r with
  | none => exact Keeps.pure _
  | some val =>
    cases e with
    | none => exact Keeps.modify fun w => k.part_of_lists rfl
    | some e =>
      obtain ⟨hmem, hne⟩ := he e rfl
      intro w u w' h
      obtain ⟨-, rfl⟩ | ⟨d, hparse, rfl⟩ := setValue_ok.mp h
      · exact rfl
      · exact (k.frame hmem hne).1 env w.draft val d hparse

theorem setValues_same {env : ParseEnv}
    (he : ∀ x, e = some x → x ∈ parserList ∧ x.name ≠ k.entry.name) :
    ∀ vals, Keeps k.Same (setValues env key e vals)
  | [] => Keeps.pure _
  | _ :: rest => Keeps.bind (k.setParamValue_same he) fun _ => setValues_same he rest

theorem clearFirst_same {operator : Int}
    (he : ∀ x, e = some x → x ∈ parserList ∧ x.name ≠ k.entry.name) : Keeps k.Same (clearFirst e operator) := by
  intro w u w' h
  cases e with
  | none =>
    obtain ⟨-, rfl⟩ := pure_ok.mp h
    exact refl_of k.Same w
  | some e =>
    obtain ⟨hmem, hne⟩ := he e rfl
    rw [clearFirst_ok.mp h]
    split
    · cases hclear : e.clear with
      | none => exact refl_of k.Same w
      | some c => exact (k.frame hmem hne).2 c hclear w.draft
    · exact refl_of k.Same w

theorem assignVar_same {x : String} {vals : List Cfvalue} : Keeps k.Same (assignVar x vals) := by
  cases vals with
  | nil => exact Keeps.throw _
  | cons vl rest =>
    refine Keeps.bind k.valueOf_same fun r => ?_
    cases r with
    | none => exact Keeps.pure _
    | some val => exact Keeps.modify fun w => k.part_of_lists rfl

/-- The elements are inserted and counted. -/
structure Appended (xs : List α) (w w' : Work) : Prop where
  queue : (k.queue w.draft).appendAll xs = some (k.queue w'.draft)
  counter : k.counter w'.draft = k.counter w.draft + xs.length
  vars : w'.draft.vars = w.draft.vars

theorem Appended.refl (w : Work) : k.Appended [] w w := ⟨rfl, by simp, rfl⟩

variable {k} in
theorem Appended.trans {xs ys : List α} {w w' w'' : Work} (h : k.Appended xs w w') (h' : k.Appended ys w' w'') :
    k.Appended (xs ++ ys) w w'' where
  queue := by
    rw [Stailq.appendAll_append, h.queue]
    exact h'.queue
  counter := by
    rw [h'.counter, h.counter, List.length_append]
    omega
  vars := h'.vars.trans h.vars

/-- A value of the key itself. -/
theorem setValue_own {env : ParseEnv} {val : String} {w w' : Work} (h : setValue env k.entry val w = .ok ((), w')) :
    k.Appended (k.item val).toList w w' := by
  cases hitem : k.item val with
  | none =>
    obtain ⟨-, rfl⟩ | ⟨d, hparse, rfl⟩ := setValue_ok.mp h
    · exact ⟨rfl, by simp [Work.given], rfl⟩
    · rw [k.parse_eq, hitem] at hparse
      cases hparse
  | some x =>
    obtain ⟨hparse, -⟩ | ⟨d, hparse, rfl⟩ := setValue_ok.mp h
    · rw [k.parse_eq, hitem] at hparse
      simp only [addConf] at hparse
      split at hparse <;> cases hparse
    · rw [k.parse_eq, hitem] at hparse
      obtain ⟨q, hq, rfl⟩ := addConf_ok hparse
      constructor
      · show ((k.queue w.draft).insertTail x).bind _ = _
        rw [show (k.queue w.draft).insertTail x = some q from hq]
        simp
      · simp
      · simp

theorem setParamValue_own {env : ParseEnv} {vl : Cfvalue} {w w' : Work}
    (h : setParamValue env key (some k.entry) vl w = .ok ((), w')) :
    k.Appended (k.itemsOf w.draft.vars [vl]) w w' := by
  obtain ⟨r, w₁, hval, hset⟩ := of_bind h
  obtain ⟨-, rfl, rfl⟩ := valueOf_ok_iff.mp hval
  have hitems : k.itemsOf w₁.draft.vars [vl] =
      ((tokenToString w₁.draft.vars vl.tokens).toOption.bind k.item).toList := by
    simp only [itemsOf, List.filterMap_cons, List.filterMap_nil]
    cases (tokenToString w₁.draft.vars vl.tokens).toOption.bind k.item <;> rfl
  rw [hitems]
  cases hts : (tokenToString w₁.draft.vars vl.tokens).toOption with
  | none =>
    rw [hts] at hset
    obtain ⟨-, rfl⟩ := pure_ok.mp hset
    exact Appended.refl k _
  | some val =>
    rw [hts] at hset
    exact k.setValue_own hset

/-- The values of a parameter of the key. -/
theorem setValues_own {env : ParseEnv} : ∀ {vals : List Cfvalue} {w w' : Work},
    setValues env key (some k.entry) vals w = .ok ((), w') → k.Appended (k.itemsOf w.draft.vars vals) w w' := by
  intro vals
  induction vals with
  | nil =>
    intro w w' h
    obtain ⟨-, rfl⟩ := pure_ok.mp h
    exact Appended.refl k w
  | cons vl rest ih =>
    intro w w' h
    obtain ⟨_, w₁, hfirst, hrest⟩ := of_bind h
    have h₁ := k.setParamValue_own hfirst
    have h₂ := ih hrest
    rw [h₁.vars] at h₂
    have hitems : k.itemsOf w.draft.vars (vl :: rest) = k.itemsOf w.draft.vars [vl] ++ k.itemsOf w.draft.vars rest := by
      rw [itemsOf, itemsOf, itemsOf, ← List.filterMap_append]
      rfl
    rw [hitems]
    exact h₁.trans h₂

/-- A parameter of the key is one edit. -/
theorem setParam_own {env : ParseEnv} {operator : Int} {vals : List Cfvalue} {w w' : Work}
    (hname : (findParser key).any (·.name == k.entry.name) = true)
    (h : (do clearFirst (findParser key) operator; setValues env key (findParser key) vals : Setting Unit) w = .ok ((), w')) :
    (k.queue w.draft).edits [{ replace := operator == 0, items := k.itemsOf w.draft.vars vals }] =
        some (k.queue w'.draft) ∧
      k.counter w'.draft = k.counter w.draft +
        Edit.total [{ replace := operator == 0, items := k.itemsOf w.draft.vars vals }] := by
  obtain ⟨e, hfind⟩ : ∃ e, findParser key = some e := by
    cases hfind : findParser key with
    | none =>
      rw [hfind] at hname
      cases hname
    | some e => exact ⟨e, rfl⟩
  have he : e = k.entry := k.eq_entry (findParser_mem hfind) (by simpa [hfind] using hname)
  rw [hfind, he] at h
  obtain ⟨_, w₁, hclear, hvals⟩ := of_bind h
  have h₁ := k.setValues_own hvals
  rw [clearFirst_ok.mp hclear, k.clear_eq] at h₁
  rw [Stailq.edits_singleton, Stailq.edit]
  simp only [Edit.total, List.map_cons, List.map_nil, List.sum_cons, List.sum_nil, Nat.add_zero, beq_iff_eq]
  by_cases hop : operator = 0
  · -- the `clear` function comes first
    have hvars : (clearConf k.field w.draft).vars = w.draft.vars := k.vars_set .init w.draft
    have hqueue : k.queue (clearConf k.field w.draft) = .init := k.queue_set .init w.draft
    have hcounter : k.counter (clearConf k.field w.draft) = k.counter w.draft := k.counter_set .init w.draft
    rw [if_pos hop] at h₁ ⊢
    have hq := h₁.queue
    have hc := h₁.counter
    simp only [Option.getD_some, hvars, hqueue, hcounter] at hq hc
    exact ⟨hq, hc⟩
  · rw [if_neg hop] at h₁ ⊢
    exact ⟨h₁.queue, h₁.counter⟩

/-! ## Programs and their edits -/

/-- The program does the edits to the queue, and the counter counts their elements. -/
def Follows (m : Setting Unit) (es : Work → List (Edit α)) : Prop :=
  ∀ w w', m w = .ok ((), w') → (k.queue w.draft).edits (es w) = some (k.queue w'.draft) ∧
    k.counter w'.draft = k.counter w.draft + Edit.total (es w)

variable {k}

theorem Follows.of_same {m : Setting Unit} {es : Work → List (Edit α)} (h : Keeps k.Same m) (hes : ∀ w, es w = []) :
    k.Follows m es := by
  intro w w' hrun
  obtain ⟨hqueue, hcounter⟩ := Prod.mk.inj (h w () w' hrun)
  rw [hes, hqueue, hcounter]
  exact ⟨rfl, by simp [Edit.total]⟩

theorem Follows.andThen {m n : Setting Unit} {es next : Work → List (Edit α)} (hm : k.Follows m es)
    (hn : k.Follows n next) : k.Follows (m >>= fun _ => n) (andThen m es next) := by
  intro w w' hrun
  obtain ⟨_, w₁, h₁, h₂⟩ := of_bind hrun
  obtain ⟨hq₁, hc₁⟩ := hm w w₁ h₁
  obtain ⟨hq₂, hc₂⟩ := hn w₁ w' h₂
  have hes : ListKey.andThen m es next w = es w ++ next w₁ := by rw [ListKey.andThen, h₁]
  rw [hes]
  constructor
  · rw [Stailq.edits_append, hq₁]
    exact hq₂
  · rw [hc₂, hc₁, Edit.total_append]
    omega

section Section

variable {env : ParseEnv} {exec : Cfsection → Setting Unit} {es : Cfsection → Work → List (Edit α)}
  (hexec : ∀ sc, k.Follows (exec sc) (es sc))

include hexec

theorem parseApply_follows (vl : Cfvalue) : k.Follows (parseApply exec vl) (applyEdits es vl) := by
  intro w w' h
  obtain ⟨rfl, hnone⟩ | ⟨name, tp, hname, hlookup, hgo⟩ := parseApply_ok h
  · have hes : applyEdits es vl w' = [] := by
      unfold applyEdits
      split
      · rfl
      · next name hname => simp only [hnone name hname]
    rw [hes]
    exact ⟨rfl, by simp [Edit.total]⟩
  · obtain ⟨happ, rfl⟩ | ⟨happ, h⟩ := hgo
    · have hes : applyEdits es vl w = [] := by simp only [applyEdits, hname, hlookup, if_pos happ]
      rw [hes]
      exact ⟨rfl, by simp [Edit.total]⟩
    · -- the parameters of the template are executed with its arguments in scope
      obtain ⟨args, w₁, -, hargs, hrun, rfl⟩ := applyTemplate_ok h
      have hes : applyEdits es vl w = es tp
          { w with templates := markApplied name w.templates, reached := name :: w.reached, executed := name :: w.executed
                   draft := w.draft.withArgs (some args) } := by
        simp only [applyEdits, hname, hlookup, if_neg (not_not.mpr happ), hargs]
      obtain ⟨hqueue, hcounter⟩ := hexec tp _ _ hrun
      rw [hes]
      simp only [queue_withArgs, counter_withArgs] at hqueue hcounter ⊢
      exact ⟨hqueue, hcounter⟩

theorem parseApplies_follows : ∀ vals, k.Follows (parseApplies exec vals) (appliesEdits exec es vals)
  | [] => .of_same (Keeps.pure _) fun _ => rfl
  | vl :: rest => .andThen (parseApply_follows hexec vl) (parseApplies_follows rest)

theorem setParam_follows (pr : Cfparam) : k.Follows (setParam env exec pr) (k.paramEdits exec es pr) := by
  cases hkey : pr.key with
  | none =>
    refine .of_same ?_ fun w => by rw [paramEdits, hkey]
    rw [setParam, hkey]
    exact Keeps.throw _
  | some x =>
    cases x with
    | var x =>
      refine .of_same ?_ fun w => by rw [paramEdits, hkey]
      rw [setParam, hkey]
      exact k.assignVar_same
    | str key =>
      by_cases happly : strcasecmp key ".apply" = 0
      · intro w w' h
        have hes : k.paramEdits exec es pr w = appliesEdits exec es pr.vals w := by
          simp only [paramEdits, hkey, if_pos happly]
        have hrun : parseApplies exec pr.vals w = .ok ((), w') := by
          simpa only [setParam, hkey, if_pos happly] using h
        rw [hes]
        exact parseApplies_follows hexec pr.vals w w' hrun
      · have hes : ∀ w, k.paramEdits exec es pr w = if (findParser key).any (·.name == k.entry.name) then
            [{ replace := pr.operator == 0, items := k.itemsOf w.draft.vars pr.vals }] else [] := fun w => by
          simp only [paramEdits, hkey, if_neg happly]
        rw [setParam_key hkey happly]
        by_cases hname : (findParser key).any (·.name == k.entry.name) = true
        · intro w w' h
          rw [hes, if_pos hname]
          exact k.setParam_own hname h
        · -- another key, of the daemon or of a plugin
          have hother : ∀ x, findParser key = some x → x ∈ parserList ∧ x.name ≠ k.entry.name := by
            intro x hx
            refine ⟨findParser_mem hx, fun heq => hname ?_⟩
            simp [hx, heq]
          refine .of_same (Keeps.bind (k.clearFirst_same hother) fun _ => k.setValues_same hother _) fun w => ?_
          rw [hes, if_neg hname]

theorem setParams_follows : ∀ ps, k.Follows (setParams env exec ps) (k.paramsEdits env exec es ps)
  | [] => .of_same (Keeps.pure _) fun _ => rfl
  | pr :: rest => .andThen (setParam_follows hexec pr) (setParams_follows rest)

end Section

/-- **A section does its edits**, in its own text and in the templates. -/
theorem vmConfSetParams_follows (env : ParseEnv) : ∀ depth sc, k.Follows (vmConfSetParams env depth sc) (k.edits env depth sc)
  | 0, _ => .of_same (Keeps.pure _) fun _ => rfl
  | depth + 1, sc => setParams_follows (vmConfSetParams_follows env depth) sc.params

/-! ## From `create_vm_conf` to the end of the section -/

/-- The queue and the counter that a section begins with. -/
theorem part_beginDraft (k : ListKey α) (env : ParseEnv) (gv : Vartree) (id : Nat) (name : String) (owner : UInt32) :
    k.part (beginDraft env gv id name owner) = (if env.sys.reallocMoves then k.created.moved else k.created, 0) := by
  unfold beginDraft
  cases env.sys.reallocMoves with
  | true | false => cases k <;> rfl

/-- **A section does its edits to the list that `create_vm_conf` and `realloc` leave.** -/
theorem execSection_edits {env : ParseEnv} {gv : Vartree} {templates templates' : List Cfsection} {id : Nat}
    {name : String} {sc : Cfsection} {d : Draft} (h : execSection env gv templates id name sc = .ok (d, templates')) :
    (if env.sys.reallocMoves then k.created.moved else k.created).edits (k.sectionEdits env gv templates id name sc) =
        some (k.queue d) ∧
      k.counter d = Edit.total (k.sectionEdits env gv templates id name sc) := by
  obtain ⟨w, rfl, -, hrun⟩ := execSection_ok h
  obtain ⟨hq, hc⟩ := vmConfSetParams_follows (k := k) env _ sc _ w hrun
  obtain ⟨hqueue, hcounter⟩ := Prod.mk.inj (k.part_beginDraft env gv id name sc.owner)
  rw [hqueue] at hq
  rw [hcounter, Int.zero_add] at hc
  exact ⟨hq, hc⟩

/-- A head from `calloc` is moved as it is. -/
theorem created_zeroed (hinit : k.initialised = false) (moves : Bool) :
    (if moves then k.created.moved else k.created) = .zeroed := by
  cases moves <;> simp [created, hinit, Stailq.moved, Stailq.zeroed]

/-- What is in the list at the end of its edits: all that is to be there, or nothing if the head was moved and no
    parameter has initialised it again. -/
theorem edits_created {moves : Bool} {es : List (Edit α)} {q : Stailq α}
    (h : (if moves then k.created.moved else k.created).edits es = some q) :
    (k.initialised = true ∧ moves = true ∧ ¬Edit.Replaces es ∧ q.items = []) ∨
      ((k.initialised = true → moves = true → Edit.Replaces es) ∧ q.items = Edit.applyAll [] es) := by
  cases hinit : k.initialised with
  | false =>
    rw [created_zeroed hinit] at h
    exact .inr ⟨fun hself => absurd hself Bool.false_ne_true, (Stailq.edits_null rfl h).2⟩
  | true =>
    cases moves with
    | false =>
      have hstart : (if false then k.created.moved else k.created) = .init := by simp [created, hinit]
      rw [hstart, Stailq.init, Stailq.edits_own] at h
      obtain rfl := Option.some.inj h
      exact .inr ⟨fun _ hmoves => absurd hmoves Bool.false_ne_true, rfl⟩
    | true =>
      have hstart : (if true then k.created.moved else k.created) = { items := [], last := .astray } := by
        simp [created, hinit, Stailq.moved, Stailq.init]
      rw [hstart] at h
      obtain ⟨hsome, hnone⟩ := Stailq.edits_astray (q := { items := [], last := .astray }) rfl es
      by_cases hrep : Edit.Replaces es
      · rw [hsome hrep] at h
        obtain rfl := Option.some.inj h
        exact .inr ⟨fun _ _ => hrep, rfl⟩
      · rw [hnone hrep] at h
        obtain rfl := Option.some.inj h
        exact .inl ⟨rfl, rfl, hrep, rfl⟩

end ListKey

section Results

variable {α : Type} (k : ListKey α) (env : ParseEnv) (gv : Vartree) (templates : List Cfsection) (id : Nat)
  (name : String) (sc : Cfsection)

/-- The head was moved, and then elements are lost until a parameter with `=` comes. -/
def ListKey.Loses (k : ListKey α) (moves : Bool) (es : List (Edit α)) : Prop :=
  k.initialised = true ∧ moves = true ∧ ¬Edit.Replaces es ∧ ¬Edit.Blank es

theorem ListKey.items_iff {k : ListKey α} {moves : Bool} {es : List (Edit α)} {q : Stailq α}
    (h : (if moves then k.created.moved else k.created).edits es = some q) :
    q.items = Edit.applyAll [] es ↔ ¬k.Loses moves es := by
  obtain ⟨hinit, hmoves, hrep, hitems⟩ | ⟨hrep, hitems⟩ := k.edits_created h
  · have hblank := Edit.applyAll_eq_nil hrep
    simp only [Loses, hinit, hmoves, hrep, hitems, not_false_eq_true, true_and, not_not, ← hblank]
    exact eq_comm
  · exact ⟨fun _ ⟨hinit, hmoves, hno, _⟩ => hno (hrep hinit hmoves), fun _ => hitems⟩

/-- **The counters are right exactly if no parameter empties a list, and no element is lost.** -/
theorem list_counter_iff (d : Draft) (templates' : List Cfsection)
    (h : execSection env gv templates id name sc = .ok (d, templates')) :
    k.counter d = (k.queue d).items.length ↔
      Edit.Lossless [] (k.sectionEdits env gv templates id name sc) ∧
        ¬k.Loses env.sys.reallocMoves (k.sectionEdits env gv templates id name sc) := by
  obtain ⟨hedits, hcounter⟩ := k.execSection_edits h
  have hlossless := (Edit.length_applyAll [] (k.sectionEdits env gv templates id name sc)).2
  rw [List.length_nil, Nat.zero_add] at hlossless
  have hiff := ListKey.items_iff hedits
  rw [hcounter, ← hiff, ← hlossless, Nat.cast_inj]
  obtain ⟨-, -, hrep, hitems⟩ | ⟨-, hitems⟩ := k.edits_created hedits
  · -- nothing was found, so nothing may have been counted
    have htotal := hlossless.mpr (Edit.lossless_of_not_replaces hrep [])
    rw [← htotal, hitems, List.length_nil, List.length_eq_zero_iff]
    exact ⟨fun h => ⟨rfl, h.symm⟩, fun h => h.2.symm⟩
  · rw [hitems]
    exact ⟨fun h => ⟨h.symm, rfl⟩, fun h => h.1.symm⟩

end Results

/-- The parameter `key += val;`. -/
def Cfparam.add (key val : String) : Cfparam := { Cfparam.set key val with operator := 1 }

/-- A section of the super-user with these parameters. -/
def Cfsection.ofParams (params : List Cfparam) : Cfsection :=
  { name := some "a", params := params, argdefs := [], applied := 0, duplicate := 0, owner := 0, filename := "/m" }

/-- A host on which `realloc` moves the configuration. -/
def movingEnv : ParseEnv := { ownerEnv with sys := { ownerEnv.sys with reallocMoves := true } }

theorem list_counter_iff_disks : ∃ d templates', execSection ownerEnv [] [] 0 "a"
      (.ofParams [.set "disk" "nvme:/a", .add "disk" "/b"]) = .ok (d, templates') ∧ d.conf.disks.length = 2 ∧
      d.conf.ndisks = d.conf.disks.length := by
  have hes : ListKey.disk.sectionEdits ownerEnv [] [] 0 "a" (.ofParams [.set "disk" "nvme:/a", .add "disk" "/b"]) =
      [{ replace := true, items := [{ type := "nvme", path := "/a" }] },
       { replace := false, items := [{ type := "virtio-blk", path := "/b" }] }] := rfl
  refine ⟨_, _, rfl, rfl, ?_⟩
  refine (list_counter_iff .disk ownerEnv [] [] 0 "a" (.ofParams [.set "disk" "nvme:/a", .add "disk" "/b"]) _ _ rfl).mpr ?_
  rw [hes]
  exact ⟨by simp [Edit.Lossless], fun h => absurd h.2.1 Bool.false_ne_true⟩

/-- **A counter counts elements that are gone.** -/
theorem list_counter_stale : ∃ d templates', execSection ownerEnv [] [] 0 "a"
      (.ofParams [.set "disk" "/a", .set "disk" "/b"]) = .ok (d, templates') ∧ d.conf.ndisks = 2 ∧
      d.conf.disks = [{ type := "virtio-blk", path := "/b" }] :=
  ⟨_, _, rfl, rfl, rfl⟩

end Bmd
