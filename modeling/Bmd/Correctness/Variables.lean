import Bmd.Correctness.Templates

/-!
# `Correctness.Variables` — the three scopes of variables

An assignment goes to the local scope and is meant to remove an argument of the same name, which would hide it. The
arguments of a template are evaluated in the scope of its caller and replace the caller's own until its parameters
have been executed.
-/

namespace Bmd

open Lib
open Lib.Prog (bind_of_ok get_ok modify_ok)

/-! ## Bindings -/

namespace Vartree

variable {t : Vartree} {k k' v : String}

/-- Other keys are found as before when the bindings of a key are left out. -/
theorem lookup_filter_ne (h : k' ≠ k) : List.lookup k' (t.filter (·.1 != k)) = List.lookup k' t := by
  induction t with
  | nil => rfl
  | cons p t ih =>
    by_cases hp : p.1 = k
    · have hne : (k' == p.1) = false := beq_false_of_ne (hp ▸ h)
      rw [List.filter_cons_of_neg (by simp [hp]), ih, List.lookup_cons, hne]
    · rw [List.filter_cons_of_pos (by simp [hp]), List.lookup_cons, List.lookup_cons, ih]

/-- A binding and the others, after `set_var0`. -/
theorem getVar0_setVar0 (t : Vartree) (k v k' : String) :
    (t.setVar0 k v).getVar0 k' = if k' = k then some v else t.getVar0 k' := by
  by_cases h : k' = k
  · rw [if_pos h, h]
    simp [getVar0, setVar0]
  · have hne : (k' == k) = false := beq_false_of_ne h
    rw [if_neg h]
    show List.lookup k' ((k, v) :: t.filter (·.1 != k)) = _
    rw [List.lookup_cons, hne]
    exact lookup_filter_ne h

/-- The bindings after a sequence of assignments, of which the first one in the list is the last one made. -/
def assignAll (t : Vartree) (log : List (String × String)) : Vartree := log.foldr (fun p t => t.setVar0 p.1 p.2) t

/-- Where something was assigned, the last value is read. -/
theorem getVar0_assignAll (t : Vartree) (log : List (String × String)) (k : String) :
    (t.assignAll log).getVar0 k = (log.lookup k).or (t.getVar0 k) := by
  induction log with
  | nil => rfl
  | cons p log ih =>
    show ((t.assignAll log).setVar0 p.1 p.2).getVar0 k = _
    rw [getVar0_setVar0, List.lookup_cons]
    by_cases h : k = p.1
    · rw [if_pos h, beq_iff_eq.mpr h]
      rfl
    · rw [if_neg h, beq_false_of_ne h, ih]

end Vartree

/-! ## Assignment -/

namespace Variables

variable {vars : Variables} {k k' v : String}

/-- `set_var` without arguments. -/
theorem getVar_setVar_of_none (h : vars.args = none) :
    (vars.setVar k v).getVar k' = if k' = k then some v else vars.getVar k' := by
  obtain ⟨globals, l, args, frees, log⟩ := vars
  obtain rfl : args = none := h
  cases l with
  | none =>
    show (globals.setVar0 k v).getVar0 k' = _
    rw [Vartree.getVar0_setVar0]
    rfl
  | some l =>
    show ((l.setVar0 k v).getVar0 k').or (globals.getVar0 k') = _
    rw [Vartree.getVar0_setVar0]
    split
    · rfl
    · rfl

theorem setVar_args (vars : Variables) (k v : String) : (vars.setVar k v).args = vars.args.map fun _ => [] := by
  obtain ⟨_, l, args, _, _⟩ := vars
  cases l <;> cases args <;> rfl

theorem setVar_badFrees (vars : Variables) (k v : String) :
    (vars.setVar k v).badFrees = if vars.args.isSome then vars.badFrees + 1 else vars.badFrees := by
  obtain ⟨_, l, args, _, _⟩ := vars
  cases l <;> cases args <;> rfl

/-- **What an assignment is meant to do.** It changes what one variable reads as; of the arguments it takes away the
    one of that name, and it gives `RB_REMOVE` and `free` only nodes of the tree. -/
structure AssignsExactly (vars : Variables) (k v : String) : Prop where
  self : (vars.setVar k v).getVar k = some v
  others : ∀ k', k' ≠ k → (vars.setVar k v).getVar k' = vars.getVar k'
  args : (vars.setVar k v).args = vars.args.map fun t => t.filter (·.1 != k)
  frees : (vars.setVar k v).badFrees = vars.badFrees

/-- **An assignment does what it is meant to outside of templates only.** `vars->args` is set while the parameters of a
    template are executed, also of one without arguments, and `del_var` then unlinks and frees a node on the stack. -/
theorem assignsExactly_iff (vars : Variables) (k v : String) : vars.AssignsExactly k v ↔ vars.args = none := by
  constructor
  · intro h
    have hfrees := h.frees
    rw [setVar_badFrees] at hfrees
    cases hargs : vars.args with
    | none => rfl
    | some t =>
      rw [hargs] at hfrees
      exact absurd hfrees (Nat.succ_ne_self _)
  · intro hargs
    refine ⟨?_, ?_, ?_, ?_⟩
    · rw [getVar_setVar_of_none hargs, if_pos rfl]
    · intro k' hne
      rw [getVar_setVar_of_none hargs, if_neg hne]
    · rw [setVar_args, hargs]
      rfl
    · rw [setVar_badFrees, hargs]
      rfl

end Variables

/-- `template t(p, q) { $X = 1; comport = $q; }` -/
def argumentTemplate : Cfsection :=
  { name := some "t"
    params := [{ key := some (.var "X"), vals := [{ tokens := [.str "1"], args := [] }], operator := 0 },
               { key := some (.str "comport"), vals := [{ tokens := [.var "q"], args := [] }], operator := 0 }]
    argdefs := [{ name := some "p", tokens := [] }, { name := some "q", tokens := [.var "NAME"] }]
    applied := 0, duplicate := 0, owner := 0, filename := "/m" }

/-- `vm a { .apply t(2, 3); }` -/
def argumentSection : Cfsection :=
  { Cfsection.applying "a" [] with
    params := [{ key := some (.str ".apply")
                 vals := [{ tokens := [.str "t"], args := [[.str "2"], [.str "3"]] }], operator := 0 }] }

/-- The work on `argumentSection` begins. -/
def argumentWork : Work :=
  { draft := beginDraft ownerEnv [] 0 "a" 0, templates := clearApplied [argumentTemplate], reached := [], executed := [] }

/-- **An assignment in a template loses its arguments.** The body is entered with two arguments; the assignment to a
    third variable removes both, so that the next parameter is not set, and a node on the stack is freed. -/
theorem assignment_drops_arguments :
    let args : Vartree := [("q", "3"), ("p", "2")]
    let vars := (argumentWork.draft.withArgs (some args)).vars
    (∃ w, bindArgs [] argumentTemplate.argdefs [[.str "2"], [.str "3"]] argumentWork = .ok (args, w)) ∧
    vars.getVar "q" = some "3" ∧ (vars.setVar "X" "1").getVar "q" = none ∧ ¬vars.AssignsExactly "X" "1" ∧
    ∃ w, vmConfSetParams ownerEnv 2 argumentSection argumentWork = .ok ((), w) ∧ w.executed = ["t"] ∧
      w.draft.conf.comport = none ∧ w.draft.vars.badFrees = 1 := by
  intro args vars
  have hq : vars.getVar "q" = some "3" := by decide
  have hdrop : (vars.setVar "X" "1").getVar "q" = none := by decide
  refine ⟨⟨_, rfl⟩, hq, hdrop, fun h => ?_, _, rfl, rfl, rfl, rfl⟩
  have hsame := h.others "q" (by decide)
  rw [hq, hdrop] at hsame
  cases hsame

/-! ## The arguments of a template -/

/-- What a parameter of a template is bound to: the value of the argument, or of the default, or an empty text. -/
def argValue (vars : Variables) (given : Option Cftokens) (d : Cfargdef) : String :=
  (tokenToString vars (given.getD d.tokens)).toOption.getD ""

/-- The tree that `parse_apply` makes of the arguments, all of them evaluated with the same variables. -/
def boundArgs (vars : Variables) (args : Vartree) : List Cfargdef → List Cftokens → Vartree
  | [], _ => args
  | d :: defs, given => boundArgs vars (args.bindArg d.name (argValue vars given.head? d)) defs given.tail

/-- Some argument or default divides by zero. -/
def ArgTraps (vars : Variables) (defs : List Cfargdef) (given : List Cftokens) : Prop :=
  ∃ (i : Nat) (d : Cfargdef), defs[i]? = some d ∧ tokenToString vars ((given[i]?).getD d.tokens) = .error .trap

variable {vars : Variables} {defs : List Cfargdef} {given : List Cftokens} {w : Work} {g l : Vartree}
  {log₀ : List (String × String)} {name : String} {tp : Cfsection}

theorem ArgTraps.tail {d : Cfargdef} (h : ArgTraps vars defs given.tail) : ArgTraps vars (d :: defs) given := by
  obtain ⟨i, e, he, htrap⟩ := h
  refine ⟨i + 1, e, he, ?_⟩
  rwa [List.getElem?_tail] at htrap

theorem valueOf_trap {ts : Cftokens} (h : tokenToString w.draft.vars ts = .error .trap) :
    valueOf ts w = .error .sigfpe := by
  unfold valueOf
  rw [bind_of_ok (get_ok.mpr ⟨rfl, rfl⟩), h]
  rfl

/-- The loop of `parse_apply` over the parameters. -/
theorem bindArgs_run (w : Work) : ∀ (defs : List Cfargdef) (given : List Cftokens) (args : Vartree),
    (ArgTraps w.draft.vars defs given ∧ bindArgs args defs given w = .error .sigfpe) ∨
      bindArgs args defs given w = .ok (boundArgs w.draft.vars args defs given, w)
  | [], _, _ => .inr rfl
  | d :: defs, given, args => by
    by_cases htrap : tokenToString w.draft.vars (given.head?.getD d.tokens) = .error .trap
    · refine .inl ⟨⟨0, d, rfl, ?_⟩, ?_⟩
      · rwa [← List.head?_eq_getElem?]
      · show (valueOf _ w >>= fun r => _) = _
        rw [valueOf_trap htrap]
        rfl
    · have hval := valueOf_ok_iff.mpr ⟨htrap, rfl, rfl⟩
      have hrun : bindArgs args (d :: defs) given w =
          bindArgs (args.bindArg d.name (argValue w.draft.vars given.head? d)) defs given.tail w := bind_of_ok hval
      rw [hrun]
      obtain ⟨htraps, herr⟩ | hok := bindArgs_run w defs given.tail
          (args.bindArg d.name (argValue w.draft.vars given.head? d))
      · exact .inl ⟨htraps.tail, herr⟩
      · exact .inr hok

/-- The names of the parameters. -/
def paramNames (defs : List Cfargdef) : List String := defs.filterMap Cfargdef.name

theorem getVar0_bindArg (args : Vartree) (name : Option String) (val k : String) :
    (args.bindArg name val).getVar0 k = if name = some k then some val else args.getVar0 k := by
  cases name with
  | none => rfl
  | some n =>
    show (args.setVar0 n val).getVar0 k = _
    rw [Vartree.getVar0_setVar0]
    by_cases h : k = n
    · rw [if_pos h, if_pos (congrArg some h.symm)]
    · rw [if_neg h, if_neg fun heq => h (Option.some.inj heq).symm]

/-- What is no parameter is not bound. -/
theorem getVar0_boundArgs_of_ne {vars : Variables} {k : String} : ∀ {defs : List Cfargdef} {given : List Cftokens}
    {args : Vartree}, (∀ d ∈ defs, d.name ≠ some k) → (boundArgs vars args defs given).getVar0 k = args.getVar0 k
  | [], _, _, _ => rfl
  | d :: defs, given, args, h => by
    obtain ⟨hd, hdefs⟩ := List.forall_mem_cons.mp h
    show (boundArgs vars (args.bindArg d.name _) defs given.tail).getVar0 k = _
    rw [getVar0_boundArgs_of_ne hdefs, getVar0_bindArg, if_neg hd]

/-- A parameter is bound to the value of its own argument. -/
theorem getVar0_boundArgs {vars : Variables} {d : Cfargdef} {n : String} (hname : d.name = some n) :
    ∀ {defs : List Cfargdef} {given : List Cftokens} {args : Vartree} {i : Nat}, (paramNames defs).Nodup →
      defs[i]? = some d → (boundArgs vars args defs given).getVar0 n = some (argValue vars given[i]? d)
  | [], _, _, _, _, hi => by cases hi
  | e :: defs, given, args, i, hnodup, hi => by
    show (boundArgs vars (args.bindArg e.name (argValue vars given.head? e)) defs given.tail).getVar0 n = _
    cases i with
    | zero =>
      obtain rfl := Option.some.inj hi
      -- No later parameter has this name.
      have hlater : ∀ e' ∈ defs, e'.name ≠ some n := by
        intro e' he' heq
        rw [paramNames, List.filterMap_cons_some hname] at hnodup
        exact (List.nodup_cons.mp hnodup).1 (List.mem_filterMap.mpr ⟨e', he', heq⟩)
      rw [getVar0_boundArgs_of_ne hlater, getVar0_bindArg, if_pos hname, List.head?_eq_getElem?]
    | succ i =>
      have hrest : (paramNames defs).Nodup := by
        cases he : e.name with
        | none => rwa [paramNames, List.filterMap_cons_none he] at hnodup
        | some m =>
          rw [paramNames, List.filterMap_cons_some he] at hnodup
          exact (List.nodup_cons.mp hnodup).2
      rw [getVar0_boundArgs hname hrest hi, List.getElem?_tail]

/-! ## The other scopes -/

/-- The global scope is `g`, and the local scope is `l` with the assignments made since the history was `log₀`. -/
def Variables.Since (g l : Vartree) (log₀ : List (String × String)) (vars : Variables) : Prop :=
  vars.globals = g ∧ ∃ log, vars.assigned = log ++ log₀ ∧ vars.locals = some (l.assignAll log)

theorem Variables.Since.setVar (h : vars.Since g l log₀) (k v : String) : (vars.setVar k v).Since g l log₀ := by
  obtain ⟨globals, locals, args, frees, assigned⟩ := vars
  obtain ⟨rfl, log, rfl, rfl⟩ := h
  cases args with
  | none | some => exact ⟨rfl, (k, v) :: log, rfl, rfl⟩

theorem Variables.Since.setOwner {d : Draft} (h : d.vars.Since g l log₀)
    (user : String) (uid : UInt32) (group : Option String) (gid : Option UInt32) :
    (Bmd.setOwner d user uid group gid).vars.Since g l log₀ := by
  cases group with
  | none => exact h.setVar "OWNER" user
  | some group =>
    cases gid with
    | none => exact h.setVar "OWNER" user
    | some gid => exact (h.setVar "OWNER" user).setVar "GROUP" group

/-- Whatever a section does, it leaves the global scope alone and changes the local one by assignments only. -/
theorem since_settingInvariant (env : ParseEnv) (g l : Vartree) (log₀ : List (String × String)) :
    SettingInvariant env fun d => d.vars.Since g l log₀ := by
  refine .of_aside (fun d d' h hd => ?_) (fun d d' val hd h => ?_) (fun _ val hd => hd.setVar "NAME" val)
    (fun _ k val hd => hd.setVar k val) (fun _ _ _ => id) fun _ _ => id
  · obtain ⟨-, -, -, -, -, hvars⟩ := aside_eq h
    rw [hvars]
    exact hd
  · obtain ⟨user, group, pwd, gid, -, -, -, rfl⟩ := parseOwner_ok h
    exact hd.setOwner user pwd.uid group gid

/-! ## Application is a call by value -/

/-- **The scope in which the parameters of a template begin to be executed.** A parameter reads as the value of its
    argument in the scope of the caller; of the caller's scope, the arguments are hidden. -/
structure Entered (caller : Variables) (defs : List Cfargdef) (given : List Cftokens) (body : Variables) : Prop where
  param : ∀ (i : Nat) d n, defs[i]? = some d → d.name = some n → body.getVar n = some (argValue caller given[i]? d)
  hidden : ∀ k, (∀ d ∈ defs, d.name ≠ some k) → body.getVar k = { caller with args := none }.getVar k

/-- **The scope that `parse_apply` leaves.** The arguments and the global variables are those of before, and the local
    variables differ by what was assigned meanwhile, where the last value is read. -/
structure Returned (l : Vartree) (vars vars' : Variables) : Prop where
  args : vars'.args = vars.args
  globals : vars'.globals = vars.globals
  locals : ∃ log l', vars'.assigned = log ++ vars.assigned ∧ vars'.locals = some l' ∧
    ∀ k, l'.getVar0 k = (log.lookup k).or (l.getVar0 k)

theorem entered_withArgs (d : Draft) (given : List Cftokens) (hnodup : (paramNames defs).Nodup) :
    Entered d.vars defs given (d.withArgs (some (boundArgs d.vars [] defs given))).vars where
  param i e n hi hname := by
    show (((boundArgs d.vars [] defs given).getVar0 n).or _).or _ = _
    rw [getVar0_boundArgs hname hnodup hi]
    rfl
  hidden k hk := by
    show (((boundArgs d.vars [] defs given).getVar0 k).or _).or _ = _
    rw [getVar0_boundArgs_of_ne hk]
    rfl

/-- `parse_apply` for a template without a mark, up to the execution of its parameters and from there on. -/
theorem parseApply_first {vl : Cfvalue}
    (hname : tokenToString w.draft.vars vl.tokens = .ok name) (hlookup : lookupTemplate name w.templates = .ok (some tp))
    (happ : tp.applied = 0) (exec : Cfsection → Setting Unit) :
    parseApply exec vl w = applyTemplate exec name tp vl.args { w with reached := name :: w.reached } := by
  have hval : valueOf vl.tokens w = .ok (some name, w) := by
    refine valueOf_ok_iff.mpr ⟨?_, ?_, rfl⟩
    · rw [hname]
      nofun
    · rw [hname]
      rfl
  unfold parseApply
  rw [bind_of_ok hval]
  simp only
  rw [bind_of_ok (get_ok.mpr ⟨rfl, rfl⟩), hlookup]
  simp only
  rw [bind_of_ok (x := ⟨⟩) (modify_ok.mpr rfl), if_neg (not_not.mpr happ)]

theorem applyTemplate_run {exec : Cfsection → Setting Unit} {args : Vartree} (h : bindArgs [] tp.argdefs given w = .ok (args, w)) :
    applyTemplate exec name tp given w = (exec tp >>= fun _ => setArgs w.draft.vars.args)
      { w with templates := markApplied name w.templates, executed := name :: w.executed,
               draft := w.draft.withArgs (some args) } := by
  have hrun : applyTemplate exec name tp given w = _ := bind_of_ok h
  exact hrun

/-- **The application of a template is a call by value with a scope of its own for the arguments.** Whatever the
    variables are and however deep the `.apply`s are nested: unless the evaluation of an argument ends the process, the
    parameters of a template begin to be executed in a scope with its arguments; and when `parse_apply` returns, for
    whatever reason, the scope is the one of before but for the assignments. -/
theorem apply_call_by_value (env : ParseEnv) (vl : Cfvalue) (w : Work) (l : Vartree) (hl : w.draft.vars.locals = some l) :
    (∀ name tp, tokenToString w.draft.vars vl.tokens = .ok name → lookupTemplate name w.templates = .ok (some tp) →
      tp.applied = 0 → (paramNames tp.argdefs).Nodup →
        (ArgTraps w.draft.vars tp.argdefs vl.args ∧ ∀ exec, parseApply exec vl w = .error .sigfpe) ∨
        ∃ start : Work, Entered w.draft.vars tp.argdefs vl.args start.draft.vars ∧
          ∀ exec, parseApply exec vl w = (exec tp >>= fun _ => setArgs w.draft.vars.args) start) ∧
    ∀ depth w', parseApply (vmConfSetParams env depth) vl w = .ok ((), w') →
      Returned l w.draft.vars w'.draft.vars := by
  constructor
  · intro name tp hname hlookup happ hnodup
    obtain ⟨htraps, herr⟩ | hok := bindArgs_run { w with reached := name :: w.reached } tp.argdefs vl.args []
    · refine .inl ⟨htraps, fun exec => ?_⟩
      rw [parseApply_first hname hlookup happ]
      show (bindArgs [] tp.argdefs vl.args _ >>= fun r => _) = _
      rw [herr]
      rfl
    · refine .inr ⟨{ w with templates := markApplied name w.templates, reached := name :: w.reached,
                            executed := name :: w.executed,
                            draft := w.draft.withArgs (some (boundArgs w.draft.vars [] tp.argdefs vl.args)) },
        entered_withArgs w.draft vl.args hnodup, fun exec => ?_⟩
      rw [parseApply_first hname hlookup happ, applyTemplate_run hok]
  · intro depth w' h
    have hinv := (since_settingInvariant env w.draft.vars.globals l w.draft.vars.assigned).work
    obtain ⟨hglobals, log, hlog, hlocals⟩ :=
      parseApply_keeps hinv (vmConfSetParams_keeps hinv depth) w () w' h ⟨rfl, [], rfl, hl⟩
    refine ⟨?_, hglobals, log, _, hlog, hlocals, l.getVar0_assignAll log⟩
    obtain ⟨rfl, -⟩ | ⟨name, tp, -, -, ⟨-, rfl⟩ | ⟨-, h⟩⟩ := parseApply_ok h
    · rfl
    · rfl
    · obtain ⟨args, w₁, -, -, -, rfl⟩ := applyTemplate_ok h
      rfl

/-- The second parameter is omitted, and its default reads a variable of the caller. -/
theorem apply_call_by_value_default : ∃ start w',
    Entered argumentWork.draft.vars argumentTemplate.argdefs [[.str "2"]] start ∧ start.getVar "q" = some "a" ∧
      parseApply (vmConfSetParams ownerEnv 1) { tokens := [.str "t"], args := [[.str "2"]] } argumentWork =
        .ok ((), w') ∧ w'.draft.vars.getVar "X" = some "1" ∧
      Returned (argumentWork.draft.vars.locals.getD []) argumentWork.draft.vars w'.draft.vars := by
  obtain ⟨w', hw', hx⟩ : ∃ w', parseApply (vmConfSetParams ownerEnv 1) { tokens := [.str "t"], args := [[.str "2"]] }
      argumentWork = .ok ((), w') ∧ w'.draft.vars.getVar "X" = some "1" := ⟨_, rfl, by decide⟩
  have htheorem := apply_call_by_value ownerEnv { tokens := [.str "t"], args := [[.str "2"]] } argumentWork _ rfl
  obtain ⟨-, herr⟩ | ⟨start, hentered, -⟩ := htheorem.1 "t" argumentTemplate rfl rfl rfl (by decide)
  · have hcrash := herr (vmConfSetParams ownerEnv 1)
    rw [hw'] at hcrash
    cases hcrash
  · refine ⟨start.draft.vars, w', hentered, ?_, hw', hx, htheorem.2 1 w' hw'⟩
    exact hentered.param 1 _ "q" rfl rfl

end Bmd
