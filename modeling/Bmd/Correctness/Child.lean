import Bmd.Conf.Load
import Mathlib.Logic.Relation

/-!
# `Correctness.Child` — what a child does to the shared memory

Everything that the parser does in the child is put together from a few steps (`ChildStep`): it requests memory, counts
an error, assigns global variables, marks a section whose name is repeated, adds a section, and pushes a file. `yyparse`
is shown once to consist of such steps, and to keep in step with another run of it as long as the steps do.
-/

namespace Bmd

open Lib
open Lib.Trial (Lockstep Tracks)

variable {real : String → Prop} {env : ChildEnv} {kind : SectionKind} {l : List Cfsection} {p : Pctxt}
  {s s' : ChildState}

/-! ## Steps of a child -/

/-- The steps of a child that parses a file. -/
inductive ChildStep (env : ChildEnv) : ChildState → ChildState → Prop where
  | alloc (s : ChildState) (sz : Nat) : ChildStep env s { s with shared := (s.shared.alloc sz).2 }
  | error (s : ChildState) : ChildStep env s { s with nerrs := s.nerrs + 1 }
  | globals (s : ChildState) (gv : Vartree) : ChildStep env s { s with globals := gv }
  | mark (s : ChildState) (kind : SectionKind) (name : Option String) (l : List Cfsection)
      (h : marked kind name (s.shared.pctxt.sections kind) = some l) :
      ChildStep env s { s with shared := { s.shared with pctxt := s.shared.pctxt.setSections l kind } }
  | add (s : ChildState) (kind : SectionKind) (sc : Cfsection) (howner : sc.owner = peekFileowner env)
      (hfile : sc.filename = env.filename) :
      ChildStep env s { s with shared := { s.shared with
        pctxt := s.shared.pctxt.setSections (s.shared.pctxt.sections kind ++ [sc]) kind } }
  | push (s : ChildState) (fn path : String) (hreal : env.view.realpath fn = some path)
      (hnew : path ∉ s.shared.pctxt.cffiles) :
      ChildStep env s { s with shared := { s.shared with
        pctxt := { s.shared.pctxt with cffiles := s.shared.pctxt.cffiles ++ [path] } } }

/-- Any number of steps. -/
def Walk (env : ChildEnv) : ChildState → ChildState → Prop := Relation.ReflTransGen (ChildStep env)

instance (env : ChildEnv) : IsPreorder ChildState (Walk env) where
  refl _ := .refl
  trans _ _ _ := .trans

/-! ## Runs of the functions that use the state -/

theorem objalloc_run (o : Obj) (s : ChildState) :
    objalloc o s = (if (s.shared.alloc o.size).1 then .ok () else .error .abort,
      { s with shared := (s.shared.alloc o.size).2 }) := by
  show (if (s.shared.alloc o.size).1 = true then (pure () : Child Unit) else throw ChildStop.abort)
    { s with shared := (s.shared.alloc o.size).2 } = _
  split
  · rfl
  · rfl

theorem applyGlobalVars_run (params : List Cfparam) (s : ChildState) :
    applyGlobalVars params s = (match globalVarsOf params s.globals with
      | none => (.error .killed, s)
      | some gv => (.ok (), { s with globals := gv }) : Except ChildStop Unit × ChildState) := by
  show (match globalVarsOf params s.globals with
    | none => (throw ChildStop.killed : Child Unit)
    | some gv => modify fun s : ChildState => { s with globals := gv }) s = _
  cases globalVarsOf params s.globals with
  | none => rfl
  | some gv => rfl

/-- The context after the section is added. -/
def Pctxt.added (p : Pctxt) (kind : SectionKind) (sc : Cfsection) : Pctxt := p.setSections (p.sections kind ++ [sc]) kind

/-- A new section. -/
def newSection (env : ChildEnv) (name : Option String) (params : List Cfparam) (argdefs : List Cfargdef) : Cfsection :=
  { name := name, params := params, argdefs := argdefs, applied := 0, duplicate := 0, owner := peekFileowner env
    filename := env.filename }

theorem addSection_run (env : ChildEnv) (kind : SectionKind) (name : Option String) (params : List Cfparam)
    (argdefs : List Cfargdef) (s : ChildState) :
    addSection env kind name params argdefs s = (match marked kind name (s.shared.pctxt.sections kind) with
      | none => (.error .killed, s)
      | some l =>
        let r := Shared.alloc Obj.cfsection.size { s.shared with pctxt := s.shared.pctxt.setSections l kind }
        if r.1 then (.ok (), { s with shared := { r.2 with pctxt := r.2.pctxt.added kind (newSection env name params argdefs) } })
        else (.error .abort, { s with shared := r.2 }) : Except ChildStop Unit × ChildState) := by
  show (match marked kind name (s.shared.pctxt.sections kind) with
    | none => (throw ChildStop.killed : Child Unit)
    | some l => do
      modPctxt fun p => p.setSections l kind
      objalloc .cfsection
      modPctxt fun p => p.added kind (newSection env name params argdefs)) s = _
  cases marked kind name (s.shared.pctxt.sections kind) with
  | none => rfl
  | some l =>
    show (objalloc .cfsection >>= fun _ => modPctxt fun p => p.added kind (newSection env name params argdefs))
      { s with shared := { s.shared with pctxt := s.shared.pctxt.setSections l kind } } = _
    rw [Trial.bind_run, objalloc_run]
    simp only
    generalize Shared.alloc Obj.cfsection.size { s.shared with pctxt := s.shared.pctxt.setSections l kind } = r
    obtain ⟨b, sh⟩ := r
    cases b with
    | true => rfl
    | false => rfl

theorem globPath_run (env : ChildEnv) (ts : Cftokens) (s : ChildState) :
    globPath env ts s = (match globPaths env s.globals ts with
      | none => (.error .killed, s)
      | some paths => (.ok (), { s with shared := pushFiles env.view paths s.shared }) :
        Except ChildStop Unit × ChildState) := by
  show (match globPaths env s.globals ts with
    | none => (throw ChildStop.killed : Child Unit)
    | some paths => modify fun s : ChildState => { s with shared := pushFiles env.view paths s.shared }) s = _
  cases globPaths env s.globals ts with
  | none => rfl
  | some paths => rfl

theorem poolAlloc_moves (sz : Nat) (s : ChildState) : Walk env s (poolAlloc sz s).2 := .single (.alloc s sz)

theorem countError_moves (s : ChildState) : Walk env s (countError s).2 := .single (.error s)

theorem applyGlobalVars_moves (params : List Cfparam) (s : ChildState) : Walk env s (applyGlobalVars params s).2 := by
  rw [applyGlobalVars_run]
  split
  · exact .refl
  · exact .single (.globals s _)

theorem addSection_moves (kind : SectionKind) (name : Option String) (params : List Cfparam) (argdefs : List Cfargdef)
    (s : ChildState) : Walk env s (addSection env kind name params argdefs s).2 := by
  rw [addSection_run]
  split
  · exact .refl
  · next l hl =>
    have hmark : ChildStep env s _ := .mark s kind name l hl
    have halloc := (Relation.ReflTransGen.single hmark).tail (.alloc _ Obj.cfsection.size)
    simp only
    split
    · exact halloc.tail (.add _ kind (newSection env name params argdefs) rfl rfl)
    · exact halloc

theorem pushFile_moves (fn : String) (s : ChildState) :
    Walk env s { s with shared := (pushFile env.view fn s.shared).2 } := by
  unfold pushFile
  split
  · exact .refl
  · next path hpath =>
    split
    · exact .refl
    · split
      · exact .refl
      · next hnew =>
        have hpaths : Walk env s _ := .single (.alloc s (path.toList.length + 1))
        have hfile := hpaths.tail (.alloc _ Obj.cffile.size)
        simp only
        split
        · refine hfile.tail (.push _ fn path hpath fun hmem => hnew ?_)
          exact List.contains_iff_mem.mpr hmem
        · exact hfile

theorem pushFiles_moves : ∀ (fns : List String) (s : ChildState),
    Walk env s { s with shared := pushFiles env.view fns s.shared }
  | [], _ => .refl
  | fn :: rest, s => (pushFile_moves fn s).trans
      (pushFiles_moves rest { s with shared := (pushFile env.view fn s.shared).2 })

theorem globPath_moves (ts : Cftokens) (s : ChildState) : Walk env s (globPath env ts s).2 := by
  rw [globPath_run]
  split
  · exact .refl
  · exact pushFiles_moves _ s

/-! ## The parser -/

/-- The parser comes to the end of an `.include` or of a global section, where it uses the global variables. -/
def Lr.evaluates : Lr → Token → Bool
  | .tokens .include _, .char ';' | .params .global _, .char '}' => true
  | _, _ => false

/-- The functions that use the shared memory keep in step. -/
class InStep (env : ChildEnv) (R : ChildState → ChildState → Prop) : Prop where
  alloc : ∀ sz, Lockstep R (poolAlloc sz)
  error : Lockstep R countError
  addSection : ∀ kind name params argdefs, Lockstep R (addSection env kind name params argdefs)

/-- The functions that use the global variables keep in step. -/
structure EvaluatesInStep (env : ChildEnv) (R : ChildState → ChildState → Prop) : Prop where
  applyGlobalVars : ∀ params, Lockstep R (applyGlobalVars params)
  globPath : ∀ ts, Lockstep R (globPath env ts)

namespace Child

variable {R : ChildState → ChildState → Prop} [hin : InStep env R]

instance (sz : Nat) : Tracks (Walk env) R (poolAlloc sz) := ⟨poolAlloc_moves sz, hin.alloc sz⟩

instance : Tracks (Walk env) R countError := ⟨countError_moves, hin.error⟩

instance (kind : SectionKind) (name : Option String) (params : List Cfparam) (argdefs : List Cfargdef) :
    Tracks (Walk env) R (addSection env kind name params argdefs) :=
  ⟨addSection_moves kind name params argdefs, hin.addSection kind name params argdefs⟩

instance (o : Obj) : Tracks (Walk env) R (objalloc o) := by
  unfold objalloc
  infer_instance

instance objallocs_tracks (o : Obj) : ∀ n, Tracks (Walk env) R (objallocs o n)
  | 0 => inferInstanceAs (Tracks _ R (pure ()))
  | n + 1 => Tracks.bind (m := objalloc o) inferInstance fun _ => objallocs_tracks o n

instance (s : Option String) : Tracks (Walk env) R (notNull s) := by
  cases s with
  | none => exact inferInstanceAs (Tracks _ R (throw _))
  | some s => exact inferInstanceAs (Tracks _ R (pure s))

instance (h : Header) (ps : List Cfparam) (sym : Option Sym) : Tracks (Walk env) R (recover h ps sym) := by
  unfold recover
  split <;> infer_instance

instance (params : Option (Header × List Cfparam)) (sym : Option Sym) :
    Tracks (Walk env) R (syntaxError params sym) := by
  unfold syntaxError
  cases params <;> infer_instance

theorem closeSection_tracks {h : Header} (hvars : h = .global → EvaluatesInStep env R) (params : List Cfparam) :
    Tracks (Walk env) R (closeSection env h params) := by
  unfold closeSection
  cases h with
  | global =>
    have happly : Tracks (Walk env) R (applyGlobalVars params) :=
      ⟨applyGlobalVars_moves params, (hvars rfl).applyGlobalVars params⟩
    infer_instance
  | template | vm => infer_instance

instance (vals : List Cfvalue) (v : Cfvalue) : Tracks (Walk env) R (addValue vals v) := by
  unfold addValue
  infer_instance

instance (args : List Cftokens) (ts : Cftokens) : Tracks (Walk env) R (addArg args ts) := by
  unfold addArg
  infer_instance

instance (defs : List Cfargdef) (d : Cfargdef) : Tracks (Walk env) R (addArgdef defs d) := by
  unfold addArgdef
  infer_instance

instance (slot : Slot) : Tracks (Walk env) R (beginTokens slot) := by
  unfold beginTokens
  infer_instance

instance (h : Header) : Tracks (Walk env) R (beginParams h) := by
  unfold beginParams
  infer_instance

instance (h : Header) (ps : List Cfparam) (key : Cfkey) (operator : Int) (vals : List Cfvalue) :
    Tracks (Walk env) R (addParam h ps key operator vals) := by
  unfold addParam
  infer_instance

theorem endTokens_tracks {slot : Slot} {sym : Sym}
    (hvars : slot = .include → sym = .char ';' → EvaluatesInStep env R) (ts : Cftokens) :
    Tracks (Walk env) R (endTokens env slot ts sym) := by
  unfold endTokens
  split
  · have hglob : Tracks (Walk env) R (globPath env ts) := ⟨globPath_moves ts, (hvars rfl rfl).globPath ts⟩
    infer_instance
  all_goals infer_instance

instance (slot : Slot) (ts : Cftokens) (mk : String → Cftoken) (s : Option String) :
    Tracks (Walk env) R (addToken slot ts mk s) := by
  unfold addToken
  infer_instance

instance (slot : Slot) (ts : Cftokens) (stack : List ExprSym) (mk : String → ExprToken) (s : Option String) (sym : Sym) :
    Tracks (Walk env) R (addOperand slot ts stack mk s sym) := by
  unfold addOperand
  split
  · infer_instance
  · refine Tracks.bind inferInstance fun _ => Tracks.bind inferInstance fun s => ?_
    split <;> infer_instance

instance (slot : Slot) (ts : Cftokens) (stack : List ExprSym) : Tracks (Walk env) R (closeParen slot ts stack) := by
  unfold closeParen
  split
  · refine Tracks.bind inferInstance fun _ => ?_
    split
    · refine Tracks.bind inferInstance fun _ => ?_
      split <;> infer_instance
    · infer_instance
  · infer_instance

instance (slot : Slot) (ts : Cftokens) (stack : List ExprSym) : Tracks (Walk env) R (closeExpr slot ts stack) := by
  unfold closeExpr
  split
  · refine Tracks.bind inferInstance fun _ => ?_
    split <;> infer_instance
  · infer_instance

instance (slot : Slot) (ts : Cftokens) (stack : List ExprSym) (tk : ExprToken) (sym : Sym) :
    Tracks (Walk env) R (shiftMark slot ts stack tk sym) := by
  unfold shiftMark
  split <;> infer_instance

instance (slot : Slot) (ts : Cftokens) (stack : List ExprSym) (sym : Sym) :
    Tracks (Walk env) R (exprSym slot ts stack sym) := by
  unfold exprSym
  split
  · infer_instance
  · infer_instance
  · infer_instance
  · infer_instance
  · infer_instance
  · split <;> infer_instance
  · infer_instance

instance (mk : String → Cfkey) (s : Option String) : Tracks (Walk env) R (beginParam mk s) := by
  unfold beginParam
  infer_instance

theorem shiftSym_tracks {st : Lr} {sym : Sym}
    (hvars : ∀ c, sym = .char c → st.evaluates (.char c) → EvaluatesInStep env R) :
    Tracks (Walk env) R (shiftSym env st sym) := by
  unfold shiftSym
  split
  case h_16 => exact closeSection_tracks (fun h => hvars _ rfl (by subst h; rfl)) _
  case h_25 => exact endTokens_tracks (fun h h' => hvars _ h' (by subst h; rfl)) _
  all_goals infer_instance

instance (l : Lexeme) : Tracks (Walk env) R (text2lval l) := by
  unfold text2lval
  infer_instance

instance (tk : Token) : Tracks (Walk env) R (yylex tk) := by
  cases tk <;> (unfold yylex; infer_instance)

theorem parseToken_tracks {st : Lr} {tk : Token} (hvars : st.evaluates tk → EvaluatesInStep env R) :
    Tracks (Walk env) R (parseToken env st tk) := by
  have hshift : ∀ {sym : Sym}, (∀ c, sym ≠ .char c) → Tracks (Walk env) R (shiftSym env st sym) := fun hne =>
    shiftSym_tracks fun c hc => absurd hc (hne c)
  cases tk with
  | char c => exact shiftSym_tracks fun _ hc => Sym.char.inj hc ▸ hvars
  | str l | var l | number l | apply l =>
    simp only [parseToken, yylex, bind_assoc, pure_bind]
    exact .bind inferInstance fun _ => hshift nofun
  | complaint =>
    simp only [parseToken, yylex, bind_assoc, pure_bind]
    infer_instance
  | _ => exact hshift nofun

instance (st : Lr) : Tracks (Walk env) R (endOfFile st) := by
  unfold endOfFile
  split <;> infer_instance

/-- **The parser consists of steps of a child, and keeps in step.** -/
theorem yyparse_tracks (hvars : EvaluatesInStep env R) (tokens : List Token) :
    Tracks (Walk env) R (yyparse env tokens) :=
  (Tracks.foldlM (fun _ _ => parseToken_tracks fun _ => hvars) tokens .conf).bind inferInstance

end Child

theorem lockstep_eq {α : Type} (m : Child α) : Lockstep Eq m := by
  rintro s _ rfl
  exact ⟨rfl, rfl⟩

instance (env : ChildEnv) : InStep env Eq := ⟨fun _ => lockstep_eq _, lockstep_eq _, fun _ _ _ _ => lockstep_eq _⟩

theorem yyparse_walk (tokens : List Token) (s : ChildState) : Walk env s (yyparse env tokens s).2 :=
  (Child.yyparse_tracks (R := Eq) ⟨fun _ => lockstep_eq _, fun _ => lockstep_eq _⟩ tokens).moves s

/-! ## What a child leaves -/

/-- A section without its counter of repetitions, which stays after a retry. -/
def Cfsection.plain (sc : Cfsection) : Cfsection := { sc with duplicate := 0 }

/-- What was on the lists is still there, and the rest is new; the names of new files satisfy `real`. -/
structure Pctxt.Grown (real : String → Prop) (p p' : Pctxt) : Prop where
  sections : ∀ kind, ∃ new, (p'.sections kind).map Cfsection.plain = (p.sections kind).map Cfsection.plain ++ new
  files : ∃ new, p'.cffiles = p.cffiles ++ new ∧ ∀ path ∈ new, real path
  nodup : p.cffiles.Nodup → p'.cffiles.Nodup

instance (real : String → Prop) : IsPreorder Pctxt (Pctxt.Grown real) where
  refl s := ⟨fun _ => ⟨[], (List.append_nil _).symm⟩, ⟨[], (List.append_nil _).symm, nofun⟩, id⟩
  trans s s' s'' h h' := by
    refine ⟨fun kind => ?_, ?_, fun hn => h'.nodup (h.nodup hn)⟩
    · obtain ⟨new, hnew⟩ := h.sections kind
      obtain ⟨new', hnew'⟩ := h'.sections kind
      exact ⟨new ++ new', by rw [hnew', hnew, List.append_assoc]⟩
    · obtain ⟨new, hnew, hreal⟩ := h.files
      obtain ⟨new', hnew', hreal'⟩ := h'.files
      refine ⟨new ++ new', by rw [hnew', hnew, List.append_assoc], fun path hpath => ?_⟩
      exact (List.mem_append.mp hpath).elim (hreal path) (hreal' path)

theorem markDuplicate_plain {name : String} : ∀ {l l' : List Cfsection}, markDuplicate name l = some l' →
    l'.map Cfsection.plain = l.map Cfsection.plain
  | [], l', h => by
    obtain rfl := Option.some.inj h
    rfl
  | v :: rest, l', h => by
    unfold markDuplicate at h
    split at h
    · cases h
    · split at h
      · obtain rfl := Option.some.inj h
        rfl
      · obtain ⟨rest', hrest, rfl⟩ := Option.map_eq_some_iff.mp h
        rw [List.map_cons, List.map_cons, markDuplicate_plain hrest]

theorem marked_plain {name : Option String} {l' : List Cfsection} (h : marked kind name l = some l') :
    l'.map Cfsection.plain = l.map Cfsection.plain := by
  unfold marked at h
  split at h
  · obtain rfl := Option.some.inj h
    rfl
  · obtain rfl := Option.some.inj h
    rfl
  · exact markDuplicate_plain h

theorem Pctxt.sections_setSections (p : Pctxt) (l : List Cfsection) (kind k : SectionKind) :
    (p.setSections l kind).sections k = if k = kind then l else p.sections k := by
  cases kind <;> cases k <;> rfl

theorem Pctxt.cffiles_setSections (p : Pctxt) (l : List Cfsection) (kind : SectionKind) :
    (p.setSections l kind).cffiles = p.cffiles := by
  cases kind <;> rfl

/-- Sections of one kind are replaced. -/
theorem Pctxt.Grown.of_setSections (h : ∃ new, l.map Cfsection.plain = (p.sections kind).map Cfsection.plain ++ new) :
    p.Grown real (p.setSections l kind) := by
  refine ⟨fun k => ?_, ⟨[], ?_, nofun⟩, ?_⟩
  · rw [Pctxt.sections_setSections]
    split
    · next hk =>
      subst hk
      exact h
    · exact ⟨[], (List.append_nil _).symm⟩
  · rw [Pctxt.cffiles_setSections, List.append_nil]
  · rw [Pctxt.cffiles_setSections]
    exact id

theorem Pctxt.Grown.of_push {path : String} (hreal : real path)
    (hnew : path ∉ p.cffiles) : p.Grown real { p with cffiles := p.cffiles ++ [path] } := by
  refine ⟨fun kind => ⟨[], ?_⟩, ⟨[path], rfl, ?_⟩, fun hn => ?_⟩
  · rw [List.append_nil]
    cases kind <;> rfl
  · intro q hq
    obtain rfl := List.mem_singleton.mp hq
    exact hreal
  · refine List.nodup_append.mpr ⟨hn, List.nodup_cons.mpr ⟨List.not_mem_nil, List.nodup_nil⟩, fun a ha b hb => ?_⟩
    obtain rfl := List.mem_singleton.mp hb
    rintro rfl
    exact hnew ha

theorem ChildStep.grown
    (hreal : ∀ fn path, env.view.realpath fn = some path → real path) (h : ChildStep env s s') :
    s.shared.pctxt.Grown real s'.shared.pctxt := by
  cases h with
  | alloc | error | globals => exact refl_of _ _
  | mark kind name l hl => exact .of_setSections ⟨[], by rw [marked_plain hl, List.append_nil]⟩
  | add kind sc _ _ => exact .of_setSections ⟨[sc.plain], by rw [List.map_append]; rfl⟩
  | push fn path hpath hnew => exact .of_push (hreal fn path hpath) hnew

theorem Walk.grown (hreal : ∀ fn path, env.view.realpath fn = some path → real path) (h : Walk env s s') :
    s.shared.pctxt.Grown real s'.shared.pctxt := by
  induction h with
  | refl => exact refl_of _ _
  | tail _ hstep ih => exact trans_of _ ih (hstep.grown hreal)

theorem parseTokens_walk (env : ChildEnv) (tokens : List Token) (gv : Vartree) (s : Shared) :
    ∃ c, c.shared = (parseTokens env tokens gv s).2 ∧ Walk env { shared := s, globals := gv, nerrs := 0 } c := by
  refine ⟨_, ?_, yyparse_walk tokens _⟩
  unfold parseTokens
  split <;> next heq => rw [heq]

/-- A name that `realpath` gives, for the daemon or for a child. -/
def Sys.Real (sys : Sys) (path : String) : Prop :=
  ∃ fn, sys.files.realpath fn = some path ∨ ∃ st, (sys.filesAs st).realpath fn = some path

theorem parseChild_grown (sys : Sys) (file : String) (gv : Vartree) (s : Shared) :
    s.pctxt.Grown sys.Real (parseChild sys file gv s).2.pctxt := by
  unfold parseChild
  split
  · exact refl_of _ s.pctxt
  · next st _ =>
    split
    · exact refl_of _ s.pctxt
    · split
      · exact refl_of _ s.pctxt
      · next tokens _ =>
        obtain ⟨c, hc, hwalk⟩ := parseTokens_walk { view := sys.filesAs st, filename := file } tokens gv s
        rw [← hc]
        exact hwalk.grown fun fn path h => ⟨fn, .inr ⟨st, h⟩⟩

theorem pushFile_grown {v : FileView} (hreal : ∀ fn path, v.realpath fn = some path → real path)
    (fn : String) (s : Shared) : s.pctxt.Grown real (pushFile v fn s).2.pctxt := by
  let env : ChildEnv := { view := v, filename := "" }
  let c : ChildState := { shared := s, globals := [], nerrs := 0 }
  have hmoves : Walk env c { c with shared := (pushFile v fn s).2 } := pushFile_moves fn c
  exact hmoves.grown hreal

end Bmd
