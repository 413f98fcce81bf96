import Bmd.Correctness.Files
import Bmd.Correctness.Identity

/-!
# `Correctness.History` — what a load takes over from earlier ones

A load begins its own tree of global variables, but the children that parse the files begin with the tree of the last
load. They use it at the end of an `.include`, for the pattern, and at the end of a global section, for the values that
are assigned. As long as that makes no difference, a load depends on earlier ones only in the identifiers of the VMs and
in the list of plugins.
-/

namespace Bmd

open Lib
open Lib.Trial (Tracks Yields)

variable {list update : Bool} {p p' p₁ p₂ : Process} {sys : Sys} {fuel : Nat} {env : ChildEnv} {gv gv' : Vartree}
  {st : Lr} {tk : Token} {tokens : List Token} {c c' : ChildState} {ctx : Pctxt}

/-! ## What the parser evaluates -/

/-- With both trees the pattern of an `.include` that ends here names the same paths, and the assignments of a global
    section that ends here trap or do not. -/
def evaluatesAlike (env : ChildEnv) (gv gv' : Vartree) : Lr → Token → Prop
  | .tokens .include ts, .char ';' => globPaths env gv ts = globPaths env gv' ts
  | .params .global ps, .char '\x7d' => (globalVarsOf ps gv).isSome = (globalVarsOf ps gv').isSome
  | _, _ => True

/-- The global variables behind a token. -/
def variablesAfter (gv : Vartree) : Lr → Token → Vartree
  | .params .global ps, .char '\x7d' => (globalVarsOf ps gv).getD gv
  | _, _ => gv

/-- Two children, with `gv` and `gv'`, come to the tokens with the stack `st`. Whatever memory they get from there on,
    the patterns and the assignments that they come to have the same effect. -/
def ReadAlike (env : ChildEnv) : List Token → Lr → Vartree → Vartree → Prop
  | [], _, _, _ => True
  | tk :: rest, st, gv, gv' =>
    evaluatesAlike env gv gv' st tk ∧ ∀ c st' c', parseToken env st tk c = (.ok st', c') →
      ReadAlike env rest st' (variablesAfter gv st tk) (variablesAfter gv' st tk)

theorem variablesAfter_eq (gv : Vartree) (h : st.evaluates tk = false) : variablesAfter gv st tk = gv := by
  unfold variablesAfter
  split
  · cases h
  · rfl

/-- Children that have the trees `gv` and `gv'` and are otherwise alike. -/
def Beside (gv gv' : Vartree) (c c' : ChildState) : Prop := c.globals = gv ∧ c' = { c with globals := gv' }

instance : InStep env (Beside gv gv') where
  alloc sz := by
    rintro c _ ⟨rfl, rfl⟩
    exact ⟨rfl, rfl, rfl⟩
  error := by
    rintro c _ ⟨rfl, rfl⟩
    exact ⟨rfl, rfl, rfl⟩
  addSection kind name params argdefs := by
    rintro c _ ⟨rfl, rfl⟩
    rw [addSection_run, addSection_run]
    dsimp only
    cases marked kind name (c.shared.pctxt.sections kind) with
    | none => exact ⟨rfl, rfl, rfl⟩
    | some l =>
      dsimp only
      split
      · exact ⟨rfl, rfl, rfl⟩
      · exact ⟨rfl, rfl, rfl⟩

/-- One token: the children end alike, and if they go on they have the variables behind the token. -/
theorem parseToken_beside (h : evaluatesAlike env gv gv' st tk) (hb : Beside gv gv' c c') :
    ∃ x, ∃ d : ChildState, ∃ g g', parseToken env st tk c = (x, { d with globals := g }) ∧
      parseToken env st tk c' = (x, { d with globals := g' }) ∧
      ∀ st', x = .ok st' → g = variablesAfter gv st tk ∧ g' = variablesAfter gv' st tk := by
  by_cases hvars : st.evaluates tk
  · obtain ⟨rfl, rfl⟩ := hb
    unfold Lr.evaluates at hvars
    split at hvars
    · next ts =>
      -- the pattern
      have hrun : parseToken env (.tokens .include ts) (.char ';') = globPath env ts >>= fun _ => pure .conf := rfl
      simp only [evaluatesAlike] at h
      rw [hrun, Trial.bind_run, Trial.bind_run, globPath_run, globPath_run, ← h]
      cases globPaths env c.globals ts with
      | none => exact ⟨_, c, _, _, rfl, rfl, fun _ h => by cases h⟩
      | some paths => exact ⟨_, { c with shared := pushFiles env.view paths c.shared }, _, _, rfl, rfl, fun _ _ => ⟨rfl, rfl⟩⟩
    · next ps =>
      have hrun : parseToken env (.params .global ps) (.char '\x7d') =
          addSection env .global none ps [] >>= fun _ => applyGlobalVars ps >>= fun _ => pure .conf := rfl
      have hb : Beside c.globals gv' c { c with globals := gv' } := ⟨rfl, rfl⟩
      obtain ⟨hres, hglobals, hother⟩ :=
        (inferInstance : InStep env (Beside c.globals gv')).addSection .global none ps [] c _ hb
      simp only [hrun, Trial.bind_run]
      generalize addSection env .global none ps [] { c with globals := gv' } = r' at *
      generalize addSection env .global none ps [] c = r at *
      obtain ⟨x, d⟩ := r
      obtain ⟨_, _⟩ := r'
      subst hres hother
      cases x with
      | error e => exact ⟨_, d, _, _, rfl, rfl, fun _ h => by cases h⟩
      | ok u =>
        dsimp only at hglobals ⊢
        rw [applyGlobalVars_run, applyGlobalVars_run, hglobals]
        simp only [evaluatesAlike] at h
        cases hps : globalVarsOf ps c.globals with
        | none =>
          have hps' : globalVarsOf ps gv' = none := by
            rw [hps] at h
            exact Option.not_isSome_iff_eq_none.mp (by rw [← h]; exact Bool.false_ne_true)
          rw [hps']
          exact ⟨_, d, _, _, rfl, rfl, fun _ h => by cases h⟩
        | some g =>
          rw [hps] at h
          obtain ⟨g', hps'⟩ := Option.isSome_iff_exists.mp h.symm
          simp only [hps', variablesAfter, hps]
          exact ⟨_, d, g, g', rfl, rfl, fun _ _ => ⟨rfl, rfl⟩⟩
    · cases hvars
  · have htracks : Tracks (Walk env) (Beside gv gv') (parseToken env st tk) :=
      Child.parseToken_tracks fun h => absurd h hvars
    obtain ⟨hres, hglobals, hother⟩ := htracks.lockstep c c' hb
    have hafter := fun g => variablesAfter_eq g (Bool.eq_false_iff.mpr hvars)
    refine ⟨_, (parseToken env st tk c).2, gv, gv', ?_, Prod.ext hres.symm hother, fun _ _ => ?_⟩
    · rw [← hglobals]
      rfl
    · exact ⟨(hafter gv).symm, (hafter gv').symm⟩

/-- The tokens one after the other. -/
theorem foldlM_beside : ∀ {tokens : List Token} {st : Lr} {gv gv' : Vartree} {c c' : ChildState},
    ReadAlike env tokens st gv gv' → Beside gv gv' c c' →
      ∃ x, ∃ d : ChildState, ∃ g g', tokens.foldlM (parseToken env) st c = (x, { d with globals := g }) ∧
        tokens.foldlM (parseToken env) st c' = (x, { d with globals := g' })
  | [], st, gv, gv', c, _, _, ⟨_, rfl⟩ => ⟨.ok st, c, c.globals, gv', rfl, rfl⟩
  | tk :: rest, st, gv, gv', c, c', h, hb => by
    obtain ⟨x, d, g, g', hrun, hrun', hgo⟩ := parseToken_beside h.1 hb
    rw [List.foldlM_cons, Trial.bind_run, Trial.bind_run, hrun, hrun']
    cases x with
    | error e => exact ⟨.error e, d, g, g', rfl, rfl⟩
    | ok st' =>
      obtain ⟨rfl, rfl⟩ := hgo st' rfl
      exact foldlM_beside (h.2 c st' _ hrun) ⟨rfl, rfl⟩

theorem parseTokens_alike (h : ReadAlike env tokens .conf gv gv') (s : Shared) :
    parseTokens env tokens gv s = parseTokens env tokens gv' s := by
  obtain ⟨x, d, g, g', hrun, hrun'⟩ := foldlM_beside h
    (⟨rfl, rfl⟩ : Beside gv gv' { shared := s, globals := gv, nerrs := 0 } _)
  unfold parseTokens yyparse
  rw [Trial.bind_run, Trial.bind_run, hrun, hrun']
  cases x with
  | error e => cases e <;> rfl
  | ok st =>
    have htracks : Tracks (Walk env) (Beside g g') (endOfFile st) := inferInstance
    obtain ⟨hres, -, hother⟩ := htracks.lockstep { d with globals := g } { d with globals := g' } ⟨rfl, rfl⟩
    dsimp only
    generalize endOfFile st { d with globals := g' } = r' at *
    generalize endOfFile st { d with globals := g } = r at *
    obtain ⟨y, e⟩ := r
    obtain ⟨_, _⟩ := r'
    subst hres hother
    cases y with
    | ok => rfl
    | error stop => cases stop <;> rfl

/-- In no file do children with the two trees come to a pattern or an assignment with another effect. -/
def Sys.ReadAlike (sys : Sys) (gv gv' : Vartree) : Prop :=
  ∀ file st tokens, sys.files.stat file = some st → (sys.filesAs st).fopen file = some tokens →
    Bmd.ReadAlike { view := sys.filesAs st, filename := file } tokens .conf gv gv'

/-! ## Reading the files -/

section Inherited

variable (h : sys.ReadAlike gv gv')

include h

theorem parseChild_inherited (file : String) (s : Shared) : parseChild sys file gv s = parseChild sys file gv' s := by
  unfold parseChild
  split
  · rfl
  · next st hst =>
    split
    · rfl
    · split
      · rfl
      · next tokens htokens => exact parseTokens_alike (h file st tokens hst htokens) s

theorem attempt_inherited (file : String) (s : Shared) : attempt sys gv file s = attempt sys gv' file s := by
  unfold attempt
  simp only [parseChild_inherited h]

theorem parse_inherited (file : String) : ∀ fuel s, parse sys gv file fuel s = parse sys gv' file fuel s
  | 0, _ => rfl
  | fuel + 1, s => by
    unfold parse
    rw [attempt_inherited h]
    split
    · rfl
    · exact parse_inherited file fuel _

theorem parseFiles_inherited (retries : Nat) : ∀ fuel i s,
    parseFiles sys gv retries fuel i s = parseFiles sys gv' retries fuel i s
  | 0, _, _ => rfl
  | fuel + 1, i, s => by
    unfold parseFiles
    split
    · rfl
    · rw [parse_inherited h]
      split
      · exact parseFiles_inherited retries fuel _ _
      · rfl

theorem readFiles_inherited (fuel : Nat) (configFile : Option String) :
    readFiles sys gv fuel configFile = readFiles sys gv' fuel configFile := by
  unfold readFiles
  simp only [parseFiles_inherited h]

end Inherited

/-! ## The name of the main file -/

/-- The global sections do not name another main file. -/
theorem setGlobals_configFile {scs : List Cfsection} {gc gc' : GlobalConf} {vars vars' : Variables}
    (h : setGlobals scs gc vars = .ok (gc', vars')) : gc'.configFile = gc.configFile := by
  refine setGlobals_keeps (P := fun g => g.configFile = gc.configFile) ?_ ?_ h rfl
  · intro w val k hw
    cases k <;> exact hw
  · intro g text hg
    cases text <;> exact hg

theorem Loads.configFile (h : Loads p p') : p'.glConf.configFile = p.glConf.configFile := by
  obtain ⟨sys, fuel, list, update, r, h⟩ := h
  obtain ⟨s, -, h⟩ := loadConfig_ok h
  obtain ⟨⟨vars, hglobals⟩, hgl⟩ := finishLoadConfig_globalConf h
  have hgc : r.globalConf.configFile = none := setGlobals_configFile hglobals
  rw [hgl]
  split
  · show r.globalConf.configFile.or p.glConf.configFile = _
    rw [hgc, Option.none_or]
  · rfl

theorem History.configFile (h : History p p') : p'.glConf.configFile = p.glConf.configFile := by
  induction h with
  | refl => rfl
  | tail _ hlast ih => exact hlast.configFile.trans ih

/-! ## The load -/

/-- Two calls end in the same way. If they return 0, they have read the same files and have made the same global
    configuration, and lists that are built alike from the same sections and the identifiers of the two processes. -/
inductive Outcome.Same (sys : Sys) : Outcome → Outcome → Prop
  | crash : Same sys .crash .crash
  | fail : Same sys .fail .fail
  | ok {p₁ p₂ : Process} {r₁ r₂ : Loaded} (hfiles : r₁.files = r₂.files) (hconf : r₁.globalConf = r₂.globalConf)
      (hlist : ∃ vms plugins gv templates, BuiltList (buildSection ⟨sys, plugins⟩ gv templates) p₁.ids vms r₁.list ∧
        BuiltList (buildSection ⟨sys, plugins⟩ gv templates) p₂.ids vms r₂.list) :
      Same sys (.ok p₁ r₁) (.ok p₂ r₂)

/-- The two processes execute the VM sections with the same plugins and global variables, and no section ends only one
    of them. -/
structure Pctxt.ExecutedAlike (sys : Sys) (p₁ p₂ : Process) (ctx : Pctxt) : Prop where
  setting : ctx.setting sys p₁ = ctx.setting sys p₂
  ends : ∀ plugins gv, ctx.setting sys p₁ = some (plugins, gv) → ∀ sc ∈ ctx.cfvms,
    (sc.alone ⟨sys, plugins⟩ gv ctx.cftemplates (p₁.ids.getIds ctx.cfvms)).isSome =
      (sc.alone ⟨sys, plugins⟩ gv ctx.cftemplates (p₂.ids.getIds ctx.cfvms)).isSome

theorem finishLoadConfig_fail :
    finishLoadConfig sys p list update ctx = .fail ↔ checkDuplicate ctx = true := by
  unfold finishLoadConfig
  split
  · next h => exact iff_of_true rfl h
  · next h =>
    refine iff_of_false ?_ h
    split
    · nofun
    · split <;> nofun

theorem finishLoadConfig_ok_iff {plugins : List Plugin} (hdup : checkDuplicate ctx = false)
    (hset : ctx.setting sys p = some (plugins, gv)) :
    (∃ p' r, finishLoadConfig sys p true update ctx = .ok p' r) ↔
      ∀ sc ∈ ctx.cfvms, (sc.alone ⟨sys, plugins⟩ gv ctx.cftemplates (p.ids.getIds ctx.cfvms)).isSome := by
  refine ⟨?_, finishLoadConfig_returns update hdup hset⟩
  rintro ⟨p', r, h⟩
  obtain ⟨hset', hids⟩ := finishLoadConfig_setting h
  obtain ⟨rfl, rfl⟩ := Prod.mk.inj (Option.some.inj (hset.symm.trans hset'))
  obtain ⟨ents, hbuilt, -⟩ := finishLoadConfig_built h
  exact hids ▸ alone_of_built hbuilt

/-- The part behind the parsing. -/
theorem finishLoadConfig_same (h : list = true → ctx.ExecutedAlike sys p₁ p₂) (update : Bool) :
    Outcome.Same sys (finishLoadConfig sys p₁ list update ctx) (finishLoadConfig sys p₂ list update ctx) := by
  cases hdup : checkDuplicate ctx with
  | true =>
    rw [finishLoadConfig_fail.mpr hdup, finishLoadConfig_fail.mpr hdup]
    exact .fail
  | false =>
    have hok : (∃ p' r, finishLoadConfig sys p₁ list update ctx = .ok p' r) ↔
        ∃ p' r, finishLoadConfig sys p₂ list update ctx = .ok p' r := by
      cases list with
      | false =>
        simp only [finishLoadConfig, hdup]
        cases setGlobals ctx.cfglobals .zero (.ofGlobals initGlobalVars) <;> simp
      | true =>
        obtain ⟨hsame, hends⟩ := h rfl
        cases hset : ctx.setting sys p₁ with
        | none =>
          refine iff_of_false ?_ ?_
          · rintro ⟨p', r, hload⟩
            cases hset.symm.trans (finishLoadConfig_setting hload).1
          · rintro ⟨p', r, hload⟩
            cases hset.symm.trans (hsame.trans (finishLoadConfig_setting hload).1)
        | some x =>
          rw [finishLoadConfig_ok_iff hdup hset, finishLoadConfig_ok_iff hdup (hsame ▸ hset)]
          exact forall₂_congr fun sc hsc => by rw [hends _ _ hset sc hsc]
    cases h₁ : finishLoadConfig sys p₁ list update ctx with
    | fail => exact absurd (finishLoadConfig_fail.mp h₁) (by rw [hdup]; decide)
    | crash =>
      cases h₂ : finishLoadConfig sys p₂ list update ctx with
      | fail => exact absurd (finishLoadConfig_fail.mp h₂) (by rw [hdup]; decide)
      | crash => exact .crash
      | ok p' r =>
        obtain ⟨_, _, h⟩ := hok.mpr ⟨p', r, h₂⟩
        cases h₁.symm.trans h
    | ok p₁' r₁ =>
      obtain ⟨p₂', r₂, h₂⟩ := hok.mp ⟨p₁', r₁, h₁⟩
      rw [h₂]
      have hbuilt₁ := finishLoadConfig_built h₁
      have hbuilt₂ := finishLoadConfig_built h₂
      obtain ⟨-, gc₁, vars₁, _, hgl₁, -, -, hfiles₁, hgc₁⟩ := finishLoadConfig_ok h₁
      obtain ⟨-, gc₂, vars₂, _, hgl₂, -, -, hfiles₂, hgc₂⟩ := finishLoadConfig_ok h₂
      obtain ⟨rfl, rfl⟩ := Prod.mk.inj (Except.ok.inj (hgl₁.symm.trans hgl₂))
      refine .ok (hfiles₁.trans hfiles₂.symm) (hgc₁.trans hgc₂.symm) ?_
      cases list with
      | false =>
        -- nothing is executed
        obtain ⟨ents, hnil, hlist⟩ := hbuilt₂
        cases hnil
        exact ⟨_, _, _, _, hbuilt₁, [], .nil, hlist⟩
      | true =>
        obtain ⟨hplugins, hvars⟩ := Prod.mk.inj (Option.some.inj
          ((finishLoadConfig_setting h₁).1.symm.trans ((h rfl).setting.trans (finishLoadConfig_setting h₂).1)))
        rw [hplugins, hvars] at hbuilt₁
        exact ⟨_, _, _, _, hbuilt₁, hbuilt₂⟩

theorem ReadAlike.step {rest : List Token} {P : Lr → Prop} (hvars : st.evaluates tk = false)
    (h : Yields P (parseToken env st tk)) (hrest : ∀ st', P st' → ReadAlike env rest st' gv gv') :
    ReadAlike env (tk :: rest) st gv gv' := by
  refine ⟨?_, fun c st' c' hrun => ?_⟩
  · unfold evaluatesAlike
    split
    · cases hvars
    · cases hvars
    · trivial
  · rw [variablesAfter_eq _ hvars, variablesAfter_eq _ hvars]
    exact hrest st' (h c st' c' hrun)

theorem parseToken_str {l : Lexeme} {P : Lr → Prop}
    (h : ∀ x, x = some (cstr l.text) ∨ x = none → Yields P (shiftSym env st (.str x))) :
    Yields P (parseToken env st (.str l)) := by
  simp only [parseToken, yylex, bind_assoc, pure_bind]
  refine .bind (.then fun b => ?_) h
  split
  · exact .pure (.inl rfl)
  · split
    · exact fun _ _ _ h => by cases h
    · exact .pure (.inr rfl)

/-- The main file includes a file with a VM section. -/
def plainInclude : List (String × UInt32 × List Token) := [("/m", 0, Token.includes "/b"), ("/b", 0, Token.vms "a" [])]

theorem plainInclude_readAlike (gv gv' : Vartree) : (Sys.of plainInclude).ReadAlike gv gv' := by
  intro file st tokens _ htokens
  obtain ⟨f, hf, rfl⟩ := Option.map_eq_some_iff.mp htokens
  obtain rfl | hmem := List.mem_cons.mp (List.mem_of_find?_eq_some hf)
  · refine .step rfl (.last (objalloc .cftokens) (Lr.tokens .include [])) ?_
    rintro _ rfl
    refine .step (P := (· = .tokens .include [.str (cstr "/b")])) rfl (parseToken_str fun x hx => ?_) ?_
    · obtain rfl | rfl := hx
      · exact .last (objalloc .cftoken) _
      · exact fun _ _ _ h => by cases h
    rintro _ rfl
    exact ⟨rfl, fun _ _ _ _ => trivial⟩
  · obtain rfl := List.mem_singleton.mp hmem
    refine .step (P := (· = .vm)) rfl (.pure rfl) ?_
    rintro _ rfl
    refine .step (P := fun st => ∃ name, st = .vmName name) rfl (parseToken_str fun x _ => .pure ⟨x, rfl⟩) ?_
    rintro _ ⟨name, rfl⟩
    refine .step rfl (.last (objalloc .cfparams) (Lr.params (.vm name) [])) ?_
    rintro _ rfl
    exact .step (P := fun _ => True) rfl (fun _ _ _ _ => trivial) fun _ _ => trivial

/-- A process that has other global variables only. -/
theorem executedAlike_globalVars (sys : Sys) (p : Process) (gv : Vartree) (ctx : Pctxt) :
    ctx.ExecutedAlike sys p { p with globalVars := gv } := by
  refine ⟨?_, fun _ _ _ _ _ => rfl⟩
  unfold Pctxt.setting
  cases setGlobals ctx.cfglobals .zero (.ofGlobals initGlobalVars) with
  | error _ => rfl
  | ok g =>
    show some ((loadPlugins _ _ p).pluginList, _) = some ((loadPlugins _ _ { p with globalVars := gv }).pluginList, _)
    unfold loadPlugins
    dsimp only
    split
    · rfl
    · split <;> rfl

/-- A global section that sets a variable. -/
def globalX : List (String × UInt32 × List Token) :=
  [("/m", 0, [.global, .char '\x7b', .var (.of "X"), .char '=', .str (.of "/c"), .char ';', .char '\x7d'])]

/-- A file that is included by the value of a variable, which the global section below the `.include` sets. -/
def lateInclude : List (String × UInt32 × List Token) :=
  [("/m", 0, [.include, .var (.of "X"), .char ';', .global, .char '\x7b', .var (.of "X"), .char '=', .str (.of "/b"),
      .char ';', .char '\x7d']),
    ("/b", 0, Token.vms "b" Token.basics)]

end Bmd
