import Stencil.Proofs.Overlays

set_option autoImplicit false

/-!
# Registrations that take effect

A registration counts from the next compilation on, but a partial that was compiled in place keeps
what it was compiled with. Once the cache is cleared, an environment renders a source as a new one
with the same registrations does, if the partials that were compiled in place are up to date.
-/
namespace Stencil

def Step.given (s : Step) (w : Workspace) (given : Dict Partial) : Dict Partial :=
  match s with
  | .renew => ⟨[]⟩
  | .registerPartial name offer =>
    match w.makePartial offer with
    | .ok (p, _) => given.insert name p
    | .error _ => given
  | .unregisterPartial name => given.erase name
  | _ => given

namespace Workspace

/-- What a step shows of itself, apart from the events. -/
def Turn.shown {σ : Type} (turn : Turn σ) : Answer × σ := (turn.answer, turn.state)

variable {w w' : Workspace} {number other : Nat}

theorem lookup_filter_ne (h : number ≠ other) (entries : List (Nat × Environment)) :
    (entries.filter fun entry => entry.1 ≠ number).lookup other = entries.lookup other := by
  induction entries with
  | nil => rfl
  | cons entry rest ih =>
    obtain ⟨key, e⟩ := entry
    by_cases hkey : key = number
    · subst hkey
      rw [List.filter_cons_of_neg (by simp), ih, List.lookup_cons, beq_eq_false_iff_ne.2 h.symm]
    · rw [List.filter_cons_of_pos (by simpa using hkey), List.lookup_cons, List.lookup_cons, ih]

theorem environment_putEnvironment (w : Workspace) (number other : Nat) (e : Environment) :
    (w.putEnvironment number e).environment other =
      if number = other then e else w.environment other := by
  unfold environment putEnvironment
  rw [List.lookup_cons]
  by_cases h : number = other
  · subst h
    rw [beq_self_eq_true, if_pos rfl]
    rfl
  · rw [beq_eq_false_iff_ne.2 (Ne.symm h), if_neg h]
    exact congrArg (Option.getD · {}) (lookup_filter_ne h w.environments)

theorem environments_makePartial {offer : PartialOffer} {p : Partial}
    (h : w.makePartial offer = .ok (p, w')) : w'.environments = w.environments := by
  unfold makePartial at h
  cases offer with
  | source text => cases h; rfl
  | template source =>
    dsimp only at h
    split at h
    · cases h; rfl
    · cases h
  | saved name =>
    dsimp only at h
    split at h
    · cases h; rfl
    · cases h

theorem environments_makePartials {offers : List (String × PartialOffer)}
    {ps : List (String × Partial)} (h : w.makePartials offers = .ok (ps, w')) :
    w'.environments = w.environments := by
  induction offers generalizing w ps with
  | nil => cases h; rfl
  | cons offer rest ih =>
    obtain ⟨p, w₁, ps', hfirst, hrest, -⟩ := makePartials_cons_ok h
    exact (ih hrest).trans (environments_makePartial hfirst)

theorem environments_makeOptions {offer : Offer} {o : Options}
    (h : w.makeOptions offer = .ok (o, w')) : w'.environments = w.environments := by
  obtain ⟨ps, hps, -⟩ := makeOptions_ok h
  exact environments_makePartials hps

theorem environments_saveTemplate (w : Workspace) (name : String) (id : TemplateId) :
    (w.saveTemplate name id).2.environments = w.environments := by
  unfold saveTemplate
  split <;> rfl

/-- A step changes its own environment only, in which partials are registered then that may have
been compiled in place. -/
structure Steps (s : Step) (number : Nat) (w w' : Workspace) (e : Environment) : Prop where
  environment : ∀ other, w'.environment other = if number = other then e else w.environment other
  memoized : ∀ given : Dict Partial, given.Memoized (w.environment number).partials →
    (s.given w given).Memoized e.partials

theorem environment_congr (h : w'.environments = w.environments) (number : Nat) :
    w'.environment number = w.environment number := by
  unfold environment
  rw [h]

namespace Steps
variable {s : Step} {e : Environment}

theorem same (h : w'.environments = w.environments) (hgiven : ∀ given, s.given w given = given) :
    Steps s number w w' (w.environment number) := by
  refine ⟨fun other => ?_, fun given hmemoized => (hgiven given).symm ▸ hmemoized⟩
  rw [environment_congr h]
  split
  · next heq => rw [heq]
  · rfl

theorem put (h : w'.environments = w.environments) (hmemoized : ∀ given : Dict Partial,
      given.Memoized (w.environment number).partials → (s.given w given).Memoized e.partials)
    (library : Library) (saved : List (String × TemplateId)) :
    Steps s number w { w'.putEnvironment number e with library, saved } e := by
  refine ⟨fun other => ?_, hmemoized⟩
  have hput := environment_putEnvironment w' number other e
  rw [environment_congr h] at hput
  exact hput

theorem memoizes (h : w'.environments = w.environments) (hgiven : ∀ given, s.given w given = given)
    (hmemoizes : (w'.environment number).Memoizes e) (library : Library)
    (saved : List (String × TemplateId)) :
    Steps s number w { w'.putEnvironment number e with library, saved } e := by
  refine put h (fun given hmemoized => ?_) library saved
  rw [environment_congr h] at hmemoizes
  rw [hgiven]
  exact hmemoized.trans hmemoizes.partials

end Steps

section
variable {σ : Type} (host : Host σ) (depth : Nat) {state : σ} {turn : Turn σ}

theorem environment_renderStep (hw : w.Numbered) {source : String} {context : Value} {offer : Offer}
    (hstep : w.renderStep number host depth state source context offer = some turn) :
    ∃ e, Steps (.render source context offer) number w turn.workspace e := by
  unfold renderStep at hstep
  cases hmade : w.makeOptions offer with
  | error answer =>
    rw [hmade] at hstep
    cases hstep
    exact ⟨_, .same rfl fun _ => rfl⟩
  | ok r =>
    obtain ⟨o, w'⟩ := r
    rw [hmade] at hstep
    obtain ⟨⟨result, state', s'⟩, hrender, heq⟩ := Option.bind_eq_some_iff.1 hstep
    cases heq
    obtain ⟨events, rfl⟩ := Session.render_session hrender
    have hd := ((hw.makeOptions hmade).1.numbered.environment number).partials
    exact ⟨_, .memoizes (environments_makeOptions hmade) (fun _ => rfl)
      (Session.compile_memoizes (s := w'.session number) hd source o) _ _⟩

omit host depth in
theorem environment_compileStep (hw : w.Numbered) (source name : String) (cached : Bool)
    (offer : Offer) : ∃ e, Steps (.compile source name cached offer) number w
      (w.compileStep number state source name cached offer).workspace e := by
  unfold compileStep
  cases hmade : w.makeOptions offer with
  | error answer => exact ⟨_, .same rfl fun _ => rfl⟩
  | ok r =>
    obtain ⟨o, w'⟩ := r
    have hd : (w'.session number).environment.partials.Distinct :=
      ((hw.makeOptions hmade).1.numbered.environment number).partials
    have hmemoizes : (w'.environment number).Memoizes ((if cached then Session.compile else
        Session.compileUncached) source o (w'.session number)).2.environment := by
      cases cached with
      | false => exact Session.compileUncached_memoizes hd source o
      | true => exact Session.compile_memoizes hd source o
    generalize hr : (if cached then Session.compile else Session.compileUncached) source o
      (w'.session number) = r at hmemoizes
    obtain ⟨outcome, s'⟩ := r
    have hputs (library : Library) (saved : List (String × TemplateId)) := Steps.memoizes
      (s := .compile source name cached offer) (environments_makeOptions hmade) (fun _ => rfl)
      hmemoizes library saved
    dsimp only
    rw [hr]
    cases outcome with
    | error e => exact ⟨_, hputs _ _⟩
    | ok id =>
      dsimp only
      unfold saveTemplate
      split
      · exact ⟨_, hputs _ _⟩
      · exact ⟨_, hputs _ _⟩

theorem environment_step (hw : w.Numbered) {s : Step}
    (hstep : w.step number host depth state s = some turn) :
    ∃ e, Steps s number w turn.workspace e := by
  cases s with
  | renew =>
    cases hstep
    exact ⟨_, .put rfl (fun _ _ => .refl _) _ _⟩
  | render source context offer => exact environment_renderStep host depth hw hstep
  | compile source name cached offer =>
    cases hstep
    exact environment_compileStep hw source name cached offer
  | newTemplate source name =>
    unfold Workspace.step at hstep
    dsimp only at hstep
    split at hstep
    · cases hstep
      exact ⟨_, .same rfl fun _ => rfl⟩
    · cases hstep
      exact ⟨_, .same (environments_saveTemplate _ _ _) fun _ => rfl⟩
  | renderSaved name context data =>
    unfold Workspace.step Workspace.renderSavedStep at hstep
    dsimp only at hstep
    split at hstep
    · cases hstep
      exact ⟨_, .same rfl fun _ => rfl⟩
    · obtain ⟨r, -, heq⟩ := Option.bind_eq_some_iff.1 hstep
      cases heq
      exact ⟨_, .same rfl fun _ => rfl⟩
  | dropSaved name =>
    cases hstep
    exact ⟨_, .same rfl fun _ => rfl⟩
  | registerPartial name offer =>
    unfold Workspace.step at hstep
    dsimp only at hstep
    split at hstep
    · next hmade =>
      cases hstep
      refine ⟨_, .same rfl fun given => ?_⟩
      dsimp only [Step.given]
      rw [hmade]
    · next hmade =>
      cases hstep
      refine ⟨_, .put (environments_makePartial hmade) (fun given hmemoized => ?_) _ _⟩
      dsimp only [Step.given]
      rw [hmade]
      exact hmemoized.insert name _
  | unregisterPartial name =>
    cases hstep
    refine ⟨_, .put rfl (fun given hmemoized => ?_) _ _⟩
    exact hmemoized.erase name
  | registerHelper | unregisterHelper | setKnownHelpersOnly | setNoFunctionValues | clearCache =>
    cases hstep
    exact ⟨_, .put rfl (fun _ => id) _ _⟩

end

/-- A workspace that steps lead to, with what was registered last in one of its environments under
each name. -/
inductive Registered (number : Nat) : Workspace → Dict Partial → Prop
  | new : Registered number {} ⟨[]⟩
  | step {σ : Type} {w : Workspace} {given : Dict Partial} {host : Host σ} {depth : Nat} {state : σ}
    {s : Step} {turn : Turn σ} (h : Registered number w given)
    (hstep : w.step number host depth state s = some turn) :
    Registered number turn.workspace (s.given w given)
  | elsewhere {σ : Type} {w : Workspace} {given : Dict Partial} {other : Nat} {host : Host σ}
    {depth : Nat} {state : σ} {s : Step} {turn : Turn σ} (h : Registered number w given)
    (hother : other ≠ number) (hstep : w.step other host depth state s = some turn) :
    Registered number turn.workspace given

structure Tracks (number : Nat) (w : Workspace) (given : Dict Partial) : Prop where
  numbered : w.Numbered
  bounded : w.library.Bounded
  distinct : given.Distinct
  memoized : given.Memoized (w.environment number).partials

theorem distinct_given {given : Dict Partial} (h : given.Distinct) (s : Step) (w : Workspace) :
    (s.given w given).Distinct := by
  cases s with
  | renew => exact List.nodup_nil
  | registerPartial name offer =>
    dsimp only [Step.given]
    split
    · exact h.insert name _
    · exact h
  | unregisterPartial name => exact h.erase name
  | _ => exact h

theorem Registered.tracks {given : Dict Partial} (h : Registered number w given) :
    Tracks number w given := by
  induction h with
  | new => exact ⟨numbered_new, nofun, List.nodup_nil, .refl _⟩
  | step _ hstep ih =>
    have hcontinues := ih.numbered.step _ _ hstep
    obtain ⟨e, hsteps⟩ := environment_step _ _ ih.numbered hstep
    refine ⟨hcontinues.numbered, hcontinues.library.bounded ih.bounded,
      distinct_given ih.distinct _ _, ?_⟩
    rw [hsteps.environment, if_pos rfl]
    exact hsteps.memoized _ ih.memoized
  | elsewhere _ hother hstep ih =>
    have hcontinues := ih.numbered.step _ _ hstep
    obtain ⟨e, hsteps⟩ := environment_step _ _ ih.numbered hstep
    refine ⟨hcontinues.numbered, hcontinues.library.bounded ih.bounded, ih.distinct, ?_⟩
    rw [hsteps.environment, if_neg hother]
    exact ih.memoized

end Workspace

def Environment.renewed (e : Environment) (given : Dict Partial) : Environment :=
  { helpers := e.helpers, partials := given
    knownHelpersOnly := e.knownHelpersOnly, noFunctionValues := e.noFunctionValues }

def Session.renewed (s : Session) (given : Dict Partial) (elsewhere : List TemplateId) : Session :=
  { s with environment := s.environment.renewed given, heldElsewhere := elsewhere }

/-- A new environment comes to the same as one that has compiled some of its partials in place, if
these are up to date. -/
theorem Session.outcome_renewed {s : Session} {given : Dict Partial} {elsewhere : List TemplateId}
    {source : String} (hs : s.Numbered) (hl : s.library.Bounded)
    (hcache : s.environment.cache.get? source = none) (hs' : (s.renewed given elsewhere).Numbered)
    (hheld : ∀ id, id ∈ (s.renewed given elsewhere).held ↔ id ∈ s.held)
    (hmemoized : given.Memoized s.environment.partials)
    (hcurrent : ∀ name, (s.environment.dialect {}).Involves (s.environment.renewed given).waiting
      source name → ∀ text id, given.get? name = some (.source text) →
        s.environment.partials.get? name = some (.compiled id) → s.UpToDate {} text id)
    {σ : Type} (host : Host σ) (depth : Nat) (context : Value) (state : σ) :
    s.outcome host depth true source context {} state =
      (s.renewed given elsewhere).outcome host depth true source context {} state := by
  let first := (s.renewed given elsewhere).report (.compilingTemplate source.utf8ByteSize)
  have hupon : (s.report (.compilingTemplate source.utf8ByteSize)).Upon first.library s.held :=
    (Upon.refl hs hl).withEvents _
  have hupon' : (s.renewed given elsewhere).Upon s.library s.held :=
    ⟨hs', .refl hl _, fun id => (hheld id).2, fun id hid _ => .held ((hheld id).1 hid)⟩
  have hfirst : first.Upon first.library s.held := hupon'.withEvents _
  unfold outcome
  rw [if_pos rfl, rendered_compile host depth context _ state hcache,
    rendered_compile host depth context _ state rfl]
  exact hupon.rendered_eq hfirst (fun _ => hs.held) rfl rfl rfl hmemoized hcurrent host depth context
    _ state

namespace Workspace
variable {w : Workspace} {number other : Nat} {given : Dict Partial}

namespace Tracks

theorem mem_values (h : Tracks number w given) {id : TemplateId}
    (hid : Partial.compiled id ∈ given.values) :
    Partial.compiled id ∈ (w.environment number).partials.values := by
  obtain ⟨name, hname⟩ := Dict.get?_of_mem_values h.distinct hid
  exact Dict.mem_values_of_get? (h.memoized.get?_compiled hname)

theorem below_renewed (h : Tracks number w given) :
    ((w.environment number).renewed given).Below w.library.next :=
  ⟨h.distinct, fun id hid => (h.numbered.environment number).compiled id (h.mem_values hid), nofun⟩

/-- A new environment holds nothing that the old one does not hold without its cache. -/
theorem held_renewed (h : Tracks number w given) : ((w.environment number).renewed given).held ⊆
    ({ w.environment number with cache := ⟨[]⟩ } : Environment).held := by
  intro id hid
  rcases List.mem_append.1 hid with hid | hid
  · exact List.mem_append_left _ (Environment.mem_values_compiledPartials.2
      (h.mem_values (Environment.mem_values_compiledPartials.1 hid)))
  · cases hid

end Tracks

theorem session_putEnvironment (w : Workspace) (number : Nat) (e : Environment) :
    (w.putEnvironment number e).session number = { w.session number with environment := e } := by
  have henvironment := environment_putEnvironment w number number e
  rw [if_pos rfl] at henvironment
  have helsewhere : (w.putEnvironment number e).heldElsewhere number = w.heldElsewhere number := by
    unfold heldElsewhere putEnvironment
    rw [List.filter_cons_of_neg (by simp), List.filter_filter]
    simp
  unfold session
  rw [henvironment, helsewhere]
  rfl

theorem mem_heldElsewhere_putEnvironment {e : Environment} {id : TemplateId}
    (hother : ∀ e', (other, e') ∉ (w.putEnvironment number e).environments) :
    id ∈ (w.putEnvironment number e).heldElsewhere other ↔
      id ∈ e.held ∨ id ∈ w.heldElsewhere number := by
  have hfilter : ((w.putEnvironment number e).environments.filter fun entry => entry.1 ≠ other) =
      (w.putEnvironment number e).environments := by
    refine List.filter_eq_self.2 fun entry hentry => ?_
    simp only [ne_eq, decide_not, Bool.not_eq_eq_eq_not, Bool.not_true, decide_eq_false_iff_not]
    rintro rfl
    exact hother entry.2 hentry
  unfold heldElsewhere
  rw [hfilter]
  unfold putEnvironment
  simp only [List.flatMap_cons, List.mem_append]
  tauto

theorem step_render (w : Workspace) (number : Nat) {σ : Type} (host : Host σ) (depth : Nat)
    (state : σ) (source : String) (context : Value) :
    w.step number host depth state (.render source context {}) =
      ((w.session number).render host depth source context {} state).map fun (result, state, s) =>
        { answer := answerOf result, events := s.events, state, workspace := w.close number s } := by
  have hoptions : w.makeOptions {} = .ok ({}, w) := rfl
  unfold step renderStep
  dsimp only
  rw [hoptions]
  dsimp only
  cases (w.session number).render host depth source context {} state <;> rfl

theorem shown_step_render {w' : Workspace} {σ : Type} {host : Host σ} {depth : Nat} {state : σ}
    {source : String} {context : Value}
    (h : (w.session number).outcome host depth true source context {} state =
      (w'.session other).outcome host depth true source context {} state) :
    (w.step number host depth state (.render source context {})).map Turn.shown =
      (w'.step other host depth state (.render source context {})).map Turn.shown := by
  have hshown (w : Workspace) (number : Nat) :
      (w.step number host depth state (.render source context {})).map Turn.shown =
        (((w.session number).render host depth source context {} state).map
          fun r => (r.1, r.2.1)).map fun r => (answerOf r.1, r.2) := by
    rw [step_render, Option.map_map, Option.map_map]
    rfl
  rw [hshown, hshown, Session.render_eq_outcome, Session.render_eq_outcome, h]

/-- Once the cache is cleared, a source renders as it does in a new environment with the helpers and
flags of this one and the partials that were registered last, provided that each partial that comes
up, and was compiled in place since, is up to date. -/
theorem render_renewed (h : Registered number w given) {τ : Type} {clearing : Host τ} {limit : Nat}
    {before : τ} {cleared : Turn τ}
    (hclear : w.step number clearing limit before .clearCache = some cleared)
    (hother : ∀ e, (other, e) ∉ cleared.workspace.environments) {source : String}
    (hcurrent : ∀ name, ((w.environment number).dialect {}).Involves
      ((w.environment number).renewed given).waiting source name → ∀ text id,
        given.get? name = some (.source text) →
          (w.environment number).partials.get? name = some (.compiled id) →
            (w.session number).UpToDate {} text id)
    {σ : Type} (host : Host σ) (depth : Nat) (context : Value) (state : σ) :
    (cleared.workspace.step number host depth state (.render source context {})).map Turn.shown =
      ((cleared.workspace.putEnvironment other ((w.environment number).renewed given)).step other
        host depth state (.render source context {})).map Turn.shown := by
  have htracks := h.tracks
  let e : Environment := { w.environment number with cache := ⟨[]⟩ }
  have hworkspace : cleared.workspace = w.putEnvironment number e := by
    cases hclear
    rfl
  rw [hworkspace] at hother ⊢
  have he := htracks.numbered.environment number
  have hcleared := htracks.numbered.putEnvironment number
    (⟨he.partials, he.compiled, nofun⟩ : e.Below w.library.next)
  have hs := hcleared.numbered.session number
  have hs' := (hcleared.numbered.putEnvironment other htracks.below_renewed).numbered.session other
  have hheld (id : TemplateId) : id ∈ (e.renewed given).held ++
      (w.putEnvironment number e).heldElsewhere other ↔ id ∈ e.held ++ w.heldElsewhere number := by
    rw [List.mem_append, List.mem_append, mem_heldElsewhere_putEnvironment hother]
    exact or_iff_right_of_imp fun hid => .inl (htracks.held_renewed hid)
  rw [session_putEnvironment] at hs hs'
  refine shown_step_render ?_
  rw [session_putEnvironment, session_putEnvironment]
  exact Session.outcome_renewed hs htracks.bounded rfl hs' hheld htracks.memoized hcurrent host depth
    context state

theorem step_render_ok {s' : Session} {source text : String} {id : TemplateId} {σ : Type}
    {host : Host σ} {depth : Nat} {context : Value} {state : σ} {world : World σ}
    (hcompile : Session.compile source {} (w.session number) = (.ok id, s'))
    (hrun : (s'.library.render s'.held host depth id context ⟨[]⟩).run
      { state, events := s'.events } = some (.ok text, world)) :
    w.step number host depth state (.render source context {}) =
      some { answer := .text text, events := world.events, state := world.state
             workspace := w.close number { s' with events := world.events } } := by
  rw [step_render, Session.render_ok host state hcompile depth context]
  change Option.map _ (Option.map _ ((s'.library.render s'.held host depth id context ⟨[]⟩).run
    { state, events := s'.events })) = _
  rw [hrun]
  rfl

theorem Registered.source (h : Registered number w given)
    (name text : String) : Registered number
      (w.putEnvironment number { w.environment number with
        partials := (w.environment number).partials.insert name (.source text) })
      (given.insert name (.source text)) := by
  let host : Host Unit := fun _ _ => .done .null
  have hstep : w.step number host 0 () (.registerPartial name (.source text)) = some _ := rfl
  exact .step h hstep

def nested : Workspace :=
  { library :=
      { templates := [(2, includer "a" (.compiled 0)), (0, includer "b" (.compiled 1)),
          (1, ⟨"old", [.text "old"], ⟨[]⟩⟩)]
        next := 3 }
    environments := [(0,
      { partials := ⟨[("b", .compiled 1), ("a", .compiled 0)]⟩
        cache := ⟨[(String.ofList (including "a"), 2)]⟩ })] }

theorem registered_nested : Registered 0 nested
    ⟨[("b", .source "old"), ("a", .source (String.ofList (including "b")))]⟩ := by
  obtain ⟨hname, hname'⟩ := inBrackets_ab
  let a := String.ofList (including "b")
  let source := String.ofList (including "a")
  let host : Host Unit := fun _ _ => .done .null
  let w : Workspace :=
    { environments := [(0, { partials := ⟨[("b", .source "old"), ("a", .source a)]⟩ })] }
  let s := (w.session 0).report (.compilingTemplate source.utf8ByteSize)
  have hregistered : Registered 0 w ⟨[("b", .source "old"), ("a", .source a)]⟩ :=
    (Registered.new.source "b" "old").source "a" a
  have hcompile : Session.compileUncached source {} s = _ :=
    Session.compileUncached_ok rfl (compile_nested (d := s.environment.dialect {})
      (s := s.shelf []) rfl rfl hname hname' rfl rfl isPlain_old (by decide) rfl rfl)
  have hrun := Session.compile_miss (s := w.session 0) rfl hcompile
  have hstep : w.step 0 host 2 () (.render source .null {}) = some _ := step_render_ok hrun rfl
  exact .step hregistered hstep

/-- A later registration leaves partials up to date that do not include what it is for. -/
theorem render_renewed_kept :
    let source := String.ofList (including "a")
    let e := nested.environment 0
    let w := nested.putEnvironment 0 { e with partials := e.partials.insert "c" (.source "new") }
    let cleared := w.putEnvironment 0 { w.environment 0 with cache := ⟨[]⟩ }
    let given : Dict Partial := ⟨[("b", .source "old"),
      ("a", .source (String.ofList (including "b"))), ("c", .source "new")]⟩
    Registered 0 w given ∧ (w.environment 0).partials.get? "a" = some (.compiled 0) ∧
      ∀ {σ : Type} (host : Host σ) (depth : Nat) (context : Value) (state : σ),
        (cleared.step 0 host depth state (.render source context {})).map Turn.shown =
          ((cleared.putEnvironment 1 ((w.environment 0).renewed given)).step 1 host depth state
            (.render source context {})).map Turn.shown := by
  intro source e w cleared given
  have hregistered : Registered 0 w given := registered_nested.source "c" "new"
  let silent : Host Unit := fun _ _ => .done .null
  have hclear : w.step 0 silent 0 () .clearCache = some _ := rfl
  refine ⟨hregistered, rfl, fun host depth context state => ?_⟩
  refine render_renewed hregistered hclear (fun e he => ?_) (fun name _ text id hsource hid => ?_)
    host depth context state
  · cases List.mem_singleton.1 he
  · have hmem : (name, Partial.source text) ∈ given.entries := Dict.mem_of_firstEntry hsource
    rw [List.mem_cons, List.mem_cons, List.mem_singleton] at hmem
    rcases hmem with heq | heq | heq
    · cases heq
      cases hid
      exact Session.upToDate_plain isPlain_old (by decide) rfl
    · cases heq
      cases hid
      exact Session.upToDate_including inBrackets_ab.2 rfl rfl
    · cases heq
      cases hid

/-- A partial that was compiled in place goes on to include one that was replaced since. -/
theorem render_renewed_replaced :
    let source := String.ofList (including "a")
    let e := nested.environment 0
    let w := nested.putEnvironment 0 { e with partials := e.partials.insert "b" (.source "new") }
    let cleared := w.putEnvironment 0 { w.environment 0 with cache := ⟨[]⟩ }
    let given : Dict Partial :=
      ⟨[("b", .source "new"), ("a", .source (String.ofList (including "b")))]⟩
    Registered 0 w given ∧
      ∀ {σ : Type} (host : Host σ) (depth : Nat) (context : Value) (state : σ),
        (w.step 0 host depth state .clearCache).map Turn.workspace = some cleared ∧
        (cleared.step 0 host (depth + 2) state (.render source context {})).map Turn.shown =
          some (.text "old", state) ∧
        ((cleared.putEnvironment 1 ((w.environment 0).renewed given)).step 1 host (depth + 2) state
          (.render source context {})).map Turn.shown = some (.text "new", state) := by
  intro source e w cleared given
  obtain ⟨hname, hname'⟩ := inBrackets_ab
  refine ⟨registered_nested.source "b" "new", fun host depth context state => ⟨rfl, ?_, ?_⟩⟩
  · let s := (cleared.session 0).report (.compilingTemplate source.utf8ByteSize)
    have hcompile : Session.compileUncached source {} s = _ :=
      Session.compileUncached_ok rfl (compile_including hname (resolve_compiled rfl rfl))
    have hrun := Session.compile_miss (s := cleared.session 0) rfl hcompile
    have hstep : cleared.step 0 host (depth + 2) state (.render source context {}) = some _ :=
      step_render_ok hrun rfl
    rw [hstep]
    rfl
  · let fresh := cleared.putEnvironment 1 ((w.environment 0).renewed given)
    let s := (fresh.session 1).report (.compilingTemplate source.utf8ByteSize)
    have hcompile : Session.compileUncached source {} s = _ :=
      Session.compileUncached_ok rfl (compile_nested (d := s.environment.dialect {})
        (s := s.shelf []) rfl rfl hname hname' rfl rfl isPlain_new (by decide) rfl rfl)
    have hrun := Session.compile_miss (s := fresh.session 1) rfl hcompile
    have hstep : fresh.step 1 host (depth + 2) state (.render source context {}) = some _ :=
      step_render_ok hrun rfl
    rw [hstep]
    rfl

end Workspace
end Stencil
