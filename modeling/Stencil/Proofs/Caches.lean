import Mathlib
import Stencil.Proofs.Holdings
import Stencil.Proofs.Renewals

set_option autoImplicit false

/-!
# The cache of an environment

A source that was compiled with the cache stands there until the cache is cleared, and all that ask
for it get the same template. Nothing else enters the cache or leaves it, and a call with
registrations of its own changes no registration of the environment.
-/
namespace Stencil

namespace Session

inductive Cached (s : Session) (source : String) :
    Except TemplateError TemplateId → Session → Prop
  | hit {id : TemplateId} {s' : Session} (found : s.environment.cache.get? source = some id)
    (cache : s'.environment.cache = s.environment.cache) : Cached s source (.ok id) s'
  | failed {e : TemplateError} {s' : Session}
    (cache : s'.environment.cache = s.environment.cache) : Cached s source (.error e) s'
  | added {id : TemplateId} {t : Template} {s' : Session}
    (free : s.environment.cache.get? source = none)
    (cache : s'.environment.cache = s.environment.cache.insert source id)
    (template : s'.library.get? id = some t) (text : t.source = source) :
    Cached s source (.ok id) s'

theorem compile_cached (source : String) (o : Options) (s : Session) :
    s.Cached source (Session.compile source o s).1 (Session.compile source o s).2 := by
  cases hcache : s.environment.cache.get? source with
  | some id =>
    rw [compile_hit hcache]
    exact .hit hcache rfl
  | none =>
    have hsame := cache_compileUncached source o
      (s.report (.compilingTemplate source.utf8ByteSize))
    generalize hr : compileUncached source o
      (s.report (.compilingTemplate source.utf8ByteSize)) = r at hsame
    obtain ⟨outcome, s'⟩ := r
    rw [compile_miss hcache hr]
    cases outcome with
    | error e => exact .failed hsame
    | ok id =>
      obtain ⟨t, shelf, hcompile, ht⟩ := compiled_of_compileUncached hr
      exact .added hcache (congrArg (Dict.insert · source id) hsame) ht
        (Outline.source_of_link hcompile)

theorem compileUncached_overlay {o : Options} (ho : o.overlay = true) (source : String)
    (s : Session) : (compileUncached source o s).2.environment = s.environment := by
  rw [compileUncached_eq]
  exact if_pos ho

theorem compile_overlay {o : Options} (ho : o.overlay = true) (source : String) (s : Session) :
    ∃ cache, (Session.compile source o s).2.environment = { s.environment with cache } := by
  cases hcache : s.environment.cache.get? source with
  | some id =>
    rw [compile_hit hcache]
    exact ⟨_, rfl⟩
  | none =>
    have hsame := compileUncached_overlay ho source
      (s.report (.compilingTemplate source.utf8ByteSize))
    generalize hr : compileUncached source o
      (s.report (.compilingTemplate source.utf8ByteSize)) = r at hsame
    obtain ⟨outcome, s'⟩ := r
    rw [compile_miss hcache hr]
    cases outcome with
    | error e => exact ⟨_, hsame⟩
    | ok id => exact ⟨_, congrArg (fun e => { e with cache := e.cache.insert source id }) hsame⟩

end Session

def Step.cached? : Step → Option (String × Offer)
  | .render source _ offer => some (source, offer)
  | .compile source _ true offer => some (source, offer)
  | _ => none

def Step.offer? : Step → Option Offer
  | .render _ _ offer => some offer
  | .compile _ _ _ offer => some offer
  | _ => none

def Step.Clears : Step → Prop
  | .renew | .clearCache => True
  | _ => False

def Offer.Overlays (offer : Offer) : Prop :=
  offer.options.helpers.isEmpty = false ∨ offer.partials ≠ []

theorem Dict.isEmpty_extend {α : Type} {d : Dict α} (h : d.isEmpty = false)
    (entries : List (String × α)) : (d.extend entries).isEmpty = false := by
  induction entries generalizing d with
  | nil => exact h
  | cons entry rest ih =>
    refine ih ?_
    obtain ⟨entries⟩ := d
    cases entries with
    | nil => cases h
    | cons first later =>
      change (insertEntry entry.1 entry.2 (first :: later)).isEmpty = false
      rw [insertEntry]
      split <;> rfl

theorem Dict.isEmpty_ofList {α : Type} {entries : List (String × α)} (h : entries ≠ []) :
    (ofList entries).isEmpty = false := by
  obtain ⟨entry, rest, rfl⟩ := List.exists_cons_of_ne_nil h
  exact isEmpty_extend (d := insert ⟨[]⟩ entry.1 entry.2) rfl rest

namespace Workspace
variable {w w' w'' : Workspace} {number : Nat}

theorem overlay_of_makeOptions {offer : Offer} {o : Options}
    (h : w.makeOptions offer = .ok (o, w')) (hoffer : offer.Overlays) : o.overlay = true := by
  obtain ⟨ps, hps, rfl⟩ := makeOptions_ok h
  unfold Options.overlay
  rcases hoffer with hhelpers | hpartials
  · rw [hhelpers]
    rfl
  · obtain ⟨offer', rest, hoffers⟩ := List.exists_cons_of_ne_nil hpartials
    rw [hoffers] at hps
    obtain ⟨p, w₁, ps', -, -, rfl⟩ := makePartials_cons_ok hps
    rw [Dict.isEmpty_ofList (List.cons_ne_nil _ _), Bool.not_false, Bool.or_true]

def compiled? (w : Workspace) (number : Nat) (s : Step) :
    Option (String × Except TemplateError TemplateId) :=
  s.cached?.bind fun (source, offer) =>
    match w.makeOptions offer with
    | .ok (o, w) => some (source, (Session.compile source o (w.session number)).1)
    | .error _ => none

/-- What a step does to the cache of its environment. -/
inductive CacheStep (w : Workspace) (number : Nat) (s : Step) (w' : Workspace) : Prop
  | cleared (clears : s.Clears) (cache : (w'.environment number).cache = ⟨[]⟩)
  | kept (cache : (w'.environment number).cache = (w.environment number).cache)
    (found : ∀ source id, w.compiled? number s = some (source, .ok id) →
      (w.environment number).cache.get? source = some id)
  | added {source : String} {id : TemplateId} {t : Template}
    (compiled : w.compiled? number s = some (source, .ok id))
    (free : (w.environment number).cache.get? source = none)
    (cache : (w'.environment number).cache = (w.environment number).cache.insert source id)
    (template : w'.library.get? id = some t) (text : t.source = source)

theorem CacheStep.of_cached {s : Step} {source : String} {offer : Offer} {o : Options}
    (hs : s.cached? = some (source, offer)) (hmade : w.makeOptions offer = .ok (o, w'))
    {after : Session} (hcached : (w'.session number).Cached source
      (Session.compile source o (w'.session number)).1 after)
    (hcache : (w''.environment number).cache = after.environment.cache)
    (hlibrary : w''.library = after.library) : CacheStep w number s w'' := by
  have hcompiled : w.compiled? number s =
      some (source, (Session.compile source o (w'.session number)).1) := by
    unfold compiled?
    rw [hs, Option.bind_some]
    dsimp only
    rw [hmade]
  have hbefore : (w'.session number).environment.cache = (w.environment number).cache :=
    congrArg Environment.cache (environment_congr (environments_makeOptions hmade) number)
  generalize (Session.compile source o (w'.session number)).1 = outcome at hcached hcompiled
  cases hcached with
  | hit found cache =>
    refine .kept (hcache.trans (cache.trans hbefore)) fun other id heq => ?_
    cases hcompiled.symm.trans heq
    rw [← hbefore]
    exact found
  | failed cache =>
    refine .kept (hcache.trans (cache.trans hbefore)) fun other id heq => ?_
    cases hcompiled.symm.trans heq
  | added free cache template text =>
    rw [hbefore] at free cache
    exact .added hcompiled free (hcache.trans cache) (hlibrary ▸ template) text

theorem environment_close (w : Workspace) (number : Nat) (s : Session) :
    (w.close number s).environment number = s.environment :=
  (environment_putEnvironment w number number s.environment).trans (if_pos rfl)

section
variable {σ : Type} {host : Host σ} {depth : Nat} {state : σ} {turn : Turn σ}

theorem renderStep_made {source : String} {context : Value} {offer : Offer} {o : Options}
    (hmade : w.makeOptions offer = .ok (o, w'))
    (h : w.renderStep number host depth state source context offer = some turn) :
    ∃ events, turn.workspace =
      w'.close number { (Session.compile source o (w'.session number)).2 with events } := by
  unfold renderStep at h
  rw [hmade] at h
  obtain ⟨⟨result, state', s'⟩, hrender, heq⟩ := Option.bind_eq_some_iff.1 h
  cases heq
  obtain ⟨events, rfl⟩ := Session.render_session hrender
  exact ⟨events, rfl⟩

section
variable {source name : String} {cached : Bool} {offer : Offer} {o : Options} {s : Session}
  (hmade : w.makeOptions offer = .ok (o, w'))
include hmade

theorem compileStep_error {e : TemplateError}
    (h : (if cached then Session.compile else Session.compileUncached) source o
      (w'.session number) = (.error e, s)) :
    w.compileStep number state source name cached offer =
      { answer := .failed e, events := s.events, state, workspace := w'.close number s } := by
  unfold compileStep
  rw [hmade]
  dsimp only
  rw [h]

theorem compileStep_ok {id : TemplateId}
    (h : (if cached then Session.compile else Session.compileUncached) source o
      (w'.session number) = (.ok id, s)) :
    w.compileStep number state source name cached offer =
      { answer := ((w'.close number s).saveTemplate name id).1, events := s.events, state
        workspace := ((w'.close number s).saveTemplate name id).2 } := by
  unfold compileStep
  rw [hmade]
  dsimp only
  rw [h]

end

theorem library_saveTemplate (w : Workspace) (name : String) (id : TemplateId) :
    (w.saveTemplate name id).2.library = w.library := by
  unfold saveTemplate
  split <;> rfl

theorem compileStep_session (state : σ) (source name : String) (cached : Bool) {offer : Offer}
    {o : Options} (hmade : w.makeOptions offer = .ok (o, w')) :
    let s := ((if cached then Session.compile else Session.compileUncached) source o
      (w'.session number)).2
    let after := (w.compileStep number state source name cached offer).workspace
    after.environment number = s.environment ∧ after.library = s.library := by
  generalize hr : (if cached then Session.compile else Session.compileUncached) source o
    (w'.session number) = r
  obtain ⟨outcome, s⟩ := r
  cases outcome with
  | error e =>
    rw [compileStep_error hmade hr]
    exact ⟨environment_close w' number s, rfl⟩
  | ok id =>
    rw [compileStep_ok hmade hr]
    refine ⟨?_, library_saveTemplate _ name id⟩
    rw [environment_congr (environments_saveTemplate _ name id)]
    exact environment_close w' number s

theorem step_unmade {s : Step} {offer : Offer} {answer : Answer} (hs : s.offer? = some offer)
    (hmade : w.makeOptions offer = .error answer)
    (hstep : w.step number host depth state s = some turn) : turn.workspace = w := by
  cases s with
  | render source context offer' =>
    cases hs
    unfold Workspace.step renderStep at hstep
    dsimp only at hstep
    rw [hmade] at hstep
    cases hstep
    rfl
  | compile source name cached offer' =>
    cases hs
    unfold Workspace.step compileStep at hstep
    dsimp only at hstep
    rw [hmade] at hstep
    cases hstep
    rfl
  | _ => cases hs

theorem CacheStep.of_none {s : Step} (hs : s.cached? = none)
    (hcache : (w'.environment number).cache = (w.environment number).cache) :
    CacheStep w number s w' := by
  refine .kept hcache fun source id heq => ?_
  unfold compiled? at heq
  rw [hs] at heq
  cases heq

theorem cacheStep_compile {source name : String} {cached : Bool} {offer : Offer} {o : Options}
    (hmade : w.makeOptions offer = .ok (o, w')) :
    CacheStep w number (.compile source name cached offer)
      (w.compileStep number state source name cached offer).workspace := by
  obtain ⟨henvironment, hlibrary⟩ := compileStep_session state source name cached hmade
  cases cached with
  | true =>
    exact .of_cached rfl hmade (Session.compile_cached source o _)
      (congrArg Environment.cache henvironment) hlibrary
  | false =>
    refine .of_none rfl ?_
    rw [henvironment]
    exact (Session.cache_compileUncached source o _).trans (congrArg Environment.cache
      (environment_congr (environments_makeOptions hmade) number))

theorem CacheStep.of_unmade {s : Step} {source : String} {offer : Offer} {answer : Answer}
    (hs : s.cached? = some (source, offer)) (hmade : w.makeOptions offer = .error answer)
    (hworkspace : w' = w) : CacheStep w number s w' := by
  refine .kept (by rw [hworkspace]) fun other id heq => ?_
  unfold compiled? at heq
  rw [hs, Option.bind_some] at heq
  dsimp only at heq
  rw [hmade] at heq
  cases heq

theorem cacheStep {s : Step} (hstep : w.step number host depth state s = some turn) :
    CacheStep w number s turn.workspace := by
  have hput (w : Workspace) (e : Environment) :
      ((w.putEnvironment number e).environment number).cache = e.cache :=
    congrArg Environment.cache ((environment_putEnvironment w number number e).trans (if_pos rfl))
  cases s with
  | renew => cases hstep; exact .cleared True.intro (hput w _)
  | clearCache => cases hstep; exact .cleared True.intro (hput w _)
  | render source context offer =>
    cases hmade : w.makeOptions offer with
    | error answer => exact .of_unmade rfl hmade (step_unmade rfl hmade hstep)
    | ok r =>
      obtain ⟨o, w'⟩ := r
      obtain ⟨events, hworkspace⟩ := renderStep_made hmade hstep
      rw [hworkspace]
      exact .of_cached rfl hmade (Session.compile_cached source o _)
        (congrArg Environment.cache (environment_close w' number _)) rfl
  | compile source name cached offer =>
    cases hmade : w.makeOptions offer with
    | error answer =>
      have hsame := step_unmade rfl hmade hstep
      cases cached with
      | true => exact .of_unmade rfl hmade hsame
      | false => exact .of_none rfl (by rw [hsame])
    | ok r =>
      cases hstep
      exact cacheStep_compile hmade
  | newTemplate source name =>
    unfold Workspace.step at hstep
    dsimp only at hstep
    split at hstep
    · cases hstep
      exact .of_none rfl rfl
    · cases hstep
      exact .of_none rfl
        (congrArg Environment.cache (environment_congr (environments_saveTemplate _ _ _) number))
  | renderSaved name context data =>
    unfold Workspace.step Workspace.renderSavedStep at hstep
    dsimp only at hstep
    split at hstep
    · cases hstep
      exact .of_none rfl rfl
    · obtain ⟨r, -, heq⟩ := Option.bind_eq_some_iff.1 hstep
      cases heq
      exact .of_none rfl rfl
  | dropSaved name =>
    cases hstep
    exact .of_none rfl rfl
  | registerPartial name offer =>
    unfold Workspace.step at hstep
    dsimp only at hstep
    split at hstep
    · cases hstep
      exact .of_none rfl rfl
    · cases hstep
      exact .of_none rfl (hput _ _)
  | registerHelper | unregisterHelper | unregisterPartial | setKnownHelpersOnly
  | setNoFunctionValues =>
    cases hstep
    exact .of_none rfl (hput w _)

theorem environment_overlay {s : Step} {offer : Offer} (hs : s.offer? = some offer)
    (hoffer : offer.Overlays) (hstep : w.step number host depth state s = some turn) :
    ∃ cache, turn.workspace.environment number = { w.environment number with cache } := by
  cases hmade : w.makeOptions offer with
  | error answer =>
    rw [step_unmade hs hmade hstep]
    exact ⟨_, rfl⟩
  | ok r =>
    obtain ⟨o, w'⟩ := r
    have ho := overlay_of_makeOptions hmade hoffer
    have hbefore : (w'.session number).environment = w.environment number :=
      environment_congr (environments_makeOptions hmade) number
    rw [← hbefore]
    cases s with
    | render source context offer' =>
      cases hs
      obtain ⟨events, hworkspace⟩ := renderStep_made hmade hstep
      rw [hworkspace, environment_close]
      exact Session.compile_overlay ho source _
    | compile source name cached offer' =>
      cases hs
      cases hstep
      obtain ⟨henvironment, -⟩ := compileStep_session state source name cached hmade
      rw [henvironment]
      cases cached with
      | true => exact Session.compile_overlay ho source _
      | false => exact ⟨_, Session.compileUncached_overlay ho source _⟩
    | _ => cases hs

end

structure Caches (w : Workspace) (number : Nat) (source : String) (id : TemplateId) (t : Template) :
    Prop where
  entry : (w.environment number).cache.get? source = some id
  template : w.library.get? id = some t
  text : t.source = source

/-- What further steps lead to, in whatever environment, without clearing the cache of this one. -/
inductive Uncleared (number : Nat) (w : Workspace) : Workspace → Prop
  | refl : Uncleared number w w
  | step {σ : Type} {w' : Workspace} {other : Nat} {host : Host σ} {depth : Nat} {state : σ}
    {s : Step} {turn : Turn σ} (h : Uncleared number w w') (hs : other = number → ¬ s.Clears)
    (hstep : w'.step other host depth state s = some turn) : Uncleared number w turn.workspace

theorem Numbered.lt_of_cache (h : w.Numbered) {source : String} {id : TemplateId}
    (hid : (w.environment number).cache.get? source = some id) : id < w.library.next :=
  (h.environment number).cache id (Dict.mem_values_of_get? hid)

section
variable {σ : Type} {other : Nat} {host : Host σ} {depth : Nat} {state : σ} {s : Step}
  {turn : Turn σ} {source : String} {id : TemplateId} {t : Template}

theorem Caches.kept (h : w.Caches number source id t) (hw : w.Numbered)
    (hstep : w.step other host depth state s = some turn)
    (hid : (turn.workspace.environment number).cache.get? source = some id) :
    turn.workspace.Caches number source id t :=
  ⟨hid, ((hw.step host depth hstep).library.get? id (hw.lt_of_cache h.entry)).trans h.template,
    h.text⟩

/-- Only what clears the cache removes an entry, and nothing replaces one. -/
theorem Caches.step (h : w.Caches number source id t) (hw : w.Numbered)
    (hs : other = number → ¬ s.Clears) (hstep : w.step other host depth state s = some turn) :
    turn.workspace.Caches number source id t := by
  refine h.kept hw hstep ?_
  by_cases heq : other = number
  · subst heq
    cases cacheStep hstep with
    | cleared clears => exact absurd clears (hs rfl)
    | kept cache => rw [cache, h.entry]
    | @added source' _ _ _ free cache =>
      have hne : source' ≠ source := by
        rintro rfl
        cases free.symm.trans h.entry
      rw [cache, Dict.get?_insert, if_neg hne, h.entry]
  · obtain ⟨e, hsteps⟩ := environment_step host depth hw hstep
    rw [hsteps.environment, if_neg heq, h.entry]

theorem caches_compiled (hw : w.Numbered)
    (hcached : ∀ id, (w.environment number).cache.get? source = some id →
      ∃ t, w.Caches number source id t)
    (hstep : w.step number host depth state s = some turn)
    (hid : w.compiled? number s = some (source, .ok id)) :
    ∃ t, turn.workspace.Caches number source id t := by
  cases cacheStep hstep with
  | cleared clears =>
    cases s with
    | renew | clearCache => cases hid
    | _ => cases clears
  | kept cache found =>
    have hentry := found source id hid
    obtain ⟨t, ht⟩ := hcached id hentry
    exact ⟨t, ht.kept hw hstep (cache ▸ hentry)⟩
  | @added _ _ t compiled free cache template text =>
    cases compiled.symm.trans hid
    refine ⟨t, ?_, template, text⟩
    rw [cache, Dict.get?_insert, if_pos rfl]

end

theorem Uncleared.later (h : Uncleared number w w') : Later w w' := by
  induction h with
  | refl => exact .refl
  | step _ _ hstep ih => exact .step ih hstep

theorem Caches.uncleared {source : String} {id : TemplateId} {t : Template}
    (h : w.Caches number source id t) (hw : w.Numbered) (hrun : Uncleared number w w') :
    w'.Caches number source id t := by
  induction hrun with
  | refl => exact h
  | step hbefore hs hstep ih => exact ih.step (hbefore.later.continues hw).numbered hs hstep

/-- Each entry leads to a template that comes from the source it is for. -/
theorem Later.caches (h : Later {} w) {source : String} {id : TemplateId}
    (hid : (w.environment number).cache.get? source = some id) :
    ∃ t, w.Caches number source id t := by
  induction h with
  | refl => cases hid
  | @step σ w' other host depth state s turn hbefore hstep ih =>
    have hw := (hbefore.continues numbered_new).numbered
    have hkeep (hbefore : (w'.environment number).cache.get? source = some id) :
        ∃ t, turn.workspace.Caches number source id t := by
      obtain ⟨t, ht⟩ := ih hbefore
      exact ⟨t, ht.kept hw hstep hid⟩
    by_cases heq : other = number
    · subst heq
      cases cacheStep hstep with
      | cleared _ cache =>
        rw [cache] at hid
        cases hid
      | kept cache => exact hkeep (cache ▸ hid)
      | @added source' id' t _ _ cache template text =>
        have hentry := hid
        rw [cache, Dict.get?_insert] at hentry
        split at hentry
        · next hsource =>
          cases hentry
          exact ⟨t, hid, template, text.trans hsource⟩
        · exact hkeep hentry
    · obtain ⟨e, hsteps⟩ := environment_step host depth hw hstep
      rw [hsteps.environment, if_neg heq] at hid
      exact hkeep hid

namespace Caches
variable {source : String} {id : TemplateId} {t : Template}

theorem compiled (h : w.Caches number source id t) {s : Step}
    {outcome : Except TemplateError TemplateId}
    (hs : w.compiled? number s = some (source, outcome)) : outcome = .ok id := by
  obtain ⟨⟨text, offer⟩, -, hmade⟩ := Option.bind_eq_some_iff.1 hs
  cases hoptions : w.makeOptions offer with
  | error answer =>
    dsimp only at hmade
    rw [hoptions] at hmade
    cases hmade
  | ok r =>
    obtain ⟨o, w'⟩ := r
    dsimp only at hmade
    rw [hoptions] at hmade
    cases hmade
    have hentry : (w'.session number).environment.cache.get? source = some id := by
      change (w'.environment number).cache.get? source = _
      rw [environment_congr (environments_makeOptions hoptions), h.entry]
    rw [Session.compile_hit hentry]

theorem saved (h : w.Caches number source id t) (hw : w.Numbered) {name : String} {offer : Offer}
    {o : Options} (hmade : w.makeOptions offer = .ok (o, w')) {σ : Type} (state : σ) :
    let turn := w.compileStep number state source name true offer
    turn.answer = .saved t (w'.handle? id) ∧ turn.workspace.saved? name = some id := by
  have hentry : (w'.session number).environment.cache.get? source = some id := by
    change (w'.environment number).cache.get? source = _
    rw [environment_congr (environments_makeOptions hmade), h.entry]
  have htemplate : w'.library.get? id = some t :=
    ((hw.makeOptions hmade).1.library.get? id (hw.lt_of_cache h.entry)).trans h.template
  have hlibrary : (w'.close number ((w'.session number).report
      (.cacheHit source.utf8ByteSize))).library.get? id = some t := htemplate
  have hcompile : (if true then Session.compile else Session.compileUncached) source o
      (w'.session number) = _ := Session.compile_hit hentry o
  dsimp only
  rw [compileStep_ok hmade hcompile]
  dsimp only
  unfold saveTemplate
  rw [hlibrary]
  refine ⟨rfl, ?_⟩
  unfold saved? save
  have hothers : ∀ entry ∈ (w'.close number ((w'.session number).report
      (.cacheHit source.utf8ByteSize))).saved.filter (fun entry => entry.1 ≠ name),
      (name != entry.1) = true := fun entry hentry =>
    bne_iff_ne.2 (Ne.symm (of_decide_eq_true (List.mem_filter.1 hentry).2))
  rw [List.lookup_append, List.lookup_eq_none_iff.2 hothers, Option.none_or, List.lookup_cons,
    beq_self_eq_true]

end Caches

/-- What is compiled with the cache stays there until the cache is cleared, and all that compiles
the same source then gets that template. Apart from this and from clearing, no step changes the
cache. A call with registrations of its own changes nothing else in the environment. -/
theorem cache_laws (h : Later {} w) (number : Nat) :
    (∀ source id, (w.environment number).cache.get? source = some id →
      ∃ t, w.Caches number source id t) ∧
    ∀ {σ : Type} {host : Host σ} {depth : Nat} {state : σ} {s : Step} {turn : Turn σ},
      w.step number host depth state s = some turn →
        (∀ source id, w.compiled? number s = some (source, .ok id) →
          ∃ t, ∀ w', Uncleared number turn.workspace w' →
            w'.Caches number source id t ∧
            (∀ s' outcome, w'.compiled? number s' = some (source, outcome) → outcome = .ok id) ∧
            ∀ name offer o w'', w'.makeOptions offer = .ok (o, w'') → ∀ {τ : Type} (state' : τ),
              let turn' := w'.compileStep number state' source name true offer
              turn'.answer = .saved t (w''.handle? id) ∧
                turn'.workspace.saved? name = some id) ∧
        (¬ s.Clears → (∀ source id, w.compiled? number s ≠ some (source, .ok id)) →
          (turn.workspace.environment number).cache = (w.environment number).cache) ∧
        ∀ offer, s.offer? = some offer → offer.Overlays →
          ∃ cache, turn.workspace.environment number = { w.environment number with cache } := by
  have hw := (h.continues numbered_new).numbered
  refine ⟨fun source id => h.caches, fun {σ host depth state s turn} hstep => ⟨?_, ?_, ?_⟩⟩
  · intro source id hid
    obtain ⟨t, ht⟩ := caches_compiled hw (fun id => h.caches) hstep hid
    have hturn := (hw.step host depth hstep).numbered
    refine ⟨t, fun w' hrun => ?_⟩
    have hcaches := ht.uncleared hturn hrun
    exact ⟨hcaches, fun s' outcome => hcaches.compiled, fun name offer o w'' hmade τ state' =>
      hcaches.saved (hrun.later.continues hturn).numbered hmade state'⟩
  · intro hclears hnone
    cases cacheStep hstep with
    | cleared clears => exact absurd clears hclears
    | kept cache => exact cache
    | added compiled => exact absurd compiled (hnone _ _)
  · intro offer hs hoffer
    exact environment_overlay hs hoffer hstep

theorem compiled?_call :
    compiled? {} 0 (.compile "\x7b\x7bf x\x7d\x7d" "a" true {}) =
      some ("\x7b\x7bf x\x7d\x7d", .ok 0) := by cbv

theorem compileUncached_unknown :
    (Session.compileUncached "\x7b\x7bf x\x7d\x7d" { knownHelpersOnly := some true } {}).1 =
      .error (.syntaxError ⟨⟨1, 6⟩, .unknownHelper "f"⟩) := by cbv

/-- A source is served from the cache to a call that it would not compile for. -/
theorem cache_laws_known_helpers :
    let source := "\x7b\x7bf x\x7d\x7d"
    let known : Options := { knownHelpersOnly := some true }
    let w := (compileStep {} 0 () source "a" true {}).workspace
    let second := w.compileStep 0 () source "b" true { options := known }
    compiled? {} 0 (.compile source "a" true {}) = some (source, .ok 0) ∧
      (∃ e, (Session.compileUncached source known {}).1 = .error e) ∧
      ∃ t, t.source = source ∧ w.library.get? 0 = some t ∧
        second.answer = .saved t (w.handle? 0) ∧ second.workspace.saved? "b" = some 0 := by
  intro source known w second
  let host : Host Unit := fun _ _ => .done .null
  have hstep : step {} 0 host 0 () (.compile source "a" true {}) = some _ := rfl
  obtain ⟨-, hlaws⟩ := cache_laws .refl 0
  obtain ⟨t, ht⟩ := (hlaws hstep).1 source 0 compiled?_call
  obtain ⟨hcaches, -, hsaved⟩ := ht w .refl
  exact ⟨compiled?_call, ⟨_, compileUncached_unknown⟩, t, hcaches.text, hcaches.template,
    hsaved "b" { options := known } known w rfl ()⟩

end Workspace
end Stencil
