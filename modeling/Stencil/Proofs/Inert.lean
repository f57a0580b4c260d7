import Mathlib
import Stencil.Proofs.Indifference
import Stencil.Proofs.Sessions

set_option autoImplicit false

/-!
# Functions that are not called

Where functions are no values, a template with built-in helpers calls nothing that it finds in its
context: other functions there make no difference, nor does what the host would do.
-/
namespace Stencil

/-- Without partials, a source compiles only if it includes none. -/
theorem includes_eq_nil_of_compile {d : Dialect} {waiting : Dict String} {source : String}
    {shelf shelf' : Shelf} {t : Template} (hwaiting : waiting = ⟨[]⟩) (hcompiled : shelf.compiled = ⟨[]⟩)
    (hprogress : shelf.inProgress = ⟨[]⟩)
    (h : compile d waiting source shelf = (.ok t, shelf')) : includes t.items = [] := by
  have hending := Outline.ending_of_link h
  have hasks : (Outline.ofSource d source).asks = [] := by
    unfold compile at h
    generalize Outline.ofSource d source = outline at h
    cases outline with
    | finished items => rfl
    | failed f => rfl
    | asking name left next =>
      have hnone : resolve d waiting name shelf = (.ok none, shelf) :=
        resolve_unknown (by rw [hprogress]; rfl) (by rw [hcompiled]; rfl) (by rw [hwaiting]; rfl)
      rw [Outline.link_missing hnone] at h
      cases h
  have hsubset := Outline.includes_subset_asks hending
  rw [hasks] at hsubset
  exact List.subset_nil.1 hsubset

namespace Session
variable {s s' : Session} {o : Options} {source : String} {id : TemplateId}

section
variable (hbuiltins : (s.environment.dialect o).BuiltinsOnly)
  (hpartials : (s.environment.overlaid o).partials = ⟨[]⟩)
  (hoff : (s.environment.dialect o).noFunctionValues = true)
include hbuiltins hpartials hoff

/-- What is compiled so includes nothing and calls no function. -/
theorem compileUncached_inert (h : compileUncached source o s = (.ok id, s')) :
    ∃ t, s'.library.get? id = some t ∧ (∀ item ∈ t.items, item.Fits True fun _ => True) ∧
      includes t.items = [] := by
  obtain ⟨t, shelf, hcompile, ht⟩ := compiled_of_compileUncached h
  have hknown : (s.environment.dialect o).knownHelpersOnly = true := by
    change ((s.environment.dialect o).noFunctionValues || _) = true
    rw [hoff, Bool.true_or]
  have hsource := Outline.source_of_link hcompile
  subst hsource
  have hfrom := Template.Compiled.from (.compile hcompile)
  refine ⟨t, ht, fun item hitem => (hfrom item hitem).fits_all hbuiltins fun _ => ⟨hknown, hoff⟩, ?_⟩
  refine includes_eq_nil_of_compile ?_ ?_ rfl hcompile
  · unfold Environment.waiting
    rw [hpartials]
    rfl
  · unfold shelfUnder Environment.compiledPartials
    rw [hpartials]
    rfl

/-- A source that compiles where functions are no values, with built-in helpers and without partials,
has the same outcome for all contexts that differ in their functions only. It comes to that whatever
the host, without nesting, and leaves the state as it is: no function of the context is called. -/
theorem render_inert
    (h : compileUncached source o s = (.ok id, s') ∨
      s.environment.cache.get? source = none ∧ Session.compile source o s = (.ok id, s'))
    {context context' : Value} (hcontext : context.Resembles True True context')
    {data data' : Object} (hdata : data.Resembles True True data') (held : List TemplateId) :
    ∃ outcome events, ∀ {σ : Type} (host : Host σ) (depth : Nat) (world : World σ),
      (s'.library.render held host depth id context data).run world =
        some (outcome, { world with events := world.events ++ events }) ∧
      (s'.library.render held host depth id context' data').run world =
        some (outcome, { world with events := world.events ++ events }) := by
  have hinert : ∃ t, s'.library.get? id = some t ∧ (∀ item ∈ t.items, item.Fits True fun _ => True) ∧
      includes t.items = [] := by
    rcases h with h | ⟨hcache, h⟩
    · exact compileUncached_inert hbuiltins hpartials hoff h
    · generalize hr : compileUncached source o (s.report (.compilingTemplate source.utf8ByteSize)) = r
        at h
      obtain ⟨outcome, s''⟩ := r
      rw [compile_miss hcache hr] at h
      cases h
      have hinert := compileUncached_inert (s := s.report _) hbuiltins hpartials hoff hr
      exact hinert
  obtain ⟨t, ht, hfits, hflat⟩ := hinert
  obtain ⟨outcome, events, hends⟩ := Template.render_steady hfits hflat
    (s'.library.partial? (s'.library.reach (id :: held))) (.refl context') (.refl data')
  refine ⟨outcome, events, fun host depth world => ?_⟩
  unfold Library.render
  rw [ht]
  exact ⟨hends host depth hcontext hdata world.state world.events,
    hends host depth (.refl context') (.refl data') world.state world.events⟩

end

theorem compileUncached_bare :
    (compileUncached "\x7b\x7bf\x7d\x7d" { noFunctionValues := some true } {}).1 = .ok 0 := by cbv

/-- A function that stands in a value tag is not called if the call of the environment forbids it. -/
theorem render_inert_bare :
    let o : Options := { noFunctionValues := some true }
    let compiled := compileUncached "\x7b\x7bf\x7d\x7d" o {}
    let context (handle : Nat) : Value := .object ⟨[("f", .function (.custom handle))]⟩
    compiled.1 = .ok 0 ∧
      ∃ outcome events, ∀ {σ : Type} (host : Host σ) (depth : Nat) (world : World σ),
        (compiled.2.library.render [] host depth 0 (context 1) ⟨[]⟩).run world =
          some (outcome, { world with events := world.events ++ events }) ∧
        (compiled.2.library.render [] host depth 0 (context 2) ⟨[]⟩).run world =
          some (outcome, { world with events := world.events ++ events }) := by
  intro o compiled context
  refine ⟨compileUncached_bare, ?_⟩
  have hcompiled : compileUncached "\x7b\x7bf\x7d\x7d" o {} = (.ok 0, compiled.2) :=
    Prod.ext compileUncached_bare rfl
  have hcontext : (context 1).Resembles True True (context 2) :=
    .object (.cons (.mk "f" (.function True.intro _ _)) .nil)
  exact render_inert (fun _ _ => id) rfl rfl (.inl hcompiled) hcontext (.refl _) []

end Session
end Stencil
