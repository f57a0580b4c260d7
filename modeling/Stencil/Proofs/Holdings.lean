import Stencil.Proofs.Calls
import Stencil.Proofs.Inclusions

set_option autoImplicit false

/-!
# Templates that hold what they need

A template whose partials were all compiled for it reaches them by itself. Whatever is registered,
unregistered or dropped later, it does not miss one of them.
-/
namespace Stencil

namespace Session
variable {s s' : Session} {o : Options} {source : String} {id : TemplateId}

section
variable (hs : s.Numbered) (ho : o.overlay = false) (h : compileUncached source o s = (.ok id, s'))
  (hfresh : ∀ name, (s.environment.dialect o).Involves s.environment.waiting source name →
    s.environment.compiledPartials.get? name = none)
include hs ho h hfresh

/-- A partial that came up was compiled, and the template reaches it. -/
theorem reaches_involved {name : String} {other : TemplateId}
    (hname : (s.environment.dialect o).Involves s.environment.waiting source name)
    (hother : (s'.shelf []).compiled.get? name = some other) :
    s'.library.Reaches [id] other ∧ ∃ t, s'.library.get? other = some t ∧
      s.environment.waiting.get? name = some t.source ∧
      (s.origin o hs.environment.partials).Stands (s'.shelf []) (fun _ => False) t.source t := by
  refine ⟨compileUncached_owned hs ho h (hfresh name hname) hother, ?_⟩
  cases compileUncached_compiles_ok hs ho h with
  | ok after =>
    obtain ⟨-, text, t, htext, ht, hstands⟩ := after.sound.made name other hother (hfresh name hname)
    have hsource := hstands.text
    subst hsource
    exact ⟨t, ht, htext, hstands⟩

/-- Whatever the template reaches is compiled from a source that came up. -/
theorem stands_of_reaches {other : TemplateId} (hother : s'.library.Reaches [id] other) :
    ∃ t, s'.library.get? other = some t ∧
      (s.origin o hs.environment.partials).Stands (s'.shelf []) (fun _ => False) t.source t ∧
      ∀ name ∈ (Outline.ofSource (s.environment.dialect o) t.source).asks,
        (s.environment.dialect o).Involves s.environment.waiting source name := by
  induction hother with
  | held hid =>
    cases List.mem_singleton.1 hid
    cases compileUncached_compiles_ok hs ho h with
    | @ok t _ _ after follows new template stands check =>
      have hsource := stands.text
      subst hsource
      exact ⟨t, template, stands, fun _ => .direct⟩
  | @kept parent other _ hkeeps ih =>
    obtain ⟨t, ht, hstands, hasks⟩ := ih
    obtain ⟨t', ht', hmem⟩ := Library.mem_keeps.1 hkeeps
    cases ht.symm.trans ht'
    obtain ⟨name, hname⟩ := Dict.get?_of_mem_values hstands.distinct hmem
    have hinvolved := hasks name ((hstands.asks name).2 ⟨_, hname⟩)
    obtain ⟨-, u, hu, htext, hu'⟩ := reaches_involved hs ho h hfresh hinvolved
      (hstands.links name _ hname)
    exact ⟨u, hu, hu', fun _ => .through hinvolved htext⟩

theorem link_reached {other : TemplateId} {t : Template} (hother : s'.library.Reaches [id] other)
    (ht : s'.library.get? other = some t) :
    (∀ name ∈ includes t.items, ∃ target, t.links.get? name = some target) ∧
      ∀ name target, t.links.get? name = some target → s'.library.Reaches [id] target.id ∧
        ∃ t', s'.library.get? target.id = some t' ∧
          s.environment.waiting.get? name = some t'.source := by
  obtain ⟨u, hu, hstands, hasks⟩ := stands_of_reaches hs ho h hfresh hother
  cases ht.symm.trans hu
  refine ⟨fun name hname => (hstands.asks name).1
    (Outline.includes_subset_asks hstands.ending hname), fun name target htarget => ?_⟩
  have hid := (leads_iff fun _ => rfl).1 (hstands.links name target htarget)
  obtain ⟨hreaches, t', ht', htext, -⟩ := reaches_involved hs ho h hfresh
    (hasks name ((hstands.asks name).2 ⟨target, htarget⟩)) hid
  exact ⟨hreaches, t', ht', htext⟩

end
end Session

namespace Library
variable {l l' : Library} {id : TemplateId}

/-- Each template that is reached finds what it includes among those that are reached. -/
def Complete (l : Library) (id : TemplateId) : Prop :=
  ∀ other, l.Reaches [id] other → ∃ t, l.get? other = some t ∧ ∀ name ∈ includes t.items,
    ∃ target, t.links.get? name = some target ∧ l.Reaches [id] target.id

theorem Complete.extends (h : l.Complete id) (hl : l.Extends l') (hnumbered : l.Numbered)
    (hid : id < l.next) : l'.Complete id := by
  have hheld : ∀ other ∈ [id], other < l.next := fun other hother => by
    cases List.mem_singleton.1 hother
    exact hid
  have hback {other : TemplateId} (hother : l'.Reaches [id] other) : l.Reaches [id] other := by
    induction hother with
    | held hother => exact .held hother
    | @kept parent other _ hkeeps ih =>
      obtain ⟨t, ht, hmem⟩ := mem_keeps.1 hkeeps
      rw [hl.get? parent (hl.reaches hnumbered hheld ih).1] at ht
      exact .kept ih (mem_keeps.2 ⟨t, ht, hmem⟩)
  intro other hother
  obtain ⟨t, ht, hincludes⟩ := h other (hback hother)
  have hlt := (hl.reaches hnumbered hheld (hback hother)).1
  refine ⟨t, (hl.get? other hlt).trans ht, fun name hname => ?_⟩
  obtain ⟨target, htarget, hreaches⟩ := hincludes name hname
  exact ⟨target, htarget, (hl.reaches hnumbered hheld hreaches).2⟩

end Library

def TemplateError.Spared (e : TemplateError) : Prop := ∀ name, e ≠ .missingPartial name

/-- The functions of the host do not report partials as missing by themselves. -/
def Host.Spares {σ : Type} (host : Host σ) : Prop :=
  ∀ handle i, (host handle i).FailsWith TemplateError.Spared

namespace Action
variable {σ : Type}

theorem ofText_spares {r : Except TemplateError String} (h : ∀ e, r = .error e → e.Spared) :
    (ofText r : Action σ).FailsWith TemplateError.Spared := by
  cases r with
  | ok text => exact .done _
  | error e => exact .fail (h e rfl)

theorem body_spares (branch : Branch) (context : Value) :
    (body branch context : Action σ).FailsWith TemplateError.Spared :=
  .render fun _ => ofText_spares

theorem bodies_spares {next : String → Action σ}
    (hnext : ∀ text, (next text).FailsWith TemplateError.Spared) (rounds : List (Value × Object))
    (text : String) : (bodies text next rounds).FailsWith TemplateError.Spared := by
  induction rounds generalizing text with
  | nil => exact hnext text
  | cons round rest ih =>
    obtain ⟨context, data⟩ := round
    refine .render fun r hr => ?_
    cases r with
    | ok more => exact ih (text ++ more)
    | error e => exact .fail (hr e rfl)

end Action

namespace Builtin
variable {σ : Type}

theorem eachAction_spares (i : Invocation) (v : Value) :
    (eachAction i v : Action σ).FailsWith TemplateError.Spared := by
  unfold eachAction
  split
  · exact Action.body_spares _ _
  · exact Action.bodies_spares (fun _ => .done _) _ _

theorem sectionAction_spares (i : Invocation) (v : Value) :
    (sectionAction i v : Action σ).FailsWith TemplateError.Spared := by
  unfold sectionAction
  split
  · exact Action.body_spares _ _
  split
  · exact eachAction_spares i v
  split
  · exact Action.body_spares _ _
  · exact Action.body_spares _ _

theorem act_spares (b : Builtin) (i : Invocation) :
    (b.act i : Action σ).FailsWith TemplateError.Spared := by
  have hnone (name : String) (args arity : Nat) :
      (.fail (.wrongArgumentCount name args arity) : Action σ).FailsWith TemplateError.Spared :=
    .fail nofun
  unfold act
  split
  · exact Action.body_spares _ _
  · unfold choose
    split <;> exact Action.body_spares _ _
  · unfold choose
    split <;> exact Action.body_spares _ _
  · split <;> exact Action.body_spares _ _
  · exact eachAction_spares i _
  · exact .done _
  · exact .report (.done _)
  · exact sectionAction_spares i _
  · exact .fail nofun
  · exact hnone _ _ _

end Builtin

section
variable {σ : Type} {host : Host σ} {l : Library} {id : TemplateId}

theorem Library.Complete.render (h : l.Complete id) (hhost : host.Spares) (held : List TemplateId)
    (depth : Nat) (context : Value) (data : Object) {world world' : World σ} {e : TemplateError}
    (hrun : (l.render held host depth id context data).run world = some (.error e, world')) :
    e.Spared := by
  let related (links links' : Dict Target) (name : String) : Prop :=
    links = links' ∧ ∃ target, links.get? name = some target ∧ l.Reaches [id] target.id
  have hpartial {links : Dict Target} {name : String} {target : Target}
      (htarget : links.get? name = some target) (hreaches : l.Reaches [id] target.id) :
      l.partial? (l.reach (id :: held)) links name = l.get? target.id := by
    unfold partial?
    rw [htarget]
    cases target with
    | compiled other => rfl
    | pending other =>
      exact if_pos (mem_reach_iff.2 (hreaches.mono (List.cons_subset_cons id (List.nil_subset _))))
  have hmatches : Matches (l.partial? (l.reach (id :: held))) (l.partial? (l.reach (id :: held)))
      related := by
    rintro links _ name ⟨rfl, target, htarget, hreaches⟩
    obtain ⟨t, ht, hincludes⟩ := h target.id hreaches
    exact .inr ⟨t, t, (hpartial htarget hreaches).trans ht, (hpartial htarget hreaches).trans ht, rfl,
      fun other hother => ⟨rfl, hincludes other hother⟩⟩
  have htolerates : Tolerates TemplateError.Spared related host
      (l.partial? (l.reach (id :: held))) := by
    refine ⟨fun f i => ?_, fun _ => nofun, ?_⟩
    · cases f with
      | builtin b => exact Builtin.act_spares b i
      | custom handle => exact hhost handle i
    · rintro links _ name ⟨rfl, target, htarget, hreaches⟩ hnone
      obtain ⟨t, ht, -⟩ := h target.id hreaches
      cases ((hpartial htarget hreaches).trans ht).symm.trans hnone
  obtain ⟨t, ht, hincludes⟩ := h id (.held (List.mem_singleton_self id))
  have halike := Template.render_tolerates hmatches htolerates t t rfl
    (fun name hname => ⟨rfl, hincludes name hname⟩) depth context data
  unfold Library.render at hrun
  rw [ht] at hrun
  exact halike.error hrun

end

namespace Session
variable {s s' : Session} {o : Options} {source : String} {id : TemplateId}

theorem complete_of_fresh (hs : s.Numbered) (ho : o.overlay = false)
    (h : compileUncached source o s = (.ok id, s'))
    (hfresh : ∀ name, (s.environment.dialect o).Involves s.environment.waiting source name →
      s.environment.compiledPartials.get? name = none) : s'.library.Complete id := by
  intro other hother
  obtain ⟨t, ht, -⟩ := stands_of_reaches hs ho h hfresh hother
  obtain ⟨hincludes, hlinks⟩ := link_reached hs ho h hfresh hother ht
  refine ⟨t, ht, fun name hname => ?_⟩
  obtain ⟨target, htarget⟩ := hincludes name hname
  exact ⟨target, htarget, (hlinks name target htarget).1⟩

end Session

namespace Workspace
variable {w w' : Workspace}

/-- The workspaces that further steps lead to, in whatever environment they are taken. -/
inductive Later (w : Workspace) : Workspace → Prop
  | refl : Later w w
  | step {σ : Type} {w' : Workspace} {number : Nat} {host : Host σ} {depth : Nat} {state : σ}
    {s : Step} {turn : Turn σ} (h : Later w w')
    (hstep : w'.step number host depth state s = some turn) : Later w turn.workspace

theorem Later.continues (h : Later w w') (hw : w.Numbered) : w.Continues w' := by
  induction h with
  | refl => exact .refl hw
  | step _ hstep ih => exact ih.trans (ih.numbered.step _ _ hstep)

/-- A template whose partials were all compiled with it holds them: the pending references in what
it reaches lead to templates that it reaches. So no partial is missing when it is rendered, whatever
steps are taken in between. -/
theorem self_contained (hw : w.Numbered) (number : Nat) {o : Options}
    (ho : ∀ id, Partial.compiled id ∈ o.partials.values → id < w.library.next) {source : String}
    {id : TemplateId} {s' : Session}
    (h : Session.compileUncached source o (w.session number) = (.ok id, s'))
    (hfresh : ∀ name, ((w.environment number).dialect o).Involves
      ((w.environment number).overlaid o).waiting source name →
        ∀ other, ((w.environment number).overlaid o).partials.get? name ≠ some (.compiled other)) :
    (∀ other t name pending, s'.library.Reaches [id] other → s'.library.get? other = some t →
      t.links.get? name = some (.pending pending) → s'.library.Reaches [id] pending ∧
        ∃ t', s'.library.get? pending = some t' ∧
          ((w.environment number).overlaid o).partials.get? name = some (.source t'.source)) ∧
    ∀ w', Later (w.close number s') w' → ∀ {σ : Type} (host : Host σ), host.Spares →
      ∀ held depth context data world e world',
        (w'.library.render held host depth id context data).run world = some (.error e, world') →
          ∀ name, e ≠ .missingPartial name := by
  have hs := hw.session number
  have hunder := hs.under ho
  have hdistinct : ((w.environment number).overlaid o).partials.Distinct :=
    hunder.environment.partials
  obtain ⟨hcontinues, hid⟩ := Session.compileUncached_continues hs ho source
  rw [h] at hcontinues hid
  rw [Session.compileUncached_under] at h
  generalize hr : Session.compileUncached source o.flags ((w.session number).under o) = r at h
  obtain ⟨outcome, u⟩ := r
  cases h
  have hfresh' (name : String) (hname : ((w.environment number).dialect o).Involves
      ((w.environment number).overlaid o).waiting source name) :
      ((w.environment number).overlaid o).compiledPartials.get? name = none := by
    refine Option.eq_none_iff_forall_ne_some.2 fun other hother => hfresh name hname other ?_
    exact (Environment.get?_compiledPartials_eq_some hdistinct).1 hother
  refine ⟨fun other t name pending hother ht hpending => ?_, ?_⟩
  · obtain ⟨hreaches, t', ht', htext⟩ :=
      (Session.link_reached hunder rfl hr hfresh' hother ht).2 name _ hpending
    exact ⟨hreaches, t', ht', (Environment.get?_waiting_eq_some hdistinct).1 htext⟩
  · intro w' hlater σ host hhost held depth context data world e world' hrun
    have hclose := hw.close hcontinues
    have hcomplete : u.library.Complete id := Session.complete_of_fresh hunder rfl hr hfresh'
    have hlater' := hcomplete.extends (hlater.continues hclose.numbered).library
      hclose.numbered.library (hid id rfl)
    exact hlater'.render hhost held depth context data hrun

/-- Of two partials that include each other, the second refers back to the first. The template that
includes the first holds both. -/
theorem self_contained_cycle :
    let a := String.ofList (including "b")
    let b := String.ofList (including "a")
    let w : Workspace :=
      { environments := [(0, { partials := ⟨[("a", .source a), ("b", .source b)]⟩ })] }
    ∃ s', Session.compileUncached b {} (w.session 0) = (.ok 2, s') ∧
      s'.library.get? 1 = some ⟨b, [inclusion "a"], ⟨[("a", .pending 0)]⟩⟩ ∧
      s'.library.Reaches [2] 0 ∧
      ∀ w', Later (w.close 0 s') w' → ∀ {σ : Type} (host : Host σ), host.Spares →
        ∀ held depth context data world e world',
          (w'.library.render held host depth 2 context data).run world = some (.error e, world') →
            ∀ name, e ≠ .missingPartial name := by
  intro a b w
  let s := w.session 0
  let d := s.environment.dialect {}
  let waiting := s.environment.waiting
  have hw : w.Numbered := by
    refine ⟨nofun, fun entry hentry => ?_, nofun⟩
    cases List.mem_singleton.1 hentry
    refine ⟨?_, ?_, nofun⟩
    · change ["a", "b"].Nodup
      decide
    · intro id hid
      change Partial.compiled id ∈ [.source a, .source b] at hid
      simp at hid
  obtain ⟨hname, hname'⟩ := inBrackets_ab
  let top := includer "a" (.compiled 0)
  let first := includer "b" (.compiled 1)
  let second := includer "a" (.pending 0)
  let inFirst := (s.shelf []).start "a"
  let inside := (inFirst.start "b").stop "b" 1 (.ok second)
  let shelf := inside.stop "a" 0 (.ok first)
  have hsecond : resolve d (waiting.erase "a") "b" inFirst = (.ok (some (.compiled 1)), inside) :=
    resolve_including rfl rfl hname rfl (resolve_pending rfl)
  have hfirst : resolve d waiting "a" (s.shelf []) = (.ok (some (.compiled 0)), shelf) :=
    resolve_including rfl rfl hname' rfl hsecond
  have htop : Stencil.compile d waiting b (s.shelf []) = (.ok top, shelf) :=
    compile_including hname hfirst
  have hcompile : Session.compileUncached b {} s = (.ok 2, s.close shelf (shelf.library.add top)) :=
    Session.compileUncached_ok rfl htop
  have hfresh (name : String) (other : TemplateId) :
      (s.environment.overlaid {}).partials.get? name ≠ some (.compiled other) := by
    intro hother
    have hmem := Dict.mem_values_of_get? hother
    change Partial.compiled other ∈ [.source a, .source b] at hmem
    simp at hmem
  have hnone (id : TemplateId) (hid : Partial.compiled id ∈ ({} : Options).partials.values) :
      id < w.library.next := nomatch hid
  obtain ⟨hpending, hlater⟩ := self_contained hw 0 hnone hcompile fun name _ => hfresh name
  have hreaches : (shelf.library.add top).Reaches [2] 1 :=
    .kept (.kept (.held List.mem_cons_self) (Library.mem_keeps.2 ⟨top, rfl, List.mem_cons_self⟩))
      (Library.mem_keeps.2 ⟨first, rfl, List.mem_cons_self⟩)
  exact ⟨_, hcompile, rfl, (hpending 1 second "a" 0 hreaches rfl rfl).1, hlater⟩

end Workspace
end Stencil
