import Stencil.Proofs.Owners
import Stencil.Proofs.Twins

set_option autoImplicit false

/-!
# Calls with registrations of their own

A call whose options carry helpers and partials compiles as one without them would, if they were
registered. What it compiles on the way is not registered then, but kept by its template.
-/
namespace Stencil

namespace Library
variable {l l' : Library} {held held' : List TemplateId} {id : TemplateId}

theorem Reaches.trans (h : l.Reaches held id) (hheld : ∀ id ∈ held, l.Reaches held' id) :
    l.Reaches held' id := by
  induction h with
  | held hid => exact hheld _ hid
  | kept _ hkeeps ih => exact .kept ih hkeeps

theorem Reaches.mono (h : l.Reaches held id) (hheld : held ⊆ held') : l.Reaches held' id :=
  h.trans fun _ hid => .held (hheld hid)

theorem Extends.reaches (h : l.Extends l') (hnumbered : l.Numbered)
    (hheld : ∀ id ∈ held, id < l.next) (hid : l.Reaches held id) :
    id < l.next ∧ l'.Reaches held id := by
  induction hid with
  | held hid => exact ⟨hheld _ hid, .held hid⟩
  | @kept id other _ hkeeps ih =>
    obtain ⟨t, ht, hother⟩ := mem_keeps.1 hkeeps
    have hkeeps : other ∈ l'.keeps id := mem_keeps.2 ⟨t, (h.get? id ih.1).trans ht, hother⟩
    exact ⟨hnumbered id t ht _ hother, .kept ih.2 hkeeps⟩

theorem partial?_congr {live live' : List TemplateId} (h : ∀ id, id ∈ live ↔ id ∈ live') :
    l.partial? live = l.partial? live' := by
  funext links name
  refine congrArg ((links.get? name).bind ·) (funext fun target => ?_)
  cases target with
  | compiled id => rfl
  | pending id =>
    unfold resolve
    exact if_congr (h id) rfl rfl

/-- Only what can be reached matters of what is held. -/
theorem render_held {σ : Type} (hheld : ∀ other ∈ held, l.Reaches (id :: held') other)
    (hheld' : ∀ other ∈ held', l.Reaches (id :: held) other) (host : Host σ) (depth : Nat)
    (context : Value) (data : Object) :
    l.render held host depth id context data = l.render held' host depth id context data := by
  have hid (held : List TemplateId) : l.Reaches (id :: held) id := .held List.mem_cons_self
  unfold render
  rw [partial?_congr fun other => ?_]
  rw [mem_reach_iff, mem_reach_iff]
  exact ⟨fun h => h.trans (List.forall_mem_cons.2 ⟨hid held', hheld⟩),
    fun h => h.trans (List.forall_mem_cons.2 ⟨hid held, hheld'⟩)⟩

end Library

def Options.flags (o : Options) : Options := { o with helpers := ⟨[]⟩, partials := ⟨[]⟩ }

namespace Session
variable {s s' : Session} {o : Options} {source : String} {id : TemplateId}

/-- A session in which the registrations of a call are made. What was held is held elsewhere. -/
def under (s : Session) (o : Options) : Session :=
  { s with environment := s.environment.overlaid o, heldElsewhere := s.held }

theorem compileUncached_under (source : String) (o : Options) (s : Session) :
    compileUncached source o s =
      ((compileUncached source o.flags (s.under o)).1,
        { (compileUncached source o.flags (s.under o)).2 with
          environment := if o.overlay then s.environment else
            (compileUncached source o.flags (s.under o)).2.environment
          heldElsewhere := s.heldElsewhere }) := by
  have hdialect : (s.under o).environment.dialect o.flags = s.environment.dialect o := rfl
  have hoverlaid : (s.under o).environment.overlaid o.flags = s.environment.overlaid o := rfl
  have hshelf : (s.under o).shelfUnder o.flags = s.shelfUnder o := rfl
  have hflags : o.flags.overlay = false := rfl
  rw [compileUncached_eq, compileUncached_eq, hdialect, hoverlaid, hshelf, hflags]
  generalize Stencil.compile (s.environment.dialect o) (s.environment.overlaid o).waiting source
    (s.shelfUnder o) = r
  cases ho : o.overlay with
  | true => rfl
  | false =>
    have hremember : (s.under o).environment.remember r.2.compiled =
        s.environment.remember r.2.compiled := by
      change (s.environment.overlaid o).remember _ = _
      rw [Environment.overlaid_eq ho]
    simp only [hremember]
    rfl

theorem Numbered.held (h : s.Numbered) (hid : id ∈ s.held) : id < s.library.next :=
  (List.mem_append.1 hid).elim h.environment.held (h.elsewhere id)

theorem Numbered.under (h : s.Numbered)
    (ho : ∀ id, Partial.compiled id ∈ o.partials.values → id < s.library.next) :
    (s.under o).Numbered :=
  ⟨h.library, h.environment.overlaid ho, fun _ => h.held⟩

theorem Numbered.tidy (h : s.Numbered) : (s.shelf []).Tidy :=
  ⟨fun _ _ => h.environment.get?_compiledPartials, nofun, nofun, nofun, nofun⟩

theorem compileUncached_owned (hs : s.Numbered) (ho : o.overlay = false)
    (h : compileUncached source o s = (.ok id, s')) {name : String} {other : TemplateId}
    (hnone : (s.shelf []).compiled.get? name = none)
    (hother : (s'.shelf []).compiled.get? name = some other) : s'.library.Reaches [id] other := by
  have hover : s.Over (s.origin o hs.environment.partials) fun _ => False :=
    over_origin s o hs.environment.partials
  have hlinked := Origin.compile_linked source hover.sound hover.waits fun _ => rfl
  change Origin.Linked _ _ _ _ _ _ (Stencil.compile (s.environment.dialect o)
    s.environment.waiting source (s.shelf [])).1 (Stencil.compile (s.environment.dialect o)
    s.environment.waiting source (s.shelf [])).2 at hlinked
  generalize hr : Stencil.compile (s.environment.dialect o) s.environment.waiting source
    (s.shelf []) = r at hlinked
  obtain ⟨outcome, shelf⟩ := r
  cases hlinked with
  | error sound grows check =>
    rw [compileUncached_error ho hr] at h
    cases h
  | ok sound grows =>
    rw [compileUncached_ok ho hr] at h
    cases h
    rw [get?_compiled_close hover sound grows] at hother
    exact (compile_owned _ _ hs.tidy hr).reaches ⟨hnone, hother⟩

/-- What was registered as compiled, or is registered by a call, is held. -/
theorem mem_held_of_under (ho : ∀ id, Partial.compiled id ∈ o.partials.values → id ∈ s.held)
    (hid : id ∈ (s.under o).environment.held) : id ∈ s.held := by
  rcases List.mem_append.1 hid with hid | hid
  · rcases Dict.mem_values_extend (Environment.mem_values_compiledPartials.1 hid) with hid | hid
    · exact ho id hid
    · exact List.mem_append_left _
        (List.mem_append_left _ (Environment.mem_values_compiledPartials.2 hid))
  · exact List.mem_append_left _ (List.mem_append_right _ hid)

section
variable (hs : s.Numbered) (ho : o.overlay = false) (h : compileUncached source o s = (.ok id, s'))
include hs ho h

theorem compileUncached_compiles_ok :
    Compiles (s.origin o hs.environment.partials) s source (.ok id) s' := by
  have hcompiles := compileUncached_compiles (over_origin s o hs.environment.partials) rfl ho source
  rw [h] at hcompiles
  exact hcompiles

theorem held_compileUncached :
    s.environment.held ⊆ s'.environment.held ∧
      ∀ other ∈ s'.environment.held,
        other ∈ s.environment.held ∨ s'.library.Reaches [id] other := by
  cases compileUncached_compiles_ok hs ho h with
  | ok after follows new template stands check =>
    have hcache : s'.environment.cache = s.environment.cache := by
      rw [follows.environment]
    constructor
    · intro other hother
      rcases List.mem_append.1 hother with hother | hother
      · obtain ⟨name, hname⟩ := Dict.get?_of_mem_values
          (Environment.distinct_compiledPartials hs.environment.partials) hother
        exact List.mem_append_left _
          (Dict.mem_values_of_get? (follows.grows.compiled name other hname))
      · exact List.mem_append_right _ (hcache ▸ hother)
    · intro other hother
      rcases List.mem_append.1 hother with hother | hother
      · obtain ⟨name, hname⟩ := Dict.get?_of_mem_values
          (Environment.distinct_compiledPartials after.distinct) hother
        cases hold : (s.shelf []).compiled.get? name with
        | none => exact .inr (compileUncached_owned hs ho h hold hname)
        | some first =>
          cases (follows.grows.compiled name first hold).symm.trans hname
          exact .inl (List.mem_append_left _ (Dict.mem_values_of_get? hold))
      · exact .inl (List.mem_append_right _ (hcache ▸ hother))

end

section
variable {σ : Type} (host : Host σ) (depth : Nat) (context : Value) (data : Object) (state : σ)

/-- Sessions that hold the same, up to what the template reaches, render it alike. -/
theorem rendered_of_reaches (hlibrary : s.library = s'.library) (hevents : s.events = s'.events)
    (hheld : ∀ other ∈ s.held, s.library.Reaches (id :: s'.held) other)
    (hheld' : ∀ other ∈ s'.held, s.library.Reaches (id :: s.held) other) :
    rendered host depth context data state (.ok id, s) =
      rendered host depth context data state (.ok id, s') := by
  rw [rendered_ok, rendered_ok, ← hlibrary, ← hevents,
    Library.render_held hheld hheld' host depth context data]

theorem rendered_compile (hcache : s.environment.cache.get? source = none) (o : Options) :
    rendered host depth context data state (Session.compile source o s) =
      rendered host depth context data state
        (compileUncached source o (s.report (.compilingTemplate source.utf8ByteSize))) := by
  have hcache' : (compileUncached source o
      (s.report (.compilingTemplate source.utf8ByteSize))).2.environment.cache.get? source = none :=
    (congrArg (Dict.get? · source) (cache_compileUncached source o _)).trans hcache
  generalize hr : compileUncached source o (s.report (.compilingTemplate source.utf8ByteSize)) = r
    at hcache'
  obtain ⟨outcome, s'⟩ := r
  rw [compile_miss hcache hr]
  cases outcome with
  | error e => rw [rendered_error, rendered_error]
  | ok id =>
    refine rendered_of_reaches host depth context data state rfl rfl (fun other hother => ?_)
      fun other hother => .held (List.mem_cons_of_mem _ ((mem_held_keep hcache').2 (.inl hother)))
    rcases (mem_held_keep hcache').1 hother with hother | rfl
    · exact .held (List.mem_cons_of_mem _ hother)
    · exact .held List.mem_cons_self

/-- A call with registrations of its own comes to what it comes to once they are made. -/
theorem rendered_under (hs : s.Numbered)
    (ho : ∀ id, Partial.compiled id ∈ o.partials.values → id ∈ s.held) (source : String) :
    rendered host depth context data state (compileUncached source o s) =
      rendered host depth context data state (compileUncached source o.flags (s.under o)) := by
  rw [compileUncached_under]
  have hunder : (s.under o).Numbered := hs.under fun id hid => hs.held (ho id hid)
  generalize hr : compileUncached source o.flags (s.under o) = r
  obtain ⟨outcome, s'⟩ := r
  cases outcome with
  | error e => rw [rendered_error, rendered_error]
  | ok id =>
    obtain ⟨hkept, hnew⟩ := held_compileUncached hunder rfl hr
    have helsewhere : s'.heldElsewhere = s.held := by
      cases compileUncached_compiles_ok hunder rfl hr with
      | ok after follows => exact follows.elsewhere
    generalize he : (if o.overlay then s.environment else s'.environment) = e
    have henvironment : s.environment.held ⊆ e.held ∧ (e.held ⊆ s.held ∨ e = s'.environment) := by
      subst he
      cases hoverlay : o.overlay with
      | true => exact ⟨List.Subset.refl _, .inl (List.subset_append_left _ _)⟩
      | false =>
        refine ⟨fun other hother => hkept ?_, .inr rfl⟩
        change other ∈ (s.environment.overlaid o).held
        rwa [Environment.overlaid_eq hoverlay]
    have hold (other : TemplateId) (hother : other ∈ s.held) :
        other ∈ e.held ++ s.heldElsewhere := by
      rcases List.mem_append.1 hother with hother | hother
      · exact List.mem_append_left _ (henvironment.1 hother)
      · exact List.mem_append_right _ hother
    refine rendered_of_reaches host depth context data state rfl rfl (fun other hother => ?_)
      fun other hother => ?_
    · refine .held (List.mem_cons_of_mem _ ?_)
      change other ∈ s'.environment.held ++ s'.heldElsewhere
      rw [helsewhere]
      rcases List.mem_append.1 hother with hother | hother
      · rcases henvironment.2 with hsubset | heq
        · exact List.mem_append_right _ (hsubset hother)
        · exact List.mem_append_left _ (heq ▸ hother)
      · exact List.mem_append_right _ (List.mem_append_right _ hother)
    · change other ∈ s'.environment.held ++ s'.heldElsewhere at hother
      rw [helsewhere] at hother
      rcases List.mem_append.1 hother with hother | hother
      · rcases hnew other hother with hother | hreaches
        · exact .held (List.mem_cons_of_mem _ (hold other (mem_held_of_under ho hother)))
        · exact hreaches.mono (List.cons_subset_cons id (List.nil_subset _))
      · exact .held (List.mem_cons_of_mem _ (hold other hother))

end
end Session
end Stencil
