import Stencil.Proofs.Courses
import Stencil.Proofs.Sessions
import Stencil.Workspace

set_option autoImplicit false

/-!
# Numbers in use

Whatever is held, and whatever a template is linked to, was numbered before.
-/
namespace Stencil

namespace Library
variable {l : Library} {id : TemplateId} {t : Template}

def Numbered (l : Library) : Prop :=
  ∀ id t, l.get? id = some t → ∀ target ∈ t.links.values, target.id < l.next

theorem Numbered.reserve (h : l.Numbered) : l.reserve.Numbered :=
  fun id t ht target htarget => Nat.lt_succ_of_lt (h id t ht target htarget)

theorem Numbered.put (h : l.Numbered) (ht : ∀ target ∈ t.links.values, target.id < l.next) :
    (l.put id t).Numbered := by
  intro other t' ht'
  rw [get?_put] at ht'
  split at ht'
  · cases ht'
    exact ht
  · exact h other t' ht'

theorem Numbered.add (h : l.Numbered) (ht : ∀ target ∈ t.links.values, target.id < l.next) :
    (l.add t).Numbered :=
  h.reserve.put fun target htarget => Nat.lt_succ_of_lt (ht target htarget)

end Library

structure Shelf.Numbered (s : Shelf) : Prop where
  library : s.library.Numbered
  compiled : ∀ name id, s.compiled.get? name = some id → id < s.library.next
  inProgress : ∀ name id, s.inProgress.get? name = some id → id < s.library.next

namespace Shelf.Numbered
variable {s : Shelf} {name : String} {id : TemplateId}

theorem start (h : s.Numbered) : (s.start name).Numbered := by
  refine ⟨h.library.reserve, fun other id hid => Nat.lt_succ_of_lt (h.compiled other id hid), ?_⟩
  intro other id hid
  rw [inProgress_start] at hid
  split at hid
  · cases hid
    exact Nat.lt_succ_self _
  · exact Nat.lt_succ_of_lt (h.inProgress other id hid)

theorem stop (h : s.Numbered) (hid : id < s.library.next) {outcome : Except TemplateError Template}
    (houtcome : ∀ t, outcome = .ok t → ∀ target ∈ t.links.values, target.id < s.library.next) :
    (s.stop name id outcome).Numbered := by
  have hprogress (other : String) (id' : TemplateId)
      (hid' : (s.stop name id outcome).inProgress.get? other = some id') : id' < s.library.next := by
    rw [inProgress_stop] at hid'
    split at hid'
    · cases hid'
    · exact h.inProgress other id' hid'
  cases outcome with
  | error e => exact ⟨h.library, h.compiled, hprogress⟩
  | ok t =>
    refine ⟨h.library.put (houtcome t rfl), fun other id' hid' => ?_, hprogress⟩
    rw [compiled_stop] at hid'
    split at hid'
    · cases hid'
      exact hid
    · exact h.compiled other id' hid'

end Shelf.Numbered

theorem numbered_course : Course Shelf.Numbered (fun s s' => s.library.next ≤ s'.library.next)
    fun s target => target.id < s.library.next where
  refl _ := Nat.le_refl _
  trans h h' := Nat.le_trans h h'
  mono h htarget := Nat.lt_of_lt_of_le htarget h
  pending hs hid := hs.inProgress _ _ hid
  compiled hs hid := hs.compiled _ _ hid
  start hs _ _ := hs.start
  stop_error e _ _ _ hs' hnext := ⟨hs'.stop hnext nofun, Nat.le_of_succ_le hnext⟩
  stop_ok _ _ _ hs' hnext hlinks := by
    refine ⟨hs'.stop hnext ?_, Nat.le_of_succ_le hnext, hnext⟩
    rintro _ ⟨⟩
    exact hlinks

structure Environment.Below (next : TemplateId) (e : Environment) : Prop where
  partials : e.partials.Distinct
  compiled : ∀ id, Partial.compiled id ∈ e.partials.values → id < next
  cache : ∀ id ∈ e.cache.values, id < next

namespace Environment
variable {e : Environment} {next next' id : TemplateId}

theorem mem_values_compiledPartials :
    id ∈ e.compiledPartials.values ↔ Partial.compiled id ∈ e.partials.values := by
  unfold compiledPartials Dict.values
  simp only [List.map_filterMap, List.mem_filterMap, List.mem_map]
  refine exists_congr fun entry => and_congr_right fun _ => ?_
  obtain ⟨name, p⟩ := entry
  cases p <;> simp [Partial.compiled?]

theorem below_new : ({} : Environment).Below next := ⟨List.nodup_nil, nofun, nofun⟩

namespace Below

theorem mono (h : e.Below next) (hnext : next ≤ next') : e.Below next' :=
  ⟨h.partials, fun id hid => Nat.lt_of_lt_of_le (h.compiled id hid) hnext,
    fun id hid => Nat.lt_of_lt_of_le (h.cache id hid) hnext⟩

theorem held (h : e.Below next) (hid : id ∈ e.held) : id < next := by
  rcases List.mem_append.1 hid with hid | hid
  · exact h.compiled id (mem_values_compiledPartials.1 hid)
  · exact h.cache id hid

theorem get?_compiledPartials (h : e.Below next) {name : String}
    (hid : e.compiledPartials.get? name = some id) : id < next :=
  h.compiled id (mem_values_compiledPartials.1 (Dict.mem_values_of_get? hid))

theorem overlaid (h : e.Below next) {o : Options}
    (ho : ∀ id, Partial.compiled id ∈ o.partials.values → id < next) : (e.overlaid o).Below next := by
  refine ⟨h.partials.extend _, fun id hid => ?_, h.cache⟩
  rcases Dict.mem_values_extend hid with hid | hid
  · exact ho id hid
  · exact h.compiled id hid

theorem remember (h : e.Below next) {compiled : Dict TemplateId}
    (hcompiled : ∀ name id, compiled.get? name = some id → id < next) :
    (e.remember compiled).Below next := by
  refine ⟨distinct_remember h.partials compiled, fun id hid => ?_, h.cache⟩
  obtain ⟨entry, hentry, heq⟩ := List.mem_map.1 hid
  obtain ⟨⟨name, p⟩, hp, rfl⟩ := List.mem_map.1 hentry
  change ((compiled.get? name).map Partial.compiled).getD p = .compiled id at heq
  cases hget : compiled.get? name with
  | none =>
    rw [hget] at heq
    exact h.compiled id (List.mem_map.2 ⟨(name, p), hp, heq⟩)
  | some id' =>
    rw [hget] at heq
    cases heq
    exact hcompiled name id hget

theorem insert (h : e.Below next) (name : String) {p : Partial}
    (hp : ∀ id, p = .compiled id → id < next) :
    Below next { e with partials := e.partials.insert name p } := by
  refine ⟨h.partials.insert name p, fun id hid => ?_, h.cache⟩
  rcases Dict.mem_values_insert hid with heq | hid
  · exact hp id heq.symm
  · exact h.compiled id hid

theorem erase (h : e.Below next) (name : String) :
    Below next { e with partials := e.partials.erase name } :=
  ⟨h.partials.erase name, fun id hid => h.compiled id (Dict.mem_values_erase hid), h.cache⟩

theorem keep (h : e.Below next) (source : String) (hid : id < next) :
    Below next { e with cache := e.cache.insert source id } := by
  refine ⟨h.partials, h.compiled, fun other hother => ?_⟩
  rcases Dict.mem_values_insert hother with rfl | hother
  · exact hid
  · exact h.cache other hother

end Below
end Environment

structure Session.Numbered (s : Session) : Prop where
  library : s.library.Numbered
  environment : s.environment.Below s.library.next
  elsewhere : ∀ id ∈ s.heldElsewhere, id < s.library.next

namespace Session
variable {s s' : Session} {o : Options} {source : String}

/-- A session goes on with the numbers after those of another. -/
structure Continues (s s' : Session) : Prop where
  numbered : s'.Numbered
  library : s.library.Extends s'.library

theorem compileUncached_continues (hs : s.Numbered)
    (ho : ∀ id, Partial.compiled id ∈ o.partials.values → id < s.library.next) (source : String) :
    s.Continues (compileUncached source o s).2 ∧
      ∀ id, (compileUncached source o s).1 = .ok id →
        id < (compileUncached source o s).2.library.next := by
  have hoverlaid := hs.environment.overlaid ho
  have hshelf : (s.shelfUnder o).Numbered :=
    ⟨hs.library, fun _ _ => hoverlaid.get?_compiledPartials, nofun⟩
  have hcompile := numbered_course.compile (s.environment.dialect o)
    (s.environment.overlaid o).waiting source hshelf
  have hkeeps := compile_keeps (s.environment.dialect o) (s.environment.overlaid o).waiting source
    (s.shelfUnder o)
  rw [compileUncached_eq]
  generalize Stencil.compile (s.environment.dialect o) (s.environment.overlaid o).waiting source
    (s.shelfUnder o) = r at hcompile hkeeps
  obtain ⟨outcome, shelf⟩ := r
  obtain ⟨hnumbered, hnext, hlinks⟩ := hcompile
  have hextends : s.library.Extends shelf.library := hkeeps.extends_library rfl
  have henvironment : (if o.overlay then s.environment else
      s.environment.remember shelf.compiled).Below shelf.library.next := by
    split
    · exact hs.environment.mono hnext
    · exact (hs.environment.mono hnext).remember hnumbered.compiled
  have helsewhere : ∀ id ∈ s.heldElsewhere, id < shelf.library.next := fun id hid =>
    Nat.lt_of_lt_of_le (hs.elsewhere id hid) hnext
  cases outcome with
  | error e => exact ⟨⟨⟨hnumbered.library, henvironment, helsewhere⟩, hextends⟩, nofun⟩
  | ok t =>
    refine ⟨⟨⟨hnumbered.library.add (hlinks t rfl), henvironment.mono (Nat.le_succ _),
      fun id hid => Nat.lt_succ_of_lt (helsewhere id hid)⟩, hextends.trans (.add _ t)⟩, ?_⟩
    rintro id ⟨⟩
    exact Nat.lt_succ_self _

theorem compile_continues (hs : s.Numbered)
    (ho : ∀ id, Partial.compiled id ∈ o.partials.values → id < s.library.next) (source : String) :
    s.Continues (Session.compile source o s).2 ∧
      ∀ id, (Session.compile source o s).1 = .ok id →
        id < (Session.compile source o s).2.library.next := by
  cases hcache : s.environment.cache.get? source with
  | some id =>
    rw [compile_hit hcache]
    refine ⟨⟨⟨hs.library, hs.environment, hs.elsewhere⟩, .refl _⟩, ?_⟩
    rintro id ⟨⟩
    exact hs.environment.cache id (Dict.mem_values_of_get? hcache)
  | none =>
    have hreport : (s.report (.compilingTemplate source.utf8ByteSize)).Numbered :=
      ⟨hs.library, hs.environment, hs.elsewhere⟩
    have hcompile := compileUncached_continues hreport ho source
    generalize hr : compileUncached source o
      (s.report (.compilingTemplate source.utf8ByteSize)) = r at hcompile
    obtain ⟨outcome, s'⟩ := r
    rw [compile_miss hcache hr]
    obtain ⟨⟨hnumbered, hextends⟩, hid⟩ := hcompile
    cases outcome with
    | error e => exact ⟨⟨hnumbered, hextends⟩, nofun⟩
    | ok id =>
      exact ⟨⟨⟨hnumbered.library, hnumbered.environment.keep source (hid id rfl),
        hnumbered.elsewhere⟩, hextends⟩, hid⟩

theorem render_continues {σ : Type} (hs : s.Numbered)
    (ho : ∀ id, Partial.compiled id ∈ o.partials.values → id < s.library.next) {host : Host σ}
    {depth : Nat} {context : Value} {state state' : σ} {result : Except TemplateError String}
    (h : s.render host depth source context o state = some (result, state', s')) :
    s.Continues s' := by
  have hcompile := (compile_continues hs ho source).1
  unfold render at h
  split at h
  · next hr =>
    rw [hr] at hcompile
    cases h
    exact hcompile
  · next hr =>
    rw [hr] at hcompile
    obtain ⟨world, -, heq⟩ := Option.bind_eq_some_iff.1 h
    cases heq
    exact ⟨⟨hcompile.numbered.library, hcompile.numbered.environment,
      hcompile.numbered.elsewhere⟩, hcompile.library⟩

end Session

theorem Template.links_ofSource {source : String} {t : Template}
    (h : Template.ofSource source = .ok t) : t.links = ⟨[]⟩ := by
  unfold ofSource at h
  generalize Outline.ofSource _ source = outline at h
  cases outline with
  | finished items => cases h; rfl
  | failed f => cases h
  | asking name left next => cases h

structure Workspace.Numbered (w : Workspace) : Prop where
  library : w.library.Numbered
  environments : ∀ entry ∈ w.environments, entry.2.Below w.library.next
  saved : ∀ entry ∈ w.saved, entry.2 < w.library.next

structure Workspace.Continues (w w' : Workspace) : Prop where
  numbered : w'.Numbered
  library : w.library.Extends w'.library

namespace Workspace
variable {w w' w'' : Workspace} {number : Nat}

theorem numbered_new : ({} : Workspace).Numbered := ⟨nofun, nofun, nofun⟩

namespace Continues

theorem refl (h : w.Numbered) : w.Continues w := ⟨h, .refl _⟩

theorem trans (h : w.Continues w') (h' : w'.Continues w'') : w.Continues w'' :=
  ⟨h'.numbered, h.library.trans h'.library⟩

end Continues

theorem Numbered.environment (h : w.Numbered) (number : Nat) :
    (w.environment number).Below w.library.next := by
  unfold Workspace.environment
  cases hfind : w.environments.lookup number with
  | none => exact Environment.below_new
  | some e =>
    obtain ⟨before, after, heq, -⟩ := List.lookup_eq_some_iff.1 hfind
    refine h.environments (number, e) ?_
    rw [heq]
    exact List.mem_append_right _ List.mem_cons_self

theorem Numbered.session (h : w.Numbered) (number : Nat) : (w.session number).Numbered := by
  refine ⟨h.library, h.environment number, fun id hid => ?_⟩
  rcases List.mem_append.1 hid with hid | hid
  · obtain ⟨entry, hentry, rfl⟩ := List.mem_map.1 hid
    exact h.saved entry hentry
  · obtain ⟨entry, hentry, hheld⟩ := List.mem_flatMap.1 hid
    exact (h.environments entry (List.mem_filter.1 hentry).1).held hheld

theorem Numbered.putEnvironment (h : w.Numbered) (number : Nat) {e : Environment}
    (he : e.Below w.library.next) : w.Continues (w.putEnvironment number e) := by
  refine ⟨⟨h.library, fun entry hentry => ?_, h.saved⟩, .refl _⟩
  rcases List.mem_cons.1 hentry with rfl | hentry
  · exact he
  · exact h.environments entry (List.mem_filter.1 hentry).1

theorem Numbered.library_add (h : w.Numbered) {source : String} {t : Template}
    (ht : Template.ofSource source = .ok t) :
    w.Continues { w with library := w.library.add t } := by
  have hlinks : ∀ target ∈ t.links.values, target.id < w.library.next := by
    rw [Template.links_ofSource ht]
    exact nofun
  exact ⟨⟨h.library.add hlinks,
    fun entry hentry => (h.environments entry hentry).mono (Nat.le_succ _),
    fun entry hentry => Nat.lt_succ_of_lt (h.saved entry hentry)⟩, .add _ t⟩

theorem Numbered.close (h : w.Numbered) {s : Session}
    (hs : (w.session number).Continues s) : w.Continues (w.close number s) := by
  refine ⟨⟨hs.numbered.library, fun entry hentry => ?_, fun entry hentry => ?_⟩, hs.library⟩
  · rcases List.mem_cons.1 hentry with rfl | hentry
    · exact hs.numbered.environment
    · exact (h.environments entry (List.mem_filter.1 hentry).1).mono hs.library.next
  · exact Nat.lt_of_lt_of_le (h.saved entry hentry) hs.library.next

theorem Numbered.saveTemplate (h : w.Numbered) (name : String) {id : TemplateId}
    (hid : id < w.library.next) : w.Continues (w.saveTemplate name id).2 := by
  unfold Workspace.saveTemplate
  split
  · refine ⟨⟨h.library, h.environments, fun entry hentry => ?_⟩, .refl _⟩
    rcases List.mem_append.1 hentry with hentry | hentry
    · exact h.saved entry (List.mem_filter.1 hentry).1
    · cases List.mem_singleton.1 hentry
      exact hid
  · exact .refl h

theorem Numbered.saved? (h : w.Numbered) {name : String} {id : TemplateId}
    (hid : w.saved? name = some id) : id < w.library.next := by
  obtain ⟨before, after, heq, -⟩ := List.lookup_eq_some_iff.1 hid
  refine h.saved (name, id) ?_
  rw [heq]
  exact List.mem_append_right _ List.mem_cons_self

theorem makePartials_cons_ok {offer : String × PartialOffer} {rest : List (String × PartialOffer)}
    {ps : List (String × Partial)} (h : w.makePartials (offer :: rest) = .ok (ps, w')) :
    ∃ p w₁ ps', w.makePartial offer.2 = .ok (p, w₁) ∧ w₁.makePartials rest = .ok (ps', w') ∧
      ps = (offer.1, p) :: ps' := by
  rw [makePartials] at h
  cases hfirst : w.makePartial offer.2 with
  | error answer => rw [hfirst] at h; cases h
  | ok r =>
    rw [hfirst, Cursor.ok_bind] at h
    dsimp only at h
    cases hrest : r.2.makePartials rest with
    | error answer => rw [hrest] at h; cases h
    | ok r' =>
      rw [hrest, Cursor.ok_bind] at h
      cases h
      exact ⟨r.1, r.2, r'.1, rfl, hrest, rfl⟩

theorem makeOptions_ok {offer : Offer} {o : Options} (h : w.makeOptions offer = .ok (o, w')) :
    ∃ ps, w.makePartials offer.partials = .ok (ps, w') ∧
      o = { offer.options with partials := .ofList ps } := by
  unfold makeOptions at h
  cases hps : w.makePartials offer.partials with
  | error answer => rw [hps] at h; cases h
  | ok r =>
    rw [hps, Cursor.ok_bind] at h
    cases h
    exact ⟨r.1, rfl, rfl⟩

theorem Numbered.makePartial (h : w.Numbered) {offer : PartialOffer} {p : Partial}
    (hmade : w.makePartial offer = .ok (p, w')) :
    w.Continues w' ∧ ∀ id, p = .compiled id → id < w'.library.next := by
  unfold Workspace.makePartial at hmade
  cases offer with
  | source text =>
    cases hmade
    exact ⟨.refl h, nofun⟩
  | template source =>
    dsimp only at hmade
    split at hmade
    · next ht =>
      cases hmade
      refine ⟨h.library_add ht, ?_⟩
      rintro id ⟨⟩
      exact Nat.lt_succ_self _
    · cases hmade
  | saved name =>
    dsimp only at hmade
    split at hmade
    · next hid =>
      cases hmade
      refine ⟨.refl h, ?_⟩
      rintro id ⟨⟩
      exact h.saved? hid
    · cases hmade

theorem Numbered.makePartials (h : w.Numbered) {offers : List (String × PartialOffer)}
    {ps : List (String × Partial)} (hmade : w.makePartials offers = .ok (ps, w')) :
    w.Continues w' ∧ ∀ id, Partial.compiled id ∈ ps.map Prod.snd → id < w'.library.next := by
  induction offers generalizing w ps with
  | nil =>
    cases hmade
    exact ⟨.refl h, nofun⟩
  | cons offer rest ih =>
    obtain ⟨p, w₁, ps', hfirst, hrest, rfl⟩ := makePartials_cons_ok hmade
    obtain ⟨h₁, hp⟩ := h.makePartial hfirst
    obtain ⟨h₂, hps⟩ := ih h₁.numbered hrest
    refine ⟨h₁.trans h₂, fun id hid => ?_⟩
    rcases List.mem_cons.1 hid with heq | hid
    · exact Nat.lt_of_lt_of_le (hp id heq.symm) h₂.library.next
    · exact hps id hid

theorem Numbered.makeOptions (h : w.Numbered) {offer : Offer} {o : Options}
    (hmade : w.makeOptions offer = .ok (o, w')) :
    w.Continues w' ∧ ∀ id, Partial.compiled id ∈ o.partials.values → id < w'.library.next := by
  obtain ⟨ps, hps, rfl⟩ := makeOptions_ok hmade
  obtain ⟨h', hid⟩ := h.makePartials hps
  exact ⟨h', fun id hmem => (Dict.mem_values_extend hmem).elim (hid id) nofun⟩

section
variable {σ : Type} (host : Host σ) (depth : Nat) {state : σ} {turn : Turn σ}

theorem Numbered.renderStep (h : w.Numbered) {source : String} {context : Value} {offer : Offer}
    (hstep : w.renderStep number host depth state source context offer = some turn) :
    w.Continues turn.workspace := by
  unfold Workspace.renderStep at hstep
  cases hmade : w.makeOptions offer with
  | error answer =>
    rw [hmade] at hstep
    cases hstep
    exact .refl h
  | ok r =>
    obtain ⟨o, w'⟩ := r
    rw [hmade] at hstep
    obtain ⟨h', ho⟩ := h.makeOptions hmade
    obtain ⟨⟨result, state', s⟩, hrender, heq⟩ := Option.bind_eq_some_iff.1 hstep
    cases heq
    exact h'.trans
      (h'.numbered.close (Session.render_continues (h'.numbered.session number) ho hrender))

theorem Numbered.compileStep (h : w.Numbered) {source name : String} {cached : Bool}
    {offer : Offer} :
    w.Continues (w.compileStep number state source name cached offer).workspace := by
  unfold Workspace.compileStep
  cases hmade : w.makeOptions offer with
  | error answer => exact .refl h
  | ok r =>
    obtain ⟨o, w'⟩ := r
    obtain ⟨h', ho⟩ := h.makeOptions hmade
    have hcompile : (w'.session number).Continues
          ((if cached then Session.compile else Session.compileUncached) source o
            (w'.session number)).2 ∧
        ∀ id, ((if cached then Session.compile else Session.compileUncached) source o
            (w'.session number)).1 = .ok id →
          id < ((if cached then Session.compile else Session.compileUncached) source o
            (w'.session number)).2.library.next := by
      cases cached with
      | false => exact Session.compileUncached_continues (h'.numbered.session number) ho source
      | true => exact Session.compile_continues (h'.numbered.session number) ho source
    dsimp only
    generalize (if cached then Session.compile else Session.compileUncached) source o
      (w'.session number) = r at hcompile
    obtain ⟨outcome, s⟩ := r
    obtain ⟨hcontinues, hid⟩ := hcompile
    have hclose := h'.trans (h'.numbered.close hcontinues)
    cases outcome with
    | error e => exact hclose
    | ok id => exact hclose.trans (hclose.numbered.saveTemplate name (hid id rfl))

theorem Numbered.step (h : w.Numbered) {s : Step}
    (hstep : w.step number host depth state s = some turn) : w.Continues turn.workspace := by
  have he := h.environment number
  cases s with
  | renew => cases hstep; exact h.putEnvironment number Environment.below_new
  | render source context offer => exact h.renderStep host depth hstep
  | compile source name cached offer => cases hstep; exact h.compileStep
  | newTemplate source name =>
    unfold Workspace.step at hstep
    dsimp only at hstep
    split at hstep
    · cases hstep
      exact .refl h
    · next ht =>
      cases hstep
      have hadd := h.library_add ht
      exact hadd.trans (hadd.numbered.saveTemplate name (Nat.lt_succ_self _))
  | renderSaved name context data =>
    unfold Workspace.step Workspace.renderSavedStep at hstep
    dsimp only at hstep
    split at hstep
    · cases hstep
      exact .refl h
    · obtain ⟨r, -, heq⟩ := Option.bind_eq_some_iff.1 hstep
      cases heq
      exact .refl h
  | dropSaved name =>
    cases hstep
    exact ⟨⟨h.library, h.environments, fun entry hentry =>
      h.saved entry (List.mem_filter.1 hentry).1⟩, .refl _⟩
  | registerHelper name f =>
    cases hstep
    exact h.putEnvironment number ⟨he.partials, he.compiled, he.cache⟩
  | unregisterHelper name =>
    cases hstep
    exact h.putEnvironment number ⟨he.partials, he.compiled, he.cache⟩
  | registerPartial name offer =>
    unfold Workspace.step at hstep
    dsimp only at hstep
    split at hstep
    · cases hstep
      exact .refl h
    · next hmade =>
      cases hstep
      obtain ⟨h', hp⟩ := h.makePartial hmade
      exact h'.trans (h'.numbered.putEnvironment number ((he.mono h'.library.next).insert name hp))
  | unregisterPartial name =>
    cases hstep
    exact h.putEnvironment number (he.erase name)
  | setKnownHelpersOnly on =>
    cases hstep
    exact h.putEnvironment number ⟨he.partials, he.compiled, he.cache⟩
  | setNoFunctionValues on =>
    cases hstep
    exact h.putEnvironment number ⟨he.partials, he.compiled, he.cache⟩
  | clearCache =>
    cases hstep
    exact h.putEnvironment number ⟨he.partials, he.compiled, nofun⟩

inductive Reached : Workspace → Prop
  | new : Reached {}
  | step {w : Workspace} {number : Nat} {state : σ} {s : Step} {turn : Turn σ} (h : Reached w)
    (hstep : w.step number host depth state s = some turn) : Reached turn.workspace

theorem Reached.numbered (h : Reached host depth w) : w.Numbered := by
  induction h with
  | new => exact numbered_new
  | step _ hstep ih => exact (ih.step host depth hstep).numbered

theorem Reached.session (h : Reached host depth w) (number : Nat) : (w.session number).Numbered :=
  h.numbered.session number

end
end Workspace
end Stencil
