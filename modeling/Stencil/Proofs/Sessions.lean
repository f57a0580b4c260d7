import Stencil.Environment
import Stencil.Proofs.Compiling
import Stencil.Proofs.Reach

set_option autoImplicit false

/-!
# Sessions

Compiling in an environment, of which only the partials that are now compiled are kept.
-/
namespace Stencil

namespace Dict
variable {α β : Type}

theorem firstEntry_map (f : String → α → β) (key : String) (entries : List (String × α)) :
    firstEntry key (entries.map fun entry => (entry.1, f entry.1 entry.2)) =
      (firstEntry key entries).map (f key) := by
  induction entries with
  | nil => rfl
  | cons entry rest ih =>
    rw [List.map_cons, firstEntry, firstEntry, ih]
    split
    · next h => rw [h]; rfl
    · rfl

/-- An entry that is left out is not found further on, as no key has two entries. -/
theorem firstEntry_filterMap (f : α → Option β) (key : String) {entries : List (String × α)}
    (h : (entries.map Prod.fst).Nodup) :
    firstEntry key (entries.filterMap fun entry => (f entry.2).map (entry.1, ·)) =
      (firstEntry key entries).bind f := by
  induction entries with
  | nil => rfl
  | cons entry rest ih =>
    obtain ⟨k, v⟩ := entry
    rw [List.map_cons, List.nodup_cons] at h
    rw [List.filterMap_cons, firstEntry]
    dsimp only
    cases hv : f v with
    | none =>
      dsimp only [Option.map_none]
      rw [ih h.2]
      split
      · next hk =>
        subst hk
        rw [firstEntry_eq_none h.1, Option.bind_some, hv, Option.bind_none]
      · rfl
    | some w =>
      dsimp only [Option.map_some]
      rw [firstEntry, ih h.2]
      split
      · rw [Option.bind_some, hv]
      · rfl

end Dict

namespace Environment
variable {e : Environment}

theorem get?_waiting (h : e.partials.Distinct) (name : String) :
    e.waiting.get? name = (e.partials.get? name).bind Partial.source? :=
  Dict.firstEntry_filterMap Partial.source? name h

theorem get?_compiledPartials (h : e.partials.Distinct) (name : String) :
    e.compiledPartials.get? name = (e.partials.get? name).bind Partial.compiled? :=
  Dict.firstEntry_filterMap Partial.compiled? name h

theorem get?_waiting_eq_some (h : e.partials.Distinct) {name text : String} :
    e.waiting.get? name = some text ↔ e.partials.get? name = some (.source text) := by
  rw [get?_waiting h, Option.bind_eq_some_iff]
  constructor
  · rintro ⟨p, hp, htext⟩
    cases p with
    | source other => cases htext; exact hp
    | compiled id => cases htext
  · exact fun hp => ⟨_, hp, rfl⟩

theorem get?_compiledPartials_eq_some (h : e.partials.Distinct) {name : String} {id : TemplateId} :
    e.compiledPartials.get? name = some id ↔ e.partials.get? name = some (.compiled id) := by
  rw [get?_compiledPartials h, Option.bind_eq_some_iff]
  constructor
  · rintro ⟨p, hp, hid⟩
    cases p with
    | source text => cases hid
    | compiled other => cases hid; exact hp
  · exact fun hp => ⟨_, hp, rfl⟩

theorem get?_remember (e : Environment) (compiled : Dict TemplateId) (name : String) :
    (e.remember compiled).partials.get? name =
      (e.partials.get? name).map fun p => ((compiled.get? name).map Partial.compiled).getD p :=
  Dict.firstEntry_map (fun name p => ((compiled.get? name).map Partial.compiled).getD p) name _

theorem distinct_remember (h : e.partials.Distinct) (compiled : Dict TemplateId) :
    (e.remember compiled).partials.Distinct := by
  have hkeys : (e.remember compiled).partials.keys = e.partials.keys := by
    change (List.map _ (List.map _ _)) = _
    rw [List.map_map]
    rfl
  unfold Dict.Distinct
  rw [hkeys]
  exact h

theorem overlaid_eq {o : Options} (h : o.overlay = false) (e : Environment) : e.overlaid o = e := by
  obtain ⟨⟨helpers⟩, ⟨partials⟩, data, knownHelpersOnly, noFunctionValues⟩ := o
  cases helpers with
  | cons entry rest => cases h
  | nil =>
    cases partials with
    | cons entry rest => cases h
    | nil => rfl

end Environment

namespace Session

def shelf (s : Session) (events : List Event) : Shelf :=
  { library := s.library, compiled := s.environment.compiledPartials, events }

def origin (s : Session) (o : Options) (h : s.environment.partials.Distinct) : Origin where
  dialect := s.environment.dialect o
  sources := s.environment.waiting
  compiled := s.environment.compiledPartials
  library := s.library
  apart name source hsource := by
    rw [Environment.get?_waiting h] at hsource
    rw [Environment.get?_compiledPartials h]
    cases hp : s.environment.partials.get? name with
    | none => rfl
    | some p =>
      rw [hp] at hsource
      cases p with
      | source text => rfl
      | compiled id => cases hsource

/-- A session in which more of the partials may be compiled than at the beginning. -/
structure Over (origin : Origin) (gone : String → Prop) (s : Session) : Prop where
  sound : origin.Sound gone (s.shelf [])
  waits : origin.Waits (s.shelf []) s.environment.waiting
  distinct : s.environment.partials.Distinct
  registered : ∀ name, origin.known name = true → ∃ p, s.environment.partials.get? name = some p

structure Follows (gone : String → Prop) (s s' : Session) : Prop where
  environment : s'.environment = { s.environment with partials := s'.environment.partials }
  elsewhere : s'.heldElsewhere = s.heldElsewhere
  grows : (s.shelf s.events).Grows gone (s'.shelf s'.events)

inductive Compiles (origin : Origin) (s : Session) (source : String) :
    Except TemplateError TemplateId → Session → Prop
  | ok {t : Template} {id : TemplateId} {s' : Session} (after : s'.Over origin fun _ => False)
    (follows : s.Follows (fun _ => False) s') (new : origin.New (s'.shelf []) id)
    (template : s'.library.get? id = some t)
    (stands : origin.Stands (s'.shelf []) (fun _ => False) source t)
    (check : (Outline.ofSource origin.dialect source).check source
      (check origin.dialect origin.known origin.sources) = .ok t.items) :
    Compiles origin s source (.ok id) s'
  | error {e : TemplateError} {s' : Session} (after : s'.Over origin origin.Faulty)
    (follows : s.Follows origin.Faulty s')
    (check : (Outline.ofSource origin.dialect source).check source
      (check origin.dialect origin.known origin.sources) = .error e) :
    Compiles origin s source (.error e) s'

variable {origin : Origin} {gone : String → Prop} {s : Session} {o : Options} {source : String}

theorem over_origin (s : Session) (o : Options) (h : s.environment.partials.Distinct) :
    s.Over (s.origin o h) gone := by
  refine ⟨⟨Nat.le_refl _, fun _ _ => rfl, fun _ _ hid => hid, ?_, nofun, nofun, nofun⟩,
    fun _ _ _ => rfl, h, ?_⟩
  · intro name id hid hnone
    exact absurd (hid.symm.trans hnone) nofun
  · intro name hname
    have hget := Environment.get?_compiledPartials h name
    have hget' := Environment.get?_waiting h name
    change ((s.environment.compiledPartials.get? name).isSome ||
      (s.environment.waiting.get? name).isSome) = true at hname
    cases hp : s.environment.partials.get? name with
    | some p => exact ⟨p, rfl⟩
    | none =>
      rw [hget, hget', hp] at hname
      cases hname

def close (s : Session) (shelf : Shelf) (library : Library) : Session :=
  { s with
    environment := s.environment.remember shelf.compiled
    library := library
    events := s.events ++ shelf.events }

section
variable {shelf : Shelf} {library : Library}

theorem get?_compiled_close (h : s.Over origin fun _ => False) (sound : origin.Sound gone shelf)
    (grows : (s.shelf []).Grows gone shelf) (name : String) :
    ((s.close shelf library).shelf []).compiled.get? name = shelf.compiled.get? name := by
  change (s.environment.remember shelf.compiled).compiledPartials.get? name = _
  rw [Environment.get?_compiledPartials (Environment.distinct_remember h.distinct _),
    Environment.get?_remember]
  cases hid : shelf.compiled.get? name with
  | some id =>
    have hknown : origin.known name = true := by
      unfold Origin.known
      cases hold : origin.compiled.get? name with
      | some id => rfl
      | none =>
        obtain ⟨-, source, -, hsource, -⟩ := sound.made name id hid hold
        rw [hsource]
        rfl
    obtain ⟨p, hp⟩ := h.registered name hknown
    rw [hp]
    rfl
  | none =>
    cases hp : s.environment.partials.get? name with
    | none => rfl
    | some p =>
      cases p with
      | source text => rfl
      | compiled id =>
        have hbefore : (s.shelf []).compiled.get? name = some id := by
          change s.environment.compiledPartials.get? name = _
          rw [Environment.get?_compiledPartials h.distinct, hp]
          rfl
        rw [grows.compiled name id hbefore] at hid
        cases hid

theorem over_close (h : s.Over origin fun _ => False) (sound : origin.Sound gone shelf)
    (grows : (s.shelf []).Grows gone shelf)
    (hprogress : ∀ name, shelf.inProgress.get? name = none)
    (hnext : shelf.library.next ≤ library.next)
    (hlibrary : ∀ id < shelf.library.next, library.get? id = shelf.library.get? id) :
    (s.close shelf library).Over origin gone where
  sound := sound.transfer hnext hlibrary (get?_compiled_close h sound grows)
    fun name => (hprogress name).symm
  waits name _ hcompiled := by
    rw [get?_compiled_close h sound grows] at hcompiled
    rw [← h.waits name rfl (grows.compiled_none hcompiled)]
    change (s.environment.remember shelf.compiled).waiting.get? name = _
    rw [Environment.get?_waiting (Environment.distinct_remember h.distinct _),
      Environment.get?_remember, Environment.get?_waiting h.distinct, hcompiled]
    cases s.environment.partials.get? name <;> rfl
  distinct := Environment.distinct_remember h.distinct _
  registered name hname := by
    obtain ⟨p, hp⟩ := h.registered name hname
    have hget := s.environment.get?_remember shelf.compiled name
    rw [hp] at hget
    exact ⟨_, hget⟩

theorem follows_close (h : s.Over origin fun _ => False) (sound : origin.Sound gone shelf)
    (grows : (s.shelf []).Grows gone shelf) (hnext : shelf.library.next ≤ library.next)
    (hlibrary : ∀ id < shelf.library.next, library.get? id = shelf.library.get? id) :
    s.Follows gone (s.close shelf library) where
  environment := rfl
  elsewhere := rfl
  grows :=
    { next := Nat.le_trans grows.next hnext
      library := fun id hid hother =>
        (hlibrary id (Nat.lt_of_lt_of_le hid grows.next)).trans (grows.library id hid hother)
      compiled := fun name id hid =>
        (get?_compiled_close h sound grows name).trans (grows.compiled name id hid)
      inProgress := fun name => rfl
      begun := by
        obtain ⟨names, hevents, hnodup, hnames⟩ := grows.begun
        refine ⟨names, congrArg (s.events ++ ·) hevents, hnodup, fun name hname => ?_⟩
        obtain ⟨hnone, hnone', hdone⟩ := hnames name hname
        exact ⟨hnone, hnone', hdone.imp_left fun ⟨id, hid⟩ =>
          ⟨id, (get?_compiled_close h sound grows name).trans hid⟩⟩ }

end

/-- The shelf that a call with registrations of its own finds. -/
def shelfUnder (s : Session) (o : Options) : Shelf :=
  { library := s.library, compiled := (s.environment.overlaid o).compiledPartials }

/-- What a compilation comes to, from what becomes of the shelf. -/
theorem compileUncached_eq (source : String) (o : Options) (s : Session) :
    compileUncached source o s =
      let r := Stencil.compile (s.environment.dialect o) (s.environment.overlaid o).waiting source
        (s.shelfUnder o)
      (r.1.map fun _ => r.2.library.next,
        { s with
          environment := if o.overlay then s.environment else s.environment.remember r.2.compiled
          library := match r.1 with
            | .error _ => r.2.library
            | .ok t => r.2.library.add t
          events := s.events ++ r.2.events }) := by
  unfold compileUncached shelfUnder
  simp only [bind, StateT.bind, get, getThe, MonadStateOf.get, StateT.get, pure]
  generalize Stencil.compile (s.environment.dialect o) (s.environment.overlaid o).waiting source
    _ = r
  obtain ⟨outcome, shelf⟩ := r
  cases outcome <;> rfl

theorem cache_compileUncached (source : String) (o : Options) (s : Session) :
    (compileUncached source o s).2.environment.cache = s.environment.cache := by
  rw [compileUncached_eq]
  cases ho : o.overlay <;> rfl

theorem compiled_of_compileUncached {s' : Session} {id : TemplateId}
    (h : compileUncached source o s = (.ok id, s')) :
    ∃ t shelf, Stencil.compile (s.environment.dialect o) (s.environment.overlaid o).waiting source
      (s.shelfUnder o) = (.ok t, shelf) ∧ s'.library.get? id = some t := by
  rw [compileUncached_eq] at h
  generalize Stencil.compile (s.environment.dialect o) (s.environment.overlaid o).waiting source
    (s.shelfUnder o) = r at h
  obtain ⟨outcome, shelf⟩ := r
  cases outcome with
  | error e => cases h
  | ok t =>
    cases h
    refine ⟨t, shelf, rfl, ?_⟩
    change (shelf.library.add t).get? _ = _
    rw [Library.get?_add, if_pos rfl]

theorem compileUncached_error (ho : o.overlay = false) {e : TemplateError} {shelf : Shelf}
    (h : Stencil.compile (s.environment.dialect o) s.environment.waiting source (s.shelf []) =
      (.error e, shelf)) :
    compileUncached source o s = (.error e, s.close shelf shelf.library) := by
  unfold compileUncached
  unfold Session.shelf at h
  simp only [bind, StateT.bind, get, getThe, MonadStateOf.get, StateT.get, pure,
    Environment.overlaid_eq ho, h, ho]
  rfl

theorem compileUncached_ok (ho : o.overlay = false) {t : Template} {shelf : Shelf}
    (h : Stencil.compile (s.environment.dialect o) s.environment.waiting source (s.shelf []) =
      (.ok t, shelf)) :
    compileUncached source o s =
      (.ok shelf.library.next, s.close shelf (shelf.library.add t)) := by
  unfold compileUncached
  unfold Session.shelf at h
  simp only [bind, StateT.bind, get, getThe, MonadStateOf.get, StateT.get, pure,
    Environment.overlaid_eq ho, h, ho]
  rfl

/-- Compiling without the cache is compiling as if nothing was remembered. -/
theorem compileUncached_compiles (h : s.Over origin fun _ => False)
    (hd : s.environment.dialect o = origin.dialect) (ho : o.overlay = false) (source : String) :
    Compiles origin s source (compileUncached source o s).1 (compileUncached source o s).2 := by
  have hfree : origin.IsFree (s.shelf []) origin.sources := fun _ => rfl
  have hlinked := Origin.compile_linked source h.sound h.waits hfree
  rw [← hd] at hlinked
  generalize hr : Stencil.compile (s.environment.dialect o) s.environment.waiting source
    (s.shelf []) = r at hlinked
  obtain ⟨outcome, shelf⟩ := r
  cases hlinked with
  | error sound grows check =>
    rw [compileUncached_error ho hr]
    have hprogress (name : String) : shelf.inProgress.get? name = none := grows.inProgress name
    rw [hd] at check
    exact .error (over_close h sound grows hprogress (Nat.le_refl _) fun _ _ => rfl)
      (follows_close h sound grows (Nat.le_refl _) fun _ _ => rfl) check
  | @ok t _ sound grows text ending distinct asks leads check =>
    rw [compileUncached_ok ho hr]
    have hprogress (name : String) : shelf.inProgress.get? name = none := grows.inProgress name
    have hlibrary : ∀ id < shelf.library.next,
        (shelf.library.add t).get? id = shelf.library.get? id := by
      intro id hid
      rw [Library.get?_add, if_neg (Nat.ne_of_gt hid)]
    rw [hd] at check ending asks
    refine .ok (over_close h sound grows hprogress (Nat.le_succ _) hlibrary)
      (follows_close h sound grows (Nat.le_succ _) hlibrary)
      ⟨sound.next, Nat.lt_succ_self _⟩ (t := t) ?_
      ⟨text, ending, distinct, fun name => ?_, fun name target htarget => ?_⟩ check
    · change (shelf.library.add t).get? _ = _
      rw [Library.get?_add, if_pos rfl]
    · rw [← asks]
      exact ⟨.inl, fun h => h.resolve_right nofun⟩
    · have hid := (leads_iff hprogress).1 (leads name target htarget)
      exact (leads_iff fun _ => rfl).2 ((get?_compiled_close h sound grows name).trans hid)

def keep (source : String) (outcome : Except TemplateError TemplateId) (s : Session) : Session :=
  match outcome with
  | .error _ => s
  | .ok id => { s with environment.cache := s.environment.cache.insert source id }

theorem compile_hit {id : TemplateId} (h : s.environment.cache.get? source = some id) (o : Options) :
    Session.compile source o s = (.ok id, s.report (.cacheHit source.utf8ByteSize)) := by
  unfold Session.compile
  simp only [bind, StateT.bind, get, getThe, MonadStateOf.get, StateT.get, pure, h]
  rfl

theorem compile_miss {outcome : Except TemplateError TemplateId} {s' : Session}
    (h : s.environment.cache.get? source = none)
    (h' : compileUncached source o (s.report (.compilingTemplate source.utf8ByteSize)) =
      (outcome, s')) :
    Session.compile source o s = (outcome, s'.keep source outcome) := by
  unfold Session.compile
  simp only [bind, StateT.bind, get, getThe, MonadStateOf.get, StateT.get, pure, h, modify_apply,
    h']
  cases outcome <;> rfl

theorem Over.mono {gone' : String → Prop} (h : s.Over origin gone)
    (hgone : ∀ name, gone name → gone' name) : s.Over origin gone' :=
  ⟨h.sound.mono hgone, h.waits, h.distinct, h.registered⟩

theorem Follows.mono {gone' : String → Prop} {s' : Session} (h : s.Follows gone s')
    (hgone : ∀ name, gone name → gone' name) : s.Follows gone' s' :=
  ⟨h.environment, h.elsewhere, h.grows.mono hgone⟩

theorem Over.withEvents (h : s.Over origin gone) (events : List Event) :
    ({ s with events := events }).Over origin gone :=
  ⟨h.sound, h.waits, h.distinct, h.registered⟩

theorem Over.keep (h : s.Over origin gone) (source : String)
    (outcome : Except TemplateError TemplateId) : (s.keep source outcome).Over origin gone := by
  cases outcome <;> exact ⟨h.sound, h.waits, h.distinct, h.registered⟩

/-- What a partial is compiled to is held, so a target that leads to it finds it. -/
theorem partial?_eq {held : List TemplateId} (hheld : s.environment.held ⊆ held)
    {links : Dict Target} {name : String} {target : Target}
    (htarget : links.get? name = some target)
    (hleads : Leads (s.shelf []) (fun _ => False) name target) :
    ∃ id, (s.shelf []).compiled.get? name = some id ∧
      s.library.partial? (s.library.reach held) links name = s.library.get? id := by
  have hid := (leads_iff fun _ => rfl).1 hleads
  refine ⟨target.id, hid, ?_⟩
  unfold Library.partial?
  rw [htarget]
  cases target with
  | compiled id => rfl
  | pending id =>
    have hmem : id ∈ s.library.reach held :=
      Library.mem_reach_of_mem (hheld (List.mem_append_left _ (Dict.mem_values_of_get? hid)))
    exact if_pos hmem

section
variable {σ : Type} (host : Host σ) (state : σ) {s' : Session}

theorem render_error {e : TemplateError}
    (h : Session.compile source o s = (.error e, s')) (depth : Nat) (context : Value) :
    s.render host depth source context o state = some (.error e, state, s') := by
  unfold render
  rw [h]

theorem render_ok {id : TemplateId}
    (h : Session.compile source o s = (.ok id, s')) (depth : Nat) (context : Value) :
    s.render host depth source context o state =
      ((s'.library.render (s'.environment.held ++ s'.heldElsewhere) host depth id context
        o.data).run { state, events := s'.events }).map fun (result, world) =>
          (result, world.state, { s' with events := world.events }) := by
  unfold render
  rw [h]
  dsimp only
  cases (s'.library.render (s'.environment.held ++ s'.heldElsewhere) host depth id context
    o.data).run { state, events := s'.events } <;> rfl

end

end Session
end Stencil
