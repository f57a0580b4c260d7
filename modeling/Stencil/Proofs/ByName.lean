import Mathlib
import Stencil.Proofs.Inclusions
import Stencil.Proofs.Likeness
import Stencil.Proofs.Sessions

set_option autoImplicit false

/-!
# Partials by name

An environment serves every sequence of requests as one without a cache would that looks each
partial up by its name while it renders, and compiles its source afresh.
-/
namespace Stencil

structure Catalog where
  dialect : Dialect
  sources : Dict String

namespace Catalog
variable {σ : Type}

/-- Compiles a source by itself. A partial that is not registered is missing. -/
def compile (c : Catalog) (source : String) : Except TemplateError Template :=
  ((Outline.ofSource c.dialect source).check source fun name =>
    .ok (c.sources.get? name).isSome).map fun items => ⟨source, items, ⟨[]⟩⟩

/-- The template of a partial, compiled afresh whatever includes it. -/
def partial? (c : Catalog) (_ : Dict Target) (name : String) : Option Template :=
  (c.sources.get? name).bind fun source => (c.compile source).toOption

def render (c : Catalog) (host : Host σ) (depth : Nat) (source : String) (context : Value)
    (data : Object) (state : σ) : Option (Except TemplateError String × σ) :=
  match c.compile source with
  | .error e => some (.error e, state)
  | .ok t =>
    ((t.render host c.partial? depth context data).run { state }).map fun (result, world) =>
      (result, world.state)

end Catalog

inductive Request
  | compile (source : String)
  | compileUncached (source : String)
  | render (depth : Nat) (source : String) (context : Value) (data : Object)
  | clearCache

/-- What is wrong with a request, or the text if it asks for one. -/
abbrev Reply := Except TemplateError (Option String)

/-- There is no result if a rendering goes deeper than its depth. -/
def Catalog.serve {σ : Type} (c : Catalog) (host : Host σ) : Request → σ → Option (Reply × σ)
  | .compile source, state => some ((c.compile source).map fun _ => none, state)
  | .compileUncached source, state => some ((c.compile source).map fun _ => none, state)
  | .render depth source context data, state =>
    (c.render host depth source context data state).map fun (result, state) =>
      (result.map some, state)
  | .clearCache, state => some (.ok none, state)

def Catalog.serveAll {σ : Type} (c : Catalog) (host : Host σ) :
    List Request → σ → Option (List Reply × σ)
  | [], state => some ([], state)
  | request :: requests, state => do
    let (reply, state) ← c.serve host request state
    let (replies, state) ← c.serveAll host requests state
    return (reply :: replies, state)

namespace Session
variable {σ : Type}

def serve (host : Host σ) : Request → σ → Session → Option (Reply × σ × Session)
  | .compile source, state, s =>
    some ((Session.compile source {} s).1.map fun _ => none, state, (Session.compile source {} s).2)
  | .compileUncached source, state, s =>
    some ((compileUncached source {} s).1.map fun _ => none, state, (compileUncached source {} s).2)
  | .render depth source context data, state, s =>
    (s.render host depth source context { data } state).map fun (result, state, s) =>
      (result.map some, state, s)
  | .clearCache, state, s => some (.ok none, state, { s with environment.cache := ⟨[]⟩ })

def serveAll (host : Host σ) : List Request → σ → Session → Option (List Reply × σ × Session)
  | [], state, s => some ([], state, s)
  | request :: requests, state, s => do
    let (reply, state, s) ← s.serve host request state
    let (replies, state, s) ← serveAll host requests state s
    return (reply :: replies, state, s)

def begun (s s' : Session) : List String :=
  (s'.events.drop s.events.length).filterMap fun
    | .compilingPartial name => some name
    | _ => none

def begins : Request → Session → List String
  | .compile source, s => s.begun (Session.compile source {} s).2
  | .compileUncached source, s => s.begun (compileUncached source {} s).2
  | .render _ source _ data, s => s.begun (Session.compile source { data } s).2
  | .clearCache, _ => []

def beginsAll (host : Host σ) : List Request → σ → Session → List String
  | [], _, _ => []
  | request :: requests, state, s =>
    s.begins request ++
      match s.serve host request state with
      | none => []
      | some (_, state, s) => beginsAll host requests state s

def catalog (s : Session) : Catalog := ⟨s.environment.dialect {}, s.environment.waiting⟩

end Session

namespace Origin

def catalog (o : Origin) : Catalog := ⟨o.dialect, o.sources⟩

/-- Nothing is compiled at the beginning, and every partial compiles. -/
structure Lazy (o : Origin) : Prop where
  compiled : ∀ name, o.compiled.get? name = none
  compiles : ∀ name source, o.sources.get? name = some source → ∃ t, o.catalog.compile source = .ok t

variable {o : Origin}

theorem Lazy.known (h : o.Lazy) (name : String) : o.known name = (o.sources.get? name).isSome := by
  unfold Origin.known
  rw [h.compiled]
  rfl

theorem compile_eq_ok {source : String} {t : Template} (h : o.catalog.compile source = .ok t) :
    (∃ items, (Outline.ofSource o.dialect source).ending = .ok items) ∧
      ∀ name ∈ (Outline.ofSource o.dialect source).asks, (o.sources.get? name).isSome = true := by
  unfold Catalog.compile at h
  cases hcheck : (Outline.ofSource o.catalog.dialect source).check source fun name =>
      .ok (o.catalog.sources.get? name).isSome with
  | error e => rw [hcheck] at h; cases h
  | ok items =>
    obtain ⟨hasks, hending⟩ := Outline.check_eq_ok_iff.1 hcheck
    exact ⟨⟨items, hending⟩, fun name hname => Except.ok.inj (hasks name hname)⟩

/-- Whichever of the partials are left out, nothing is wrong with the others. -/
theorem Lazy.check_eq (h : o.Lazy) {some : Dict String}
    (hsome : ∀ name source, some.get? name = .some source → o.sources.get? name = .some source)
    (name : String) : check o.dialect o.known some name = .ok (o.sources.get? name).isSome := by
  cases hsource : o.sources.get? name with
  | none =>
    have hnone : some.get? name = none := by
      cases hget : some.get? name with
      | none => rfl
      | some source => exact (hsome name source hget).symm.trans hsource
    rw [check_none hnone, h.known, hsource]
  | some source =>
    refine check_of_closed (fun name => (o.sources.get? name).isSome = true) ?_
      (fun name hname => (h.known name).trans hname) (congrArg Option.isSome hsource)
    intro name _ source hget
    obtain ⟨t, ht⟩ := h.compiles name source (hsome name source hget)
    exact compile_eq_ok ht

theorem Lazy.not_faulty (h : o.Lazy) (name : String) : ¬ o.Faulty name := by
  rintro ⟨some, hsome, e, he⟩
  rw [h.check_eq hsome] at he
  cases he

theorem Lazy.compile_eq (h : o.Lazy) (source : String) :
    o.catalog.compile source = ((Outline.ofSource o.dialect source).check source
      (check o.dialect o.known o.sources)).map fun items => ⟨source, items, ⟨[]⟩⟩ := by
  have hask : check o.dialect o.known o.sources = fun name => .ok (o.sources.get? name).isSome :=
    funext fun name => h.check_eq (fun _ _ hget => hget) name
  rw [hask]
  rfl

/-- A template of the session is the one that the catalog gives, but for its links. -/
theorem Stands.compile_eq {s : Shelf} {source : String} {t : Template} (h : o.Lazy)
    (hs : o.Sound (fun _ => False) s) (hprogress : ∀ name, s.inProgress.get? name = none)
    (ht : o.Stands s (fun _ => False) source t) :
    o.catalog.compile source = .ok ⟨source, t.items, ⟨[]⟩⟩ := by
  rw [h.compile_eq, Outline.check_eq_ok_iff.2 ⟨fun name hname => ?_, ht.ending⟩]
  · rfl
  · obtain ⟨target, htarget⟩ := (ht.asks name).1 hname
    have hid := (leads_iff hprogress).1 (ht.links name target htarget)
    obtain ⟨-, source', -, hsource, -⟩ := hs.made name _ hid (h.compiled name)
    rw [h.check_eq fun _ _ hget => hget, hsource]
    rfl

end Origin

namespace Session
variable {o : Origin} {s s' : Session} {source : String}

/-- Everything that the session has compiled is what its source comes to. -/
structure Serves (o : Origin) (s : Session) : Prop where
  after : s.Over o fun _ => False
  dialect : s.environment.dialect {} = o.dialect
  cache : ∀ source id, s.environment.cache.get? source = some id → id < s.library.next ∧
    ∃ t, s.library.get? id = some t ∧ o.Stands (s.shelf []) (fun _ => False) source t

/-- The partials begun in between were new, are different, and are compiled now. -/
structure Once (s s' : Session) : Prop where
  compiled : ∀ name id, (s.shelf []).compiled.get? name = some id →
    (s'.shelf []).compiled.get? name = some id
  nodup : (s.begun s').Nodup
  begun : ∀ name ∈ s.begun s', (s.shelf []).compiled.get? name = none ∧
    ∃ id, (s'.shelf []).compiled.get? name = some id

theorem begun_eq (extra : List Event) (names : List String)
    (h : s'.events = s.events ++ (extra ++ names.map .compilingPartial))
    (hextra : ∀ event ∈ extra, ∀ name, event ≠ .compilingPartial name) : s.begun s' = names := by
  unfold begun
  rw [h, List.drop_left, List.filterMap_append]
  have hnone : extra.filterMap (fun
      | .compilingPartial name => some name
      | _ => none) = [] := by
    refine List.filterMap_eq_nil_iff.2 fun event hevent => ?_
    cases event with
    | compilingPartial name => exact absurd rfl (hextra _ hevent name)
    | _ => rfl
  rw [hnone, List.nil_append, List.filterMap_map]
  exact List.filterMap_some

theorem Follows.once {s₀ : Session} (h : s.Follows (fun _ => False) s') (extra : List Event)
    (hshelf : s.shelf [] = s₀.shelf []) (hevents : s.events = s₀.events ++ extra)
    (hextra : ∀ event ∈ extra, ∀ name, event ≠ .compilingPartial name) : s₀.Once s' := by
  obtain ⟨names, hnames, hnodup, hdone⟩ := h.grows.begun
  have hbegun : s₀.begun s' = names := by
    refine begun_eq extra names ?_ hextra
    rw [← List.append_assoc, ← hevents]
    exact hnames
  refine ⟨?_, ?_, ?_⟩
  · rw [← hshelf]
    exact h.grows.compiled
  · rw [hbegun]
    exact hnodup
  · rw [hbegun, ← hshelf]
    exact fun name hname => ⟨(hdone name hname).1, (hdone name hname).2.2.resolve_right id⟩

theorem Follows.leads (h : s.Follows (fun _ => False) s') {name : String} {target : Target}
    (hleads : Leads (s.shelf []) (fun _ => False) name target) :
    Leads (s'.shelf []) (fun _ => False) name target := by
  have hid := (leads_iff fun _ => rfl).1 hleads
  exact (leads_iff fun _ => rfl).2 (h.grows.compiled name _ hid)

theorem Serves.follows (hs : s.Serves o) (h : s.Follows (fun _ => False) s')
    (hover : s'.Over o fun _ => False) : s'.Serves o := by
  refine ⟨hover, ?_, fun source id hid => ?_⟩
  · rw [h.environment]
    exact hs.dialect
  · rw [h.environment] at hid
    obtain ⟨hlt, t, ht, hstands⟩ := hs.cache source id hid
    exact ⟨Nat.lt_of_lt_of_le hlt h.grows.next, t,
      (h.grows.library id hlt nofun).trans ht, hstands.mono fun _ _ => h.leads⟩

theorem Serves.withEvents (hs : s.Serves o) (events : List Event) :
    ({ s with events := events }).Serves o :=
  ⟨hs.after.withEvents events, hs.dialect, hs.cache⟩

theorem Serves.keep (hs : s.Serves o) {id : TemplateId} (hlt : id < s.library.next) {t : Template}
    (ht : s.library.get? id = some t) (hstands : o.Stands (s.shelf []) (fun _ => False) source t) :
    (s.keep source (.ok id)).Serves o := by
  refine ⟨hs.after.keep source _, hs.dialect, fun other id' hid' => ?_⟩
  change (s.environment.cache.insert source id).get? other = some id' at hid'
  rw [Dict.get?_insert] at hid'
  split at hid'
  · next heq =>
    subst heq
    cases hid'
    exact ⟨hlt, t, ht, hstands⟩
  · exact hs.cache other id' hid'

inductive Prepares (o : Origin) (source : String) (s : Session) :
    Except TemplateError TemplateId → Session → Prop
  | ok {id : TemplateId} {t : Template} {s' : Session} (serves : s'.Serves o) (once : s.Once s')
    (template : s'.library.get? id = some t)
    (stands : o.Stands (s'.shelf []) (fun _ => False) source t) :
    Prepares o source s (.ok id) s'
  | error {e : TemplateError} {s' : Session} (serves : s'.Serves o) (once : s.Once s')
    (compile : o.catalog.compile source = .error e) : Prepares o source s (.error e) s'

section
variable (ho : o.Lazy) (hs : s.Serves o) (data : Object)
include ho hs

theorem prepares_of_follows (s₀ : Session) (extra : List Event) (hshelf : s.shelf [] = s₀.shelf [])
    (hevents : s.events = s₀.events ++ extra)
    (hextra : ∀ event ∈ extra, ∀ name, event ≠ .compilingPartial name)
    {outcome : Except TemplateError TemplateId}
    (h : compileUncached source { data } s = (outcome, s')) :
    Prepares o source s₀ outcome s' ∧ ∀ id, outcome = .ok id → id < s'.library.next := by
  have hdialect : s.environment.dialect { data } = o.dialect := hs.dialect
  have hcompiles := compileUncached_compiles hs.after hdialect rfl source
  rw [h] at hcompiles
  cases hcompiles with
  | ok after follows new template stands check =>
    refine ⟨.ok (hs.follows follows after) (follows.once extra hshelf hevents hextra) template
      stands, fun id hid => ?_⟩
    cases hid
    exact new.2
  | error after follows check =>
    have hgone : ∀ name, o.Faulty name → False := fun name => ho.not_faulty name
    have hfollows := follows.mono hgone
    refine ⟨.error (hs.follows hfollows (after.mono hgone))
      (hfollows.once extra hshelf hevents hextra) ?_, nofun⟩
    rw [ho.compile_eq, check]
    rfl

theorem compileUncached_prepares (source : String) :
    Prepares o source s (compileUncached source { data } s).1
      (compileUncached source { data } s).2 :=
  (prepares_of_follows ho hs data s [] rfl (List.append_nil _).symm nofun rfl).1

theorem compile_prepares (source : String) :
    Prepares o source s (Session.compile source { data } s).1
      (Session.compile source { data } s).2 := by
  cases hcache : s.environment.cache.get? source with
  | some id =>
    rw [compile_hit hcache]
    obtain ⟨-, t, ht, hstands⟩ := hs.cache source id hcache
    have hbegun : s.begun (s.report (.cacheHit source.utf8ByteSize)) = [] :=
      begun_eq [.cacheHit source.utf8ByteSize] [] rfl
        (List.forall_mem_cons.2 ⟨nofun, nofun⟩)
    refine .ok (hs.withEvents _) ⟨fun _ _ hid => hid, ?_, ?_⟩ ht hstands
    · rw [hbegun]
      exact List.nodup_nil
    · rw [hbegun]
      exact nofun
  | none =>
    generalize hr : compileUncached source { data }
      (s.report (.compilingTemplate source.utf8ByteSize)) = r
    obtain ⟨outcome, s'⟩ := r
    rw [compile_miss hcache hr]
    have hreport : (s.report (.compilingTemplate source.utf8ByteSize)).Serves o := hs.withEvents _
    obtain ⟨hprepares, hlt⟩ := prepares_of_follows ho hreport data s
      [.compilingTemplate source.utf8ByteSize] rfl rfl (List.forall_mem_cons.2 ⟨nofun, nofun⟩) hr
    cases hprepares with
    | ok serves once template stands =>
      exact .ok (serves.keep (hlt _ rfl) template stands)
        ⟨once.compiled, once.nodup, once.begun⟩ template stands
    | error serves once compile => exact .error serves once compile

end

/-- A name that a template includes leads to the same items as it does in the catalog. -/
theorem matches_catalog (ho : o.Lazy) (hs : s.Serves o) (held : List TemplateId)
    (hheld : s.environment.held ⊆ held) :
    Matches (s.library.partial? (s.library.reach held)) o.catalog.partial?
      fun links _ name => ∃ target, links.get? name = some target ∧
        Leads (s.shelf []) (fun _ => False) name target := by
  rintro links links' name ⟨target, htarget, hleads⟩
  obtain ⟨id, hid, hpartial⟩ := partial?_eq hheld htarget hleads
  obtain ⟨-, source, t, hsource, ht, hstands⟩ := hs.after.sound.made name id hid (ho.compiled name)
  refine .inr ⟨t, ⟨source, t.items, ⟨[]⟩⟩, hpartial.trans ht, ?_, rfl, fun other hother => ?_⟩
  · have hcompile := hstands.compile_eq ho hs.after.sound fun _ => rfl
    unfold Catalog.partial?
    change (o.sources.get? name).bind _ = _
    rw [hsource, Option.bind_some, hcompile]
    rfl
  · obtain ⟨target', htarget'⟩ :=
      (hstands.asks other).1 (Outline.includes_subset_asks hstands.ending hother)
    exact ⟨target', htarget', hstands.links other target' htarget'⟩

theorem render_eq (ho : o.Lazy) (hs : s.Serves o) {id : TemplateId} {t : Template}
    (ht : s.library.get? id = some t) (hstands : o.Stands (s.shelf []) (fun _ => False) source t)
    (held : List TemplateId) (hheld : s.environment.held ⊆ held) {σ : Type} (host : Host σ)
    (depth : Nat) (context : Value) (data : Object) (state : σ) :
    ((s.library.render held host depth id context data).run { state, events := s.events }).map
        (fun (result, world) => (result, world.state)) =
      o.catalog.render host depth source context data state := by
  have hcompile := hstands.compile_eq ho hs.after.sound fun _ => rfl
  unfold Library.render Catalog.render
  rw [ht, hcompile]
  have hmatches := matches_catalog ho hs (id :: held)
    fun other hother => List.mem_cons_of_mem _ (hheld hother)
  have halike := Template.render_alike hmatches t ⟨source, t.items, ⟨[]⟩⟩ rfl
    (fun name hname => by
      obtain ⟨target, htarget⟩ :=
        (hstands.asks name).1 (Outline.includes_subset_asks hstands.ending hname)
      exact ⟨target, htarget, hstands.links name target htarget⟩) host depth context data
  exact halike.results state s.events []

section
variable {σ : Type} (host : Host σ) (state : σ)

theorem Prepares.reply {outcome : Except TemplateError TemplateId} (ho : o.Lazy)
    (h : Prepares o source s outcome s') :
    (outcome.map fun _ => (none : Option String)) = (o.catalog.compile source).map fun _ => none := by
  cases h with
  | ok serves once template stands =>
    rw [stands.compile_eq ho serves.after.sound fun _ => rfl]
    rfl
  | error serves once compile =>
    rw [compile]
    rfl

theorem Prepares.after {outcome : Except TemplateError TemplateId}
    (h : Prepares o source s outcome s') : s'.Serves o ∧ s.Once s' := by
  cases h with
  | ok serves once template stands => exact ⟨serves, once⟩
  | error serves once compile => exact ⟨serves, once⟩

/-- How a request goes: it is answered as the catalog answers it, and the partials that it begins
are new, and compiled in the end. -/
structure Goes (o : Origin) (host : Host σ) (state : σ) (request : Request) (s : Session) : Prop where
  reply : ((s.serve host request state).map fun r => (r.1, r.2.1)) =
    o.catalog.serve host request state
  nodup : (s.begins request).Nodup
  begins : ∀ name ∈ s.begins request, (s.shelf []).compiled.get? name = none
  serves : ∀ r, s.serve host request state = some r → r.2.2.Serves o
  compiled : ∀ r, s.serve host request state = some r → ∀ name id,
    (s.shelf []).compiled.get? name = some id → (r.2.2.shelf []).compiled.get? name = some id
  begun : ∀ r, s.serve host request state = some r → ∀ name ∈ s.begins request,
    ∃ id, (r.2.2.shelf []).compiled.get? name = some id

theorem goes_of_once {request : Request} (hs : s'.Serves o) (once : s.Once s')
    (hbegins : s.begins request = s.begun s')
    (hserve : ∀ r, s.serve host request state = some r →
      ∃ events, r.2.2 = { s' with events := events })
    (hreply : ((s.serve host request state).map fun r => (r.1, r.2.1)) =
      o.catalog.serve host request state) : Goes o host state request s := by
  refine ⟨hreply, ?_, ?_, ?_, ?_, ?_⟩
  · rw [hbegins]
    exact once.nodup
  · rw [hbegins]
    exact fun name hname => (once.begun name hname).1
  · intro r hr
    obtain ⟨events, heq⟩ := hserve r hr
    rw [heq]
    exact hs.withEvents events
  · intro r hr
    obtain ⟨events, heq⟩ := hserve r hr
    rw [heq]
    exact once.compiled
  · intro r hr
    obtain ⟨events, heq⟩ := hserve r hr
    rw [heq, hbegins]
    exact fun name hname => (once.begun name hname).2

theorem render_goes (ho : o.Lazy) (hs : s.Serves o) (depth : Nat) (source : String) (context : Value)
    (data : Object) : Goes o host state (.render depth source context data) s := by
  have hprepares := compile_prepares ho hs data source
  obtain ⟨hserves, honce⟩ := hprepares.after
  have hbegins : s.begins (.render depth source context data) =
      s.begun (Session.compile source { data } s).2 := rfl
  generalize hr : Session.compile source { data } s = r at hprepares hserves honce hbegins
  obtain ⟨outcome, s'⟩ := r
  cases hprepares with
  | error serves once compile =>
    have hrender := render_error host state hr depth context
    refine goes_of_once host state hserves honce hbegins ?_ ?_
    · intro r hserve
      rw [serve, hrender] at hserve
      cases hserve
      exact ⟨_, rfl⟩
    · rw [serve, hrender, Catalog.serve, Catalog.render, compile]
      rfl
  | ok serves once template stands =>
    have hrender := render_ok host state hr depth context
    have hrendered := render_eq ho serves template stands
      (s'.environment.held ++ s'.heldElsewhere) (List.subset_append_left _ _) host depth
      context data state
    refine goes_of_once host state hserves honce hbegins ?_ ?_
    · intro r hserve
      rw [serve, hrender, Option.map_map] at hserve
      obtain ⟨⟨result, world⟩, -, heq⟩ := Option.map_eq_some_iff.1 hserve
      exact ⟨world.events, by rw [← heq]; rfl⟩
    · rw [serve, hrender, Catalog.serve, ← hrendered, Option.map_map, Option.map_map,
        Option.map_map]
      rfl

theorem serve_goes (ho : o.Lazy) (hs : s.Serves o) (request : Request) :
    Goes o host state request s := by
  cases request with
  | compile source =>
    have hprepares := compile_prepares ho hs ⟨[]⟩ source
    obtain ⟨hserves, honce⟩ := hprepares.after
    refine goes_of_once host state hserves honce rfl ?_ ?_
    · rintro r ⟨⟩
      exact ⟨_, rfl⟩
    · exact congrArg (fun reply => some (reply, state)) (hprepares.reply ho)
  | compileUncached source =>
    have hprepares := compileUncached_prepares ho hs ⟨[]⟩ source
    obtain ⟨hserves, honce⟩ := hprepares.after
    refine goes_of_once host state hserves honce rfl ?_ ?_
    · rintro r ⟨⟩
      exact ⟨_, rfl⟩
    · exact congrArg (fun reply => some (reply, state)) (hprepares.reply ho)
  | render depth source context data => exact render_goes host state ho hs depth source context data
  | clearCache =>
    refine ⟨rfl, List.nodup_nil, nofun, ?_, ?_, ?_⟩
    · rintro r ⟨⟩
      exact ⟨⟨hs.after.sound, hs.after.waits, hs.after.distinct, hs.after.registered⟩, hs.dialect, nofun⟩
    · rintro r ⟨⟩
      exact fun _ _ hid => hid
    · exact nofun

theorem serveAll_goes (ho : o.Lazy) (hs : s.Serves o) (requests : List Request) :
    ((s.serveAll host requests state).map fun r => (r.1, r.2.1)) =
        o.catalog.serveAll host requests state ∧
      (beginsAll host requests state s).Nodup ∧
      ∀ name ∈ beginsAll host requests state s, (s.shelf []).compiled.get? name = none := by
  induction requests generalizing state s with
  | nil => exact ⟨rfl, List.nodup_nil, nofun⟩
  | cons request requests ih =>
    have hgoes := serve_goes host state ho hs request
    rw [serveAll, beginsAll, Catalog.serveAll, ← hgoes.reply]
    cases hserve : s.serve host request state with
    | none =>
      dsimp only
      rw [List.append_nil]
      exact ⟨rfl, hgoes.nodup, hgoes.begins⟩
    | some r =>
      obtain ⟨reply, state', s'⟩ := r
      obtain ⟨hreplies, hnodup, hnew⟩ := ih state' (hgoes.serves _ hserve)
      refine ⟨?_, List.nodup_append.2 ⟨hgoes.nodup, hnodup, ?_⟩, ?_⟩
      · change (Option.map _ (s'.serveAll host requests state' >>= _)) =
          (o.catalog.serveAll host requests state' >>= _)
        rw [← hreplies]
        cases s'.serveAll host requests state' <;> rfl
      · rintro name hname other hother rfl
        obtain ⟨id, hid⟩ := hgoes.begun _ hserve name hname
        exact absurd ((hnew name hother).symm.trans hid) nofun
      · intro name hname
        rcases List.mem_append.1 hname with hname | hname
        · exact hgoes.begins name hname
        · cases hid : (s.shelf []).compiled.get? name with
          | none => rfl
          | some id =>
            have hid' := hgoes.compiled _ hserve name id hid
            exact absurd ((hnew name hname).symm.trans hid') nofun

end

/-- If every partial is registered as a source and compiles, then whatever is asked for in whatever
order, the replies and the state of the host are those of looking up each partial by its name, and
no partial is compiled twice. -/
theorem serveAll_eq_catalog {σ : Type} (host : Host σ) (s : Session)
    (hdistinct : s.environment.partials.Distinct) (hcache : s.environment.cache = ⟨[]⟩)
    (hsources : ∀ name p, s.environment.partials.get? name = some p → ∃ text, p = .source text)
    (hcompiles : ∀ name source, s.environment.waiting.get? name = some source →
      ∃ t, s.catalog.compile source = .ok t) (requests : List Request) (state : σ) :
    ((s.serveAll host requests state).map fun r => (r.1, r.2.1)) =
        s.catalog.serveAll host requests state ∧
      (beginsAll host requests state s).Nodup := by
  have ho : (s.origin {} hdistinct).Lazy := by
    refine ⟨fun name => ?_, hcompiles⟩
    change s.environment.compiledPartials.get? name = none
    rw [Environment.get?_compiledPartials hdistinct]
    cases hp : s.environment.partials.get? name with
    | none => rfl
    | some p =>
      obtain ⟨text, rfl⟩ := hsources name p hp
      rfl
  have hs : s.Serves (s.origin {} hdistinct) := by
    refine ⟨over_origin s {} hdistinct, rfl, fun source id hid => ?_⟩
    rw [hcache] at hid
    cases hid
  obtain ⟨hreplies, hnodup, -⟩ := serveAll_goes host state ho hs requests
  exact ⟨hreplies, hnodup⟩

def cycleGuarded : Template where
  source := "A\x7b\x7b#with n\x7d\x7d\x7b\x7b> b\x7d\x7d\x7b\x7b/with\x7d\x7d"
  items := [.text "A", .block
    { call := ⟨"with", .helper (.builtin .withBlock), [.reference ⟨false, 0, ["n"]⟩ true], []⟩
      body := [.inclusion ⟨"b", [], []⟩]
      inverse := []
      chained := false }]
  links := ⟨[]⟩

def cycleBack : Template where
  source := "B\x7b\x7b> a\x7d\x7d"
  items := [.text "B", .inclusion ⟨"a", [], []⟩]
  links := ⟨[]⟩

def cycleSession : Session where
  environment :=
    { partials := ⟨[("a", .source cycleGuarded.source), ("b", .source cycleBack.source)]⟩ }

theorem compile_cycleGuarded :
    cycleSession.catalog.compile cycleGuarded.source = .ok cycleGuarded := by cbv

theorem compile_cycleBack : cycleSession.catalog.compile cycleBack.source = .ok cycleBack := by cbv

def cyclePartial? (_ : Dict Target) (name : String) : Option Template :=
  if "a" = name then some cycleGuarded else if "b" = name then some cycleBack else none

theorem partial?_cycle : cycleSession.catalog.partial? = cyclePartial? := by
  funext _ name
  change (Dict.firstEntry name [("a", cycleGuarded.source), ("b", cycleBack.source)]).bind
    (fun source => (cycleSession.catalog.compile source).toOption) = cyclePartial? _ name
  unfold cyclePartial? Dict.firstEntry
  by_cases ha : "a" = name
  · rw [if_pos ha, if_pos ha, Option.bind_some, compile_cycleGuarded]
    rfl
  · rw [if_neg ha, if_neg ha]
    unfold Dict.firstEntry
    by_cases hb : "b" = name
    · rw [if_pos hb, if_pos hb, Option.bind_some, compile_cycleBack]
      rfl
    · rw [if_neg hb, if_neg hb]
      rfl

def cycleContext : Value := .object ⟨[("n", .object ⟨[("n", .null)]⟩)]⟩

theorem render_cycle {σ : Type} (host : Host σ) (state : σ) :
    cycleSession.catalog.render host 3 cycleBack.source cycleContext ⟨[]⟩ state =
      some (.ok "BABA", state) := by
  unfold Catalog.render
  rw [compile_cycleBack, partial?_cycle]
  rfl

/-- Two partials that include each other as long as the context goes on. -/
theorem serveAll_cycle :
    let host : Host Nat := fun _ _ => .done .null
    let requests : List Request := [.compileUncached cycleGuarded.source,
      .render 3 cycleBack.source cycleContext ⟨[]⟩, .clearCache, .compile cycleBack.source]
    ((cycleSession.serveAll host requests 0).map fun r => (r.1, r.2.1)) =
        some ([.ok none, .ok (some "BABA"), .ok none, .ok none], 0) ∧
      (beginsAll host requests 0 cycleSession).Nodup := by
  intro host requests
  have hdistinct : cycleSession.environment.partials.Distinct := by
    change ["a", "b"].Nodup
    decide
  have hreplies : cycleSession.catalog.serveAll host requests 0 =
      some ([.ok none, .ok (some "BABA"), .ok none, .ok none], 0) := by
    simp only [requests, Catalog.serveAll, Catalog.serve, compile_cycleGuarded, compile_cycleBack,
      render_cycle]
    rfl
  rw [← hreplies]
  refine serveAll_eq_catalog host cycleSession hdistinct rfl ?_ ?_ requests 0
  · intro name p hp
    have hmem : (name, p) ∈
        [("a", Partial.source cycleGuarded.source), ("b", .source cycleBack.source)] :=
      Dict.mem_of_firstEntry hp
    rcases List.mem_cons.1 hmem with heq | hmem
    · cases heq
      exact ⟨_, rfl⟩
    · cases List.mem_singleton.1 hmem
      exact ⟨_, rfl⟩
  · intro name source hsource
    have hmem : (name, source) ∈ [("a", cycleGuarded.source), ("b", cycleBack.source)] :=
      Dict.mem_of_firstEntry hsource
    rcases List.mem_cons.1 hmem with heq | hmem
    · cases heq
      exact ⟨cycleGuarded, compile_cycleGuarded⟩
    · cases List.mem_singleton.1 hmem
      exact ⟨cycleBack, compile_cycleBack⟩

end Session
end Stencil
