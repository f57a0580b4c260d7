import Stencil.Proofs.Calls

set_option autoImplicit false

/-!
# What later templates draw on

Templates that are compiled later keep earlier ones only if these were reachable anyway. So which of
the earlier ones are reachable does not change.
-/
namespace Stencil
namespace Library

/-- A library goes on from another, and what it adds keeps only what could be reached there. -/
structure Draws (l : Library) (base : List TemplateId) (l' : Library) : Prop where
  extends_library : l.Extends l'
  links : ∀ id t, l.next ≤ id → l'.get? id = some t → ∀ other,
    Target.compiled other ∈ t.links.values → other < l.next → l.Reaches base other

variable {l l' : Library} {base held : List TemplateId} {id : TemplateId} {t : Template}

namespace Draws

theorem refl (hl : l.Bounded) (base : List TemplateId) : l.Draws base l :=
  ⟨.refl l, fun id t hid ht => absurd (hl id t ht) (Nat.not_lt.2 hid)⟩

theorem reserve (h : l.Draws base l') : l.Draws base l'.reserve :=
  ⟨⟨Nat.le_succ_of_le h.extends_library.next, h.extends_library.get?,
    fun hl => (h.extends_library.bounded hl).reserve⟩, h.links⟩

theorem put (h : l.Draws base l') (hid : l.next ≤ id) (hlt : id < l'.next) (ht : ∀ other,
    Target.compiled other ∈ t.links.values → other < l.next → l.Reaches base other) :
    l.Draws base (l'.put id t) := by
  refine ⟨⟨h.extends_library.next, fun other hother => ?_,
    fun hl => (h.extends_library.bounded hl).put hlt t⟩, fun other u hother hu => ?_⟩
  · rw [get?_put, if_neg (Nat.ne_of_gt (Nat.lt_of_lt_of_le hother hid))]
    exact h.extends_library.get? other hother
  · rw [get?_put] at hu
    split at hu
    · cases hu
      exact ht
    · exact h.links other u hother hu

theorem add (h : l.Draws base l') (ht : ∀ other, Target.compiled other ∈ t.links.values →
    other < l.next → l.Reaches base other) : l.Draws base (l'.add t) :=
  h.reserve.put h.extends_library.next (Nat.lt_succ_self _) ht

theorem of_reaches (h : l.Draws base l')
    (hnew : ∀ id ∈ held, id < l.next → l.Reaches base id) (hreaches : l'.Reaches held id)
    (hid : id < l.next) : l.Reaches base id := by
  induction hreaches with
  | held hmem => exact hnew _ hmem hid
  | @kept parent other _ hkeeps ih =>
    obtain ⟨t, ht, hother⟩ := mem_keeps.1 hkeeps
    rcases Nat.lt_or_ge parent l.next with hlt | hge
    · rw [h.extends_library.get? parent hlt] at ht
      exact .kept (ih hlt) (mem_keeps.2 ⟨t, ht, hother⟩)
    · exact h.links parent t hge ht other hother hid

theorem mem_reach_iff (h : l.Draws base l') (hl : l.Numbered) (hbase : ∀ id ∈ base, id < l.next)
    (hold : base ⊆ held) (hnew : ∀ id ∈ held, id < l.next → l.Reaches base id) (hid : id < l.next) :
    id ∈ l'.reach held ↔ l.Reaches base id := by
  rw [Library.mem_reach_iff]
  exact ⟨fun hreaches => h.of_reaches hnew hreaches hid,
    fun hreaches => (h.extends_library.reaches hl hbase hreaches).2.mono hold⟩

end Draws
end Library

section
variable {l : Library} {base : List TemplateId}

def Target.Drawn (l : Library) (base : List TemplateId) (target : Target) : Prop :=
  ∀ id, target = .compiled id → id < l.next → l.Reaches base id

structure Shelf.Draws (l : Library) (base : List TemplateId) (s : Shelf) : Prop where
  library : l.Draws base s.library
  compiled : ∀ name id, s.compiled.get? name = some id → id < l.next → l.Reaches base id

theorem draws_course (l : Library) (base : List TemplateId) :
    Course (Shelf.Draws l base) (fun s s' => s.library.next ≤ s'.library.next)
      fun _ => Target.Drawn l base where
  refl _ := Nat.le_refl _
  trans h h' := Nat.le_trans h h'
  mono _ h := h
  pending _ _ := nofun
  compiled h hid := by
    rintro _ ⟨⟩
    exact h.compiled _ _ hid
  start h _ _ := ⟨h.library.reserve, h.compiled⟩
  stop_error e _ _ _ h hnext := ⟨⟨h.library, h.compiled⟩, Nat.le_of_succ_le hnext⟩
  stop_ok {s name s' t} h _ _ h' hnext hlinks := by
    have hid : l.next ≤ s.library.next := h.library.extends_library.next
    have hlt (hlt : s.library.next < l.next) : l.Reaches base s.library.next :=
      absurd hlt (Nat.not_lt.2 hid)
    refine ⟨⟨h'.library.put hid hnext fun other hother => hlinks _ hother other rfl,
      fun other id hother => ?_⟩, Nat.le_of_succ_le hnext, ?_⟩
    · rw [Shelf.compiled_stop] at hother
      split at hother
      · cases hother
        exact hlt
      · exact h'.compiled other id hother
    · rintro _ ⟨⟩
      exact hlt

end

/-- Registrations of which more may be compiled than at the beginning. -/
def Dict.Memoized (d d' : Dict Partial) : Prop :=
  ∀ name, d'.get? name = d.get? name ∨
    ∃ text id, d.get? name = some (.source text) ∧ d'.get? name = some (.compiled id)

namespace Dict.Memoized
variable {d d' d'' : Dict Partial}

theorem refl (d : Dict Partial) : d.Memoized d := fun _ => .inl rfl

theorem trans (h : d.Memoized d') (h' : d'.Memoized d'') : d.Memoized d'' := by
  intro name
  rcases h' name with heq' | ⟨text, id, htext, hid⟩
  · rw [heq']
    exact h name
  · rcases h name with heq | ⟨text', id', -, hid'⟩
    · exact .inr ⟨text, id, heq ▸ htext, hid⟩
    · cases hid'.symm.trans htext

theorem get?_compiled (h : d.Memoized d') {name : String} {id : TemplateId}
    (hid : d.get? name = some (.compiled id)) : d'.get? name = some (.compiled id) := by
  rcases h name with heq | ⟨text, other, htext, -⟩
  · exact heq.trans hid
  · cases htext.symm.trans hid

theorem insert (h : d.Memoized d') (key : String) (p : Partial) :
    (d.insert key p).Memoized (d'.insert key p) := by
  intro name
  rw [get?_insert, get?_insert]
  split
  · exact .inl rfl
  · exact h name

theorem erase (h : d.Memoized d') (key : String) : (d.erase key).Memoized (d'.erase key) := by
  intro name
  rw [get?_erase, get?_erase]
  split
  · exact .inl rfl
  · exact h name

theorem extend (h : d.Memoized d') (entries : List (String × Partial)) :
    (d.extend entries).Memoized (d'.extend entries) := by
  induction entries generalizing d d' with
  | nil => exact h
  | cons entry rest ih => exact ih (h.insert entry.1 entry.2)

end Dict.Memoized

namespace Environment
variable {e : Environment} {compiled : Dict TemplateId} {id : TemplateId}

theorem memoized_remember (hd : e.partials.Distinct)
    (hkeeps : ∀ name id, e.compiledPartials.get? name = some id → compiled.get? name = some id) :
    e.partials.Memoized (e.remember compiled).partials := by
  intro name
  rw [get?_remember]
  cases hp : e.partials.get? name with
  | none => exact .inl rfl
  | some p =>
    cases p with
    | source text =>
      cases hid : compiled.get? name with
      | none => exact .inl rfl
      | some id => exact .inr ⟨text, id, rfl, rfl⟩
    | compiled id =>
      rw [hkeeps name id ((get?_compiledPartials_eq_some hd).2 hp)]
      exact .inl rfl

/-- Of what was not held before, only what is remembered comes to be held. -/
theorem held_remember (hd : e.partials.Distinct) (hid : id ∈ (e.remember compiled).held) :
    id ∈ e.held ∨ ∃ name, compiled.get? name = some id := by
  have hdistinct := distinct_remember hd compiled
  rcases List.mem_append.1 hid with hid | hid
  · obtain ⟨name, hname⟩ := Dict.get?_of_mem_values (distinct_compiledPartials hdistinct) hid
    rw [get?_compiledPartials_eq_some hdistinct, get?_remember] at hname
    obtain ⟨p, hp, hname⟩ := Option.map_eq_some_iff.1 hname
    cases hget : compiled.get? name with
    | some other =>
      rw [hget] at hname
      cases hname
      exact .inr ⟨name, hget⟩
    | none =>
      rw [hget] at hname
      cases hname
      exact .inl (List.mem_append_left _ (Dict.mem_values_of_get?
        ((get?_compiledPartials_eq_some hd).2 hp)))
  · exact .inl (List.mem_append_right _ hid)

end Environment

/-- An environment that another one has become by calls, which compile partials in place. -/
structure Environment.Memoizes (e e' : Environment) : Prop where
  helpers : e'.helpers = e.helpers
  knownHelpersOnly : e'.knownHelpersOnly = e.knownHelpersOnly
  noFunctionValues : e'.noFunctionValues = e.noFunctionValues
  partials : e.partials.Memoized e'.partials
  cache : e.cache.values ⊆ e'.cache.values

namespace Environment.Memoizes
variable {e e' e'' : Environment}

theorem refl (e : Environment) : e.Memoizes e := ⟨rfl, rfl, rfl, .refl _, List.Subset.refl _⟩

theorem trans (h : e.Memoizes e') (h' : e'.Memoizes e'') : e.Memoizes e'' :=
  ⟨h'.helpers.trans h.helpers, h'.knownHelpersOnly.trans h.knownHelpersOnly,
    h'.noFunctionValues.trans h.noFunctionValues, h.partials.trans h'.partials,
    List.Subset.trans h.cache h'.cache⟩

theorem dialect (h : e.Memoizes e') (o : Options) : e'.dialect o = e.dialect o := by
  unfold Environment.dialect Environment.overlaid
  rw [h.helpers, h.knownHelpersOnly, h.noFunctionValues]

theorem overlaid (h : e.Memoizes e') (o : Options) : (e.overlaid o).Memoizes (e'.overlaid o) :=
  ⟨congrArg (Dict.extend · o.helpers.entries) h.helpers, h.knownHelpersOnly, h.noFunctionValues,
    h.partials.extend o.partials.entries, h.cache⟩

theorem held (h : e.Memoizes e') (hd : e.partials.Distinct) (hd' : e'.partials.Distinct) :
    e.held ⊆ e'.held := by
  intro id hid
  rcases List.mem_append.1 hid with hid | hid
  · obtain ⟨name, hname⟩ := Dict.get?_of_mem_values (distinct_compiledPartials hd) hid
    rw [get?_compiledPartials_eq_some hd] at hname
    exact List.mem_append_left _ (Dict.mem_values_of_get?
      ((get?_compiledPartials_eq_some hd').2 (h.partials.get?_compiled hname)))
  · exact List.mem_append_right _ (h.cache hid)

end Environment.Memoizes

namespace Session
variable {l : Library} {base : List TemplateId} {s s' : Session} {o o' : Options} {source : String}
  {id : TemplateId}

theorem compileUncached_memoizes (hd : s.environment.partials.Distinct) (source : String)
    (o : Options) : s.environment.Memoizes (compileUncached source o s).2.environment := by
  have hkeeps := compile_keeps (s.environment.dialect o) (s.environment.overlaid o).waiting source
    (s.shelfUnder o)
  rw [compileUncached_eq]
  dsimp only
  cases ho : o.overlay with
  | true => exact .refl _
  | false =>
    refine ⟨rfl, rfl, rfl, Environment.memoized_remember hd fun name id hid => ?_,
      List.Subset.refl _⟩
    refine hkeeps.compiled name id ?_
    rw [← Environment.overlaid_eq ho s.environment] at hid
    exact hid

theorem compile_memoizes (hd : s.environment.partials.Distinct) (source : String) (o : Options) :
    s.environment.Memoizes (Session.compile source o s).2.environment := by
  cases hcache : s.environment.cache.get? source with
  | some id =>
    rw [compile_hit hcache]
    exact .refl _
  | none =>
    let first := s.report (.compilingTemplate source.utf8ByteSize)
    have hmemoizes : s.environment.Memoizes _ := compileUncached_memoizes (s := first) hd source o
    have hcache' : (compileUncached source o first).2.environment.cache.get? source = none :=
      (congrArg (Dict.get? · source) (cache_compileUncached source o first)).trans hcache
    generalize hr : compileUncached source o first = r at hmemoizes hcache'
    obtain ⟨outcome, s'⟩ := r
    rw [compile_miss hcache hr]
    cases outcome with
    | error e => exact hmemoizes
    | ok id =>
      refine ⟨hmemoizes.helpers, hmemoizes.knownHelpersOnly, hmemoizes.noFunctionValues,
        hmemoizes.partials, ?_⟩
      change _ ⊆ (s'.environment.cache.insert source id).values
      rw [Dict.values_insert_of_none hcache']
      exact List.subset_append_of_subset_left _ hmemoizes.cache

/-- Rendering leaves the session as compiling does, but for the events. -/
theorem render_session {σ : Type} {host : Host σ} {depth : Nat} {context : Value}
    {state state' : σ} {result : Except TemplateError String}
    (h : s.render host depth source context o state = some (result, state', s')) :
    ∃ events, s' = { (Session.compile source o s).2 with events } := by
  generalize hr : Session.compile source o s = r
  obtain ⟨outcome, after⟩ := r
  cases outcome with
  | error e =>
    rw [render_error host state hr] at h
    cases h
    exact ⟨_, rfl⟩
  | ok id =>
    rw [render_ok host state hr] at h
    obtain ⟨world, -, heq⟩ := Option.map_eq_some_iff.1 h
    cases heq
    exact ⟨_, rfl⟩

/-- A session that goes on from a library, in which some templates were held: it holds them still,
and draws on nothing else from there. -/
structure Upon (l : Library) (base : List TemplateId) (s : Session) : Prop where
  numbered : s.Numbered
  draws : l.Draws base s.library
  old : base ⊆ s.held
  drawn : ∀ id ∈ s.held, id < l.next → l.Reaches base id

def AtHand (s : Session) (next id : TemplateId) : Prop :=
  id ∈ s.held ∨ next ≤ id ∧ id < s.library.next

namespace Upon

theorem refl (hs : s.Numbered) (hl : s.library.Bounded) : s.Upon s.library s.held :=
  ⟨hs, .refl hl _, List.Subset.refl _, fun _ hid _ => .held hid⟩

theorem lt_of_atHand (h : s.Upon l base) (hid : s.AtHand l.next id) : id < s.library.next :=
  hid.elim h.numbered.held And.right

theorem drawn_of_atHand (h : s.Upon l base) (hid : s.AtHand l.next id) (hlt : id < l.next) :
    l.Reaches base id := by
  rcases hid with hid | ⟨hge, -⟩
  · exact h.drawn id hid hlt
  · exact absurd hlt (Nat.not_lt.2 hge)

theorem withEvents (h : s.Upon l base) (events : List Event) : ({ s with events }).Upon l base :=
  ⟨⟨h.numbered.library, h.numbered.environment, h.numbered.elsewhere⟩, h.draws, h.old, h.drawn⟩

/-- A call with registrations of its own finds only partials that may be drawn on. -/
theorem draws_shelfUnder (h : s.Upon l base)
    (ho : ∀ id, Partial.compiled id ∈ o.partials.values → s.AtHand l.next id) :
    (s.shelfUnder o).Draws l base := by
  refine ⟨h.draws, fun name id hid => ?_⟩
  have hmem := Environment.mem_values_compiledPartials.1 (Dict.mem_values_of_get? hid)
  rcases Dict.mem_values_extend hmem with hmem | hmem
  · exact h.drawn_of_atHand (ho id hmem)
  · exact h.drawn id
      (List.mem_append_left _ (List.mem_append_left _
        (Environment.mem_values_compiledPartials.2 hmem)))

theorem compileUncached (h : s.Upon l base)
    (ho : ∀ id, Partial.compiled id ∈ o.partials.values → s.AtHand l.next id) (source : String) :
    (compileUncached source o s).2.Upon l base ∧
      ∀ id, (compileUncached source o s).1 = .ok id → l.next ≤ id := by
  have hnumbered := (compileUncached_continues h.numbered
    (fun id hid => h.lt_of_atHand (ho id hid)) source).1.numbered
  have hheld := (compileUncached_memoizes h.numbered.environment.partials source o).held
    h.numbered.environment.partials hnumbered.environment.partials
  have hends := (draws_course l base).compile (s.environment.dialect o)
    (s.environment.overlaid o).waiting source (h.draws_shelfUnder ho)
  rw [compileUncached_eq] at hnumbered hheld ⊢
  generalize Stencil.compile (s.environment.dialect o) (s.environment.overlaid o).waiting source
    (s.shelfUnder o) = r at hnumbered hheld hends ⊢
  refine ⟨⟨hnumbered, ?_, fun id hid => ?_, fun id hid => ?_⟩, fun id hid => ?_⟩
  · obtain ⟨outcome, shelf⟩ := r
    cases outcome with
    | error e => exact hends.kept.library
    | ok t => exact hends.kept.library.add fun other hother => hends.good t rfl _ hother other rfl
  · exact (List.mem_append.1 (h.old hid)).elim (fun hid => List.mem_append_left _ (hheld hid))
      (List.mem_append_right _)
  · rcases List.mem_append.1 hid with hid | hid
    · dsimp only at hid
      split at hid
      · exact h.drawn id (List.mem_append_left _ hid)
      · have hnew := Environment.held_remember h.numbered.environment.partials hid
        rcases hnew with hold | ⟨name, hname⟩
        · exact h.drawn id (List.mem_append_left _ hold)
        · exact hends.kept.compiled name id hname
    · exact h.drawn id (List.mem_append_right _ hid)
  · obtain ⟨outcome, shelf⟩ := r
    cases outcome with
    | error e => cases hid
    | ok t =>
      cases hid
      exact hends.kept.library.extends_library.next

theorem keep (h : s.Upon l base) (hcache : s.environment.cache.get? source = none)
    (hlt : id < s.library.next) (hid : l.next ≤ id) : (s.keep source (.ok id)).Upon l base := by
  refine ⟨⟨h.numbered.library, h.numbered.environment.keep source hlt, h.numbered.elsewhere⟩,
    h.draws, fun other hother => (mem_held_keep hcache).2 (.inl (h.old hother)),
    fun other hother hnext => ?_⟩
  rcases (mem_held_keep hcache).1 hother with hother | rfl
  · exact h.drawn other hother hnext
  · exact absurd hnext (Nat.not_lt.2 hid)

theorem compile (h : s.Upon l base)
    (ho : ∀ id, Partial.compiled id ∈ o.partials.values → s.AtHand l.next id) (source : String) :
    (Session.compile source o s).2.Upon l base := by
  cases hcache : s.environment.cache.get? source with
  | some id =>
    rw [compile_hit hcache]
    exact h.withEvents _
  | none =>
    let first := s.report (.compilingTemplate source.utf8ByteSize)
    have hfirst : first.Upon l base := h.withEvents _
    have hcontinues := compileUncached_continues hfirst.numbered
      (fun id hid => h.lt_of_atHand (ho id hid)) source
    obtain ⟨hupon, hid⟩ := hfirst.compileUncached ho source
    have hcache' := (congrArg (Dict.get? · source)
      (cache_compileUncached source o first)).trans hcache
    generalize hr : Session.compileUncached source o first = r at hcontinues hupon hid hcache'
    obtain ⟨outcome, s'⟩ := r
    rw [compile_miss hcache hr]
    cases outcome with
    | error e => exact hupon
    | ok id => exact hupon.keep hcache' (hcontinues.2 id rfl) (hid id rfl)

end Upon

/-- A compiled partial is what a call with these options would compile its source to. -/
def UpToDate (s : Session) (o : Options) (text : String) (id : TemplateId) : Prop :=
  ∃ t, s.library.get? id = some t ∧
    (Outline.ofSource (s.environment.dialect o) text).ending = .ok t.items ∧
      ∀ name ∈ (Outline.ofSource (s.environment.dialect o) text).asks,
        ∃ target, t.links.get? name = some target ∧
          (s.environment.overlaid o).partials.get? name = some (.compiled target.id)

theorem UpToDate.current {text : String} (h : s.UpToDate o text id) (ho : o.overlay = false)
    (hd : s.environment.partials.Distinct) : (s.origin o hd).Current text id := by
  obtain ⟨t, ht, hending, hlinks⟩ := h
  refine ⟨t, ht, hending, fun name hname => ?_⟩
  obtain ⟨target, htarget, hcompiled⟩ := hlinks name hname
  rw [Environment.overlaid_eq ho] at hcompiled
  exact ⟨target, htarget, (Environment.get?_compiledPartials_eq_some hd).2 hcompiled⟩

/-- Two registries agree on all partials but those that were compiled in place, which are up to
date. -/
theorem counterparts_of_memoized (hs : s.Numbered) (hs' : s'.Numbered) (ho : o.overlay = false)
    (hdialect : s'.environment.dialect o' = s.environment.dialect o)
    (hmemo : s'.environment.partials.Memoized s.environment.partials)
    (hcurrent : ∀ name, (s.environment.dialect o).Involves s'.environment.waiting source name →
      ∀ text id, s'.environment.partials.get? name = some (.source text) →
        s.environment.partials.get? name = some (.compiled id) → s.UpToDate o text id) :
    (s.origin o hs.environment.partials).Counterparts s'.library.next
      ((s.environment.dialect o).Involves s'.environment.waiting source)
      (s'.origin o' hs'.environment.partials) where
  dialect := hdialect
  agrees name hname := by
    have hget := Environment.get?_waiting hs.environment.partials name
    have hget' := Environment.get?_waiting hs'.environment.partials name
    have hid := Environment.get?_compiledPartials hs.environment.partials name
    have hid' := Environment.get?_compiledPartials hs'.environment.partials name
    rcases hmemo name with heq | ⟨text, id, htext, hcompiled⟩
    · rw [heq] at hget hid
      cases hp : s'.environment.partials.get? name with
      | none =>
        rw [hp] at hget hget' hid hid'
        exact .unknown hget hid hget' hid'
      | some p =>
        rw [hp] at hget hget' hid hid'
        cases p with
        | source text => exact .waiting hget hget'
        | compiled id =>
          exact .old (hs'.environment.compiled id (Dict.mem_values_of_get? hp)) hid hid'
    · rw [hcompiled] at hid
      rw [htext] at hget'
      exact .current hid hget' ((hcurrent name hname text id htext hcompiled).current ho _)
  through _ _ hname htext _ hother := .through hname htext hother

theorem atHand_of_overlay (ho : o.overlay = false) (s : Session) (next id : TemplateId)
    (hid : Partial.compiled id ∈ o.partials.values) : s.AtHand next id := by
  obtain ⟨⟨helpers⟩, ⟨partials⟩, data, knownHelpersOnly, noFunctionValues⟩ := o
  cases partials with
  | nil => cases hid
  | cons entry rest => cases helpers <;> cases ho

/-- Earlier templates are the same in both libraries, and the same of them are live. -/
theorem Upon.shares (hl : l.Numbered) (hbase : ∀ id ∈ base, id < l.next) (h : s.Upon l base)
    (h' : s'.Upon l base) {id id' : TemplateId} (hid : l.next ≤ id) (hid' : l.next ≤ id') :
    s.library.Shares l.next (s.library.reach (id :: s.held)) s'.library
      (s'.library.reach (id' :: s'.held)) := by
  have hget {s : Session} (h : s.Upon l base) {id : TemplateId} (hlt : id < l.next) :
      s.library.get? id = l.get? id := h.draws.extends_library.get? id hlt
  have hlive {s : Session} (h : s.Upon l base) {id other : TemplateId} (hid : l.next ≤ id)
      (hlt : other < l.next) :
      other ∈ s.library.reach (id :: s.held) ↔ l.Reaches base other := by
    refine h.draws.mem_reach_iff hl hbase (List.subset_cons_of_subset id h.old) ?_ hlt
    exact List.forall_mem_cons.2 ⟨fun hnext => absurd hnext (Nat.not_lt.2 hid), h.drawn⟩
  exact ⟨fun other hlt => (hget h hlt).trans (hget h' hlt).symm,
    fun other hlt t ht => hl other t ((hget h hlt).symm.trans ht),
    fun other hlt => (hlive h hid hlt).trans (hlive h' hid' hlt).symm⟩

/-- A source comes to the same in two sessions with the same registrations, if all the partials
that were compiled in place in only one of them are up to date. -/
theorem Upon.rendered_eq (h : s.Upon s'.library base) (h' : s'.Upon s'.library base)
    (hbase : ∀ id ∈ base, id < s'.library.next) (ho : o.overlay = false)
    (ho' : o'.overlay = false) (hdialect : s'.environment.dialect o' = s.environment.dialect o)
    (hmemo : s'.environment.partials.Memoized s.environment.partials)
    (hcurrent : ∀ name, (s.environment.dialect o).Involves s'.environment.waiting source name →
      ∀ text id, s'.environment.partials.get? name = some (.source text) →
        s.environment.partials.get? name = some (.compiled id) → s.UpToDate o text id)
    {σ : Type} (host : Host σ) (depth : Nat) (context : Value) (data : Object) (state : σ) :
    rendered host depth context data state (Session.compileUncached source o s) =
      rendered host depth context data state (Session.compileUncached source o' s') := by
  have hcounterparts := counterparts_of_memoized h.numbered h'.numbered ho hdialect hmemo hcurrent
  have hover : s.Over _ fun _ => False := over_origin s o h.numbered.environment.partials
  have hcompiles := compileUncached_compiles hover rfl ho source
  have hover' : s'.Over _ fun _ => False := over_origin s' o' h'.numbered.environment.partials
  have hcompiles' := compileUncached_compiles hover' rfl ho' source
  have hcheck := hcounterparts.check_source
    fun name (hname : name ∈ (Outline.ofSource (s.environment.dialect o) source).asks) =>
      .direct hname
  obtain ⟨hafter, hlater⟩ := h.compileUncached (atHand_of_overlay ho s _) source
  obtain ⟨hafter', hlater'⟩ := h'.compileUncached (atHand_of_overlay ho' s' _) source
  generalize Session.compileUncached source o s = r at hcompiles hafter hlater
  generalize Session.compileUncached source o' s' = r' at hcompiles' hafter' hlater'
  obtain ⟨outcome, after⟩ := r
  obtain ⟨outcome', after'⟩ := r'
  cases hcompiles with
  | error _ _ check =>
    cases hcompiles' with
    | error _ _ check' =>
      cases (check.symm.trans hcheck).trans check'
      rw [rendered_error, rendered_error]
    | ok _ _ _ _ _ check' =>
      cases (check.symm.trans hcheck).trans check'
  | @ok t _ _ hnow _ _ template stands check =>
    cases hcompiles' with
    | error _ _ check' =>
      cases (check.symm.trans hcheck).trans check'
    | @ok t' _ _ hnow' _ _ template' stands' check' =>
      have hheld (s : Session) (id : TemplateId) : s.environment.held ⊆ id :: s.held :=
        List.subset_cons_of_subset id (List.subset_append_left _ _)
      have hshares := hafter.shares h'.numbered.library hbase hafter' (hlater _ rfl) (hlater' _ rfl)
      have hitems : t.items = t'.items := Except.ok.inj ((check.symm.trans hcheck).trans check')
      have hnames (name : String) (hname : name ∈ includes t.items) :
          Paired s'.library.next ((s.environment.dialect o).Involves s'.environment.waiting source)
            after after' t.links t'.links name := by
        have hasks := Outline.includes_subset_asks stands.ending hname
        obtain ⟨target, htarget⟩ := (stands.asks name).1 hasks
        obtain ⟨target', htarget'⟩ := (stands'.asks name).1 (by rwa [hcounterparts.dialect])
        exact .inl ⟨.direct hasks, target, target', htarget, htarget',
          stands.links name target htarget, stands'.links name target' htarget'⟩
      rw [rendered_ok, rendered_ok]
      exact congrArg Except.ok (render_paired hcounterparts
        (fun _ _ => h.numbered.environment.get?_compiledPartials) hnow (hheld _ _) hnow' (hheld _ _)
        hshares template template' hitems hnames host depth context data state)

end Session
end Stencil
