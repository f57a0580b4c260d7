import Stencil.Proofs.Counterparts

set_option autoImplicit false

/-!
# Sessions over one origin

Two sessions with the same origin, in which different partials are compiled by now, give the same
outcome for every source.
-/
namespace Stencil

namespace Dict
variable {α : Type} {d : Dict α}

theorem get?_of_mem_values (h : d.Distinct) {v : α} (hv : v ∈ d.values) :
    ∃ key, d.get? key = some v := by
  obtain ⟨⟨key, _⟩, hmem, rfl⟩ := List.mem_map.1 hv
  exact ⟨key, firstEntry_of_mem h hmem⟩

theorem values_insert_of_none {key : String} (h : d.get? key = none) (value : α) :
    (d.insert key value).values = d.values ++ [value] := by
  obtain ⟨entries⟩ := d
  change firstEntry key entries = none at h
  change (insertEntry key value entries).map Prod.snd = entries.map Prod.snd ++ [value]
  induction entries with
  | nil => rfl
  | cons entry rest ih =>
    rw [firstEntry] at h
    split at h
    · cases h
    · next hne => rw [insertEntry, if_neg hne, List.map_cons, List.map_cons, ih h, List.cons_append]

end Dict

theorem Environment.distinct_compiledPartials {e : Environment} (h : e.partials.Distinct) :
    e.compiledPartials.Distinct := by
  refine List.Nodup.sublist ?_ h
  unfold Dict.keys compiledPartials
  dsimp only
  generalize e.partials.entries = entries
  induction entries with
  | nil => exact .slnil
  | cons entry rest ih =>
    obtain ⟨name, p⟩ := entry
    cases p with
    | source text => exact ih.cons name
    | compiled id => exact ih.cons_cons name

structure Origin.Numbered (origin : Origin) (base : List TemplateId) : Prop where
  library : origin.library.Numbered
  held : ∀ id ∈ base, id < origin.library.next
  compiled : ∀ name id, origin.compiled.get? name = some id → id ∈ base

theorem Origin.Numbered.counterparts {origin : Origin} {base : List TemplateId}
    (hbase : origin.Numbered base) :
    origin.Counterparts origin.library.next (fun _ => True) origin where
  dialect := rfl
  agrees name _ := by
    cases hid : origin.compiled.get? name with
    | some id => exact .old (hbase.held id (hbase.compiled name id hid)) hid hid
    | none =>
      cases hsource : origin.sources.get? name with
      | none => exact .unknown hsource hid hsource hid
      | some text => exact .waiting hsource hsource
  through _ _ _ _ _ _ := True.intro

namespace Session

def held (s : Session) : List TemplateId := s.environment.held ++ s.heldElsewhere

/-- What comes of rendering what was compiled. There is no result if that goes deeper than `depth`. -/
def rendered {σ : Type} (host : Host σ) (depth : Nat) (context : Value) (data : Object) (state : σ)
    (compiled : Except TemplateError TemplateId × Session) :
    Except TemplateError (Option (Except TemplateError String × σ)) :=
  compiled.1.map fun id =>
    ((compiled.2.library.render compiled.2.held host depth id context data).run
      { state, events := compiled.2.events }).map fun (result, world) => (result, world.state)

section
variable {σ : Type} (host : Host σ) (depth : Nat) (context : Value) (data : Object) (state : σ)

@[simp] theorem rendered_error (e : TemplateError) (s : Session) :
    rendered host depth context data state (.error e, s) = .error e := rfl

@[simp] theorem rendered_ok (id : TemplateId) (s : Session) :
    rendered host depth context data state (.ok id, s) =
      .ok (((s.library.render s.held host depth id context data).run
        { state, events := s.events }).map fun (result, world) => (result, world.state)) := rfl

end

def outcome {σ : Type} (host : Host σ) (depth : Nat) (cached : Bool) (source : String)
    (context : Value) (o : Options) (state : σ) (s : Session) :
    Except TemplateError (Option (Except TemplateError String × σ)) :=
  rendered host depth context o.data state
    ((if cached then Session.compile else compileUncached) source o s)

/-- A template that came later, linked to what its partials are compiled to. -/
def Modern (origin : Origin) (s : Session) (id : TemplateId) : Prop :=
  origin.library.next ≤ id ∧ ∃ t, s.library.get? id = some t ∧ t.links.Distinct ∧
    ∀ name target, t.links.get? name = some target → Leads (s.shelf []) (fun _ => False) name target

/-- What is held at the beginning is held still, besides templates that came later. -/
structure Holds (origin : Origin) (base : List TemplateId) (s : Session) (held : List TemplateId) :
    Prop where
  old : base ⊆ held
  environment : s.environment.held ⊆ held
  other : ∀ id ∈ held, id ∈ base ∨ s.Modern origin id

variable {origin : Origin} {base held : List TemplateId} {s : Session} {id : TemplateId}

theorem Over.modern (h : s.Over origin fun _ => False) {name : String}
    (hid : (s.shelf []).compiled.get? name = some id) (hnone : origin.compiled.get? name = none) :
    s.Modern origin id := by
  obtain ⟨hnew, source, t, -, ht, hstands⟩ := h.sound.made name id hid hnone
  exact ⟨hnew.1, t, ht, hstands.distinct, hstands.links⟩

theorem Over.mem_or_modern (h : s.Over origin fun _ => False) (hbase : origin.Numbered base)
    {name : String} (hid : (s.shelf []).compiled.get? name = some id) :
    id ∈ base ∨ s.Modern origin id := by
  cases hold : origin.compiled.get? name with
  | none => exact .inr (h.modern hid hold)
  | some id' =>
    cases (h.sound.kept name id' hold).symm.trans hid
    exact .inl (hbase.compiled name id hold)

/-- What is reachable now was reachable at the beginning, or came later. -/
theorem Over.of_reaches (h : s.Over origin fun _ => False) (hbase : origin.Numbered base)
    (hheld : s.Holds origin base held) (hid : s.library.Reaches held id) :
    id < origin.library.next ∧ origin.library.Reaches base id ∨ s.Modern origin id := by
  have hin (id : TemplateId) (hid : id ∈ base ∨ s.Modern origin id) :
      id < origin.library.next ∧ origin.library.Reaches base id ∨ s.Modern origin id :=
    hid.imp_left fun hid => ⟨hbase.held id hid, .held hid⟩
  induction hid with
  | held hid => exact hin _ (hheld.other _ hid)
  | @kept id other _ hkeeps ih =>
    obtain ⟨t, ht, hother⟩ := Library.mem_keeps.1 hkeeps
    rcases ih with ⟨hlt, hreaches⟩ | ⟨-, t', ht', hdistinct, hleads⟩
    · have hold : origin.library.get? id = some t := (h.sound.library id hlt).symm.trans ht
      exact .inl ⟨hbase.library id t hold _ hother,
        .kept hreaches (Library.mem_keeps.2 ⟨t, hold, hother⟩)⟩
    · cases ht.symm.trans ht'
      obtain ⟨name, hname⟩ := Dict.get?_of_mem_values hdistinct hother
      exact hin other (h.mem_or_modern hbase (hleads name _ hname))

theorem Over.reaches (h : s.Over origin fun _ => False) (hbase : origin.Numbered base)
    (hheld : s.Holds origin base held) (hid : origin.library.Reaches base id) :
    id < origin.library.next ∧ s.library.Reaches held id := by
  induction hid with
  | held hid => exact ⟨hbase.held _ hid, .held (hheld.old hid)⟩
  | @kept id other _ hkeeps ih =>
    obtain ⟨hlt, hreaches⟩ := ih
    obtain ⟨t, ht, hother⟩ := Library.mem_keeps.1 hkeeps
    exact ⟨hbase.library id t ht _ hother,
      .kept hreaches (Library.mem_keeps.2 ⟨t, (h.sound.library id hlt).trans ht, hother⟩)⟩

theorem Over.mem_reach_iff (h : s.Over origin fun _ => False) (hbase : origin.Numbered base)
    (hheld : s.Holds origin base held) (hid : id < origin.library.next) :
    id ∈ s.library.reach held ↔ origin.library.Reaches base id := by
  rw [Library.mem_reach_iff]
  constructor
  · intro hreaches
    rcases h.of_reaches hbase hheld hreaches with ⟨-, hreaches⟩ | hmodern
    · exact hreaches
    · exact absurd hid (Nat.not_lt.2 hmodern.1)
  · exact fun hreaches => (h.reaches hbase hheld hreaches).2

theorem render_related {s' : Session} {held' : List TemplateId} (hbase : origin.Numbered base)
    {id' : TemplateId} (h : s.Over origin fun _ => False)
    (hheld : s.Holds origin base (id :: held)) (h' : s'.Over origin fun _ => False)
    (hheld' : s'.Holds origin base (id' :: held')) {t t' : Template}
    (ht : s.library.get? id = some t) (ht' : s'.library.get? id' = some t')
    (hitems : t.items = t'.items)
    (hnames : ∀ name ∈ includes t.items,
      Paired origin.library.next (fun _ => True) s s' t.links t'.links name)
    {σ : Type} (host : Host σ) (depth : Nat) (context : Value) (data : Object) (state : σ) :
    ((s.library.render held host depth id context data).run { state, events := s.events }).map
        (fun (result, world) => (result, world.state)) =
      ((s'.library.render held' host depth id' context data).run
        { state, events := s'.events }).map fun (result, world) => (result, world.state) := by
  have hlibrary {id : TemplateId} (hid : id < origin.library.next) :
      s.library.get? id = origin.library.get? id := h.sound.library id hid
  have hlibrary' {id : TemplateId} (hid : id < origin.library.next) :
      s'.library.get? id = origin.library.get? id := h'.sound.library id hid
  have hshares : s.library.Shares origin.library.next (s.library.reach (id :: held)) s'.library
      (s'.library.reach (id' :: held')) :=
    ⟨fun id hid => (hlibrary hid).trans (hlibrary' hid).symm,
      fun id hid t ht => hbase.library id t ((hlibrary hid).symm.trans ht),
      fun id hid => (h.mem_reach_iff hbase hheld hid).trans (h'.mem_reach_iff hbase hheld' hid).symm⟩
  exact render_paired hbase.counterparts (fun name id hid => hbase.held id (hbase.compiled name id hid))
    h hheld.environment h' hheld'.environment hshares ht ht' hitems hnames host depth context data
    state

theorem render_eq_outcome {σ : Type} (host : Host σ) (depth : Nat) (source : String)
    (context : Value) (o : Options) (state : σ) (s : Session) :
    (s.render host depth source context o state).map (fun r => (r.1, r.2.1)) =
      match s.outcome host depth true source context o state with
      | .error e => some (.error e, state)
      | .ok result => result := by
  unfold outcome
  rw [if_pos rfl]
  generalize hr : Session.compile source o s = r
  obtain ⟨compiled, s'⟩ := r
  cases compiled with
  | error e =>
    rw [render_error host state hr, rendered_error]
    rfl
  | ok id =>
    rw [render_ok host state hr, rendered_ok, Option.map_map]
    rfl

theorem numbered_origin (h : s.Numbered) (o : Options) (hd : s.environment.partials.Distinct) :
    (s.origin o hd).Numbered s.held := by
  refine ⟨h.library, fun id hid => ?_, fun name id hid => ?_⟩
  · rcases List.mem_append.1 hid with hid | hid
    · exact h.environment.held hid
    · exact h.elsewhere id hid
  · exact List.mem_append_left _ (List.mem_append_left _ (Dict.mem_values_of_get? hid))

/-- A session in the environment of another, in which more partials may be compiled. -/
structure Twin (first : Session) (o : Options) (hd : first.environment.partials.Distinct)
    (s : Session) : Prop where
  after : s.Over (first.origin o hd) fun _ => False
  environment : s.environment = { first.environment with partials := s.environment.partials }
  elsewhere : s.heldElsewhere = first.heldElsewhere

theorem Holds.cons (h : s.Holds origin base held) (hid : id ∈ base ∨ s.Modern origin id) :
    s.Holds origin base (id :: held) := by
  refine ⟨List.subset_cons_of_subset id h.old, List.subset_cons_of_subset id h.environment, ?_⟩
  intro other hother
  rcases List.mem_cons.1 hother with rfl | hother
  · exact hid
  · exact h.other other hother

namespace Twin
variable {first : Session} {o : Options} {hd : first.environment.partials.Distinct}

theorem refl (first : Session) (o : Options) (hd : first.environment.partials.Distinct) :
    Twin first o hd first :=
  ⟨over_origin first o hd, rfl, rfl⟩

theorem cache (h : Twin first o hd s) : s.environment.cache = first.environment.cache := by
  rw [h.environment]

theorem dialect (h : Twin first o hd s) :
    s.environment.dialect o = (first.origin o hd).dialect := by
  rw [h.environment]
  rfl

theorem report (h : Twin first o hd s) (event : Event) : Twin first o hd (s.report event) :=
  ⟨h.after.withEvents _, h.environment, h.elsewhere⟩

theorem follows (h : Twin first o hd s) {s' : Session} (hf : s.Follows (fun _ => False) s')
    (hover : s'.Over (first.origin o hd) fun _ => False) : Twin first o hd s' := by
  refine ⟨hover, ?_, hf.elsewhere.trans h.elsewhere⟩
  have henvironment := hf.environment
  rw [h.environment] at henvironment
  exact henvironment

theorem holds (h : Twin first o hd s) (hfirst : first.Numbered) :
    s.Holds (first.origin o hd) first.held s.held := by
  refine ⟨fun id hid => ?_, List.subset_append_left _ _, fun id hid => ?_⟩
  · rcases List.mem_append.1 hid with hid | hid
    · refine List.mem_append_left _ ?_
      rcases List.mem_append.1 hid with hid | hid
      · obtain ⟨name, hname⟩ :=
          Dict.get?_of_mem_values (Environment.distinct_compiledPartials hd) hid
        exact List.mem_append_left _
          (Dict.mem_values_of_get? (h.after.sound.kept name id hname))
      · refine List.mem_append_right _ ?_
        rw [h.cache]
        exact hid
    · refine List.mem_append_right _ ?_
      rw [h.elsewhere]
      exact hid
  · rcases List.mem_append.1 hid with hid | hid
    · rcases List.mem_append.1 hid with hid | hid
      · obtain ⟨name, hname⟩ :=
          Dict.get?_of_mem_values (Environment.distinct_compiledPartials h.after.distinct) hid
        exact h.after.mem_or_modern (numbered_origin hfirst o hd) hname
      · rw [h.cache] at hid
        exact .inl (List.mem_append_left _ (List.mem_append_right _ hid))
    · rw [h.elsewhere] at hid
      exact .inl (List.mem_append_right _ hid)

end Twin

theorem mem_held_keep {source : String} (h : s.environment.cache.get? source = none)
    {other : TemplateId} : other ∈ (s.keep source (.ok id)).held ↔ other ∈ s.held ∨ other = id := by
  change other ∈ s.environment.compiledPartials.values ++
    (s.environment.cache.insert source id).values ++ s.heldElsewhere ↔
      other ∈ s.environment.compiledPartials.values ++ s.environment.cache.values ++
        s.heldElsewhere ∨ other = id
  rw [Dict.values_insert_of_none h]
  simp only [List.mem_append, List.mem_singleton]
  tauto

theorem Holds.keep (h : s.Holds origin base s.held) {source : String}
    (hcache : s.environment.cache.get? source = none) (hid : s.Modern origin id) :
    (s.keep source (.ok id)).Holds origin base (s.keep source (.ok id)).held := by
  refine ⟨fun other hother => (mem_held_keep hcache).2 (.inl (h.old hother)),
    List.subset_append_left _ _, fun other hother => ?_⟩
  rcases (mem_held_keep hcache).1 hother with hother | rfl
  · exact h.other other hother
  · exact .inr hid

inductive Fresh (origin : Origin) (base : List TemplateId) (source : String) :
    Except TemplateError TemplateId × Session → Prop
  | ok {id : TemplateId} {t : Template} {s : Session} (after : s.Over origin fun _ => False)
    (holds : s.Holds origin base s.held) (later : origin.library.next ≤ id)
    (template : s.library.get? id = some t)
    (stands : origin.Stands (s.shelf []) (fun _ => False) source t)
    (check : (Outline.ofSource origin.dialect source).check source
      (check origin.dialect origin.known origin.sources) = .ok t.items) :
    Fresh origin base source (.ok id, s)
  | error {e : TemplateError} {s : Session}
    (check : (Outline.ofSource origin.dialect source).check source
      (check origin.dialect origin.known origin.sources) = .error e) :
    Fresh origin base source (.error e, s)

section
variable {first : Session} {o : Options} {hd : first.environment.partials.Distinct}
  (hfirst : first.Numbered) (ho : o.overlay = false)
include hfirst ho

theorem Twin.compileUncached_fresh (h : Twin first o hd s) (source : String) :
    Fresh (first.origin o hd) first.held source (compileUncached source o s) := by
  have hcompiles := compileUncached_compiles h.after h.dialect ho source
  generalize compileUncached source o s = r at hcompiles
  obtain ⟨outcome, s'⟩ := r
  cases hcompiles with
  | error after follows check => exact .error check
  | ok after follows new template stands check =>
    exact .ok after ((h.follows follows after).holds hfirst) new.1 template stands check

theorem Twin.compile_fresh (h : Twin first o hd s) {source : String}
    (hcache : first.environment.cache.get? source = none) :
    Fresh (first.origin o hd) first.held source (Session.compile source o s) := by
  have hnone : s.environment.cache.get? source = none := by
    rw [h.cache]
    exact hcache
  have hreport := h.report (.compilingTemplate source.utf8ByteSize)
  have hcompiles := compileUncached_compiles hreport.after hreport.dialect ho source
  generalize hr : compileUncached source o (s.report (.compilingTemplate source.utf8ByteSize)) = r
    at hcompiles
  obtain ⟨outcome, s'⟩ := r
  rw [compile_miss hnone hr]
  cases hcompiles with
  | error after follows check => exact .error check
  | ok after follows new template stands check =>
    have htwin := hreport.follows follows after
    have hcache' : s'.environment.cache.get? source = none := by
      rw [htwin.cache]
      exact hcache
    exact .ok (after.keep source _)
      ((htwin.holds hfirst).keep hcache' ⟨new.1, _, template, stands.distinct, stands.links⟩) new.1
      template stands check

end

section
variable {σ : Type} (host : Host σ) (depth : Nat) (context : Value) (data : Object) (state : σ)

theorem Fresh.rendered_eq (hbase : origin.Numbered base) {source : String}
    {r r' : Except TemplateError TemplateId × Session} (h : Fresh origin base source r)
    (h' : Fresh origin base source r') :
    rendered host depth context data state r = rendered host depth context data state r' := by
  cases h with
  | error check =>
    cases h' with
    | error check' =>
      cases check.symm.trans check'
      rw [rendered_error, rendered_error]
    | ok _ _ _ _ _ check' => cases check.symm.trans check'
  | ok after holds later template stands check =>
    cases h' with
    | error check' => cases check.symm.trans check'
    | ok after' holds' later' template' stands' check' =>
      have hheld := holds.cons (.inr ⟨later, _, template, stands.distinct, stands.links⟩)
      have hheld' := holds'.cons (.inr ⟨later', _, template', stands'.distinct, stands'.links⟩)
      rw [rendered_ok, rendered_ok]
      refine congrArg Except.ok (render_related hbase after hheld after' hheld' template template'
        (Except.ok.inj (check.symm.trans check')) ?_ host depth context data state)
      intro name hname
      have hasks := Outline.includes_subset_asks stands.ending hname
      obtain ⟨target, htarget⟩ := (stands.asks name).1 hasks
      obtain ⟨target', htarget'⟩ := (stands'.asks name).1 hasks
      exact .inl ⟨True.intro, target, target', htarget, htarget', stands.links name target htarget,
        stands'.links name target' htarget'⟩

theorem rendered_held (hbase : origin.Numbered base) {s' : Session}
    (h : s.Over origin fun _ => False) (hheld : s.Holds origin base s.held)
    (h' : s'.Over origin fun _ => False) (hheld' : s'.Holds origin base s'.held)
    (hid : id ∈ base) :
    rendered host depth context data state (.ok id, s) =
      rendered host depth context data state (.ok id, s') := by
  have hlt := hbase.held id hid
  have heq : s.library.get? id = origin.library.get? id := h.sound.library id hlt
  have heq' : s'.library.get? id = origin.library.get? id := h'.sound.library id hlt
  rw [rendered_ok, rendered_ok]
  refine congrArg Except.ok ?_
  cases ht : origin.library.get? id with
  | none =>
    unfold Library.render
    rw [heq, heq', ht]
    rfl
  | some t =>
    rw [ht] at heq heq'
    exact render_related hbase h (hheld.cons (.inl hid)) h' (hheld'.cons (.inl hid)) heq heq' rfl
      (fun _ _ => .inr ⟨rfl, hbase.library id t ht⟩) host depth context data state

end

/-- Which partials are compiled does not show, as long as none is gone. -/
theorem Twin.outcome_eq {first : Session} {o : Options} {hd : first.environment.partials.Distinct}
    (h : Twin first o hd s) (hfirst : first.Numbered) (ho : o.overlay = false) {σ : Type}
    (host : Host σ) (depth : Nat) (cached : Bool) (source : String) (context : Value) (state : σ) :
    s.outcome host depth cached source context o state =
      first.outcome host depth cached source context o state := by
  have hbase := numbered_origin hfirst o hd
  have hrefl := Twin.refl first o hd
  unfold outcome
  cases cached with
  | false =>
    exact (h.compileUncached_fresh hfirst ho source).rendered_eq host depth context o.data state
      hbase (hrefl.compileUncached_fresh hfirst ho source)
  | true =>
    rw [if_pos rfl]
    cases hcache : first.environment.cache.get? source with
    | none =>
      exact (h.compile_fresh hfirst ho hcache).rendered_eq host depth context o.data state hbase
        (hrefl.compile_fresh hfirst ho hcache)
    | some id =>
      have hcache' : s.environment.cache.get? source = some id := by
        rw [h.cache]
        exact hcache
      rw [compile_hit hcache, compile_hit hcache']
      have hreport := h.report (.cacheHit source.utf8ByteSize)
      have hreport' := hrefl.report (.cacheHit source.utf8ByteSize)
      exact rendered_held host depth context o.data state hbase hreport.after
        (hreport.holds hfirst) hreport'.after (hreport'.holds hfirst)
        (List.mem_append_left _ (List.mem_append_right _ (Dict.mem_values_of_get? hcache)))

end Session
end Stencil
