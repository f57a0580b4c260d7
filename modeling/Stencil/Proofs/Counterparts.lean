import Stencil.Proofs.Likeness
import Stencil.Proofs.Numbers

set_option autoImplicit false

/-!
# Counterparts

Two registries in which the same partials are registered, though one of them may have compiled more
of them before. What was compiled before makes no difference as long as it is current: its source
comes to the same items now, and the partials it is linked to are those that are registered now.
-/
namespace Stencil

theorem Outline.check_congr {source : String} {ask ask' : String → Except TemplateError Bool}
    {outline : Outline} (h : ∀ name ∈ outline.asks, ask name = ask' name) :
    outline.check source ask = outline.check source ask' := by
  induction outline with
  | finished items => rfl
  | failed f => rfl
  | asking name left next ih =>
    rw [asks, List.forall_mem_cons] at h
    rw [check, check, h.1, ih h.2]

namespace Origin

def Current (o : Origin) (text : String) (id : TemplateId) : Prop :=
  ∃ t, o.library.get? id = some t ∧ (Outline.ofSource o.dialect text).ending = .ok t.items ∧
    ∀ name ∈ (Outline.ofSource o.dialect text).asks,
      ∃ target, t.links.get? name = some target ∧ o.compiled.get? name = some target.id

/-- How a partial is registered on both sides. The numbers below `next` mean the same there. -/
inductive Agrees (next : TemplateId) (o o' : Origin) (name : String) : Prop
  | unknown (h : o.sources.get? name = none) (hid : o.compiled.get? name = none)
    (h' : o'.sources.get? name = none) (hid' : o'.compiled.get? name = none)
  | waiting {text : String} (h : o.sources.get? name = some text)
    (h' : o'.sources.get? name = some text)
  | old {id : TemplateId} (hlt : id < next) (h : o.compiled.get? name = some id)
    (h' : o'.compiled.get? name = some id)
  | current {text : String} {id : TemplateId} (h : o.compiled.get? name = some id)
    (h' : o'.sources.get? name = some text) (hcurrent : o.Current text id)

/-- Two origins that agree on the partials that come up. -/
structure Counterparts (next : TemplateId) (involved : String → Prop) (o o' : Origin) : Prop where
  dialect : o'.dialect = o.dialect
  agrees : ∀ name, involved name → Agrees next o o' name
  through : ∀ name text, involved name → o'.sources.get? name = some text →
    ∀ other ∈ (Outline.ofSource o.dialect text).asks, involved other

variable {next : TemplateId} {involved : String → Prop} {o o' : Origin} {name : String}

theorem sources_none {id : TemplateId} (h : o.compiled.get? name = some id) :
    o.sources.get? name = none := by
  cases hsource : o.sources.get? name with
  | none => rfl
  | some text => cases (o.apart name text hsource).symm.trans h

theorem Agrees.known (h : Agrees next o o' name) : o.known name = o'.known name := by
  unfold Origin.known
  cases h with
  | unknown h hid h' hid' => rw [h, hid, h', hid']
  | waiting h h' => rw [h, h', o.apart name _ h, o'.apart name _ h']
  | old hlt h h' => rw [h, h']; rfl
  | current h h' hcurrent =>
    rw [h, h']
    exact (Bool.or_true _).symm

namespace Counterparts

theorem compiled_closed (h : Counterparts next involved o o') {text : String} {id : TemplateId}
    (hname : involved name) (hid : o.compiled.get? name = some id)
    (htext : o'.sources.get? name = some text) :
    (∃ items, (Outline.ofSource o.dialect text).ending = .ok items) ∧
      ∀ other ∈ (Outline.ofSource o.dialect text).asks,
        involved other ∧ ∃ id, o.compiled.get? other = some id := by
  have hcurrent : o.Current text id := by
    cases h.agrees name hname with
    | unknown _ hnone => cases hnone.symm.trans hid
    | waiting hsource => cases (o.apart name _ hsource).symm.trans hid
    | old _ _ hid' => cases (o'.apart name text htext).symm.trans hid'
    | current hid' htext' hcurrent =>
      cases hid'.symm.trans hid
      cases htext'.symm.trans htext
      exact hcurrent
  obtain ⟨t, -, hending, hlinks⟩ := hcurrent
  refine ⟨⟨t.items, hending⟩, fun other hother =>
    ⟨h.through name text hname htext other hother, ?_⟩⟩
  obtain ⟨target, -, hid⟩ := hlinks other hother
  exact ⟨target.id, hid⟩

/-- Partials leave the sources while these are gone through, so there may be fewer of them. -/
theorem check_eq (h : Counterparts next involved o o') {waiting waiting' : Dict String}
    (hsame : ∀ name, involved name → waiting.get? name = waiting'.get? name ∨
      waiting.get? name = none ∧ ∃ id, o.compiled.get? name = some id)
    (hsub : ∀ name text, waiting'.get? name = some text → o'.sources.get? name = some text)
    (hname : involved name) :
    check o.dialect o.known waiting name = check o.dialect o'.known waiting' name := by
  induction hn : waiting'.size using Nat.strongRecOn generalizing waiting waiting' name with
  | ind n ih =>
    subst hn
    rcases hsame name hname with heq | ⟨hnone, id, hid⟩
    · cases hget : waiting'.get? name with
      | none => rw [check_none hget, check_none (heq.trans hget), (h.agrees name hname).known]
      | some text =>
        rw [check_some hget, check_some (heq.trans hget)]
        refine congrArg (Except.map _) (Outline.check_congr fun other hother => ?_)
        refine ih _ (Dict.size_erase_lt hget) (fun another hanother => ?_)
          (fun another text' htext => ?_)
          (h.through name text hname (hsub name text hget) other hother) rfl
        · rw [Dict.get?_erase, Dict.get?_erase]
          split
          · exact .inl rfl
          · exact hsame another hanother
        · rw [Dict.get?_erase] at htext
          split at htext
          · cases htext
          · exact hsub another text' htext
    · rw [check_none hnone, check_of_closed
        (fun name => involved name ∧ ∃ id, o.compiled.get? name = some id) ?_ ?_ ⟨hname, id, hid⟩]
      · unfold known
        rw [hid]
        rfl
      · rintro other ⟨hother, id', hid'⟩ text htext
        exact h.compiled_closed hother hid' (hsub other text htext)
      · rintro other ⟨hother, id', hid'⟩
        rw [← (h.agrees other hother).known, known, hid']
        rfl

theorem check_sources (h : Counterparts next involved o o') (hname : involved name) :
    check o.dialect o.known o.sources name = check o.dialect o'.known o'.sources name := by
  refine h.check_eq (fun other hother => ?_) (fun _ _ htext => htext) hname
  cases h.agrees other hother with
  | unknown h _ h' _ => exact .inl (h.trans h'.symm)
  | waiting h h' => exact .inl (h.trans h'.symm)
  | old _ h h' => exact .inl ((sources_none h).trans (sources_none h').symm)
  | current h => exact .inr ⟨sources_none h, _, h⟩

theorem check_source (h : Counterparts next involved o o') {source : String}
    (hasks : ∀ name ∈ (Outline.ofSource o.dialect source).asks, involved name) :
    (Outline.ofSource o.dialect source).check source (check o.dialect o.known o.sources) =
      (Outline.ofSource o'.dialect source).check source
        (check o'.dialect o'.known o'.sources) := by
  rw [h.dialect]
  exact Outline.check_congr fun name hname => h.check_sources (hasks name hname)

end Counterparts
end Origin

/-- Two libraries have the same templates below a number, and the same of these are live. -/
structure Library.Shares (next : TemplateId) (l : Library) (live : List TemplateId) (l' : Library)
    (live' : List TemplateId) : Prop where
  get? : ∀ id < next, l.get? id = l'.get? id
  links : ∀ id < next, ∀ t, l.get? id = some t → ∀ target ∈ t.links.values, target.id < next
  live : ∀ id < next, (id ∈ live ↔ id ∈ live')

theorem Library.Shares.partial?_eq {next : TemplateId} {l l' : Library}
    {live live' : List TemplateId} (h : Shares next l live l' live') {links : Dict Target}
    (hlinks : ∀ target ∈ links.values, target.id < next) (name : String) :
    l.partial? live links name = l'.partial? live' links name ∧
      ∀ t, l.partial? live links name = some t → ∀ target ∈ t.links.values, target.id < next := by
  unfold Library.partial?
  cases htarget : links.get? name with
  | none => exact ⟨rfl, nofun⟩
  | some target =>
    have hid := hlinks target (Dict.mem_values_of_get? htarget)
    cases target with
    | compiled id => exact ⟨h.get? id hid, h.links id hid⟩
    | pending id =>
      change (if id ∈ live then l.get? id else none) = (if id ∈ live' then l'.get? id else none) ∧
        ∀ t, (if id ∈ live then l.get? id else none) = some t → _
      by_cases hmem : id ∈ live
      · rw [if_pos hmem, if_pos ((h.live id hid).1 hmem)]
        exact ⟨h.get? id hid, h.links id hid⟩
      · rw [if_neg hmem, if_neg fun hmem' => hmem ((h.live id hid).2 hmem')]
        exact ⟨rfl, nofun⟩

namespace Session

/-- A template is what a source comes to now, linked to what its partials are compiled to. -/
def Reads (d : Dialect) (s : Session) (text : String) (id : TemplateId) : Prop :=
  ∃ t, s.library.get? id = some t ∧ (Outline.ofSource d text).ending = .ok t.items ∧
    ∀ name ∈ (Outline.ofSource d text).asks, ∃ target, t.links.get? name = some target ∧
      Leads (s.shelf []) (fun _ => False) name target

/-- Links to what a partial that comes up is compiled to on either side, or the same links to what
is there on both. -/
def Paired (next : TemplateId) (involved : String → Prop) (s s' : Session)
    (links links' : Dict Target) (name : String) : Prop :=
  (involved name ∧ ∃ target target', links.get? name = some target ∧
    links'.get? name = some target' ∧ Leads (s.shelf []) (fun _ => False) name target ∧
    Leads (s'.shelf []) (fun _ => False) name target') ∨
  links = links' ∧ ∀ target ∈ links.values, target.id < next

variable {next : TemplateId} {involved : String → Prop} {o o' : Origin} {s s' : Session}
  {held held' : List TemplateId} {name text : String} {id id' : TemplateId}

theorem Over.reads (h : s.Over o fun _ => False) (hsource : o.sources.get? name = some text)
    (hid : (s.shelf []).compiled.get? name = some id) : Reads o.dialect s text id := by
  obtain ⟨-, _, t, htext, ht, hstands⟩ := h.sound.made name id hid (o.apart name text hsource)
  cases htext.symm.trans hsource
  refine ⟨t, ht, hstands.ending, fun other hother => ?_⟩
  obtain ⟨target, htarget⟩ := (hstands.asks other).1 hother
  exact ⟨target, htarget, hstands.links other target htarget⟩

theorem Over.reads_current (h : s.Over o fun _ => False) (hlt : id < o.library.next)
    (hcurrent : o.Current text id) : Reads o.dialect s text id := by
  obtain ⟨t, ht, hending, hlinks⟩ := hcurrent
  have hlibrary : s.library.get? id = o.library.get? id := h.sound.library id hlt
  refine ⟨t, hlibrary.trans ht, hending, fun other hother => ?_⟩
  obtain ⟨target, htarget, hcompiled⟩ := hlinks other hother
  exact ⟨target, htarget, (leads_iff fun _ => rfl).2 (h.sound.kept other _ hcompiled)⟩

theorem Reads.paired {d : Dialect} (h : Reads d s text id) (h' : Reads d s' text id')
    (hinvolved : ∀ other ∈ (Outline.ofSource d text).asks, involved other) :
    ∃ t t', s.library.get? id = some t ∧ s'.library.get? id' = some t' ∧ t.items = t'.items ∧
      ∀ other ∈ includes t.items, Paired next involved s s' t.links t'.links other := by
  obtain ⟨t, ht, hending, hlinks⟩ := h
  obtain ⟨t', ht', hending', hlinks'⟩ := h'
  refine ⟨t, t', ht, ht', Except.ok.inj (hending.symm.trans hending'), fun other hother => ?_⟩
  have hasks := Outline.includes_subset_asks hending hother
  obtain ⟨target, htarget, hleads⟩ := hlinks other hasks
  obtain ⟨target', htarget', hleads'⟩ := hlinks' other hasks
  exact .inl ⟨hinvolved other hasks, target, target', htarget, htarget', hleads, hleads'⟩

section
variable (h : o.Counterparts next involved o')
  (hnumbered : ∀ name id, o.compiled.get? name = some id → id < o.library.next)
  (hs : s.Over o fun _ => False) (hheld : s.environment.held ⊆ held)
  (hs' : s'.Over o' fun _ => False) (hheld' : s'.environment.held ⊆ held')
  (hshares : s.library.Shares next (s.library.reach held) s'.library (s'.library.reach held'))
include h hnumbered hs hheld hs' hheld' hshares

theorem matches_paired : Matches (s.library.partial? (s.library.reach held))
    (s'.library.partial? (s'.library.reach held')) (Paired next involved s s') := by
  have hsame {t t' : Option Template} (heq : t = t') (hlinks : ∀ u, t = some u →
      ∀ target ∈ u.links.values, target.id < next) :
      (t = none ∧ t' = none) ∨ ∃ u u', t = some u ∧ t' = some u' ∧ u.items = u'.items ∧
        ∀ other ∈ includes u.items, Paired next involved s s' u.links u'.links other := by
    subst heq
    cases t with
    | none => exact .inl ⟨rfl, rfl⟩
    | some u => exact .inr ⟨u, u, rfl, rfl, rfl, fun _ _ => .inr ⟨rfl, hlinks u rfl⟩⟩
  rintro links links' name
    (⟨hname, target, target', htarget, htarget', hleads, hleads'⟩ | ⟨rfl, hlinks⟩)
  · obtain ⟨id, hid, hpartial⟩ := partial?_eq hheld htarget hleads
    obtain ⟨id', hid', hpartial'⟩ := partial?_eq hheld' htarget' hleads'
    rw [hpartial, hpartial']
    cases h.agrees name hname with
    | unknown hsource hnone =>
      obtain ⟨-, text, -, htext, -⟩ := hs.sound.made name id hid hnone
      cases hsource.symm.trans htext
    | waiting hsource hsource' =>
      have hreads' := hs'.reads hsource' hid'
      rw [h.dialect] at hreads'
      exact .inr ((hs.reads hsource hid).paired hreads' (h.through name _ hname hsource'))
    | old hlt hfirst hfirst' =>
      cases hid.symm.trans (hs.sound.kept name _ hfirst)
      cases hid'.symm.trans (hs'.sound.kept name _ hfirst')
      exact hsame (hshares.get? id hlt) (hshares.links id hlt)
    | current hfirst hsource' hcurrent =>
      cases hid.symm.trans (hs.sound.kept name _ hfirst)
      have hreads' := hs'.reads hsource' hid'
      rw [h.dialect] at hreads'
      exact .inr ((hs.reads_current (hnumbered name id hfirst) hcurrent).paired hreads'
        (h.through name _ hname hsource'))
  · obtain ⟨heq, hnext⟩ := hshares.partial?_eq hlinks name
    exact hsame heq hnext

end

/-- Templates with the same items render alike if their links are paired. -/
theorem render_paired (h : o.Counterparts next involved o')
    (hnumbered : ∀ name id, o.compiled.get? name = some id → id < o.library.next)
    (hs : s.Over o fun _ => False) (hheld : s.environment.held ⊆ id :: held)
    (hs' : s'.Over o' fun _ => False) (hheld' : s'.environment.held ⊆ id' :: held')
    (hshares : s.library.Shares next (s.library.reach (id :: held)) s'.library
      (s'.library.reach (id' :: held'))) {t t' : Template} (ht : s.library.get? id = some t)
    (ht' : s'.library.get? id' = some t') (hitems : t.items = t'.items)
    (hnames : ∀ name ∈ includes t.items, Paired next involved s s' t.links t'.links name)
    {σ : Type} (host : Host σ) (depth : Nat) (context : Value) (data : Object) (state : σ) :
    ((s.library.render held host depth id context data).run { state, events := s.events }).map
        (fun (result, world) => (result, world.state)) =
      ((s'.library.render held' host depth id' context data).run
        { state, events := s'.events }).map fun (result, world) => (result, world.state) := by
  have halike := Template.render_alike (matches_paired h hnumbered hs hheld hs' hheld' hshares) t t'
    hitems hnames host depth context data
  unfold Library.render
  rw [ht, ht']
  exact halike.results state s.events s'.events

end Session
end Stencil
