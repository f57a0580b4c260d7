import Stencil.Proofs.Shelves

set_option autoImplicit false

/-!
# Compiling with a memory

What is remembered of earlier compilations changes neither whether a source compiles nor what is
wrong with it, and each partial is compiled once.
-/
namespace Stencil
namespace Origin

inductive Answered (o : Origin) (free : Dict String) (s : Shelf) (name : String) :
    Except TemplateError (Option Target) → Shelf → Prop
  | ok {answer : Option Target} {s' : Shelf} (sound : o.Sound (fun _ => False) s')
    (grows : s.Grows (fun _ => False) s')
    (leads : ∀ target, answer = some target → Leads s' (fun _ => False) name target)
    (check : check o.dialect o.known free name = .ok answer.isSome) :
    Answered o free s name (.ok answer) s'
  | error {e : TemplateError} {s' : Shelf} (sound : o.Sound o.Faulty s')
    (grows : s.Grows o.Faulty s') (missing : s'.compiled.get? name = none)
    (check : check o.dialect o.known free name = .error e) :
    Answered o free s name (.error e) s'

inductive Linked (o : Origin) (free : Dict String) (s : Shelf) (source : String)
    (links : Dict Target) (outline : Outline) : Except TemplateError Template → Shelf → Prop
  | ok {t : Template} {s' : Shelf} (sound : o.Sound (fun _ => False) s')
    (grows : s.Grows (fun _ => False) s') (text : t.source = source)
    (ending : outline.ending = .ok t.items) (distinct : t.links.Distinct)
    (asks : ∀ name, (name ∈ outline.asks ∨ ∃ target, links.get? name = some target) ↔
      ∃ target, t.links.get? name = some target)
    (leads : ∀ name target, t.links.get? name = some target →
      Leads s' (fun _ => False) name target)
    (check : outline.check source (check o.dialect o.known free) = .ok t.items) :
    Linked o free s source links outline (.ok t) s'
  | error {e : TemplateError} {s' : Shelf} (sound : o.Sound o.Faulty s')
    (grows : s.Grows o.Faulty s')
    (check : outline.check source (check o.dialect o.known free) = .error e) :
    Linked o free s source links outline (.error e) s'

variable {o : Origin} {free waiting : Dict String} {s : Shelf}

theorem Linked.asking {source name : String} {left : Nat} {next : Outline} {links : Dict Target}
    {target : Target} {s' : Shelf} (grows : s.Grows (fun _ => False) s')
    (hcheck : check o.dialect o.known free name = .ok true)
    {outcome : Except TemplateError Template} {s'' : Shelf}
    (h : o.Linked free s' source (links.insert name target) next outcome s'') :
    o.Linked free s source links (.asking name left next) outcome s'' := by
  have hrest : (Outline.asking name left next).check source (check o.dialect o.known free) =
      next.check source (check o.dialect o.known free) := by
    rw [Outline.check, hcheck]
  cases h with
  | error sound grows' check => exact .error sound (grows.trans grows') (hrest.trans check)
  | ok sound grows' text ending distinct asks leads check =>
    refine .ok sound (grows.trans grows') text ending distinct (fun other => ?_) leads
      (hrest.trans check)
    rw [← asks, Outline.asks, List.mem_cons, Dict.get?_insert]
    by_cases heq : name = other
    · rw [if_pos heq]
      exact ⟨fun _ => .inr ⟨target, rfl⟩, fun _ => .inl (.inl heq.symm)⟩
    · rw [if_neg heq]
      exact ⟨fun h => h.imp_left fun h => h.resolve_left (Ne.symm heq), fun h => h.imp_left .inr⟩

theorem linked_of_answered (source : String)
    {ask : String → StateM Shelf (Except TemplateError (Option Target))}
    (hask : ∀ name s, o.Sound (fun _ => False) s → o.Waits s waiting → o.IsFree s free →
      o.Answered free s name (ask name s).1 (ask name s).2)
    (outline : Outline) (hs : o.Sound (fun _ => False) s) (hwaits : o.Waits s waiting)
    (hfree : o.IsFree s free) (links : Dict Target) (hdistinct : links.Distinct)
    (hlinks : ∀ name target, links.get? name = some target →
      Leads s (fun _ => False) name target) :
    o.Linked free s source links outline (outline.link source ask links s).1
      (outline.link source ask links s).2 := by
  induction outline generalizing s links with
  | finished items =>
    exact .ok hs (.refl s) rfl rfl hdistinct
      (fun name => ⟨fun h => h.resolve_left List.not_mem_nil, .inr⟩) hlinks rfl
  | failed f => exact .error (hs.mono fun _ => False.elim) (.refl s) rfl
  | asking name left next ih =>
    have hanswered := hask name s hs hwaits hfree
    generalize hr : ask name s = r at hanswered
    obtain ⟨r, s'⟩ := r
    cases hanswered with
    | error sound grows missing check =>
      rw [Outline.link_error hr]
      exact .error sound grows (by rw [Outline.check, check])
    | @ok answer s' sound grows leads check =>
      cases answer with
      | none =>
        rw [Outline.link_missing hr]
        exact .error (sound.mono fun _ => False.elim) (grows.mono fun _ => False.elim)
          (by rw [Outline.check, check]; rfl)
      | some target =>
        rw [Outline.link_some hr]
        have hinsert := leads_insert (fun other target' h => grows.leads (hlinks other target' h))
          (leads target rfl)
        exact (ih sound (hwaits.grows grows) (hfree.grows grows) (links.insert name target)
          (hdistinct.insert name target) hinsert).asking grows check

theorem IsFree.start {name : String} (h : o.IsFree s free) :
    o.IsFree (s.start name) (free.erase name) := by
  intro other
  rw [Dict.get?_erase, Shelf.inProgress_start, h]
  by_cases heq : name = other
  · rw [if_pos heq, if_pos heq]
    rfl
  · rw [if_neg heq, if_neg heq]

theorem Waits.start {name : String} (h : o.Waits s waiting) :
    o.Waits (s.start name) (waiting.erase name) := by
  intro other hother hcompiled
  rw [Shelf.inProgress_start] at hother
  split at hother
  · cases hother
  · next hne =>
    rw [Dict.get?_erase, if_neg hne]
    exact h other hother hcompiled

theorem faulty_of_check {name : String} {e : TemplateError} (h : o.IsFree s free)
    (hcheck : check o.dialect o.known free name = .error e) : o.Faulty name := by
  exact ⟨free, fun other source hget => (h.sources other source hget).1, e, hcheck⟩

theorem grows_stop {gone : String → Prop} {name : String} {s' : Shelf}
    {outcome : Except TemplateError Template} (hprogress : s.inProgress.get? name = none)
    (hcompiled : s.compiled.get? name = none) (h : (s.start name).Grows gone s')
    (houtcome : (∃ t, outcome = .ok t) ∧ s'.compiled.get? name = none ∨
      (∃ e, outcome = .error e) ∧ gone name) :
    s.Grows gone (s'.stop name s.library.next outcome) := by
  have hkeeps (other : String) (id : TemplateId) (hid : s'.compiled.get? other = some id) :
      (s'.stop name s.library.next outcome).compiled.get? other = some id := by
    rcases houtcome with ⟨⟨t, rfl⟩, hnone⟩ | ⟨⟨e, rfl⟩, -⟩
    · rw [Shelf.compiled_stop, if_neg]
      · exact hid
      · rintro rfl
        rw [hnone] at hid
        cases hid
    · exact hid
  refine ⟨?_, ?_, fun other id hid => hkeeps other id (h.compiled other id hid), ?_, ?_⟩
  · rw [Shelf.next_stop]
    exact Nat.le_trans (Nat.le_succ _) h.next
  · intro id hid hother
    have hlibrary : s'.library.get? id = s.library.get? id := by
      refine h.library id (Nat.lt_succ_of_lt hid) fun other heq => ?_
      rw [Shelf.inProgress_start] at heq
      split at heq
      · cases heq
        exact Nat.lt_irrefl _ hid
      · exact hother other heq
    cases outcome with
    | error e => exact hlibrary
    | ok t => rw [Shelf.get?_stop, if_neg (Nat.ne_of_gt hid), hlibrary]
  · intro other
    rw [Shelf.inProgress_stop, h.inProgress, Shelf.inProgress_start]
    split
    · next heq => rw [← heq, hprogress]
    · rfl
  · obtain ⟨names, hbegun, hnodup, hnames⟩ := h.begun
    refine ⟨name :: names, ?_, List.nodup_cons.2 ⟨?_, hnodup⟩, List.forall_mem_cons.2 ⟨?_, ?_⟩⟩
    · rw [Shelf.events_stop, hbegun]
      exact List.append_assoc _ _ _
    · intro hmem
      have hnone := (hnames name hmem).2.1
      rw [Shelf.inProgress_start, if_pos rfl] at hnone
      cases hnone
    · refine ⟨hcompiled, hprogress, ?_⟩
      rcases houtcome with ⟨⟨t, rfl⟩, -⟩ | ⟨-, hgone⟩
      · exact .inl ⟨_, by rw [Shelf.compiled_stop, if_pos rfl]⟩
      · exact .inr hgone
    · intro other hother
      obtain ⟨hnone, hnone', hdone⟩ := hnames other hother
      refine ⟨hnone, ?_, hdone.imp_left fun ⟨id, hid⟩ => ⟨id, hkeeps other id hid⟩⟩
      rw [Shelf.inProgress_start] at hnone'
      split at hnone'
      · cases hnone'
      · exact hnone'

theorem Linked.stop {name source : String} {outcome : Except TemplateError Template} {s' : Shelf}
    (hprogress : s.inProgress.get? name = none) (hcompiled : s.compiled.get? name = none)
    (hsource : o.sources.get? name = some source) (hfree : o.IsFree s free)
    (h : o.Linked (free.erase name) (s.start name) source ⟨[]⟩
      (Outline.ofSource o.dialect source) outcome s') :
    o.Answered free s name (outcome.map fun _ => some (.compiled s.library.next))
      (s'.stop name s.library.next outcome) := by
  have hget : free.get? name = some source := by
    rw [hfree, hprogress, hsource]
    rfl
  have hcheck : check o.dialect o.known free name = _ := check_some hget
  have hid (gone : String → Prop) (grows : (s.start name).Grows gone s') :
      s'.inProgress.get? name = some s.library.next := by
    rw [grows.inProgress, Shelf.inProgress_start, if_pos rfl]
  cases h with
  | @error e _ sound grows check =>
    rw [check] at hcheck
    have hfaulty := faulty_of_check hfree hcheck
    have hmissing := (sound.progress name _ (hid _ grows)).2.1
    exact .error (sound.stop_error (fun _ => id) hfaulty e)
      (grows_stop hprogress hcompiled grows (.inr ⟨⟨e, rfl⟩, hfaulty⟩)) hmissing hcheck
  | @ok t _ sound grows text ending distinct asks leads check =>
    rw [check] at hcheck
    have hmissing := (sound.progress name _ (hid _ grows)).2.1
    refine .ok (sound.stop_ok (hid _ grows) hsource ⟨text, ending, distinct, fun other => ?_, leads⟩)
      (grows_stop hprogress hcompiled grows (.inl ⟨⟨t, rfl⟩, hmissing⟩)) ?_ hcheck
    · rw [← asks]
      exact ⟨.inl, fun h => h.resolve_right nofun⟩
    · rintro target ⟨⟩
      change Dict.get? (Shelf.compiled _) name = some _
      rw [Shelf.compiled_stop, if_pos rfl]

/-- Whatever is on the shelf, a partial that is asked for is answered for as if nothing was. -/
theorem resolve_answered (name : String) (hs : o.Sound (fun _ => False) s)
    (hwaits : o.Waits s waiting) (hfree : o.IsFree s free) :
    o.Answered free s name (resolve o.dialect waiting name s).1
      (resolve o.dialect waiting name s).2 := by
  induction waiting, name, s using resolve_induction o.dialect generalizing free with
  | pending waiting name s id hprogress heq =>
    rw [heq]
    refine .ok hs (.refl s) ?_ (hs.check_eq hfree.sources (.inr ⟨id, hprogress⟩))
    rintro target ⟨⟩
    exact .inl hprogress
  | compiled waiting name s id hprogress hcompiled heq =>
    rw [heq]
    refine .ok hs (.refl s) ?_ (hs.check_eq hfree.sources (.inl ⟨id, hcompiled⟩))
    rintro target ⟨⟩
    exact hcompiled
  | unknown waiting name s hprogress hcompiled hwaiting heq =>
    rw [heq]
    have hsources := hwaits name hprogress hcompiled
    rw [hwaiting] at hsources
    have hget : free.get? name = none := by
      rw [hfree, hprogress, ← hsources]
      rfl
    have hold : o.compiled.get? name = none := by
      cases hold : o.compiled.get? name with
      | none => rfl
      | some id => cases hcompiled.symm.trans (hs.kept name id hold)
    refine .ok hs (.refl s) nofun ?_
    rw [check_none hget, known, hold, ← hsources]
    rfl
  | waits waiting name s source outcome s' hprogress hcompiled hwaiting ih hlink heq =>
    rw [heq]
    have hsources := hwaits name hprogress hcompiled
    rw [hwaiting] at hsources
    have hlinked := linked_of_answered source
      (fun other s' hs' hwaits' hfree' => ih other s' hs' hwaits' hfree')
      (Outline.ofSource o.dialect source) (hs.start hprogress hcompiled hsources.symm) hwaits.start
      hfree.start ⟨[]⟩ List.nodup_nil nofun
    rw [hlink] at hlinked
    exact hlinked.stop hprogress hcompiled hsources.symm hfree

/-- A source is compiled as if nothing was on the shelf, and what it includes is there then. -/
theorem compile_linked (source : String) (hs : o.Sound (fun _ => False) s)
    (hwaits : o.Waits s waiting) (hfree : o.IsFree s free) :
    o.Linked free s source ⟨[]⟩ (Outline.ofSource o.dialect source)
      (compile o.dialect waiting source s).1 (compile o.dialect waiting source s).2 :=
  linked_of_answered source (fun name _ h h' h'' => resolve_answered name h h' h'') _ hs hwaits
    hfree ⟨[]⟩ List.nodup_nil nofun

end Origin
end Stencil
