import Stencil.Proofs.Courses
import Stencil.Proofs.Reach

set_option autoImplicit false

/-!
# Owners

Every partial that is compiled on the way is kept by the template that asked for it first. So all of
them are reachable from the template at the top.
-/
namespace Stencil
namespace Shelf

/-- Complete partials and those in progress have numbers of their own. -/
structure Tidy (s : Shelf) : Prop where
  compiled : ∀ name id, s.compiled.get? name = some id → id < s.library.next
  inProgress : ∀ name id, s.inProgress.get? name = some id → id < s.library.next
  apart : ∀ name id, s.inProgress.get? name = some id → s.compiled.get? name = none
  unused : ∀ name id, s.inProgress.get? name = some id → ∀ other, s.compiled.get? other ≠ some id
  distinct : ∀ name id, s.inProgress.get? name = some id → ∀ other,
    s.inProgress.get? other = some id → other = name

namespace Tidy
variable {s : Shelf} {name : String} {id : TemplateId}

theorem start (h : s.Tidy) (hcompiled : s.compiled.get? name = none) : (s.start name).Tidy where
  compiled other id hid := Nat.lt_succ_of_lt (h.compiled other id hid)
  inProgress other id hid := by
    rw [inProgress_start] at hid
    split at hid
    · cases hid
      exact Nat.lt_succ_self _
    · exact Nat.lt_succ_of_lt (h.inProgress other id hid)
  apart other id hid := by
    rw [inProgress_start] at hid
    split at hid
    · next heq => exact heq ▸ hcompiled
    · exact h.apart other id hid
  unused other id hid another hother := by
    rw [inProgress_start] at hid
    split at hid
    · cases hid
      exact Nat.lt_irrefl _ (h.compiled another _ hother)
    · exact h.unused other id hid another hother
  distinct other id hid another hother := by
    rw [inProgress_start] at hid hother
    split at hid
    · next heq =>
      cases hid
      split at hother
      · next heq' => exact heq'.symm.trans heq
      · exact absurd (h.inProgress another _ hother) (Nat.lt_irrefl _)
    · split at hother
      · cases hother
        exact absurd (h.inProgress other _ hid) (Nat.lt_irrefl _)
      · exact h.distinct other id hid another hother

theorem stop (h : s.Tidy) (hid : s.inProgress.get? name = some id)
    (outcome : Except TemplateError Template) : (s.stop name id outcome).Tidy := by
  have hprogress {other : String} {id' : TemplateId}
      (hother : (s.stop name id outcome).inProgress.get? other = some id') :
      s.inProgress.get? other = some id' ∧ name ≠ other := by
    rw [inProgress_stop] at hother
    split at hother
    · cases hother
    · next hne => exact ⟨hother, hne⟩
  have hcompiled {other : String} {id' : TemplateId}
      (hother : (s.stop name id outcome).compiled.get? other = some id') :
      s.compiled.get? other = some id' ∨ name = other ∧ id = id' := by
    cases outcome with
    | error e => exact .inl hother
    | ok t =>
      rw [compiled_stop] at hother
      split at hother
      · next heq => exact .inr ⟨heq, Option.some.inj hother⟩
      · exact .inl hother
  refine ⟨fun other id' hother => ?_, fun other id' hother => ?_, fun other id' hother => ?_,
    fun other id' hother another hanother => ?_, fun other id' hother another hanother => ?_⟩
  · rw [next_stop]
    rcases hcompiled hother with hother | ⟨-, rfl⟩
    · exact h.compiled other id' hother
    · exact h.inProgress name id hid
  · rw [next_stop]
    exact h.inProgress other id' (hprogress hother).1
  · obtain ⟨hold, hne⟩ := hprogress hother
    cases hget : (s.stop name id outcome).compiled.get? other with
    | none => rfl
    | some id'' =>
      rcases hcompiled hget with hget | ⟨heq, -⟩
      · cases (h.apart other id' hold).symm.trans hget
      · exact absurd heq hne
  · obtain ⟨hold, hne⟩ := hprogress hother
    rcases hcompiled hanother with hanother | ⟨-, rfl⟩
    · exact h.unused other id' hold another hanother
    · exact hne (h.distinct other _ hold name hid)
  · exact h.distinct other id' (hprogress hother).1 another (hprogress hanother).1

end Tidy

theorem tidy_course : Course Tidy Keeps fun _ _ => True where
  refl := .refl
  trans := .trans
  mono _ _ := True.intro
  pending _ _ := True.intro
  compiled _ _ := True.intro
  start h _ hcompiled := h.start hcompiled
  stop_error _ _ hprogress hcompiled h hkeeps :=
    ⟨h.stop (by rw [hkeeps.inProgress, inProgress_start, if_pos rfl]) _,
      hkeeps.stop hprogress hcompiled _⟩
  stop_ok _ hprogress hcompiled h hkeeps _ :=
    ⟨h.stop (by rw [hkeeps.inProgress, inProgress_start, if_pos rfl]) _,
      hkeeps.stop hprogress hcompiled _, True.intro⟩

def ready? (s : Shelf) (name : String) : Option Target :=
  match s.inProgress.get? name with
  | some id => some (.pending id)
  | none => (s.compiled.get? name).map .compiled

theorem ready?_pending {s : Shelf} {name : String} {id : TemplateId}
    (h : s.inProgress.get? name = some id) : s.ready? name = some (.pending id) := by
  rw [ready?, h]

theorem ready?_compiled {s : Shelf} {name : String} {id : TemplateId}
    (h : s.inProgress.get? name = none) (hid : s.compiled.get? name = some id) :
    s.ready? name = some (.compiled id) := by
  rw [ready?, h, hid]
  rfl

theorem Keeps.ready? {s s' : Shelf} (h : s.Keeps s') {name : String} {target : Target}
    (htarget : s.ready? name = some target) : s'.ready? name = some target := by
  unfold Shelf.ready? at htarget ⊢
  rw [h.inProgress]
  split
  · next heq => rw [heq] at htarget; exact htarget
  · next heq =>
    rw [heq] at htarget
    obtain ⟨id, hid, htarget⟩ := Option.map_eq_some_iff.1 htarget
    rw [h.compiled name id hid, Option.map_some, htarget]

structure Adds (s s' : Shelf) (name : String) (id : TemplateId) : Prop where
  before : s.compiled.get? name = none
  after : s'.compiled.get? name = some id

/-- Of two shelves the later has more partials: each of them is among the targets, or is kept by one
that was begun before it. -/
def Owned (s : Shelf) (targets : List Target) (s' : Shelf) : Prop :=
  ∀ name id, s.Adds s' name id → s.library.next ≤ id ∧
    (.compiled id ∈ targets ∨
      ∃ owner number, s.Adds s' owner number ∧ number < id ∧ id ∈ s'.library.keeps number)

variable {s s' s'' : Shelf} {targets targets' : List Target} {name : String} {id : TemplateId}

theorem Owned.refl (s : Shelf) (targets : List Target) : s.Owned targets s :=
  fun _ _ h => nomatch h.before.symm.trans h.after

theorem Owned.mono (h : s.Owned targets s') (htargets : targets ⊆ targets') :
    s.Owned targets' s' :=
  fun name id hadds => (h name id hadds).imp_right fun h => h.imp_left fun h => htargets h

theorem Owned.trans (h : s.Owned targets s') (hkeeps : s.Keeps s') (htidy : s'.Tidy)
    (h' : s'.Owned targets s'') (hkeeps' : s'.Keeps s'') : s.Owned targets s'' := by
  intro name id hadds
  cases hmid : s'.compiled.get? name with
  | none =>
    obtain ⟨hnext, howned⟩ := h' name id ⟨hmid, hadds.after⟩
    refine ⟨Nat.le_trans hkeeps.next hnext, howned.imp_right ?_⟩
    rintro ⟨owner, number, howner, hlt, hkept⟩
    refine ⟨owner, number, ⟨?_, howner.after⟩, hlt, hkept⟩
    cases hold : s.compiled.get? owner with
    | none => rfl
    | some id => exact (hkeeps.compiled owner id hold).symm.trans howner.before
  | some id' =>
    cases (hkeeps'.compiled name id' hmid).symm.trans hadds.after
    obtain ⟨hnext, howned⟩ := h name id ⟨hadds.before, hmid⟩
    refine ⟨hnext, howned.imp_right ?_⟩
    rintro ⟨owner, number, howner, hlt, hkept⟩
    refine ⟨owner, number, ⟨howner.before, hkeeps'.compiled owner number howner.after⟩, hlt, ?_⟩
    have hlibrary : s''.library.get? number = s'.library.get? number :=
      hkeeps'.library number (htidy.compiled owner number howner.after) fun other hother =>
        htidy.unused other number hother owner howner.after
    unfold Library.keeps at hkept ⊢
    rw [hlibrary]
    exact hkept

theorem Owned.stop {t : Template} (h : (s.start name).Owned t.links.values s') (htidy : s'.Tidy)
    (hkeeps : (s.start name).Keeps s') (hcompiled : s.compiled.get? name = none) :
    s.Owned [.compiled s.library.next] (s'.stop name s.library.next (.ok t)) := by
  have hid : s'.inProgress.get? name = some s.library.next := by
    rw [hkeeps.inProgress, inProgress_start, if_pos rfl]
  intro other id hadds
  have hafter := hadds.after
  rw [compiled_stop] at hafter
  split at hafter
  · cases hafter
    exact ⟨Nat.le_refl _, .inl (List.mem_singleton_self _)⟩
  · obtain ⟨hnext, howned⟩ := h other id ⟨hadds.before, hafter⟩
    have hlt : s.library.next < id := hnext
    refine ⟨Nat.le_of_lt hlt, .inr ?_⟩
    rcases howned with hmem | ⟨owner, number, howner, hnumber, hkept⟩
    · refine ⟨name, s.library.next, ⟨hcompiled, by rw [compiled_stop, if_pos rfl]⟩, hlt, ?_⟩
      exact Library.mem_keeps.2 ⟨t, by rw [get?_stop, if_pos rfl], hmem⟩
    · have hne : name ≠ owner := by
        rintro rfl
        cases (htidy.apart name _ hid).symm.trans howner.after
      have hne' : s.library.next ≠ number := by
        rintro rfl
        exact htidy.unused name _ hid owner howner.after
      refine ⟨owner, number, ⟨howner.before, ?_⟩, hnumber, ?_⟩
      · rw [compiled_stop, if_neg hne]
        exact howner.after
      · unfold Library.keeps at hkept ⊢
        rw [get?_stop, if_neg hne']
        exact hkept

end Shelf

structure Settles (s : Shelf) (name : String) (r : Except TemplateError (Option Target) × Shelf) :
    Prop where
  keeps : s.Keeps r.2
  tidy : r.2.Tidy
  ready : ∀ target, r.1 = .ok (some target) → r.2.ready? name = some target
  owned : ∀ target, r.1 = .ok (some target) → s.Owned [target] r.2

structure LinksUp (s : Shelf) (links : Dict Target) (t : Template) (s' : Shelf) : Prop where
  keeps : s.Keeps s'
  tidy : s'.Tidy
  earlier : ∀ name target, links.get? name = some target → t.links.get? name = some target
  ready : ∀ name target, t.links.get? name = some target → s'.ready? name = some target
  owned : s.Owned t.links.values s'

section
variable {dialect : Dialect} {waiting : Dict String}

theorem link_owned {source : String}
    {ask : String → StateM Shelf (Except TemplateError (Option Target))}
    (hask : ∀ name s, s.Tidy → Settles s name (ask name s)) (outline : Outline) {s s' : Shelf}
    (hs : s.Tidy) (links : Dict Target)
    (hlinks : ∀ name target, links.get? name = some target → s.ready? name = some target)
    {t : Template} (h : outline.link source ask links s = (.ok t, s')) : LinksUp s links t s' := by
  induction outline generalizing s links with
  | finished items =>
    cases h
    exact ⟨.refl _, hs, fun _ _ h => h, hlinks, .refl _ _⟩
  | failed f => cases h
  | asking name left next ih =>
    have hanswer := hask name s hs
    generalize hr : ask name s = r at hanswer
    obtain ⟨answer, s₁⟩ := r
    match answer with
    | .error e => rw [Outline.link_error hr] at h; cases h
    | .ok none => rw [Outline.link_missing hr] at h; cases h
    | .ok (some target) =>
      rw [Outline.link_some hr] at h
      have hkeeps : s.Keeps s₁ := hanswer.keeps
      have hready : s₁.ready? name = some target := hanswer.ready target rfl
      have hrest := ih hanswer.tidy (links.insert name target) (fun other target' hother => by
        rw [Dict.get?_insert] at hother
        split at hother
        · next heq => exact heq ▸ hready.trans hother
        · exact hkeeps.ready? (hlinks other target' hother)) h
      have htarget : t.links.get? name = some target :=
        hrest.earlier name target (by rw [Dict.get?_insert, if_pos rfl])
      refine ⟨hkeeps.trans hrest.keeps, hrest.tidy,
        fun other target' hother => hrest.earlier other target' ?_, hrest.ready, ?_⟩
      · rw [Dict.get?_insert]
        split
        · next heq =>
          subst heq
          exact hready.symm.trans (hkeeps.ready? (hlinks name target' hother))
        · exact hother
      · refine ((hanswer.owned target rfl).mono ?_).trans hkeeps hanswer.tidy hrest.owned hrest.keeps
        exact List.cons_subset.2 ⟨Dict.mem_values_of_get? htarget, List.nil_subset _⟩

theorem resolve_owned (dialect : Dialect) (waiting : Dict String) (name : String) (s : Shelf)
    (hs : s.Tidy) : Settles s name (resolve dialect waiting name s) := by
  induction waiting, name, s using resolve_induction dialect with
  | pending waiting name s id hprogress heq =>
    rw [heq]
    refine ⟨.refl s, hs, ?_, fun target _ => .refl s _⟩
    rintro _ ⟨⟩
    exact Shelf.ready?_pending hprogress
  | compiled waiting name s id hprogress hcompiled heq =>
    rw [heq]
    refine ⟨.refl s, hs, ?_, fun target _ => .refl s _⟩
    rintro _ ⟨⟩
    exact Shelf.ready?_compiled hprogress hcompiled
  | unknown waiting name s hprogress hcompiled hwaiting heq =>
    rw [heq]
    exact ⟨.refl s, hs, nofun, nofun⟩
  | waits waiting name s source outcome s' hprogress hcompiled hwaiting ih hlink heq =>
    have hends := Shelf.tidy_course.resolve dialect waiting name hs
    rw [heq] at hends ⊢
    cases outcome with
    | error e => exact ⟨hends.passes, hends.kept, nofun, nofun⟩
    | ok t =>
      have hlinked := link_owned ih (Outline.ofSource dialect source) (hs.start hcompiled) ⟨[]⟩
        nofun hlink
      refine ⟨hends.passes, hends.kept, ?_, ?_⟩
      · rintro _ ⟨⟩
        exact Shelf.ready?_compiled (by rw [hends.passes.inProgress, hprogress])
          (by rw [Shelf.compiled_stop, if_pos rfl])
      · rintro _ ⟨⟩
        exact hlinked.owned.stop hlinked.tidy hlinked.keeps hcompiled

theorem compile_owned (dialect : Dialect) (waiting : Dict String) {source : String} {s s' : Shelf}
    (hs : s.Tidy) {t : Template} (h : compile dialect waiting source s = (.ok t, s')) :
    LinksUp s ⟨[]⟩ t s' :=
  link_owned (resolve_owned dialect waiting) (Outline.ofSource dialect source) hs ⟨[]⟩ nofun h

/-- All that was compiled for a template can be reached from it. -/
theorem LinksUp.reaches {s s' : Shelf} {t : Template} (h : LinksUp s ⟨[]⟩ t s') {name : String}
    {id : TemplateId} (hadds : s.Adds s' name id) :
    (s'.library.add t).Reaches [s'.library.next] id := by
  induction id using Nat.strongRecOn generalizing name with
  | ind id ih =>
    obtain ⟨-, hmem | ⟨owner, number, howner, hlt, hkept⟩⟩ := h.owned name id hadds
    · refine .kept (.held (List.mem_singleton_self _)) (Library.mem_keeps.2 ⟨t, ?_, hmem⟩)
      rw [Library.get?_add, if_pos rfl]
    · refine .kept (ih number hlt howner) ?_
      have hne : s'.library.next ≠ number :=
        Nat.ne_of_gt (h.tidy.compiled owner number howner.after)
      unfold Library.keeps at hkept ⊢
      rw [Library.get?_add, if_neg hne]
      exact hkept

end
end Stencil
