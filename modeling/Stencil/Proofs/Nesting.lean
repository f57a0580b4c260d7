import Mathlib.Data.List.Nodup
import Mathlib.Data.List.Perm.Subperm
import Stencil.Proofs.Courses
import Stencil.Proofs.Inclusions
import Stencil.Proofs.Reach

set_option autoImplicit false

/-!
# Nested compilations

The registry as a table that nothing is taken out of: a source is read and asks the registry for
its partials, which reads their sources, and so on. The sources may include each other in any way,
may be missing and may be broken. Every question has an answer after finitely many steps, as no
partial is begun twice.
-/
namespace Stencil

inductive Occurrence
  | begun (name : String)
  | given (name : String) (target : Target)

mutual

/-- How the registry answers. It looks at what is in progress first, then at what is compiled, and
then at the sources. -/
inductive Answers (dialect : Dialect) (sources : Dict String) :
    Shelf → String → List Occurrence → Except TemplateError (Option Target) → Shelf → Prop
  | pending {s : Shelf} {name : String} {id : TemplateId} (h : s.inProgress.get? name = some id) :
    Answers dialect sources s name [.given name (.pending id)] (.ok (some (.pending id))) s
  | compiled {s : Shelf} {name : String} {id : TemplateId} (h : s.inProgress.get? name = none)
    (hid : s.compiled.get? name = some id) :
    Answers dialect sources s name [.given name (.compiled id)] (.ok (some (.compiled id))) s
  | unknown {s : Shelf} {name : String} (h : s.inProgress.get? name = none)
    (hcompiled : s.compiled.get? name = none) (hsource : sources.get? name = none) :
    Answers dialect sources s name [] (.ok none) s
  | begun {s s' : Shelf} {name source : String} {trace : List Occurrence}
    {outcome : Except TemplateError Template} (h : s.inProgress.get? name = none)
    (hcompiled : s.compiled.get? name = none) (hsource : sources.get? name = some source)
    (hlinks : Links dialect sources source (Outline.ofSource dialect source) ⟨[]⟩ (s.start name)
      trace outcome s') :
    Answers dialect sources s name (.begun name :: trace)
      (outcome.map fun _ => some (.compiled s.library.next))
      (s'.stop name s.library.next outcome)

inductive Links (dialect : Dialect) (sources : Dict String) :
    String → Outline → Dict Target → Shelf → List Occurrence → Except TemplateError Template →
      Shelf → Prop
  | finished {source : String} {items : List Item} {links : Dict Target} {s : Shelf} :
    Links dialect sources source (.finished items) links s [] (.ok ⟨source, items, links⟩) s
  | failed {source : String} {f : Failure} {links : Dict Target} {s : Shelf} :
    Links dialect sources source (.failed f) links s [] (.error (f.error source)) s
  | error {source name : String} {left : Nat} {next : Outline} {links : Dict Target} {s s' : Shelf}
    {trace : List Occurrence} {e : TemplateError}
    (h : Answers dialect sources s name trace (.error e) s') :
    Links dialect sources source (.asking name left next) links s trace (.error e) s'
  | missing {source name : String} {left : Nat} {next : Outline} {links : Dict Target}
    {s s' : Shelf} {trace : List Occurrence} (h : Answers dialect sources s name trace (.ok none) s') :
    Links dialect sources source (.asking name left next) links s trace
      (.error (Failure.error source ⟨left, .missingPartial name⟩)) s'
  | linked {source name : String} {left : Nat} {next : Outline} {links : Dict Target}
    {s s' s'' : Shelf} {trace trace' : List Occurrence} {target : Target}
    {outcome : Except TemplateError Template}
    (h : Answers dialect sources s name trace (.ok (some target)) s')
    (hrest : Links dialect sources source next (links.insert name target) s' trace' outcome s'') :
    Links dialect sources source (.asking name left next) links s (trace ++ trace') outcome s''

end

namespace Occurrence

def begun? : Occurrence → Option String
  | begun name => some name
  | given _ _ => none

end Occurrence

def begun (trace : List Occurrence) : List String := trace.filterMap Occurrence.begun?

theorem begun_append (trace trace' : List Occurrence) :
    begun (trace ++ trace') = begun trace ++ begun trace' := List.filterMap_append

structure Shelf.Nests (s : Shelf) (sources : Dict String) (trace : List Occurrence) (s' : Shelf) :
    Prop where
  keeps : s.Keeps s'
  events : s'.events = s.events ++ (begun trace).map .compilingPartial
  once : (begun trace).Nodup
  idle : ∀ name ∈ begun trace, s.inProgress.get? name = none
  uncompiled : ∀ name ∈ begun trace, s.compiled.get? name = none
  sources : ∀ name ∈ begun trace, ∃ source, sources.get? name = some source
  pending : ∀ name id, .given name (.pending id) ∈ trace →
    s.inProgress.get? name = some id ∨ name ∈ begun trace

def Shelf.Completes (s : Shelf) (trace : List Occurrence) : Prop :=
  ∀ name ∈ begun trace, s.compiled.get? name ≠ none

namespace Shelf
variable {s s' s'' : Shelf} {sources : Dict String} {trace trace' : List Occurrence} {name : String}

theorem Nests.nothing (s : Shelf) (sources : Dict String) : s.Nests sources [] s :=
  ⟨.refl s, (List.append_nil _).symm, List.nodup_nil, nofun, nofun, nofun, nofun⟩

theorem Nests.pending_given {id : TemplateId} (h : s.inProgress.get? name = some id) :
    s.Nests sources [.given name (.pending id)] s := by
  refine ⟨.refl s, (List.append_nil _).symm, List.nodup_nil, nofun, nofun, nofun, ?_⟩
  rintro _ _ hmem
  cases List.mem_singleton.1 hmem
  exact .inl h

theorem Nests.compiled_given (s : Shelf) (sources : Dict String) (name : String) (id : TemplateId) :
    s.Nests sources [.given name (.compiled id)] s := by
  refine ⟨.refl s, (List.append_nil _).symm, List.nodup_nil, nofun, nofun, nofun, ?_⟩
  rintro _ _ hmem
  cases List.mem_singleton.1 hmem

theorem Nests.trans (h : s.Nests sources trace s') (hcomplete : s'.Completes trace)
    (h' : s'.Nests sources trace' s'') : s.Nests sources (trace ++ trace') s'' where
  keeps := h.keeps.trans h'.keeps
  events := by
    rw [h'.events, h.events, begun_append, List.map_append, List.append_assoc]
  once := by
    rw [begun_append, List.nodup_append']
    exact ⟨h.once, h'.once, fun name hname hname' => hcomplete name hname (h'.uncompiled name hname')⟩
  idle name hname := by
    rw [begun_append, List.mem_append] at hname
    rcases hname with hname | hname
    · exact h.idle name hname
    · rw [← h.keeps.inProgress]
      exact h'.idle name hname
  uncompiled name hname := by
    rw [begun_append, List.mem_append] at hname
    rcases hname with hname | hname
    · exact h.uncompiled name hname
    · cases hid : s.compiled.get? name with
      | none => rfl
      | some id => exact (h.keeps.compiled name id hid).symm.trans (h'.uncompiled name hname)
  sources name hname := by
    rw [begun_append, List.mem_append] at hname
    exact hname.elim (h.sources name) (h'.sources name)
  pending name id hmem := by
    rw [begun_append, List.mem_append]
    rcases List.mem_append.1 hmem with hmem | hmem
    · exact (h.pending name id hmem).imp_right .inl
    · rw [← h.keeps.inProgress]
      exact (h'.pending name id hmem).imp_right .inr

theorem Completes.append (h : s'.Completes trace) (h' : s''.Completes trace')
    (hkeeps : s'.Keeps s'') : s''.Completes (trace ++ trace') := by
  intro name hname
  rw [begun_append, List.mem_append] at hname
  rcases hname with hname | hname
  · cases hid : s'.compiled.get? name with
    | none => exact absurd hid (h name hname)
    | some id =>
      rw [hkeeps.compiled name id hid]
      exact nofun
  · exact h' name hname

/-- A compilation nests what happens between its beginning and its end. -/
theorem Nests.stop {source : String} (h : (s.start name).Nests sources trace s')
    (hprogress : s.inProgress.get? name = none) (hcompiled : s.compiled.get? name = none)
    (hsource : sources.get? name = some source) (outcome : Except TemplateError Template) :
    s.Nests sources (.begun name :: trace) (s'.stop name s.library.next outcome) where
  keeps := h.keeps.stop hprogress hcompiled outcome
  events := by
    rw [events_stop, h.events]
    exact List.append_assoc _ _ _
  once := by
    refine List.nodup_cons.2 ⟨fun hname => ?_, h.once⟩
    have hidle := h.idle name hname
    rw [inProgress_start, if_pos rfl] at hidle
    cases hidle
  idle other hother := by
    rcases List.mem_cons.1 hother with rfl | hother
    · exact hprogress
    · have hidle := h.idle other hother
      rw [inProgress_start] at hidle
      split at hidle
      · cases hidle
      · exact hidle
  uncompiled other hother := by
    rcases List.mem_cons.1 hother with rfl | hother
    · exact hcompiled
    · exact h.uncompiled other hother
  sources other hother := by
    rcases List.mem_cons.1 hother with rfl | hother
    · exact ⟨source, hsource⟩
    · exact h.sources other hother
  pending other id hmem := by
    rcases List.mem_cons.1 hmem with hmem | hmem
    · cases hmem
    · rcases h.pending other id hmem with heq | hother
      · rw [inProgress_start] at heq
        split at heq
        · next hname => exact .inr (List.mem_cons.2 (.inl hname.symm))
        · exact .inl heq
      · exact .inr (List.mem_cons_of_mem _ hother)

/-- While a compilation is in progress, pending references to it carry its number. -/
theorem Nests.pending_eq (h : (s.start name).Nests sources trace s') {id : TemplateId}
    (hmem : .given name (.pending id) ∈ trace) : id = s.library.next := by
  rcases h.pending name id hmem with heq | hname
  · rw [inProgress_start, if_pos rfl] at heq
    exact (Option.some.inj heq).symm
  · have hidle := h.idle name hname
    rw [inProgress_start, if_pos rfl] at hidle
    cases hidle

/-- There are not more compilations than sources. -/
theorem Nests.length_le (h : s.Nests sources trace s') : (begun trace).length ≤ sources.size := by
  have hsubset : begun trace ⊆ sources.keys := fun name hname =>
    let ⟨_, hsource⟩ := h.sources name hname
    Dict.mem_keys_of_get? hsource
  exact (List.subperm_of_subset h.once hsubset).length_le.trans (Nat.le_of_eq (List.length_map _))

def free (s : Shelf) (sources : Dict String) : Dict String :=
  ⟨sources.entries.filter fun entry => (s.inProgress.get? entry.1).isNone⟩

theorem get?_free (s : Shelf) (sources : Dict String) (name : String) :
    (s.free sources).get? name =
      if (s.inProgress.get? name).isNone then sources.get? name else none :=
  Dict.firstEntry_filter (fun name => (s.inProgress.get? name).isNone) name sources.entries

theorem free_of_keeps (h : s.Keeps s') (sources : Dict String) :
    s'.free sources = s.free sources := by
  unfold free
  rw [h.inProgress]

theorem free_start (s : Shelf) (name : String) (sources : Dict String) :
    (s.start name).free sources = (s.free sources).erase name := by
  refine congrArg Dict.mk ?_
  change _ = (sources.entries.filter _).filter _
  rw [List.filter_filter]
  refine List.filter_congr fun entry _ => ?_
  rw [inProgress_start]
  by_cases h : name = entry.1
  · rw [if_pos h]
    simp [h]
  · rw [if_neg h]
    simp [Ne.symm h]

end Shelf

def Followed {α : Type} (run : List Occurrence → Except TemplateError α → Shelf → Prop)
    (sources : Dict String) (s : Shelf) (trace : List Occurrence)
    (r : Except TemplateError α × Shelf) : Prop :=
  run trace r.1 r.2 ∧ s.Nests sources trace r.2 ∧ ∀ a, r.1 = .ok a → r.2.Completes trace

/-- A partial was compiled anew: its entry and all the references that were given to it lead to
that template. -/
def Bound (sources : Dict String) (name : String) (trace : List Occurrence) (s : Shelf)
    (id : TemplateId) : Prop :=
  s.compiled.get? name = some id ∧
    (∃ t, s.library.get? id = some t ∧ sources.get? name = some t.source) ∧
      ∀ other, .given name (.pending other) ∈ trace → other = id

section
variable {dialect : Dialect} {sources : Dict String}

theorem link_followed {ask : String → StateM Shelf (Except TemplateError (Option Target))}
    {waiting : Dict String} (source : String)
    (hask : ∀ name s, s.free sources = waiting →
      ∃ trace, Followed (Answers dialect sources s name) sources s trace (ask name s))
    (outline : Outline) (links : Dict Target) (s : Shelf) (hs : s.free sources = waiting) :
    ∃ trace, Followed (Links dialect sources source outline links s) sources s trace
      (outline.link source ask links s) := by
  induction outline generalizing links s with
  | finished items => exact ⟨[], .finished, .nothing s sources, fun _ _ => nofun⟩
  | failed f => exact ⟨[], .failed, .nothing s sources, nofun⟩
  | asking name left next ih =>
    have hanswer := hask name s hs
    generalize hr : ask name s = r at hanswer
    obtain ⟨answer, s'⟩ := r
    obtain ⟨trace, hanswers, hnests, hcomplete⟩ := hanswer
    match answer with
    | .error e =>
      rw [Outline.link_error hr]
      exact ⟨trace, .error hanswers, hnests, nofun⟩
    | .ok none =>
      rw [Outline.link_missing hr]
      exact ⟨trace, .missing hanswers, hnests, nofun⟩
    | .ok (some target) =>
      rw [Outline.link_some hr]
      obtain ⟨trace', hlinks, hnests', hcomplete'⟩ :=
        ih (links.insert name target) s' ((Shelf.free_of_keeps hnests.keeps sources).trans hs)
      have hdone := hcomplete _ rfl
      exact ⟨trace ++ trace', .linked hanswers hlinks, hnests.trans hdone hnests',
        fun t ht => hdone.append (hcomplete' t ht) hnests'.keeps⟩

theorem Shelf.Completes.stop {s : Shelf} {trace : List Occurrence} (h : s.Completes trace)
    (name : String) (id : TemplateId) (t : Template) :
    (s.stop name id (.ok t)).Completes (.begun name :: trace) := by
  intro other hother
  rw [compiled_stop]
  split
  · exact nofun
  · next hne => exact h other ((List.mem_cons.1 hother).resolve_left (Ne.symm hne))

theorem Shelf.Nests.bound {s s' : Shelf} {name : String} {trace : List Occurrence} {t : Template}
    (h : (s.start name).Nests sources trace s') (hsource : sources.get? name = some t.source) :
    Bound sources name (.begun name :: trace) (s'.stop name s.library.next (.ok t))
      s.library.next := by
  refine ⟨?_, ⟨t, ?_, hsource⟩, fun other hmem => ?_⟩
  · rw [compiled_stop, if_pos rfl]
  · rw [get?_stop, if_pos rfl]
  · rcases List.mem_cons.1 hmem with hmem | hmem
    · cases hmem
    · exact h.pending_eq hmem

theorem resolve_followed (dialect : Dialect) (sources : Dict String) (name : String) (s : Shelf) :
    ∃ trace, Followed (Answers dialect sources s name) sources s trace
        (resolve dialect (s.free sources) name s) ∧
      ∀ id, (resolve dialect (s.free sources) name s).1 = .ok (some (.compiled id)) →
        s.compiled.get? name = none →
          Bound sources name trace (resolve dialect (s.free sources) name s).2 id := by
  generalize hfree : s.free sources = waiting
  induction waiting, name, s using resolve_induction dialect with
  | pending waiting name s id hprogress heq =>
    rw [heq]
    exact ⟨_, ⟨.pending hprogress, .pending_given hprogress, fun _ _ => nofun⟩, nofun⟩
  | compiled waiting name s id hprogress hcompiled heq =>
    rw [heq]
    refine ⟨_, ⟨.compiled hprogress hcompiled, .compiled_given s sources name id,
      fun _ _ => nofun⟩, fun other _ hnone => ?_⟩
    cases hcompiled.symm.trans hnone
  | unknown waiting name s hprogress hcompiled hwaiting heq =>
    rw [heq]
    rw [← hfree, Shelf.get?_free, hprogress] at hwaiting
    exact ⟨[], ⟨.unknown hprogress hcompiled hwaiting, .nothing s sources, fun _ _ => nofun⟩, nofun⟩
  | waits waiting name s source outcome s' hprogress hcompiled hwaiting ih hlink heq =>
    rw [heq]
    rw [← hfree, Shelf.get?_free, hprogress] at hwaiting
    have hlinked := link_followed source
      (fun other s hs => let ⟨trace, h, _⟩ := ih other s hs; ⟨trace, h⟩)
      (Outline.ofSource dialect source) ⟨[]⟩ (s.start name)
      ((Shelf.free_start s name sources).trans (congrArg (Dict.erase · name) hfree))
    rw [hlink] at hlinked
    obtain ⟨trace, hlinks, hnests, hcomplete⟩ := hlinked
    refine ⟨.begun name :: trace, ⟨.begun hprogress hcompiled hwaiting hlinks,
      hnests.stop hprogress hcompiled hwaiting outcome, fun a ha => ?_⟩, fun id hid _ => ?_⟩
    · cases outcome with
      | error e => cases ha
      | ok t => exact (hcomplete t rfl).stop name s.library.next t
    · cases outcome with
      | error e => cases hid
      | ok t =>
        cases hid
        exact hnests.bound (hwaiting.trans (congrArg some (Outline.source_of_link hlink).symm))

/-- Every question to the registry is answered after finitely many nested compilations, each of a
partial that was not in progress, and no two of one partial. What was in progress before is in
progress then. A partial that was compiled for the answer is entered under its name, and the pending
references to it that were handed out on the way lead to it for as long as it is held. -/
theorem resolve_returns (dialect : Dialect) (sources : Dict String) (name : String) (s : Shelf) :
    ∃ trace answer s', resolve dialect (s.free sources) name s = (answer, s') ∧
      Answers dialect sources s name trace answer s' ∧
      s'.events = s.events ++ (begun trace).map .compilingPartial ∧
      (begun trace).length ≤ sources.size ∧ (begun trace).Nodup ∧
      (∀ other ∈ begun trace, s.inProgress.get? other = none) ∧
      s'.inProgress = s.inProgress ∧
      ∀ id, answer = .ok (some (.compiled id)) → s.compiled.get? name = none →
        s'.compiled.get? name = some id ∧
        ∃ t, s'.library.get? id = some t ∧ sources.get? name = some t.source ∧
          ∀ pending, .given name (.pending pending) ∈ trace → ∀ held, id ∈ held →
            s'.library.resolve (s'.library.reach held) (.pending pending) = some t := by
  obtain ⟨trace, ⟨hanswers, hnests, -⟩, hbound⟩ := resolve_followed dialect sources name s
  refine ⟨trace, _, _, rfl, hanswers, hnests.events, hnests.length_le, hnests.once, hnests.idle,
    hnests.keeps.inProgress, fun id hid hnone => ?_⟩
  obtain ⟨hentry, ⟨t, ht, hsource⟩, hpending⟩ := hbound id hid hnone
  refine ⟨hentry, t, ht, hsource, fun pending hgiven held hheld => ?_⟩
  rw [hpending pending hgiven, Library.resolve, if_pos (Library.mem_reach_of_mem hheld)]
  exact ht

/-- While a partial is in progress, only pending references to it are given. -/
theorem Answers.of_inProgress {s s' : Shelf} {name : String} {trace : List Occurrence}
    {answer : Except TemplateError (Option Target)} {id : TemplateId}
    (h : Answers dialect sources s name trace answer s') (hid : s.inProgress.get? name = some id) :
    trace = [.given name (.pending id)] ∧ answer = .ok (some (.pending id)) ∧ s' = s := by
  cases h with
  | pending h =>
    cases h.symm.trans hid
    exact ⟨rfl, rfl, rfl⟩
  | compiled h => cases h.symm.trans hid
  | unknown h => cases h.symm.trans hid
  | begun h => cases h.symm.trans hid

/-- A partial that includes itself is compiled once, and the reference to itself leads to it. -/
theorem resolve_returns_itself :
    let source := String.ofList (including "a")
    let sources : Dict String := ⟨[("a", source)]⟩
    ∃ s' t, resolve { helpers := ⟨[]⟩ } sources "a" ⟨{}, ⟨[]⟩, ⟨[]⟩, []⟩ =
        (.ok (some (.compiled 0)), s') ∧
      s'.inProgress = ⟨[]⟩ ∧ s'.events = [.compilingPartial "a"] ∧
      t = ⟨source, [inclusion "a"], ⟨[("a", .pending 0)]⟩⟩ ∧
      s'.library.resolve (s'.library.reach [0]) (.pending 0) = some t := by
  intro source sources
  let dialect : Dialect := { helpers := ⟨[]⟩ }
  let s : Shelf := ⟨{}, ⟨[]⟩, ⟨[]⟩, []⟩
  let t : Template := ⟨source, [inclusion "a"], ⟨[("a", .pending 0)]⟩⟩
  have hname : InBrackets "a" := ⟨by decide, by decide⟩
  obtain ⟨left, houtline⟩ := ofSource_including dialect hname
  have hlink : (Outline.ofSource dialect source).link source
      (resolve dialect (sources.erase "a")) ⟨[]⟩ (s.start "a") = (.ok t, s.start "a") := by
    rw [houtline]
    exact Outline.link_some (resolve_pending rfl)
  have hresolve : resolve dialect sources "a" s =
      (.ok (some (.compiled 0)), (s.start "a").stop "a" 0 (.ok t)) :=
    resolve_waiting rfl rfl rfl hlink
  obtain ⟨trace, answer, s', heq, hanswers, hevents, -, -, -, hprogress, hbound⟩ :=
    resolve_returns dialect sources "a" s
  have hgiven : .given "a" (.pending 0) ∈ trace := by
    cases hanswers with
    | pending h => cases h
    | compiled _ hid => cases hid
    | unknown _ _ hsource => cases hsource
    | begun _ _ hsource hlinks =>
      cases hsource
      rw [houtline] at hlinks
      cases hlinks with
      | error h => cases (h.of_inProgress rfl).2.1
      | missing h => cases (h.of_inProgress rfl).2.1
      | linked h =>
        rw [(h.of_inProgress rfl).1]
        exact List.mem_cons_of_mem _ (List.mem_append_left _ List.mem_cons_self)
  cases hresolve.symm.trans heq
  obtain ⟨-, t', ht', -, hpending⟩ := hbound 0 rfl rfl
  cases ht'
  exact ⟨_, t, hresolve, hprogress, rfl, rfl, hpending 0 hgiven [0] List.mem_cons_self⟩

theorem Shelf.free_idle {s : Shelf} (h : s.inProgress = ⟨[]⟩) (sources : Dict String) :
    s.free sources = sources := by
  refine congrArg Dict.mk (List.filter_eq_self.2 fun entry _ => ?_)
  rw [h]
  rfl

theorem compile_returns (dialect : Dialect) (sources : Dict String) (source : String) {s : Shelf}
    (hs : s.inProgress = ⟨[]⟩) :
    ∃ trace outcome s', compile dialect sources source s = (outcome, s') ∧
      Links dialect sources source (Outline.ofSource dialect source) ⟨[]⟩ s trace outcome s' ∧
      s'.events = s.events ++ (begun trace).map .compilingPartial ∧
      (begun trace).length ≤ sources.size ∧ (begun trace).Nodup ∧ s'.inProgress = ⟨[]⟩ := by
  have hask (name : String) (s : Shelf) (hfree : s.free sources = sources) :
      ∃ trace, Followed (Answers dialect sources s name) sources s trace
        (resolve dialect sources name s) := by
    obtain ⟨trace, hfollowed, -⟩ := resolve_followed dialect sources name s
    rw [hfree] at hfollowed
    exact ⟨trace, hfollowed⟩
  obtain ⟨trace, hlinks, hnests, -⟩ := link_followed source hask (Outline.ofSource dialect source)
    ⟨[]⟩ s (Shelf.free_idle hs sources)
  exact ⟨trace, _, _, rfl, hlinks, hnests.events, hnests.length_le, hnests.once,
    hnests.keeps.inProgress.trans hs⟩

end
end Stencil
