import Stencil.Proofs.Asking

set_option autoImplicit false

/-!
# Shelves

What compiling does to the partials that are complete or in progress, whichever of them include
each other.
-/
namespace Stencil

theorem modify_apply {σ : Type} (f : σ → σ) (s : σ) :
    (modify f : StateM σ PUnit) s = (⟨⟩, f s) := rfl

namespace Dict
variable {α : Type}

theorem firstEntry_filter (p : String → Bool) (other : String) (entries : List (String × α)) :
    firstEntry other (entries.filter fun entry => p entry.1) =
      if p other then firstEntry other entries else none := by
  induction entries with
  | nil => simp [firstEntry]
  | cons entry rest ih =>
    obtain ⟨k, v⟩ := entry
    by_cases hk : p k = true
    · rw [List.filter_cons_of_pos (by exact hk), firstEntry, ih, firstEntry]
      by_cases h : k = other
      · subst h
        simp [hk]
      · simp [h]
    · rw [List.filter_cons_of_neg (by exact hk), ih, firstEntry]
      by_cases h : k = other
      · subst h
        simp [hk]
      · simp [h]

@[simp] theorem get?_erase (d : Dict α) (key other : String) :
    (d.erase key).get? other = if key = other then none else d.get? other := by
  refine (firstEntry_filter (fun k => decide (k ≠ key)) other d.entries).trans ?_
  by_cases h : key = other
  · simp [h]
  · simp [h, Ne.symm h, get?]

theorem mem_values_of_get? {d : Dict α} {key : String} {v : α} (h : d.get? key = some v) :
    v ∈ d.values :=
  List.mem_map.2 ⟨(key, v), mem_of_firstEntry h, rfl⟩

end Dict

section
variable {σ : Type} {source : String}
  {ask : String → StateM σ (Except TemplateError (Option Target))} {links : Dict Target}
  {name : String} {left : Nat} {next : Outline} {s s' : σ}

theorem Outline.link_error {e : TemplateError} (h : ask name s = (.error e, s')) :
    (asking name left next).link source ask links s = (.error e, s') := by
  rw [link]
  simp only [bind, StateT.bind, h]
  rfl

theorem Outline.link_missing (h : ask name s = (.ok none, s')) :
    (asking name left next).link source ask links s =
      (.error (Failure.error source ⟨left, .missingPartial name⟩), s') := by
  rw [link]
  simp only [bind, StateT.bind, h]
  rfl

theorem Outline.link_some {target : Target} (h : ask name s = (.ok (some target), s')) :
    (asking name left next).link source ask links s =
      next.link source ask (links.insert name target) s' := by
  rw [link]
  simp only [bind, StateT.bind, h]

theorem Outline.source_of_link {outline : Outline} {t : Template}
    (h : outline.link source ask links s = (.ok t, s')) : t.source = source := by
  induction outline generalizing links s with
  | finished items => cases h; rfl
  | failed f => cases h
  | asking name left next ih =>
    generalize hr : ask name s = r
    obtain ⟨answer, s''⟩ := r
    match answer with
    | .error e => rw [link_error hr] at h; cases h
    | .ok none => rw [link_missing hr] at h; cases h
    | .ok (some target) => rw [link_some hr] at h; exact ih h

end

section
variable {dialect : Dialect} {waiting : Dict String} {name : String} {s : Shelf}

theorem resolve_pending {id : TemplateId} (h : s.inProgress.get? name = some id) :
    resolve dialect waiting name s = (.ok (some (.pending id)), s) := by
  rw [resolve]
  simp only [bind, StateT.bind, get, getThe, MonadStateOf.get, StateT.get, pure, h]
  rfl

theorem resolve_compiled {id : TemplateId} (h : s.inProgress.get? name = none)
    (hid : s.compiled.get? name = some id) :
    resolve dialect waiting name s = (.ok (some (.compiled id)), s) := by
  rw [resolve]
  simp only [bind, StateT.bind, get, getThe, MonadStateOf.get, StateT.get, pure, h, hid]
  rfl

theorem resolve_unknown (h : s.inProgress.get? name = none) (hcompiled : s.compiled.get? name = none)
    (hwaiting : waiting.get? name = none) :
    resolve dialect waiting name s = (.ok none, s) := by
  rw [resolve]
  simp only [bind, StateT.bind, get, getThe, MonadStateOf.get, StateT.get, pure, h, hcompiled]
  refine Eq.trans (congrFun (g := StateT.pure (.ok none)) ?_ s) rfl
  split
  · rfl
  · next heq => rw [hwaiting] at heq; cases heq

theorem resolve_waiting {source : String} {outcome : Except TemplateError Template} {s' : Shelf}
    (h : s.inProgress.get? name = none) (hcompiled : s.compiled.get? name = none)
    (hwaiting : waiting.get? name = some source)
    (hlink : (Outline.ofSource dialect source).link source
      (fun other => resolve dialect (waiting.erase name) other) ⟨[]⟩ (s.start name) =
        (outcome, s')) :
    resolve dialect waiting name s =
      (outcome.map fun _ => some (.compiled s.library.next), s'.stop name s.library.next outcome) := by
  rw [resolve]
  simp only [bind, StateT.bind, get, getThe, MonadStateOf.get, StateT.get, pure, h, hcompiled]
  refine Eq.trans (congrFun (g := StateT.bind (modify (Shelf.start name)) fun _ =>
    StateT.bind ((Outline.ofSource dialect source).link source
      (fun other => resolve dialect (waiting.erase name) other) ⟨[]⟩) fun outcome =>
    StateT.bind (modify (Shelf.stop name s.library.next outcome)) fun _ =>
      StateT.pure (outcome.map fun _ => some (.compiled s.library.next))) ?_ s) ?_
  · split
    · next heq => rw [hwaiting] at heq; cases heq
    · next other heq =>
      rw [hwaiting] at heq
      cases heq
      rfl
  · simp only [bind, StateT.bind, modify_apply, hlink]
    rfl

end

/-- What holds of a partial that waits may be proved from what holds of those its source asks for,
as it does not wait any more then. -/
theorem resolve_induction (dialect : Dialect) {motive : Dict String → String → Shelf → Prop}
    (pending : ∀ waiting name s id, s.inProgress.get? name = some id →
      resolve dialect waiting name s = (.ok (some (.pending id)), s) → motive waiting name s)
    (compiled : ∀ waiting name s id, s.inProgress.get? name = none →
      s.compiled.get? name = some id →
      resolve dialect waiting name s = (.ok (some (.compiled id)), s) → motive waiting name s)
    (unknown : ∀ waiting name s, s.inProgress.get? name = none → s.compiled.get? name = none →
      waiting.get? name = none → resolve dialect waiting name s = (.ok none, s) →
      motive waiting name s)
    (waits : ∀ waiting name s source outcome s', s.inProgress.get? name = none →
      s.compiled.get? name = none → waiting.get? name = some source →
      (∀ other s, motive (waiting.erase name) other s) →
      (Outline.ofSource dialect source).link source (resolve dialect (waiting.erase name)) ⟨[]⟩
        (s.start name) = (outcome, s') →
      resolve dialect waiting name s = (outcome.map fun _ => some (.compiled s.library.next),
        s'.stop name s.library.next outcome) → motive waiting name s)
    (waiting : Dict String) (name : String) (s : Shelf) : motive waiting name s := by
  induction hn : waiting.size using Nat.strongRecOn generalizing waiting name s with
  | ind n ih =>
    subst hn
    cases hprogress : s.inProgress.get? name with
    | some id => exact pending _ _ _ id hprogress (resolve_pending hprogress)
    | none =>
      cases hcompiled : s.compiled.get? name with
      | some id => exact compiled _ _ _ id hprogress hcompiled (resolve_compiled hprogress hcompiled)
      | none =>
        cases hwaiting : waiting.get? name with
        | none =>
          exact unknown _ _ _ hprogress hcompiled hwaiting
            (resolve_unknown hprogress hcompiled hwaiting)
        | some source =>
          generalize hr : (Outline.ofSource dialect source).link source
            (resolve dialect (waiting.erase name)) ⟨[]⟩ (s.start name) = r
          obtain ⟨outcome, s'⟩ := r
          exact waits _ _ _ source outcome s' hprogress hcompiled hwaiting
            (fun other s => ih _ (Dict.size_erase_lt hwaiting) _ other s rfl) hr
            (resolve_waiting hprogress hcompiled hwaiting hr)

/-- Goes through a source, given of each partial whether it is there or what is wrong with it. -/
def Outline.check (source : String) (ask : String → Except TemplateError Bool) :
    Outline → Except TemplateError (List Item)
  | .finished items => .ok items
  | .failed f => .error (f.error source)
  | .asking name left next =>
    match ask name with
    | .error e => .error e
    | .ok false => .error (Failure.error source ⟨left, .missingPartial name⟩)
    | .ok true => next.check source ask

theorem Outline.check_eq_ok_iff {source : String} {ask : String → Except TemplateError Bool}
    {o : Outline} {items : List Item} :
    o.check source ask = .ok items ↔ (∀ name ∈ o.asks, ask name = .ok true) ∧ o.ending = .ok items := by
  induction o with
  | finished items' => simp [check, asks, ending]
  | failed f => simp [check, asks, ending]
  | asking name left next ih =>
    rw [check, asks, ending, List.forall_mem_cons]
    split
    · next h => simp [h]
    · next h => simp [h]
    · next h => simp [h, ih]

/-- Whether a partial is there, or the first thing that is wrong with it or with a partial that it
asks for. Everything is gone through again wherever it is asked for. -/
def check (dialect : Dialect) (known : String → Bool) (waiting : Dict String) (name : String) :
    Except TemplateError Bool :=
  match h : waiting.get? name with
  | none => .ok (known name)
  | some source =>
    have := Dict.size_erase_lt h
    ((Outline.ofSource dialect source).check source fun other =>
      check dialect known (waiting.erase name) other).map fun _ => true
termination_by waiting.size

section
variable {dialect : Dialect} {known : String → Bool} {waiting : Dict String} {name : String}

theorem check_none (h : waiting.get? name = none) :
    check dialect known waiting name = .ok (known name) := by
  rw [check]
  split
  · rfl
  · next heq => rw [h] at heq; cases heq

theorem check_some {source : String} (h : waiting.get? name = some source) :
    check dialect known waiting name =
      ((Outline.ofSource dialect source).check source
        (check dialect known (waiting.erase name))).map fun _ => true := by
  rw [check]
  split
  · next heq => rw [h] at heq; cases heq
  · next heq =>
    rw [h] at heq
    cases heq
    rfl

/-- Nothing is wrong with partials that are fine by themselves and ask for each other only. -/
theorem check_of_closed (closed : String → Prop)
    (hclosed : ∀ name, closed name → ∀ source, waiting.get? name = some source →
      (∃ items, (Outline.ofSource dialect source).ending = .ok items) ∧
        ∀ other ∈ (Outline.ofSource dialect source).asks, closed other)
    (hknown : ∀ name, closed name → known name = true) (h : closed name) :
    check dialect known waiting name = .ok true := by
  induction hn : waiting.size using Nat.strongRecOn generalizing waiting name with
  | ind n ih =>
    subst hn
    cases hsource : waiting.get? name with
    | none => rw [check_none hsource, hknown name h]
    | some source =>
      obtain ⟨⟨items, hitems⟩, hasks⟩ := hclosed name h source hsource
      have hclosed' (other : String) (hother : closed other) (source : String)
          (hget : (waiting.erase name).get? other = some source) :=
        hclosed other hother source (by
          rw [Dict.get?_erase] at hget
          split at hget
          · cases hget
          · exact hget)
      have hcheck : (Outline.ofSource dialect source).check source
          (check dialect known (waiting.erase name)) = .ok items :=
        Outline.check_eq_ok_iff.2 ⟨fun other hother =>
          ih _ (Dict.size_erase_lt hsource) hclosed' (hasks other hother) rfl, hitems⟩
      rw [check_some hsource, hcheck]
      rfl

end

/-- What compilations begin with: partials that are compiled, and the sources of others. -/
structure Origin where
  dialect : Dialect
  sources : Dict String
  compiled : Dict TemplateId
  library : Library
  apart : ∀ name source, sources.get? name = some source → compiled.get? name = none

def Target.id : Target → TemplateId
  | .compiled id => id
  | .pending id => id

/-- A target is what a partial is compiled to, unless the partial is gone. -/
def Leads (s : Shelf) (gone : String → Prop) (name : String) : Target → Prop
  | .compiled id => s.compiled.get? name = some id
  | .pending id =>
    s.inProgress.get? name = some id ∨ s.compiled.get? name = some id ∨ gone name

theorem leads_iff {s : Shelf} (h : ∀ name, s.inProgress.get? name = none) {name : String}
    {target : Target} :
    Leads s (fun _ => False) name target ↔ s.compiled.get? name = some target.id := by
  cases target with
  | compiled id => rfl
  | pending id =>
    constructor
    · rintro (hid | hid | hgone)
      · cases (h name).symm.trans hid
      · exact hid
      · exact hgone.elim
    · exact fun hid => .inr (.inl hid)

namespace Origin

def known (o : Origin) (name : String) : Bool :=
  (o.compiled.get? name).isSome || (o.sources.get? name).isSome

def IsFree (o : Origin) (s : Shelf) (free : Dict String) : Prop :=
  ∀ name, free.get? name =
    if (s.inProgress.get? name).isSome then none else o.sources.get? name

def Waits (o : Origin) (s : Shelf) (waiting : Dict String) : Prop :=
  ∀ name, s.inProgress.get? name = none → s.compiled.get? name = none →
    waiting.get? name = o.sources.get? name

/-- Something is wrong with a partial, even if some of the others are left out. -/
def Faulty (o : Origin) (name : String) : Prop :=
  ∃ some : Dict String, (∀ name source, some.get? name = .some source →
    o.sources.get? name = .some source) ∧ ∃ e, check o.dialect o.known some name = .error e

/-- A template is what its source comes to, linked to what its partials are compiled to. -/
structure Stands (o : Origin) (s : Shelf) (gone : String → Prop) (source : String) (t : Template) :
    Prop where
  text : t.source = source
  ending : (Outline.ofSource o.dialect source).ending = .ok t.items
  distinct : t.links.Distinct
  asks : ∀ name, name ∈ (Outline.ofSource o.dialect source).asks ↔
    ∃ target, t.links.get? name = some target
  links : ∀ name target, t.links.get? name = some target → Leads s gone name target

def New (o : Origin) (s : Shelf) (id : TemplateId) : Prop :=
  o.library.next ≤ id ∧ id < s.library.next

/-- What holds of a shelf at all times. Of the partials that are gone, the compilation failed. -/
structure Sound (o : Origin) (gone : String → Prop) (s : Shelf) : Prop where
  next : o.library.next ≤ s.library.next
  library : ∀ id < o.library.next, s.library.get? id = o.library.get? id
  kept : ∀ name id, o.compiled.get? name = some id → s.compiled.get? name = some id
  made : ∀ name id, s.compiled.get? name = some id → o.compiled.get? name = none →
    o.New s id ∧ ∃ source t, o.sources.get? name = some source ∧ s.library.get? id = some t ∧
      o.Stands s gone source t
  progress : ∀ name id, s.inProgress.get? name = some id →
    o.New s id ∧ s.compiled.get? name = none ∧ ∃ source, o.sources.get? name = some source
  unused : ∀ name id, s.inProgress.get? name = some id → ∀ other,
    s.compiled.get? other = some id → o.compiled.get? other = some id
  distinct : ∀ name id, s.inProgress.get? name = some id → ∀ other,
    s.inProgress.get? other = some id → other = name

end Origin

/-- One shelf comes after another: of the partials begun in between, each was new and is compiled
now, unless it is gone. -/
structure Shelf.Grows (gone : String → Prop) (s s' : Shelf) : Prop where
  next : s.library.next ≤ s'.library.next
  library : ∀ id < s.library.next, (∀ name, s.inProgress.get? name ≠ some id) →
    s'.library.get? id = s.library.get? id
  compiled : ∀ name id, s.compiled.get? name = some id → s'.compiled.get? name = some id
  inProgress : ∀ name, s'.inProgress.get? name = s.inProgress.get? name
  begun : ∃ names : List String, s'.events = s.events ++ names.map .compilingPartial ∧ names.Nodup ∧
    ∀ name ∈ names, s.compiled.get? name = none ∧ s.inProgress.get? name = none ∧
      ((∃ id, s'.compiled.get? name = some id) ∨ gone name)

namespace Shelf.Grows
variable {gone gone' : String → Prop} {s s' s'' : Shelf}

theorem refl (s : Shelf) : Grows gone s s :=
  ⟨Nat.le_refl _, fun _ _ _ => rfl, fun _ _ h => h, fun _ => rfl, [], by simp, List.nodup_nil, nofun⟩

theorem compiled_none (h : Grows gone s s') {name : String} (hnone : s'.compiled.get? name = none) :
    s.compiled.get? name = none := by
  cases hid : s.compiled.get? name with
  | none => rfl
  | some id => cases hnone.symm.trans (h.compiled name id hid)

theorem mono (h : Grows gone s s') (hgone : ∀ name, gone name → gone' name) : Grows gone' s s' := by
  obtain ⟨names, hevents, hnodup, hnames⟩ := h.begun
  exact { h with
    begun := ⟨names, hevents, hnodup, fun name hname =>
      ⟨(hnames name hname).1, (hnames name hname).2.1, (hnames name hname).2.2.imp_right (hgone name)⟩⟩ }

theorem trans (h : Grows (fun _ => False) s s') (h' : Grows gone s' s'') : Grows gone s s'' where
  next := Nat.le_trans h.next h'.next
  library id hid hprogress := by
    rw [h'.library id (Nat.lt_of_lt_of_le hid h.next) fun name => by
      rw [h.inProgress]
      exact hprogress name]
    exact h.library id hid hprogress
  compiled name id hid := h'.compiled name id (h.compiled name id hid)
  inProgress name := (h'.inProgress name).trans (h.inProgress name)
  begun := by
    obtain ⟨names, hevents, hnodup, hnames⟩ := h.begun
    obtain ⟨names', hevents', hnodup', hnames'⟩ := h'.begun
    refine ⟨names ++ names', ?_, List.nodup_append.2 ⟨hnodup, hnodup', ?_⟩, ?_⟩
    · rw [hevents', hevents, List.map_append, List.append_assoc]
    · rintro name hname other hother rfl
      obtain ⟨id, hid⟩ := (hnames name hname).2.2.resolve_right id
      rw [(hnames' name hother).1] at hid
      cases hid
    · intro name hname
      rcases List.mem_append.1 hname with hname | hname
      · obtain ⟨hnone, hnone', hdone⟩ := hnames name hname
        obtain ⟨id, hid⟩ := hdone.resolve_right id
        exact ⟨hnone, hnone', .inl ⟨id, h'.compiled name id hid⟩⟩
      · obtain ⟨hnone, hnone', hdone⟩ := hnames' name hname
        exact ⟨h.compiled_none hnone, (h.inProgress name).symm.trans hnone', hdone⟩

theorem leads (h : Grows gone s s') {name : String} {target : Target}
    (hleads : Leads s gone' name target) : Leads s' gone' name target := by
  cases target with
  | compiled id => exact h.compiled name id hleads
  | pending id =>
    rcases hleads with hid | hid | hname
    · exact .inl ((h.inProgress name).trans hid)
    · exact .inr (.inl (h.compiled name id hid))
    · exact .inr (.inr hname)

end Shelf.Grows

namespace Origin
variable {o : Origin} {gone gone' : String → Prop} {s s' : Shelf}

theorem Waits.grows {waiting : Dict String} (h : o.Waits s waiting) (hgrows : s.Grows gone s') :
    o.Waits s' waiting := by
  intro name hprogress hcompiled
  exact h name ((hgrows.inProgress name).symm.trans hprogress) (hgrows.compiled_none hcompiled)

theorem IsFree.grows {free : Dict String} (h : o.IsFree s free) (hgrows : s.Grows gone s') :
    o.IsFree s' free := by
  intro name
  rw [hgrows.inProgress]
  exact h name

theorem IsFree.sources {free : Dict String} (h : o.IsFree s free) (name source : String)
    (hget : free.get? name = some source) :
    o.sources.get? name = some source ∧ s.inProgress.get? name = none := by
  rw [h] at hget
  split at hget
  · cases hget
  · next hprogress => exact ⟨hget, Option.not_isSome_iff_eq_none.1 hprogress⟩

theorem Stands.mono {source : String} {t : Template} (h : o.Stands s gone source t)
    (hleads : ∀ name target, Leads s gone name target → Leads s' gone' name target) :
    o.Stands s' gone' source t :=
  { h with links := fun name target hlink => hleads name target (h.links name target hlink) }

namespace Sound

theorem mono (h : o.Sound gone s) (hgone : ∀ name, gone name → gone' name) : o.Sound gone' s := by
  refine { h with made := fun name id hid hnone => ?_ }
  obtain ⟨hnew, source, t, hsource, ht, hstands⟩ := h.made name id hid hnone
  refine ⟨hnew, source, t, hsource, ht, hstands.mono fun other target hleads => ?_⟩
  cases target with
  | compiled id => exact hleads
  | pending id => exact hleads.imp_right fun hleads => hleads.imp_right (hgone other)

/-- What is found under the numbers so far is all that counts. -/
theorem transfer (h : o.Sound gone s) (hnext : s.library.next ≤ s'.library.next)
    (hlibrary : ∀ id < s.library.next, s'.library.get? id = s.library.get? id)
    (hcompiled : ∀ name, s'.compiled.get? name = s.compiled.get? name)
    (hprogress : ∀ name, s'.inProgress.get? name = s.inProgress.get? name) : o.Sound gone s' := by
  have hleads (name : String) (target : Target) (h : Leads s gone name target) :
      Leads s' gone name target := by
    cases target with
    | compiled id => exact (hcompiled name).trans h
    | pending id =>
      exact h.imp (hprogress name).trans fun h => h.imp_left (hcompiled name).trans
  have hnew (id : TemplateId) (hid : o.New s id) : o.New s' id :=
    ⟨hid.1, Nat.lt_of_lt_of_le hid.2 hnext⟩
  refine ⟨Nat.le_trans h.next hnext, fun id hid => ?_, fun name id hid => ?_, ?_, ?_, ?_, ?_⟩
  · rw [hlibrary id (Nat.lt_of_lt_of_le hid h.next), h.library id hid]
  · rw [hcompiled, h.kept name id hid]
  · intro name id hid hnone
    rw [hcompiled] at hid
    obtain ⟨hid', source, t, hsource, ht, hstands⟩ := h.made name id hid hnone
    exact ⟨hnew id hid', source, t, hsource, (hlibrary id hid'.2).trans ht, hstands.mono hleads⟩
  · intro name id hid
    rw [hprogress] at hid
    obtain ⟨hid', hnone, hsource⟩ := h.progress name id hid
    exact ⟨hnew id hid', (hcompiled name).trans hnone, hsource⟩
  · intro name id hid other hother
    rw [hprogress] at hid
    rw [hcompiled] at hother
    exact h.unused name id hid other hother
  · intro name id hid other hother
    rw [hprogress] at hid hother
    exact h.distinct name id hid other hother

theorem closed (h : o.Sound (fun _ => False) s) {name : String} {source : String}
    (hsource : o.sources.get? name = some source) {id : TemplateId}
    (hid : s.compiled.get? name = some id) :
    (∃ items, (Outline.ofSource o.dialect source).ending = .ok items) ∧
      ∀ other ∈ (Outline.ofSource o.dialect source).asks,
        (∃ id, s.compiled.get? other = some id) ∨ ∃ id, s.inProgress.get? other = some id := by
  obtain ⟨-, source', t, hsource', -, hstands⟩ := h.made name id hid (o.apart name source hsource)
  cases hsource'.symm.trans hsource
  refine ⟨⟨t.items, hstands.ending⟩, fun other hother => ?_⟩
  obtain ⟨target, htarget⟩ := (hstands.asks other).1 hother
  have hleads := hstands.links other target htarget
  cases target with
  | compiled id => exact .inl ⟨id, hleads⟩
  | pending id =>
    rcases hleads with hid | hid | hgone
    · exact .inr ⟨id, hid⟩
    · exact .inl ⟨id, hid⟩
    · exact hgone.elim

theorem known (h : o.Sound gone s) {name : String}
    (hname : (∃ id, s.compiled.get? name = some id) ∨ ∃ id, s.inProgress.get? name = some id) :
    o.known name = true := by
  unfold Origin.known
  rcases hname with ⟨id, hid⟩ | ⟨id, hid⟩
  · cases hold : o.compiled.get? name with
    | some id => rfl
    | none =>
      obtain ⟨-, source, -, hsource, -⟩ := h.made name id hid hold
      rw [hsource]
      rfl
  · obtain ⟨-, -, source, hsource⟩ := h.progress name id hid
    rw [hsource, Option.isSome_some, Bool.or_true]

/-- Nothing is wrong with a partial that is compiled or in progress, as long as none is gone. -/
theorem check_eq (h : o.Sound (fun _ => False) s) {free : Dict String}
    (hfree : ∀ name source, free.get? name = some source →
      o.sources.get? name = some source ∧ s.inProgress.get? name = none) {name : String}
    (hname : (∃ id, s.compiled.get? name = some id) ∨ ∃ id, s.inProgress.get? name = some id) :
    check o.dialect o.known free name = .ok true := by
  refine check_of_closed (fun name => (∃ id, s.compiled.get? name = some id) ∨
    ∃ id, s.inProgress.get? name = some id) ?_ (fun _ hname => h.known hname) hname
  intro name hname source hget
  obtain ⟨hsource, hprogress⟩ := hfree name source hget
  obtain ⟨id, hid⟩ := hname.resolve_right fun ⟨id, hid⟩ => nomatch hprogress.symm.trans hid
  exact h.closed hsource hid

end Sound
end Origin

@[simp] theorem Library.get?_put (l : Library) (id other : TemplateId) (t : Template) :
    (l.put id t).get? other = if id = other then some t else l.get? other := by
  unfold get? put
  dsimp only
  by_cases h : id = other
  · rw [List.find?_cons_of_pos (by simpa using h), if_pos h]
    rfl
  · rw [List.find?_cons_of_neg (by simpa using h), if_neg h]

@[simp] theorem Library.get?_add (l : Library) (id : TemplateId) (t : Template) :
    (l.add t).get? id = if l.next = id then some t else l.get? id :=
  l.reserve.get?_put l.next id t

theorem leads_insert {s : Shelf} {gone : String → Prop} {links : Dict Target} {name : String}
    {target : Target} (hlinks : ∀ other target', links.get? other = some target' →
      Leads s gone other target') (h : Leads s gone name target) (other : String) (target' : Target)
    (hget : (links.insert name target).get? other = some target') : Leads s gone other target' := by
  rw [Dict.get?_insert] at hget
  split at hget
  · next heq =>
    subst heq
    cases hget
    exact h
  · exact hlinks other target' hget

namespace Shelf
variable {name other : String} {id : TemplateId} {s : Shelf} {gone gone' : String → Prop}

@[simp] theorem inProgress_start (other : String) :
    (s.start name).inProgress.get? other =
      if name = other then some s.library.next else s.inProgress.get? other :=
  Dict.get?_insert _ name other _

@[simp] theorem inProgress_stop (outcome : Except TemplateError Template) (other : String) :
    (s.stop name id outcome).inProgress.get? other =
      if name = other then none else s.inProgress.get? other := by
  cases outcome <;> exact Dict.get?_erase _ name other

@[simp] theorem compiled_stop (t : Template) (other : String) :
    (s.stop name id (.ok t)).compiled.get? other =
      if name = other then some id else s.compiled.get? other :=
  Dict.get?_insert _ name other _

@[simp] theorem get?_stop (t : Template) (other : TemplateId) :
    (s.stop name id (.ok t)).library.get? other =
      if id = other then some t else s.library.get? other :=
  Library.get?_put _ id other t

@[simp] theorem next_stop (outcome : Except TemplateError Template) :
    (s.stop name id outcome).library.next = s.library.next := by
  cases outcome <;> rfl

@[simp] theorem events_stop (outcome : Except TemplateError Template) :
    (s.stop name id outcome).events = s.events := by
  cases outcome <;> rfl

theorem leads_start (hname : s.inProgress.get? name = none) {target : Target}
    (h : Leads s gone other target) : Leads (s.start name) gone other target := by
  cases target with
  | compiled id => exact h
  | pending id =>
    refine h.imp_left fun hid => ?_
    rw [inProgress_start, if_neg]
    · exact hid
    · rintro rfl
      rw [hname] at hid
      cases hid

/-- A complete partial is what the targets that waited for it lead to. -/
theorem leads_stop_ok (hname : s.inProgress.get? name = some id)
    (hcompiled : s.compiled.get? name = none) (t : Template) {target : Target}
    (h : Leads s gone other target) : Leads (s.stop name id (.ok t)) gone other target := by
  have hkeeps {id' : TemplateId} (hid : s.compiled.get? other = some id') :
      (s.stop name id (.ok t)).compiled.get? other = some id' := by
    rw [compiled_stop, if_neg]
    · exact hid
    · rintro rfl
      rw [hcompiled] at hid
      cases hid
  cases target with
  | compiled id' => exact hkeeps h
  | pending id' =>
    rcases h with hid | hid | hgone
    · by_cases hother : name = other
      · subst hother
        cases hname.symm.trans hid
        exact .inr (.inl (by rw [compiled_stop, if_pos rfl]))
      · exact .inl (by rw [inProgress_stop, if_neg hother, hid])
    · exact .inr (.inl (hkeeps hid))
    · exact .inr (.inr hgone)

theorem leads_stop_error (e : TemplateError) (hgone : ∀ name, gone name → gone' name)
    (hname : gone' name) {target : Target} (h : Leads s gone other target) :
    Leads (s.stop name id (.error e)) gone' other target := by
  cases target with
  | compiled id' => exact h
  | pending id' =>
    rcases h with hid | hid | hother
    · by_cases hother : name = other
      · subst hother
        exact .inr (.inr hname)
      · exact .inl (by rw [inProgress_stop, if_neg hother, hid])
    · exact .inr (.inl hid)
    · exact .inr (.inr (hgone other hother))

end Shelf

namespace Origin
namespace Sound
variable {o : Origin} {gone gone' : String → Prop} {s : Shelf} {name source : String}
  {id : TemplateId}

theorem start (h : o.Sound gone s) (hprogress : s.inProgress.get? name = none)
    (hcompiled : s.compiled.get? name = none) (hsource : o.sources.get? name = some source) :
    o.Sound gone (s.start name) := by
  have hnext : (s.start name).library.next = s.library.next + 1 := rfl
  have hnew (id : TemplateId) (hid : o.New s id) : o.New (s.start name) id :=
    ⟨hid.1, Nat.lt_succ_of_lt hid.2⟩
  refine ⟨Nat.le_succ_of_le h.next, h.library, h.kept, ?_, ?_, ?_, ?_⟩
  · intro other id hid hnone
    obtain ⟨hid', source, t, hother, ht, hstands⟩ := h.made other id hid hnone
    exact ⟨hnew id hid', source, t, hother, ht, hstands.mono fun _ _ => Shelf.leads_start hprogress⟩
  · intro other id hid
    rw [Shelf.inProgress_start] at hid
    split at hid
    · next heq =>
      subst heq
      cases hid
      exact ⟨⟨h.next, Nat.lt_succ_self _⟩, hcompiled, source, hsource⟩
    · obtain ⟨hid', hnone, hother⟩ := h.progress other id hid
      exact ⟨hnew id hid', hnone, hother⟩
  · intro first id hid other hother
    rw [Shelf.inProgress_start] at hid
    split at hid
    · cases hid
      cases hold : o.compiled.get? other with
      | none =>
        have hlt := (h.made other _ hother hold).1.2
        exact absurd hlt (Nat.lt_irrefl _)
      | some id' => exact (h.kept other id' hold).symm.trans hother
    · exact h.unused first id hid other hother
  · intro first id hid other hother
    rw [Shelf.inProgress_start] at hid hother
    split at hid
    · next heq =>
      subst heq
      cases hid
      split at hother
      · next heq => exact heq.symm
      · exact absurd (h.progress other _ hother).1.2 (Nat.lt_irrefl _)
    · split at hother
      · cases hother
        exact absurd (h.progress first _ hid).1.2 (Nat.lt_irrefl _)
      · exact h.distinct first id hid other hother

theorem stop_error (h : o.Sound gone s) (hgone : ∀ name, gone name → gone' name) (hname : gone' name)
    (e : TemplateError) : o.Sound gone' (s.stop name id (.error e)) := by
  refine ⟨h.next, h.library, h.kept, ?_, ?_, ?_, ?_⟩
  · intro other id hid hnone
    obtain ⟨hid', source, t, hother, ht, hstands⟩ := h.made other id hid hnone
    exact ⟨hid', source, t, hother, ht,
      hstands.mono fun _ _ => Shelf.leads_stop_error e hgone hname⟩
  · intro other id' hid
    rw [Shelf.inProgress_stop] at hid
    split at hid
    · cases hid
    · exact h.progress other id' hid
  · intro first id' hid
    rw [Shelf.inProgress_stop] at hid
    split at hid
    · cases hid
    · exact h.unused first id' hid
  · intro first id' hid other hother
    rw [Shelf.inProgress_stop] at hid hother
    split at hid
    · cases hid
    · split at hother
      · cases hother
      · exact h.distinct first id' hid other hother

theorem stop_ok (h : o.Sound gone s) (hid : s.inProgress.get? name = some id)
    (hsource : o.sources.get? name = some source) {t : Template} (ht : o.Stands s gone source t) :
    o.Sound gone (s.stop name id (.ok t)) := by
  obtain ⟨hnew, hcompiled, -⟩ := h.progress name id hid
  have hleads (other : String) (target : Target) (hleads : Leads s gone other target) :
      Leads (s.stop name id (.ok t)) gone other target :=
    Shelf.leads_stop_ok hid hcompiled t hleads
  refine ⟨h.next, ?_, ?_, ?_, ?_, ?_, ?_⟩
  · intro id' hid'
    rw [Shelf.get?_stop, if_neg]
    · exact h.library id' hid'
    · rintro rfl
      exact absurd hid' (Nat.not_lt.2 hnew.1)
  · intro other id' hid'
    exact hleads other (.compiled id') (h.kept other id' hid')
  · intro other id' hid' hnone
    rw [Shelf.compiled_stop] at hid'
    split at hid'
    · next heq =>
      subst heq
      cases hid'
      exact ⟨hnew, source, t, hsource, by rw [Shelf.get?_stop, if_pos rfl], ht.mono hleads⟩
    · obtain ⟨hnew', source', t', hother, ht', hstands⟩ := h.made other id' hid' hnone
      refine ⟨hnew', source', t', hother, ?_, hstands.mono hleads⟩
      rw [Shelf.get?_stop, if_neg]
      · exact ht'
      · rintro rfl
        rw [h.unused name id hid other hid'] at hnone
        cases hnone
  · intro other id' hid'
    rw [Shelf.inProgress_stop] at hid'
    split at hid'
    · cases hid'
    · next hne =>
      obtain ⟨hnew', hnone, hother⟩ := h.progress other id' hid'
      exact ⟨hnew', by rw [Shelf.compiled_stop, if_neg hne]; exact hnone, hother⟩
  · intro first id' hid' other hother
    rw [Shelf.inProgress_stop] at hid'
    rw [Shelf.compiled_stop] at hother
    split at hid'
    · cases hid'
    · next hne =>
      split at hother
      · cases hother
        exact absurd (h.distinct first id hid' name hid) hne
      · exact h.unused first id' hid' other hother
  · intro first id' hid' other hother
    rw [Shelf.inProgress_stop] at hid' hother
    split at hid'
    · cases hid'
    · split at hother
      · cases hother
      · exact h.distinct first id' hid' other hother

end Sound
end Origin

end Stencil
