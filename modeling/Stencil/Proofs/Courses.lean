import Stencil.Proofs.Shelves

set_option autoImplicit false

/-!
# The course of a compilation

What the beginning and the end of one compilation keep up holds of all those that are nested in it
as well, however the partials include each other.
-/
namespace Stencil

namespace Dict
variable {α : Type} {key : String} {value v : α} {d : Dict α}

theorem mem_values_insert (h : v ∈ (d.insert key value).values) : v = value ∨ v ∈ d.values := by
  obtain ⟨entries⟩ := d
  change v ∈ (insertEntry key value entries).map Prod.snd at h
  change v = value ∨ v ∈ entries.map Prod.snd
  induction entries with
  | nil => exact .inl (List.mem_singleton.1 h)
  | cons entry rest ih =>
    rw [insertEntry] at h
    split at h
    · rw [List.map_cons, List.mem_cons] at h ⊢
      exact h.imp_right .inr
    · rw [List.map_cons, List.mem_cons] at h ⊢
      rcases h with h | h
      · exact .inr (.inl h)
      · exact (ih h).imp_right .inr

theorem mem_values_extend {entries : List (String × α)} (h : v ∈ (d.extend entries).values) :
    v ∈ entries.map Prod.snd ∨ v ∈ d.values := by
  induction entries generalizing d with
  | nil => exact .inr h
  | cons entry rest ih =>
    rw [List.map_cons, List.mem_cons]
    rcases ih h with h | h
    · exact .inl (.inr h)
    · exact (mem_values_insert h).imp_left .inl

theorem erase_insert (h : d.get? key = none) (value : α) : (d.insert key value).erase key = d := by
  obtain ⟨entries⟩ := d
  change firstEntry key entries = none at h
  refine congrArg Dict.mk ?_
  change (insertEntry key value entries).filter (fun entry => entry.1 ≠ key) = entries
  induction entries with
  | nil => simp [insertEntry]
  | cons entry rest ih =>
    rw [firstEntry] at h
    split at h
    · cases h
    · next hne =>
      rw [insertEntry, if_neg hne, List.filter_cons_of_pos (by simpa using hne)]
      exact congrArg (List.cons _) (ih h)

theorem mem_values_erase (h : v ∈ (d.erase key).values) : v ∈ d.values :=
  (List.filter_sublist.map Prod.snd).subset h

end Dict

/-- How a compilation that was begun with a shelf can go on from it: what is kept up of a shelf,
how the shelf passes into a later one, and which targets are good to be handed out. -/
structure Course (kept : Shelf → Prop) (passes : Shelf → Shelf → Prop)
    (good : Shelf → Target → Prop) : Prop where
  refl : ∀ s, passes s s
  trans : ∀ {s s' s''}, passes s s' → passes s' s'' → passes s s''
  mono : ∀ {s s' target}, passes s s' → good s target → good s' target
  pending : ∀ {s name id}, kept s → s.inProgress.get? name = some id → good s (.pending id)
  compiled : ∀ {s name id}, kept s → s.compiled.get? name = some id → good s (.compiled id)
  start : ∀ {s name}, kept s → s.inProgress.get? name = none → s.compiled.get? name = none →
    kept (s.start name)
  stop_error : ∀ {s name s'} (e : TemplateError), kept s → s.inProgress.get? name = none →
    s.compiled.get? name = none → kept s' → passes (s.start name) s' →
      kept (s'.stop name s.library.next (.error e)) ∧
        passes s (s'.stop name s.library.next (.error e))
  stop_ok : ∀ {s name s'} {t : Template}, kept s → s.inProgress.get? name = none →
    s.compiled.get? name = none → kept s' → passes (s.start name) s' →
    (∀ target ∈ t.links.values, good s' target) →
      kept (s'.stop name s.library.next (.ok t)) ∧ passes s (s'.stop name s.library.next (.ok t)) ∧
        good (s'.stop name s.library.next (.ok t)) (.compiled s.library.next)

namespace Course
variable {kept : Shelf → Prop} {passes : Shelf → Shelf → Prop} {good : Shelf → Target → Prop}

structure Ends (kept : Shelf → Prop) (passes : Shelf → Shelf → Prop)
    (good : Shelf → Target → Prop) {α : Type} (targets : α → List Target) (s : Shelf)
    (r : Except TemplateError α × Shelf) : Prop where
  kept : kept r.2
  passes : passes s r.2
  good : ∀ a, r.1 = .ok a → ∀ target ∈ targets a, good r.2 target

variable (c : Course kept passes good)
include c

theorem link (source : String) {ask : String → StateM Shelf (Except TemplateError (Option Target))}
    (hask : ∀ name s, kept s → Ends kept passes good Option.toList s (ask name s))
    (outline : Outline) {s : Shelf} (hs : kept s) (links : Dict Target)
    (hlinks : ∀ target ∈ links.values, good s target) :
    Ends kept passes good (fun t => t.links.values) s (outline.link source ask links s) := by
  induction outline generalizing s links with
  | finished items =>
    refine ⟨hs, c.refl s, ?_⟩
    rintro t ⟨⟩
    exact hlinks
  | failed f => exact ⟨hs, c.refl s, nofun⟩
  | asking name left next ih =>
    have hanswer := hask name s hs
    generalize hr : ask name s = r at hanswer
    obtain ⟨answer, s'⟩ := r
    match answer with
    | .error e =>
      rw [Outline.link_error hr]
      exact ⟨hanswer.kept, hanswer.passes, nofun⟩
    | .ok none =>
      rw [Outline.link_missing hr]
      exact ⟨hanswer.kept, hanswer.passes, nofun⟩
    | .ok (some target) =>
      rw [Outline.link_some hr]
      have htarget : good s' target := hanswer.good _ rfl target (List.mem_singleton_self _)
      have hrest := ih hanswer.kept (links.insert name target) fun other hother => by
        rcases Dict.mem_values_insert hother with rfl | hother
        · exact htarget
        · exact c.mono hanswer.passes (hlinks other hother)
      exact ⟨hrest.kept, c.trans hanswer.passes hrest.passes, hrest.good⟩

theorem resolve (dialect : Dialect) (waiting : Dict String) (name : String) {s : Shelf}
    (hs : kept s) : Ends kept passes good Option.toList s (resolve dialect waiting name s) := by
  induction waiting, name, s using resolve_induction dialect with
  | pending waiting name s id hprogress heq =>
    rw [heq]
    refine ⟨hs, c.refl s, ?_⟩
    rintro _ ⟨⟩ target htarget
    cases List.mem_singleton.1 htarget
    exact c.pending hs hprogress
  | compiled waiting name s id hprogress hcompiled heq =>
    rw [heq]
    refine ⟨hs, c.refl s, ?_⟩
    rintro _ ⟨⟩ target htarget
    cases List.mem_singleton.1 htarget
    exact c.compiled hs hcompiled
  | unknown waiting name s hprogress hcompiled hwaiting heq =>
    rw [heq]
    refine ⟨hs, c.refl s, ?_⟩
    rintro _ ⟨⟩ target htarget
    cases htarget
  | waits waiting name s source outcome s' hprogress hcompiled hwaiting ih hlink heq =>
    rw [heq]
    have hlinked := c.link source (fun other s' hs' => ih other s' hs')
      (Outline.ofSource dialect source) (c.start hs hprogress hcompiled : kept (s.start name)) ⟨[]⟩
      nofun
    rw [hlink] at hlinked
    cases outcome with
    | error e =>
      obtain ⟨hkept, hpasses⟩ := c.stop_error e hs hprogress hcompiled hlinked.kept hlinked.passes
      exact ⟨hkept, hpasses, nofun⟩
    | ok t =>
      obtain ⟨hkept, hpasses, hgood⟩ :=
        c.stop_ok hs hprogress hcompiled hlinked.kept hlinked.passes (hlinked.good t rfl)
      refine ⟨hkept, hpasses, ?_⟩
      rintro _ ⟨⟩ target htarget
      cases List.mem_singleton.1 htarget
      exact hgood

theorem compile (dialect : Dialect) (waiting : Dict String) (source : String) {s : Shelf}
    (hs : kept s) :
    Ends kept passes good (fun t => t.links.values) s (compile dialect waiting source s) :=
  c.link source (fun name _ h => c.resolve dialect waiting name h)
    (Outline.ofSource dialect source) hs ⟨[]⟩ nofun

end Course

namespace Library

def Bounded (l : Library) : Prop := ∀ id t, l.get? id = some t → id < l.next

theorem Bounded.reserve {l : Library} (h : l.Bounded) : l.reserve.Bounded :=
  fun id t ht => Nat.lt_succ_of_lt (h id t ht)

theorem Bounded.put {l : Library} {id : TemplateId} (h : l.Bounded) (hid : id < l.next)
    (t : Template) : (l.put id t).Bounded := by
  intro other u hu
  rw [get?_put] at hu
  split at hu
  · next heq => exact heq ▸ hid
  · exact h other u hu

/-- A library goes on from another: every number that was taken stands for what it stood for. -/
structure Extends (l l' : Library) : Prop where
  next : l.next ≤ l'.next
  get? : ∀ id < l.next, l'.get? id = l.get? id
  bounded : l.Bounded → l'.Bounded

namespace Extends
variable {l l' l'' : Library}

theorem refl (l : Library) : l.Extends l := ⟨Nat.le_refl _, fun _ _ => rfl, id⟩

theorem trans (h : l.Extends l') (h' : l'.Extends l'') : l.Extends l'' :=
  ⟨Nat.le_trans h.next h'.next, fun id hid =>
    (h'.get? id (Nat.lt_of_lt_of_le hid h.next)).trans (h.get? id hid),
    fun hl => h'.bounded (h.bounded hl)⟩

theorem add (l : Library) (t : Template) : l.Extends (l.add t) :=
  ⟨Nat.le_succ _, fun id hid => by rw [get?_add, if_neg (Nat.ne_of_gt hid)],
    fun hl => hl.reserve.put (Nat.lt_succ_self _) t⟩

end Extends
end Library

/-- What compilations leave as it was, successful or not: the templates that were complete, and
which partials are in progress. -/
structure Shelf.Keeps (s s' : Shelf) : Prop where
  next : s.library.next ≤ s'.library.next
  library : ∀ id < s.library.next, (∀ name, s.inProgress.get? name ≠ some id) →
    s'.library.get? id = s.library.get? id
  compiled : ∀ name id, s.compiled.get? name = some id → s'.compiled.get? name = some id
  inProgress : s'.inProgress = s.inProgress
  bounded : s.library.Bounded → s'.library.Bounded

namespace Shelf.Keeps
variable {s s' s'' : Shelf} {name : String}

theorem refl (s : Shelf) : s.Keeps s :=
  ⟨Nat.le_refl _, fun _ _ _ => rfl, fun _ _ h => h, rfl, id⟩

theorem trans (h : s.Keeps s') (h' : s'.Keeps s'') : s.Keeps s'' where
  next := Nat.le_trans h.next h'.next
  library id hid hprogress := by
    rw [h'.library id (Nat.lt_of_lt_of_le hid h.next) (by rwa [h.inProgress])]
    exact h.library id hid hprogress
  compiled name id hid := h'.compiled name id (h.compiled name id hid)
  inProgress := h'.inProgress.trans h.inProgress
  bounded hs := h'.bounded (h.bounded hs)

theorem extends_library (h : s.Keeps s') (hprogress : s.inProgress = ⟨[]⟩) :
    s.library.Extends s'.library :=
  ⟨h.next, fun id hid => h.library id hid (by rw [hprogress]; exact nofun), h.bounded⟩

theorem stop (h : (s.start name).Keeps s') (hprogress : s.inProgress.get? name = none)
    (hcompiled : s.compiled.get? name = none) (outcome : Except TemplateError Template) :
    s.Keeps (s'.stop name s.library.next outcome) := by
  have hlibrary (id : TemplateId) (hid : id < s.library.next)
      (hother : ∀ other, s.inProgress.get? other ≠ some id) :
      s'.library.get? id = s.library.get? id := by
    refine h.library id (Nat.lt_succ_of_lt hid) fun other heq => ?_
    rw [inProgress_start] at heq
    split at heq
    · cases heq
      exact Nat.lt_irrefl _ hid
    · exact hother other heq
  have hrestored : (s'.stop name s.library.next outcome).inProgress = s.inProgress := by
    have herase : (s'.stop name s.library.next outcome).inProgress = s'.inProgress.erase name := by
      cases outcome <;> rfl
    rw [herase, h.inProgress]
    exact Dict.erase_insert hprogress _
  have hnext : s.library.next ≤ s'.library.next := Nat.le_of_succ_le h.next
  cases outcome with
  | error e => exact ⟨hnext, hlibrary, h.compiled, hrestored, fun hs => h.bounded hs.reserve⟩
  | ok t =>
    refine ⟨hnext, fun id hid hother => ?_, fun other id hid => ?_, hrestored,
      fun hs => (h.bounded hs.reserve).put h.next t⟩
    · rw [get?_stop, if_neg (Nat.ne_of_gt hid), hlibrary id hid hother]
    · rw [compiled_stop, if_neg]
      · exact h.compiled other id hid
      · rintro rfl
        cases hcompiled.symm.trans hid

end Shelf.Keeps

theorem keeps_course : Course (fun _ => True) Shelf.Keeps fun _ _ => True where
  refl := .refl
  trans := .trans
  mono _ _ := True.intro
  pending _ _ := True.intro
  compiled _ _ := True.intro
  start _ _ _ := True.intro
  stop_error _ _ hprogress hcompiled _ h := ⟨True.intro, h.stop hprogress hcompiled _⟩
  stop_ok _ hprogress hcompiled _ h _ := ⟨True.intro, h.stop hprogress hcompiled _, True.intro⟩

/-- Whatever happens on the way, the partials in progress are in the end what they were. -/
theorem compile_keeps (dialect : Dialect) (waiting : Dict String) (source : String) (s : Shelf) :
    s.Keeps (compile dialect waiting source s).2 :=
  (keeps_course.compile dialect waiting source True.intro).passes

end Stencil
